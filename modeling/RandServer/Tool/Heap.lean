import RandServer.Lib.BinaryHeap
import RandServer.Lib.CWord
import RandServer.Lib.Machine

/-!
# The heap

`heap.c`, with the largest or the smallest key in front. `heap_pop` removes the key at any
index. It puts the last key in its place and moves it down, but never up, so the order
survives only where the last key also fits below the parent of the index. `HeapRun.Safe`
says when it does. The loops are bounded by a fuel argument, for which the index in
`heap_push` and the size in `heap_pop` suffice.
-/

namespace RandServer

open BinaryHeap

/-- `struct heap`. The cells from `maxSize` on are outside of the array. -/
structure Heap where
  size : Nat
  maxSize : Nat
  nodes : Nat → Int
  gcTick : Nat
  bigHead : Bool

/-- The outcome of `realloc`: null, or an array with arbitrary new cells. -/
abbrev Realloc := Option (Nat → Int)

/-- `heap_init`. -/
def heapInit (bigHead : Bool) : Heap where
  size := 0
  maxSize := 0
  nodes := fun _ => 0
  gcTick := 0
  bigHead := bigHead

/-- Give the array another number of cells. A heap for which that fails is emptied. -/
def Heap.resize (hp : Heap) (newSize : Nat) : Realloc → Heap
  | none => { hp with maxSize := 0, size := 0 }
  | some new =>
      { hp with
        maxSize := newSize
        nodes := fun i => if i < min hp.maxSize newSize then hp.nodes i else new i }

/-- `check_gc`. -/
def checkGc (hp : Heap) (realloc : Realloc) : Heap :=
  if hp.maxSize ≤ u32 (hp.size * 2) then { hp with gcTick := 0 }
  else if 8 ≤ hp.gcTick + 1 then
    { hp.resize (u32 (hp.maxSize + 1) / 2) realloc with gcTick := 0 }
  else { hp with gcTick := hp.gcTick + 1 }

/-- The loop of `heap_push` from an index on. -/
def heapPushLoop (bigHead : Bool) (key : Int) : Nat → (Nat → Int) → Nat → Nat → Int
  | 0, nodes, index => Function.update nodes index key
  | fuel + 1, nodes, index =>
      if 0 < index then
        let parentIndex := (index - 1) / 2
        if bigHead && key ≤ nodes parentIndex || !bigHead && key ≥ nodes parentIndex then
          Function.update nodes index key
        else
          heapPushLoop bigHead key fuel (Function.update nodes index (nodes parentIndex)) parentIndex
      else Function.update nodes index key

def heapPush (hp : Heap) (key : Int) (grow gc : Realloc) : Heap :=
  let newSize := if hp.maxSize < 8 then 8 else u32 (hp.maxSize * 2)
  let room := if hp.maxSize = hp.size then hp.resize newSize grow else hp
  if hp.maxSize = hp.size ∧ grow.isNone then room
  else
    checkGc
      { room with
        nodes := heapPushLoop room.bigHead key room.size room.nodes room.size
        size := u32 (room.size + 1) } gc

/-- The child that `heap_pop` compares the key with, given the first child. -/
def heapPopChild (bigHead : Bool) (size : Nat) (nodes : Nat → Int) (childIndex : Nat) : Nat :=
  if childIndex + 1 ≤ size - 1 ∧
      (bigHead && nodes childIndex < nodes (childIndex + 1) ||
        !bigHead && nodes (childIndex + 1) < nodes childIndex) then childIndex + 1
  else childIndex

/-- The loop of `heap_pop`, which moves the key behind the last cell to where it fits. -/
def heapPopLoop (bigHead : Bool) (key : Int) (size : Nat) : Nat → (Nat → Int) → Nat → Nat → Int
  | 0, nodes, parentIndex => Function.update nodes parentIndex (nodes size)
  | fuel + 1, nodes, parentIndex =>
      if parentIndex < size ∧ u32 (parentIndex * 2 + 1) < size then
        let childIndex := heapPopChild bigHead size nodes (u32 (parentIndex * 2 + 1))
        if bigHead && key < nodes childIndex || !bigHead && nodes childIndex < key then
          heapPopLoop bigHead key size fuel
            (Function.update nodes parentIndex (nodes childIndex)) childIndex
        else Function.update nodes parentIndex (nodes size)
      else Function.update nodes parentIndex (nodes size)

/-- `heap_pop`: the key, or `none` if there is no such index. -/
def heapPop (hp : Heap) (index : Int) (gc : Realloc) : Option (Int × Heap) :=
  if index < 0 ∨ hp.size ≤ index.toNat then none
  else
    let size := hp.size - 1
    let nodes :=
      if index.toNat ≠ size then
        heapPopLoop hp.bigHead (hp.nodes size) size size hp.nodes index.toNat
      else hp.nodes
    some (hp.nodes index.toNat, checkGc { hp with nodes := nodes, size := size } gc)

/-- `heap_get`. -/
def heapGet (hp : Heap) (index : Int) : Option Int :=
  if index < 0 ∨ hp.size ≤ index.toNat then none else some (hp.nodes index.toNat)

/-! ## Order -/

namespace Heap

/-- A key `a` may stand above a key `b`. -/
def above (bigHead : Bool) (a b : Int) : Prop := if bigHead then b ≤ a else a ≤ b

instance (bigHead : Bool) (a b : Int) : Decidable (above bigHead a b) := by
  unfold above
  infer_instance

instance (bigHead : Bool) : IsPreorder Int (above bigHead) where
  refl a := by cases bigHead <;> exact Int.le_refl a
  trans a b c hab hbc := by
    cases bigHead with
    | false => exact Int.le_trans hab hbc
    | true => exact Int.le_trans hbc hab

instance (bigHead : Bool) : Std.Total (above bigHead) where
  total a b := by
    cases bigHead with
    | false => exact Int.le_total a b
    | true => exact Int.le_total b a

theorem push_stops_iff {bigHead : Bool} {key parent : Int} :
    (bigHead && key ≤ parent || !bigHead && key ≥ parent) = true ↔ above bigHead parent key := by
  cases bigHead <;> simp [above]

theorem pop_moves_iff {bigHead : Bool} {key child : Int} :
    (bigHead && key < child || !bigHead && child < key) = true ↔ ¬ above bigHead key child := by
  cases bigHead <;> simp [above]

end Heap

open Heap

section Loops

variable {bigHead : Bool} {key : Int} {nodes : Nat → Int} {n index size parentIndex fuel : Nat}

theorem heapPushLoop_succ : heapPushLoop bigHead key (fuel + 1) nodes index =
    if 0 < index ∧ ¬ above bigHead (nodes (parent index)) key then
      heapPushLoop bigHead key fuel
        (Function.update nodes index (nodes (parent index))) (parent index)
    else Function.update nodes index key := by
  rw [heapPushLoop]
  by_cases hpos : 0 < index
  · rw [if_pos hpos]
    simp only [push_stops_iff, hpos, true_and, ite_not]
    rfl
  · rw [if_neg hpos, if_neg (fun h => hpos h.1)]

/-- `heap_push` moves the hole up to where the key fits. -/
theorem heapPushLoop_spec (h : RiseReady (above bigHead) nodes n index key) (hindex : index < n)
    (hfuel : index ≤ fuel) :
    Ordered (above bigHead) (heapPushLoop bigHead key fuel nodes index) n ∧
      (contents (heapPushLoop bigHead key fuel nodes index) n).Perm
        (contents (Function.update nodes index key) n) := by
  induction fuel generalizing nodes index with
  | zero => exact ⟨h.fill (fun hpos => by omega) h.below, List.Perm.refl _⟩
  | succ fuel ih =>
      rw [heapPushLoop_succ]
      split
      · rename_i hmove
        obtain ⟨hpos, hnot⟩ := hmove
        have hup := parent_lt hpos
        have hlt := Nat.lt_trans hup hindex
        obtain ⟨hord, hperm⟩ := ih (h.move hpos hindex hnot) hlt (by omega)
        exact ⟨hord, hperm.trans (contents_move nodes key hindex hlt)⟩
      · rename_i hstop
        refine ⟨h.fill (fun hpos => ?_) h.below, List.Perm.refl _⟩
        by_contra hnot
        exact hstop ⟨hpos, hnot⟩

/-- No other child belongs above the one that is chosen. -/
theorem heapPopChild_spec (hleft : 2 * parentIndex + 1 < size) {child : Nat}
    (hchild : heapPopChild bigHead size nodes (2 * parentIndex + 1) = child) :
    child < size ∧ 0 < child ∧ parent child = parentIndex ∧
      ∀ c, 0 < c → c < size → parent c = parentIndex → above bigHead (nodes child) (nodes c) := by
  have hrefl : ∀ k, above bigHead (nodes k) (nodes k) := fun k => refl_of (above bigHead) _
  unfold heapPopChild at hchild
  split at hchild
  · rename_i hright
    subst hchild
    have hnot := pop_moves_iff.mp hright.2
    refine ⟨by omega, by omega, by unfold parent; omega, fun c hpos hc hparent => ?_⟩
    obtain rfl | rfl := (parent_eq_iff hpos).mp hparent
    · exact (total_of (above bigHead) _ _).resolve_left hnot
    · exact hrefl _
  · rename_i hright
    subst hchild
    refine ⟨hleft, by omega, by unfold parent; omega, fun c hpos hc hparent => ?_⟩
    obtain rfl | rfl := (parent_eq_iff hpos).mp hparent
    · exact hrefl _
    · by_contra hnot
      exact hright ⟨by omega, pop_moves_iff.mpr hnot⟩

theorem heapPopLoop_succ (hsize : size ≤ 2 ^ 31) (hparent : parentIndex < size) :
    heapPopLoop bigHead key size (fuel + 1) nodes parentIndex =
      if 2 * parentIndex + 1 < size ∧
          ¬ above bigHead key (nodes (heapPopChild bigHead size nodes (2 * parentIndex + 1))) then
        heapPopLoop bigHead key size fuel
          (Function.update nodes parentIndex
            (nodes (heapPopChild bigHead size nodes (2 * parentIndex + 1))))
          (heapPopChild bigHead size nodes (2 * parentIndex + 1))
      else Function.update nodes parentIndex (nodes size) := by
  have hchild : u32 (parentIndex * 2 + 1) = 2 * parentIndex + 1 := by
    rw [Nat.mul_comm]
    exact u32_of_lt (by omega)
  rw [heapPopLoop, hchild]
  by_cases hleft : 2 * parentIndex + 1 < size
  · rw [if_pos ⟨hparent, hleft⟩]
    simp only [pop_moves_iff, hleft, true_and]
  · rw [if_neg (fun h => hleft h.2), if_neg (fun h => hleft h.1)]

/-- `heap_pop` moves the hole down to where the key fits. -/
theorem heapPopLoop_spec (hsize : size ≤ 2 ^ 31) (hparent : parentIndex < size)
    (h : SinkReady (above bigHead) nodes size parentIndex key) (hkey : nodes size = key)
    (hfuel : size ≤ parentIndex + fuel) :
    Ordered (above bigHead) (heapPopLoop bigHead key size fuel nodes parentIndex) size ∧
      (contents (heapPopLoop bigHead key size fuel nodes parentIndex) size).Perm
        (contents (Function.update nodes parentIndex key) size) := by
  induction fuel generalizing nodes parentIndex with
  | zero => omega
  | succ fuel ih =>
      rw [heapPopLoop_succ hsize hparent]
      generalize hchild : heapPopChild bigHead size nodes (2 * parentIndex + 1) = child
      split
      · rename_i hmove
        obtain ⟨hlt, hpos, hup, hfirst⟩ := heapPopChild_spec hmove.1 hchild
        have hdown : parentIndex < child := hup ▸ parent_lt hpos
        obtain ⟨hord, hperm⟩ := ih hlt (h.move hlt hup hpos hfirst hmove.2)
          ((Function.update_of_ne (Nat.ne_of_gt hparent) _ _).trans hkey) (by omega)
        exact ⟨hord, hperm.trans (contents_move nodes key hparent hlt)⟩
      · rename_i hstop
        rw [hkey]
        refine ⟨h.fill h.above fun c hpos hc hc' => ?_, List.Perm.refl _⟩
        have hleft : 2 * parentIndex + 1 < size := by
          obtain rfl | rfl := (parent_eq_iff hpos).mp hc' <;> omega
        obtain ⟨-, -, -, hfirst⟩ := heapPopChild_spec hleft hchild
        by_contra hnot
        exact hstop ⟨hleft, fun habove => hnot (trans_of (above bigHead) habove (hfirst c hpos hc hc'))⟩

/-- A key that fits above the children stays where it has been put. -/
theorem heapPopLoop_stay (hsize : size ≤ 2 ^ 31) (hparent : parentIndex < size)
    (hstay : ∀ c, 0 < c → c < size → parent c = parentIndex → above bigHead key (nodes c)) :
    heapPopLoop bigHead key size fuel nodes parentIndex =
      Function.update nodes parentIndex (nodes size) := by
  cases fuel with
  | zero => rfl
  | succ fuel =>
      rw [heapPopLoop_succ hsize hparent, if_neg]
      rintro ⟨hleft, hnot⟩
      obtain ⟨hlt, hpos, hup, -⟩ := heapPopChild_spec hleft rfl
      exact hnot (hstay _ hpos hlt hup)

end Loops

/-! ## Runs -/

namespace Heap

/-- The keys of the heap stand above their children. -/
def Ordered (hp : Heap) : Prop :=
  ∀ i c, c < hp.size → c = 2 * i + 1 ∨ c = 2 * i + 2 →
    above hp.bigHead (hp.nodes i) (hp.nodes c)

theorem ordered_iff {hp : Heap} :
    hp.Ordered ↔ BinaryHeap.Ordered (above hp.bigHead) hp.nodes hp.size := by
  constructor
  · intro h c hpos hc
    exact h (parent c) c hc ((parent_eq_iff hpos).mp rfl)
  · intro h i c hc hchild
    have hpos : 0 < c := by omega
    have hstep := h c hpos hc
    rwa [(parent_eq_iff hpos).mpr hchild] at hstep

/-- The array has room, and nothing overflows in `check_gc`. -/
structure Inv (hp : Heap) : Prop where
  size_le : hp.size ≤ hp.maxSize
  maxSize_lt : hp.maxSize + 1 < 2 ^ 32
  size_lt : hp.size ≤ 2 ^ 31
  tick : hp.size < 2 ^ 31 → hp.maxSize ≤ hp.size * 2 → hp.gcTick = 0
  tick_full : hp.size = 2 ^ 31 → hp.gcTick ≤ 1

theorem Inv.init (bigHead : Bool) : Inv (heapInit bigHead) :=
  ⟨Nat.le_refl 0, (show 0 + 1 < 2 ^ 32 by decide), Nat.zero_le _, fun _ _ => rfl,
    fun _ => Nat.zero_le 1⟩

/-- The heaps agree on their keys. -/
structure Same (hp hp' : Heap) : Prop where
  size : hp'.size = hp.size
  nodes : ∀ i < hp.size, hp'.nodes i = hp.nodes i
  bigHead : hp'.bigHead = hp.bigHead

theorem Same.ordered_iff {hp hp' : Heap} (h : Same hp hp') : hp'.Ordered ↔ hp.Ordered := by
  rw [Heap.ordered_iff, Heap.ordered_iff, h.size, h.bigHead]
  exact ⟨fun hord => hord.congr fun i hi => (h.nodes i hi).symm, fun hord => hord.congr h.nodes⟩

/-- With enough room `check_gc` keeps the keys. -/
theorem checkGc_spec (hp : Heap) (gc : Nat → Int) (hle : hp.size ≤ hp.maxSize)
    (hmax : hp.maxSize + 1 < 2 ^ 32) (hsize : hp.size ≤ 2 ^ 31)
    (htick : hp.size = 2 ^ 31 → hp.gcTick = 0) :
    Inv (checkGc hp (some gc)) ∧ Same hp (checkGc hp (some gc)) := by
  have hfull : hp.size < 2 ^ 31 → u32 (hp.size * 2) = hp.size * 2 := fun h => u32_of_lt (by omega)
  unfold checkGc
  split_ifs with hkeep hshrink
  · have hlt : hp.size < 2 ^ 31 := by
      by_contra hge
      have hsize' : hp.size = 2 ^ 31 := by omega
      rw [hsize'] at hkeep hle
      exact absurd (hle.trans hkeep) (by decide)
    exact ⟨⟨hle, hmax, hsize, fun _ _ => rfl, fun _ => Nat.zero_le _⟩, rfl, fun _ _ => rfl, rfl⟩
  · have hlt : hp.size < 2 ^ 31 := by
      by_contra hge
      have := htick (by omega)
      omega
    rw [hfull hlt] at hkeep
    have hnew : u32 (hp.maxSize + 1) = hp.maxSize + 1 := u32_of_lt hmax
    simp only [Heap.resize, hnew]
    refine ⟨⟨?_, ?_, hsize, fun _ _ => rfl, fun _ => Nat.zero_le _⟩, rfl, fun i hi => if_pos ?_, rfl⟩
    · show hp.size ≤ (hp.maxSize + 1) / 2
      omega
    · show (hp.maxSize + 1) / 2 + 1 < 2 ^ 32
      omega
    · omega
  · refine ⟨⟨hle, hmax, hsize, fun hlt hle' => ?_, fun heq => ?_⟩, rfl, fun _ _ => rfl, rfl⟩
    · rw [hfull hlt] at hkeep
      exact absurd hle' hkeep
    · have := htick heq
      show hp.gcTick + 1 ≤ 1
      omega

end Heap

/-- A heap and the keys that are stored in it. -/
structure HeapRun where
  heap : Heap
  keys : List Int

namespace HeapRun

/-- A call with the contents of new cells where `realloc` is called. -/
inductive Action
  | push (key : Int) (grow gc : Nat → Int)
  | pop (index : Int) (gc : Nat → Int)

def step (s : HeapRun) : Action → Option HeapRun
  | .push key grow gc =>
      some { heap := heapPush s.heap key (some grow) (some gc), keys := key :: s.keys }
  | .pop index gc => (heapPop s.heap index (some gc)).map fun res =>
      { heap := res.2, keys := s.keys.erase res.1 }

/-- A push finds fewer than `2 ^ 31` keys, and a pop removes the first or the last key, or
the last key may stand below the parent of the index. -/
def Safe (s : HeapRun) : Action → Prop
  | .push _ _ _ => s.heap.size < 2 ^ 31
  | .pop index _ => index = 0 ∨ index + 1 = s.heap.size ∨
      above s.heap.bigHead (s.heap.nodes (parent index.toNat)) (s.heap.nodes (s.heap.size - 1))

instance (s : HeapRun) : (i : Action) → Decidable (s.Safe i)
  | .push _ _ _ => inferInstanceAs (Decidable (s.heap.size < 2 ^ 31))
  | .pop index _ => inferInstanceAs (Decidable (index = 0 ∨ index + 1 = s.heap.size ∨
      above s.heap.bigHead (s.heap.nodes (parent index.toNat)) (s.heap.nodes (s.heap.size - 1))))

/-- The keys are in order, and the first one is the largest or the smallest. -/
structure Exact (s : HeapRun) : Prop where
  ordered : s.heap.Ordered
  stored : (contents s.heap.nodes s.heap.size).Perm s.keys
  head : ∀ key, heapGet s.heap 0 = some key →
    key ∈ s.keys ∧ ∀ k ∈ s.keys, if s.heap.bigHead then k ≤ key else key ≤ k
  empty : heapGet s.heap 0 = none ↔ s.keys = []

end HeapRun

/-- Calls of `heap_push` and `heap_pop` whose `realloc` succeeds. -/
def heapRun : Machine HeapRun HeapRun.Action where
  Init s := ∃ bigHead, s = { heap := heapInit bigHead, keys := [] }
  step := HeapRun.step

namespace Heap

variable {hp : Heap}

/-- What `heap_push` does to a heap with room for the key. -/
theorem push_spec (room : Heap) (hle : room.size < room.maxSize) (hmax : room.maxSize + 1 < 2 ^ 32)
    (hsize : room.size < 2 ^ 31) (htick : room.size + 1 = 2 ^ 31 → room.gcTick = 0)
    (hord : room.Ordered) (key : Int) (gc : Nat → Int) {hp' : Heap}
    (hpush : checkGc
      { room with
        nodes := heapPushLoop room.bigHead key room.size room.nodes room.size
        size := u32 (room.size + 1) } (some gc) = hp') :
    hp'.Inv ∧ hp'.Ordered ∧ hp'.size = room.size + 1 ∧
      (contents hp'.nodes hp'.size).Perm (key :: contents room.nodes room.size) := by
  have hnext : u32 (room.size + 1) = room.size + 1 := u32_of_lt (by omega)
  obtain ⟨hloop, hperm⟩ := heapPushLoop_spec ((ordered_iff.mp hord).rise key)
    (Nat.lt_succ_self room.size) (Nat.le_refl _)
  rw [hnext] at hpush
  obtain ⟨hinv, hsame⟩ := checkGc_spec { room with
    nodes := heapPushLoop room.bigHead key room.size room.nodes room.size
    size := room.size + 1 } gc hle hmax hsize htick
  rw [hpush] at hinv hsame
  refine ⟨hinv, hsame.ordered_iff.mpr (ordered_iff.mpr hloop), hsame.size, ?_⟩
  rw [hsame.size, contents_congr hsame.nodes]
  rw [contents_push] at hperm
  exact hperm.trans (List.perm_append_singleton _ _)

theorem heapPush_spec (h : hp.Inv) (hord : hp.Ordered) (hsize : hp.size < 2 ^ 31) (key : Int)
    (grow gc : Nat → Int) :
    (heapPush hp key (some grow) (some gc)).Inv ∧
      (heapPush hp key (some grow) (some gc)).Ordered ∧
      (contents (heapPush hp key (some grow) (some gc)).nodes
        (heapPush hp key (some grow) (some gc)).size).Perm
        (key :: contents hp.nodes hp.size) := by
  have hmax := h.maxSize_lt
  have hle := h.size_le
  unfold heapPush
  simp only [Option.isNone_some, Bool.false_eq_true, and_false, if_false]
  by_cases hfull : hp.maxSize = hp.size
  · have htick := h.tick hsize (by omega)
    have hdouble : u32 (hp.maxSize * 2) = hp.maxSize * 2 := u32_of_lt (by omega)
    simp only [if_pos hfull, hdouble, Heap.resize]
    generalize hnew : (if hp.maxSize < 8 then 8 else hp.maxSize * 2) = newSize
    have hroom : hp.size < newSize ∧ newSize + 1 < 2 ^ 32 := by
      rw [← hnew]
      split <;> omega
    have hsame : ∀ i < hp.size, (if i < min hp.maxSize newSize then hp.nodes i else grow i) =
        hp.nodes i := fun i hi => if_pos (by omega)
    have hroom' : Same hp { hp with
        maxSize := newSize
        nodes := fun i => if i < min hp.maxSize newSize then hp.nodes i else grow i } :=
      ⟨rfl, hsame, rfl⟩
    obtain ⟨hinv, hord', -, hperm⟩ := push_spec { hp with
      maxSize := newSize
      nodes := fun i => if i < min hp.maxSize newSize then hp.nodes i else grow i }
      hroom.1 hroom.2 hsize (fun _ => htick) (hroom'.ordered_iff.mpr hord) key gc rfl
    rw [contents_congr hsame] at hperm
    exact ⟨hinv, hord', hperm⟩
  · simp only [if_neg hfull]
    obtain ⟨hinv, hord', -, hperm⟩ := push_spec hp (show hp.size < hp.maxSize by omega) hmax hsize
      (fun htop => h.tick hsize (by omega)) hord key gc rfl
    exact ⟨hinv, hord', hperm⟩

/-- The heap after `heap_pop` has taken a key out, before `check_gc`. -/
theorem heapPop_eq {index : Nat} (hindex : index < hp.size) (gc : Nat → Int) :
    heapPop hp index (some gc) = some (hp.nodes index, checkGc
      { hp with
        nodes := if index ≠ hp.size - 1 then
          heapPopLoop hp.bigHead (hp.nodes (hp.size - 1)) (hp.size - 1) (hp.size - 1) hp.nodes index
        else hp.nodes
        size := hp.size - 1 } (some gc)) := by
  unfold heapPop
  rw [if_neg (by omega)]
  rfl

/-- What the loop of `heap_pop` leaves is in order if and only if the last key may stand below
the parent of the index. -/
theorem heapPopLoop_ordered {n index : Nat} {bigHead : Bool} {nodes : Nat → Int} (hn : n ≤ 2 ^ 31)
    (hindex : index < n) (hord : BinaryHeap.Ordered (above bigHead) nodes n) :
    (BinaryHeap.Ordered (above bigHead) (heapPopLoop bigHead (nodes n) n n nodes index) n ↔
      (0 < index → above bigHead (nodes (parent index)) (nodes n))) ∧
      (contents (heapPopLoop bigHead (nodes n) n n nodes index) n).Perm
        (contents (Function.update nodes index (nodes n)) n) := by
  have haround := hord.around hindex
  by_cases hfit : 0 < index → above bigHead (nodes (parent index)) (nodes n)
  · obtain ⟨hloop, hperm⟩ := heapPopLoop_spec hn hindex ⟨haround, hfit⟩ rfl
      (Nat.le_add_left n index)
    exact ⟨⟨fun _ => hfit, fun _ => hloop⟩, hperm⟩
  · obtain ⟨hpos, hnot⟩ := Classical.not_imp.mp hfit
    have hover : above bigHead (nodes n) (nodes (parent index)) :=
      (total_of (above bigHead) _ _).resolve_left hnot
    have hstay := @heapPopLoop_stay bigHead (nodes n) nodes n index n hn hindex fun c hc hlt hparent =>
      trans_of (above bigHead) hover (haround.across c hc hlt hparent hpos)
    rw [hstay]
    refine ⟨⟨fun hloop => absurd ?_ hnot, fun h => absurd h hfit⟩, List.Perm.refl _⟩
    have hstep := hloop index hpos hindex
    rwa [Function.update_self, Function.update_of_ne (Nat.ne_of_lt (parent_lt hpos))] at hstep

theorem heapPop_spec (h : hp.Inv) (hord : hp.Ordered) {index : Nat} (hindex : index < hp.size)
    (gc : Nat → Int) : ∃ hp', heapPop hp index (some gc) = some (hp.nodes index, hp') ∧ hp'.Inv ∧
      (hp'.Ordered ↔ index = 0 ∨ index + 1 = hp.size ∨
        above hp.bigHead (hp.nodes (parent index)) (hp.nodes (hp.size - 1))) ∧
      (hp.nodes index :: contents hp'.nodes hp'.size).Perm (contents hp.nodes hp.size) := by
  obtain ⟨n, hn⟩ : ∃ n, hp.size = n + 1 := ⟨hp.size - 1, by omega⟩
  have hsize := h.size_lt
  have hmax := h.maxSize_lt
  have hle := h.size_le
  rw [ordered_iff, hn] at hord
  rw [hn] at hindex
  rw [heapPop_eq (by omega), hn, Nat.add_sub_cancel]
  generalize hnodes : (if index ≠ n then
    heapPopLoop hp.bigHead (hp.nodes n) n n hp.nodes index else hp.nodes) = nodes
  obtain ⟨hinv, hsame⟩ := checkGc_spec { hp with nodes := nodes, size := n } gc
    (show n ≤ hp.maxSize by omega) hmax (show n ≤ 2 ^ 31 by omega)
    (fun htop => by have htop : n = 2 ^ 31 := htop; omega)
  refine ⟨_, rfl, hinv, ?_, ?_⟩
  · rw [hsame.ordered_iff, ordered_iff]
    show BinaryHeap.Ordered (above hp.bigHead) nodes n ↔ _
    rw [← hnodes]
    by_cases hlast : index = n
    · rw [if_neg (not_not_intro hlast)]
      exact ⟨fun _ => .inr (.inl (by omega)), fun _ => hord.mono (Nat.le_succ n)⟩
    · rw [if_pos hlast, (heapPopLoop_ordered (by omega) (by omega) (hord.mono (Nat.le_succ n))).1]
      constructor
      · intro hfit
        cases Nat.eq_zero_or_pos index with
        | inl hzero => exact .inl hzero
        | inr hpos => exact .inr (.inr (hfit hpos))
      · rintro (hzero | hlast' | hfit) hpos
        · omega
        · omega
        · exact hfit
  · rw [hsame.size, contents_congr hsame.nodes]
    show (hp.nodes index :: contents nodes n).Perm _
    rw [contents_succ, ← hnodes]
    refine List.Perm.trans ?_ (List.perm_append_singleton _ _).symm
    by_cases hlast : index = n
    · rw [if_neg (not_not_intro hlast), hlast]
    · rw [if_pos hlast]
      have hlt : index < n := by omega
      have hloop := (heapPopLoop_ordered (by omega) hlt (hord.mono (Nat.le_succ n))).2
      exact (hloop.cons _).trans (contents_update hp.nodes (hp.nodes n) (by omega))

theorem heapPop_index {index : Int} {gc : Realloc} {res : Int × Heap}
    (h : heapPop hp index gc = some res) : ∃ i : Nat, index = i ∧ i < hp.size := by
  unfold heapPop at h
  split at h
  · cases h
  · exact ⟨index.toNat, by omega, by omega⟩

end Heap

namespace HeapRun

theorem safe_pop_iff {s : HeapRun} {i : Nat} {gc : Nat → Int} :
    s.Safe (.pop i gc) ↔ i = 0 ∨ i + 1 = s.heap.size ∨
      above s.heap.bigHead (s.heap.nodes (parent i)) (s.heap.nodes (s.heap.size - 1)) := by
  simp only [Safe, Int.toNat_natCast]
  refine or_congr ?_ (or_congr ?_ Iff.rfl) <;> omega

/-- The heap is in order and holds the keys. -/
structure Inv (s : HeapRun) : Prop where
  heap : s.heap.Inv
  ordered : s.heap.Ordered
  stored : (contents s.heap.nodes s.heap.size).Perm s.keys

theorem Inv.step {s t : HeapRun} {i : Action} (h : s.Inv) (hok : s.Safe i)
    (ht : heapRun.step s i = some t) : t.Inv := by
  cases i with
  | push key grow gc =>
      cases ht
      obtain ⟨hheap, hord, hperm⟩ := heapPush_spec h.heap h.ordered hok key grow gc
      exact ⟨hheap, hord, hperm.trans (h.stored.cons key)⟩
  | pop index gc =>
      obtain ⟨res, hpop, rfl⟩ := Option.map_eq_some_iff.mp ht
      obtain ⟨i, rfl, hi⟩ := heapPop_index hpop
      obtain ⟨hp', hpop', hheap, hord, hperm⟩ := heapPop_spec h.heap h.ordered hi gc
      rw [hpop] at hpop'
      cases hpop'
      refine ⟨hheap, hord.mpr (safe_pop_iff.mp hok), ?_⟩
      have hstored := (hperm.trans h.stored).erase (s.heap.nodes i)
      rwa [List.erase_cons_head] at hstored

theorem Inv.exact {s : HeapRun} (h : s.Inv) : s.Exact := by
  refine ⟨h.ordered, h.stored, fun key hkey => ?_, ?_⟩
  · unfold heapGet at hkey
    split at hkey
    · cases hkey
    · rename_i hsize
      obtain rfl := Option.some.inj hkey
      constructor
      · refine h.stored.subset (List.mem_map_of_mem (List.mem_range.mpr ?_))
        exact Nat.lt_of_not_le fun hle => hsize (.inr hle)
      · intro k hk
        obtain ⟨i, hi, rfl⟩ := List.mem_map.mp (h.stored.symm.subset hk)
        exact (Heap.ordered_iff.mp h.ordered).root (List.mem_range.mp hi)
  · have hlen := h.stored.length_eq
    rw [contents, List.length_map, List.length_range] at hlen
    rw [← List.length_eq_zero_iff, ← hlen]
    unfold heapGet
    split
    · exact ⟨fun _ => by omega, fun _ => rfl⟩
    · refine ⟨fun hnone => ?_, fun hzero => by omega⟩
      cases hnone

theorem Inv.of_run {s : HeapRun} (h : heapRun.ReachableVia Safe s) : s.Inv := by
  refine h.invariant ?_ fun _ _ _ hs hok ht => hs.step hok ht
  rintro s ⟨bigHead, rfl⟩
  exact ⟨.init bigHead, nofun, List.Perm.refl _⟩

end HeapRun

/-- In every run whose pops put the last key where it may stand, the keys are in order and the
first one is the extreme one, and a further pop keeps the order if and only if it does so. -/
theorem heapRun_exact {s : HeapRun} (h : heapRun.ReachableVia HeapRun.Safe s) :
    s.Exact ∧ ∀ index gc t, heapRun.step s (.pop index gc) = some t →
      (t.heap.Ordered ↔ s.Safe (.pop index gc)) := by
  have hinv := HeapRun.Inv.of_run h
  refine ⟨hinv.exact, fun index gc t ht => ?_⟩
  obtain ⟨res, hpop, rfl⟩ := Option.map_eq_some_iff.mp ht
  obtain ⟨i, rfl, hi⟩ := heapPop_index hpop
  obtain ⟨hp', hpop', -, hord, -⟩ := heapPop_spec hinv.heap hinv.ordered hi gc
  rw [hpop] at hpop'
  cases hpop'
  exact hord.trans HeapRun.safe_pop_iff.symm

/-- Pushes of seven keys in the order of the array. -/
def heapPushes : List HeapRun.Action :=
  [1, 10, 2, 11, 12, 3, 4].map (.push · (fun _ => 0) (fun _ => 0))

/-- The first key of seven is removed. -/
theorem heapRun_exact_first : ∃ s, heapRun.runVia HeapRun.Safe
      { heap := heapInit false, keys := [] } (heapPushes ++ [.pop 0 (fun _ => 0)]) = some s ∧
    heapGet s.heap 0 = some 2 ∧ s.Exact := by
  have hany : (heapRun.runVia HeapRun.Safe { heap := heapInit false, keys := [] }
      (heapPushes ++ [.pop 0 (fun _ => 0)])).any (fun s => heapGet s.heap 0 = some 2) = true := by
    decide +kernel
  obtain ⟨s, hrun, hhead⟩ := (Option.any_eq_true _ _).mp hany
  exact ⟨s, hrun, of_decide_eq_true hhead, (heapRun_exact (.runVia (.init ⟨false, rfl⟩) hrun)).1⟩

/-- The key at index 3 is removed. The last key, 4, takes its place below the key 10. -/
theorem heapRun_misplaces : ¬ ∀ s, heapRun.Reachable s → s.Exact := by
  intro h
  have hany : (heapRun.run { heap := heapInit false, keys := [] }
      (heapPushes ++ [.pop 3 (fun _ => 0)])).any (fun s => s.heap.bigHead = false ∧
        3 < s.heap.size ∧ s.heap.nodes 1 = 10 ∧ s.heap.nodes 3 = 4) = true := by
    decide +kernel
  obtain ⟨s, hrun, hs⟩ := (Option.any_eq_true _ _).mp hany
  obtain ⟨hsmall, hsize, hparent, hchild⟩ := of_decide_eq_true hs
  have hord := (h s (.run (.init ⟨false, rfl⟩) hrun)).ordered 1 3 hsize (.inl rfl)
  rw [hsmall, hparent, hchild] at hord
  exact absurd hord (by decide)

end RandServer
