import Mathlib.Logic.Function.Basic
import Mathlib.Tactic.SplitIfs
import RandServer.Lib.CWord
import RandServer.Lib.FreeList

/-!
# The id allocator

`ffid.c`. The cell `id % max_size` of the array `ts` holds either the live id of its slot
or the link of the free list. Ids inside are one less than the ids outside, for which zero
means failure. `Ffid.Rep ff n free` says that `free` is the list of free ids of an
allocator of `n` slots, and `Ffid.Live` which ids are live.
-/

namespace RandServer

open FreeList

/-- `struct ffid`. -/
structure Ffid where
  ts : Nat → Nat
  maxLimit : Nat
  first : Nat
  endSlot : Nat
  curSize : Nat
  maxSize : Nat
  isLoop : Bool

def ffidCreate (maxSize : Nat) (isLoop : Bool) : Ffid where
  ts := fun i => if i < u16 (maxSize + (2 ^ 16 - 1)) then i + 1 else 2 ^ 32 - 1
  maxLimit := 2 ^ 32 - 1
  first := 0
  endSlot := u16 (maxSize + (2 ^ 16 - 1))
  curSize := 0
  maxSize := maxSize
  isLoop := isLoop

/-- `ffid_new_id`: the id and the index of its slot. -/
def ffidNewId (ff : Ffid) : Nat × Nat × Ffid :=
  if ff.maxLimit ≤ ff.first then (0, 0, ff)
  else
    let idIndex := u16 (ff.first % ff.maxSize)
    (u32 (ff.first + 1), idIndex,
      { ff with
        first := ff.ts idIndex
        ts := Function.update ff.ts idIndex ff.first
        curSize := u16 (ff.curSize + 1) })

/-- `ffid_size`. -/
def ffidSize (ff : Ffid) : Nat := ff.curSize

def ffidHasId (ff : Ffid) (id : Nat) : Bool :=
  if id = 0 then false else ff.ts (u16 ((id - 1) % ff.maxSize)) = id - 1

def ffidDelId (ff : Ffid) (id : Nat) : Ffid :=
  if id = 0 then ff
  else
    let id := id - 1
    let idIndex := u16 (id % ff.maxSize)
    let last := ff.maxLimit ≤ id ∨ sub32 ff.maxLimit id ≤ ff.maxSize
    if last ∧ ff.isLoop = false then
      { ff with ts := Function.update ff.ts idIndex ff.maxLimit }
    else
      let nextId := if last then idIndex else u32 (id + ff.maxSize)
      let ff :=
        if ff.maxLimit ≤ ff.first then { ff with first := nextId }
        else { ff with ts := Function.update ff.ts ff.endSlot nextId }
      { ff with
        endSlot := idIndex
        ts := Function.update ff.ts idIndex ff.maxLimit
        curSize := u16 (ff.curSize + (2 ^ 16 - 1)) }

/-- `ffid_index`. The id zero wraps around. -/
def ffidIndex (ff : Ffid) (id : Nat) : Nat := u16 (sub32 id 1 % ff.maxSize)

/-- `ffid_id`: the live id of a slot, or zero. The end mark wraps around to zero. -/
def ffidId (ff : Ffid) (index : Nat) : Nat :=
  if ff.maxSize ≤ index then 0
  else if ff.ts index % ff.maxSize ≠ index then 0
  else u32 (ff.ts index + 1)

@[simp] theorem ffidNewId_maxSize (ff : Ffid) : (ffidNewId ff).2.2.maxSize = ff.maxSize := by
  unfold ffidNewId
  split <;> rfl

@[simp] theorem ffidNewId_maxLimit (ff : Ffid) : (ffidNewId ff).2.2.maxLimit = ff.maxLimit := by
  unfold ffidNewId
  split <;> rfl

@[simp] theorem ffidNewId_isLoop (ff : Ffid) : (ffidNewId ff).2.2.isLoop = ff.isLoop := by
  unfold ffidNewId
  split <;> rfl

@[simp] theorem ffidDelId_isLoop (ff : Ffid) (id : Nat) :
    (ffidDelId ff id).isLoop = ff.isLoop := by
  simp only [ffidDelId]
  split_ifs <;> rfl

@[simp] theorem ffidDelId_maxSize (ff : Ffid) (id : Nat) :
    (ffidDelId ff id).maxSize = ff.maxSize := by
  simp only [ffidDelId]
  split_ifs <;> rfl

@[simp] theorem ffidDelId_maxLimit (ff : Ffid) (id : Nat) :
    (ffidDelId ff id).maxLimit = ff.maxLimit := by
  simp only [ffidDelId]
  split_ifs <;> rfl

theorem ffidIndex_congr {ff ff' : Ffid} (h : ff'.maxSize = ff.maxSize) (id : Nat) :
    ffidIndex ff' id = ffidIndex ff id := by
  rw [ffidIndex, ffidIndex, h]

/-- A new id belongs to the slot that is reported with it. -/
theorem ffidIndex_newId {ff : Ffid} (h : ff.maxLimit = 2 ^ 32 - 1) (hid : (ffidNewId ff).1 ≠ 0) :
    ffidIndex ff (ffidNewId ff).1 = (ffidNewId ff).2.1 := by
  unfold ffidNewId at hid ⊢
  split_ifs at hid ⊢ with hempty
  · exact absurd rfl hid
  · rw [h] at hempty
    simp only [ffidIndex, u32_of_lt (show ff.first + 1 < 2 ^ 32 by omega)]
    rw [sub32_of_le (by omega) (by omega), Nat.add_sub_cancel]

namespace Ffid

/-- `id` has been handed out and not been given back. -/
def Live (ff : Ffid) (id : Nat) : Prop := ffidHasId ff id = true

instance (ff : Ffid) (id : Nat) : Decidable (ff.Live id) :=
  inferInstanceAs (Decidable (ffidHasId ff id = true))

/-- The allocator of `n` slots with the free ids `free`, less one. The slots in `retired`
get no further ids. -/
structure Slots (n : Nat) (ff : Ffid) (free retired : List Nat) : Prop where
  n_pos : 0 < n
  n_lt : n < 2 ^ 16
  maxSize : ff.maxSize = n
  maxLimit : ff.maxLimit = 2 ^ 32 - 1
  threaded : Threaded ff.ts (· % n) (2 ^ 32 - 1) ff.first free
  nodup : (free.map (· % n)).Nodup
  free_lt : ∀ x ∈ free, x < 2 ^ 32 - 1
  end_eq : ∀ x ∈ free.getLast?, ff.endSlot = x % n
  dead : ∀ i ∈ retired, i < n ∧ i ∉ free.map (· % n) ∧ ff.ts i = 2 ^ 32 - 1
  live : ∀ i < n, i ∉ free.map (· % n) → i ∉ retired → ff.ts i < 2 ^ 32 - 1 ∧ ff.ts i % n = i

theorem create_threaded {n : Nat} (loop : Bool) (hlt : n < 2 ^ 16) {d k : Nat} (hd : 0 < d)
    (hk : k + d = n) :
    Threaded (ffidCreate n loop).ts (· % n) (2 ^ 32 - 1) k (List.range' k d) := by
  have hend : u16 (n + (2 ^ 16 - 1)) = n - 1 := by
    rw [u16]
    omega
  have hmod : k % n = k := Nat.mod_eq_of_lt (by omega)
  induction d generalizing k with
  | zero => omega
  | succ d ih =>
      refine ⟨rfl, ?_⟩
      cases d with
      | zero =>
          have hcell : (ffidCreate n loop).ts (k % n) = 2 ^ 32 - 1 := by
            simp only [ffidCreate, hend, hmod, if_neg (show ¬ k < n - 1 by omega)]
          exact hcell
      | succ d =>
          have hcell : (ffidCreate n loop).ts (k % n) = k + 1 := by
            simp only [ffidCreate, hend, hmod, if_pos (show k < n - 1 by omega)]
          rw [hcell]
          exact ih (Nat.succ_pos d) (by omega) (Nat.mod_eq_of_lt (by omega))

theorem range_slots (n : Nat) : (List.range n).map (· % n) = List.range n := by
  conv_rhs => rw [← List.map_id (List.range n)]
  exact List.map_congr_left fun i hi => Nat.mod_eq_of_lt (List.mem_range.mp hi)

/-- A new allocator hands out the ids in ascending order. -/
theorem create_slots {n : Nat} (loop : Bool) (hn : 0 < n) (hlt : n < 2 ^ 16) :
    Slots n (ffidCreate n loop) (List.range n) [] := by
  refine ⟨hn, hlt, rfl, rfl, ?_, ?_, ?_, ?_, nofun, ?_⟩
  · rw [List.range_eq_range']
    exact create_threaded loop hlt hn (Nat.zero_add n)
  · rw [range_slots]
    exact List.nodup_range
  · intro x hx
    exact Nat.lt_trans (List.mem_range.mp hx) (Nat.lt_trans hlt (by decide))
  · intro x hx
    obtain ⟨m, rfl⟩ : ∃ m, n = m + 1 := ⟨n - 1, by omega⟩
    rw [List.range_succ, List.getLast?_concat] at hx
    obtain rfl := Option.some.inj hx
    rw [Nat.mod_eq_of_lt (Nat.lt_succ_self m)]
    simp only [ffidCreate, u16]
    omega
  · intro i hi hnot
    rw [range_slots] at hnot
    exact absurd (List.mem_range.mpr hi) hnot

/-- The id that follows `id` in its slot, both less one. The last one is followed by the first. -/
def nextId (n id : Nat) : Nat := if 2 ^ 32 - 1 ≤ id + n then id % n else id + n

theorem nextId_mod (n id : Nat) : nextId n id % n = id % n := by
  unfold nextId
  split
  · exact Nat.mod_mod _ _
  · exact Nat.add_mod_right _ _

theorem nextId_lt {n : Nat} (hn : 0 < n) (hlt : n < 2 ^ 16) (id : Nat) : nextId n id < 2 ^ 32 - 1 := by
  unfold nextId
  split
  · have := Nat.mod_lt id hn
    omega
  · omega

namespace Slots

variable {n x : Nat} {ff : Ffid} {free retired : List Nat}

theorem slot_lt (h : Slots n ff free retired) (id : Nat) : (id - 1) % n < n :=
  Nat.mod_lt _ h.n_pos

theorem slot_eq (h : Slots n ff free retired) (id : Nat) : u16 ((id - 1) % n) = (id - 1) % n :=
  u16_of_lt (Nat.lt_trans (h.slot_lt id) h.n_lt)

theorem newId_nil (h : Slots n ff [] retired) : ffidNewId ff = (0, 0, ff) := by
  have hfirst : ff.first = 2 ^ 32 - 1 := h.threaded
  rw [ffidNewId, h.maxLimit, hfirst, if_pos (Nat.le_refl _)]

/-- The first free id becomes live. -/
theorem newId_cons (h : Slots n ff (x :: free) retired) : ∃ ff', ffidNewId ff = (x + 1, x % n, ff') ∧
    ff'.ts = Function.update ff.ts (x % n) x ∧ Slots n ff' free retired ∧
    ff'.curSize = u16 (ff.curSize + 1) := by
  obtain ⟨hfirst, hrest⟩ := h.threaded
  have hx := h.free_lt x (List.mem_cons_self ..)
  have hn := h.n_lt
  have hnodup := h.nodup
  rw [List.map_cons, List.nodup_cons] at hnodup
  have hslot : u16 (x % n) = x % n :=
    u16_of_lt (Nat.lt_trans (Nat.mod_lt x h.n_pos) hn)
  refine ⟨{ ff with
    first := ff.ts (x % n)
    ts := Function.update ff.ts (x % n) x
    curSize := u16 (ff.curSize + 1) }, ?_, rfl, ⟨h.n_pos, hn, h.maxSize, h.maxLimit,
    hrest.update hnodup.1, hnodup.2, fun y hy => h.free_lt y (List.mem_cons_of_mem _ hy),
    ?_, ?_, ?_⟩, rfl⟩
  · simp only [ffidNewId, h.maxLimit, hfirst, h.maxSize, hslot, if_neg (Nat.not_le_of_lt hx),
      u32_of_lt (show x + 1 < 2 ^ 32 by omega)]
  · intro y hy
    refine h.end_eq y ?_
    rw [List.getLast?_cons]
    rw [Option.mem_def] at hy
    rw [hy]
    rfl
  · intro i hi
    obtain ⟨hin, hnot, hcell⟩ := h.dead i hi
    rw [List.map_cons, List.mem_cons, not_or] at hnot
    refine ⟨hin, hnot.2, ?_⟩
    simp only [Function.update_of_ne hnot.1]
    exact hcell
  · intro i hi hnot hkept
    by_cases heq : i = x % n
    · subst heq
      simp only [Function.update_self]
      exact ⟨hx, trivial⟩
    · simp only [Function.update_of_ne heq]
      refine h.live i hi (fun hin => ?_) hkept
      rcases List.mem_cons.mp hin with rfl | hin
      · exact heq rfl
      · exact hnot hin

/-- An id is live if and only if its slot is not free and holds it. -/
theorem live_iff (h : Slots n ff free retired) {id : Nat} (hid : id < 2 ^ 32) :
    ff.Live id ↔ 0 < id ∧ (id - 1) % n ∉ free.map (· % n) ∧ ff.ts ((id - 1) % n) = id - 1 := by
  rw [Live, ffidHasId, h.maxSize, h.slot_eq]
  by_cases hzero : id = 0
  · simp [hzero]
  · simp only [hzero, if_false, decide_eq_true_eq]
    refine ⟨fun hts => ⟨Nat.pos_of_ne_zero hzero, fun hin => ?_, hts⟩, fun hlive => hlive.2.2⟩
    obtain ⟨y, hy, hslot⟩ := List.mem_map.mp hin
    rcases h.threaded.cell h.nodup hy with hstop | ⟨-, hne⟩
    · simp only [hslot] at hstop
      omega
    · simp only [hslot, hts] at hne
      exact hne rfl

/-- The slot of a live id is not retired. -/
theorem not_retired (h : Slots n ff free retired) {id : Nat} (hid : id < 2 ^ 32)
    (hlive : ff.Live id) : (id - 1) % n ∉ retired := by
  intro hin
  obtain ⟨hpos, -, hcell⟩ := (h.live_iff hid).mp hlive
  rw [(h.dead _ hin).2.2] at hcell
  omega

theorem live_lt (h : Slots n ff free retired) {id : Nat} (hid : id < 2 ^ 32)
    (hlive : ff.Live id) : id - 1 < 2 ^ 32 - 1 := by
  obtain ⟨-, hnot, hcell⟩ := (h.live_iff hid).mp hlive
  rw [← hcell]
  exact (h.live _ (h.slot_lt id) hnot (h.not_retired hid hlive)).1

/-- Whether an id is the last one of its slot. -/
theorem last_iff {id : Nat} (hlt : id < 2 ^ 32 - 1) :
    (2 ^ 32 - 1 ≤ id ∨ sub32 (2 ^ 32 - 1) id ≤ n) ↔ 2 ^ 32 - 1 ≤ id + n := by
  rw [sub32_of_le (by omega) (by omega)]
  omega

/-- The last id of a slot in an allocator that does not loop: the slot is retired. -/
theorem retire (h : Slots n ff free retired) {id : Nat} (hid : id < 2 ^ 32) (hlive : ff.Live id)
    (hloop : ff.isLoop = false) (hlast : 2 ^ 32 - 1 ≤ id - 1 + n) :
    Slots n (ffidDelId ff id) free ((id - 1) % n :: retired) ∧
      (∀ i, i ≠ (id - 1) % n → (ffidDelId ff id).ts i = ff.ts i) ∧
      (ffidDelId ff id).curSize = ff.curSize := by
  obtain ⟨hpos, hnot, hts⟩ := (h.live_iff hid).mp hlive
  have hlast := (last_iff (n := n) (h.live_lt hid hlive)).mpr hlast
  have hdel : ffidDelId ff id =
      { ff with ts := Function.update ff.ts ((id - 1) % n) (2 ^ 32 - 1) } := by
    simp only [ffidDelId, if_neg (Nat.ne_of_gt hpos), h.maxLimit, h.maxSize, h.slot_eq, hloop,
      and_true, if_pos hlast]
  rw [hdel]
  refine ⟨⟨h.n_pos, h.n_lt, h.maxSize, h.maxLimit, h.threaded.update hnot, h.nodup, h.free_lt,
    h.end_eq, fun i hi => ?_, fun i hi hfree hkept => ?_⟩, fun i hi => Function.update_of_ne hi _ _,
    rfl⟩
  · rcases List.mem_cons.mp hi with rfl | hi
    · exact ⟨h.slot_lt id, hnot, Function.update_self ..⟩
    · obtain ⟨hin, hfree, hcell⟩ := h.dead i hi
      refine ⟨hin, hfree, ?_⟩
      by_cases heq : i = (id - 1) % n
      · rw [heq]
        exact Function.update_self ..
      · exact (Function.update_of_ne heq _ _).trans hcell
  · rw [List.mem_cons, not_or] at hkept
    simp only [Function.update_of_ne hkept.1]
    exact h.live i hi hfree hkept.2

theorem nextId_eq {id : Nat} (hlt : id < 2 ^ 32 - 1) :
    (if 2 ^ 32 - 1 ≤ id ∨ sub32 (2 ^ 32 - 1) id ≤ n then id % n else u32 (id + n)) =
      nextId n id := by
  unfold nextId
  by_cases hlast : 2 ^ 32 - 1 ≤ id + n
  · rw [if_pos hlast, if_pos ((last_iff hlt).mpr hlast)]
  · rw [if_neg hlast, if_neg (mt (last_iff hlt).mp hlast)]
    exact u32_of_lt (by omega)

/-- The next id of a live slot becomes the last free one. -/
theorem delId (h : Slots n ff free retired) {id : Nat} (hid : id < 2 ^ 32) (hlive : ff.Live id)
    (hloop : ¬ (ff.isLoop = false ∧ 2 ^ 32 - 1 ≤ id - 1 + n)) :
    ∃ next, next = nextId n (id - 1) ∧ Slots n (ffidDelId ff id) (free ++ [next]) retired ∧
      (∀ i, i ∉ (free ++ [next]).map (· % n) → (ffidDelId ff id).ts i = ff.ts i) ∧
      (ffidDelId ff id).curSize = u16 (ff.curSize + (2 ^ 16 - 1)) := by
  obtain ⟨hpos, hnot, hts⟩ := (h.live_iff hid).mp hlive
  have hn := h.n_lt
  have hslot := h.slot_eq id
  have hlt := h.live_lt hid hlive
  have hloop : ¬ ((2 ^ 32 - 1 ≤ id - 1 ∨ sub32 (2 ^ 32 - 1) (id - 1) ≤ n) ∧ ff.isLoop = false) :=
    fun hlast => hloop ⟨hlast.2, (last_iff hlt).mp hlast.1⟩
  generalize hnext : nextId n (id - 1) = next
  have hmod : next % n = (id - 1) % n := hnext ▸ nextId_mod n (id - 1)
  have hnextlt : next < 2 ^ 32 - 1 := hnext ▸ nextId_lt h.n_pos hn (id - 1)
  have hfresh : next % n ∉ free.map (· % n) := by
    rw [hmod]
    exact hnot
  have hdel : ffidDelId ff id =
      { ff with
        first := if 2 ^ 32 - 1 ≤ ff.first then next else ff.first
        ts := Function.update (if 2 ^ 32 - 1 ≤ ff.first then ff.ts
          else Function.update ff.ts ff.endSlot next) (next % n) (2 ^ 32 - 1)
        endSlot := next % n
        curSize := u16 (ff.curSize + (2 ^ 16 - 1)) } := by
    simp only [ffidDelId, if_neg (Nat.ne_of_gt hpos), h.maxLimit, h.maxSize, hslot,
      if_neg hloop, nextId_eq hlt, hnext, hmod]
    split_ifs <;> rfl
  have hnodup : ((free ++ [next]).map (· % n)).Nodup := by
    rw [List.map_append, List.nodup_append]
    refine ⟨h.nodup, List.pairwise_singleton _ _, fun a ha b hb => ?_⟩
    rw [List.map_singleton, List.mem_singleton] at hb
    rintro rfl
    exact hfresh (hb ▸ ha)
  have hempty : 2 ^ 32 - 1 ≤ ff.first ↔ free = [] := by
    constructor
    · intro hfirst
      by_contra hne
      have := h.free_lt _ (h.threaded.first_mem hne)
      omega
    · rintro rfl
      exact Nat.le_of_eq (Eq.symm h.threaded)
  have hkeep : ∀ i, i ∉ (free ++ [next]).map (· % n) → (ffidDelId ff id).ts i = ff.ts i := by
    intro i hi
    rw [List.map_append, List.mem_append, List.map_singleton, List.mem_singleton, not_or] at hi
    rw [hdel]
    simp only [Function.update_of_ne hi.2]
    split_ifs with hfirst
    · rfl
    · refine Function.update_of_ne (fun heq => ?_) _ _
      obtain ⟨front, e, rfl⟩ := (List.eq_nil_or_concat' free).resolve_left (mt hempty.mpr hfirst)
      rw [heq, h.end_eq e List.getLast?_concat] at hi
      exact hi.1 (List.mem_map_of_mem (List.mem_append_right _ (List.mem_singleton_self e)))
  refine ⟨next, rfl, ⟨h.n_pos, hn, ?_, ?_, ?_, hnodup, ?_, ?_, ?_, ?_⟩, hkeep, ?_⟩
  · rw [hdel]
    exact h.maxSize
  · rw [hdel]
    exact h.maxLimit
  · rw [hdel]
    rcases List.eq_nil_or_concat' free with rfl | ⟨front, e, rfl⟩
    · simp only [if_pos (hempty.mpr rfl)]
      exact @Threaded.singleton ff.ts (· % n) (2 ^ 32 - 1) next
    · have hfirst : ¬ 2 ^ 32 - 1 ≤ ff.first := fun hle => by
        have := hempty.mp hle
        simp at this
      have hback := h.nodup
      rw [List.map_append, List.map_singleton, List.nodup_append] at hback
      simp only [if_neg hfirst, h.end_eq e List.getLast?_concat]
      rw [List.append_assoc]
      exact h.threaded.concat (fun hin => hback.2.2 _ hin _ (List.mem_singleton_self _) rfl)
        hfresh
  · intro x hx
    rcases List.mem_append.mp hx with hx | hx
    · exact h.free_lt x hx
    · rw [List.mem_singleton.mp hx]
      exact hnextlt
  · intro x hx
    rw [List.getLast?_concat] at hx
    rw [hdel, ← Option.some.inj hx]
  · intro i hi
    obtain ⟨hin, hfree, hcell⟩ := h.dead i hi
    have hnot' : i ∉ (free ++ [next]).map (· % n) := by
      rw [List.map_append, List.mem_append, List.map_singleton, List.mem_singleton, hmod]
      rintro (hin | rfl)
      · exact hfree hin
      · exact h.not_retired hid hlive hi
    exact ⟨hin, hnot', (hkeep i hnot').trans hcell⟩
  · intro i hi hin hkept
    rw [hkeep i hin]
    refine h.live i hi (fun hfree => hin ?_) hkept
    rw [List.map_append]
    exact List.mem_append_left _ hfree
  · rw [hdel]

/-- A live id is the one its slot holds. -/
theorem ffidIndex_eq (h : Slots n ff free retired) {id : Nat} (hpos : 0 < id)
    (hid : id < 2 ^ 32) : ffidIndex ff id = (id - 1) % n := by
  rw [ffidIndex, h.maxSize, sub32_of_le hpos hid]
  exact h.slot_eq id

/-- A slot that is neither free nor retired holds a live id of its own. -/
theorem slot_live (h : Slots n ff free retired) {i : Nat} (hi : i < n)
    (hnot : i ∉ free.map (· % n)) (hkept : i ∉ retired) :
    ff.ts i + 1 < 2 ^ 32 ∧ ff.Live (ff.ts i + 1) ∧ ffidIndex ff (ff.ts i + 1) = i := by
  obtain ⟨hlt, hmod⟩ := h.live i hi hnot hkept
  have hid : ff.ts i + 1 < 2 ^ 32 := by omega
  have hpos : 0 < ff.ts i + 1 := Nat.succ_pos _
  refine ⟨hid, (h.live_iff hid).mpr ⟨hpos, ?_, ?_⟩, ?_⟩
  · rw [Nat.add_sub_cancel, hmod]
    exact hnot
  · rw [Nat.add_sub_cancel, hmod]
  · rw [h.ffidIndex_eq hpos hid, Nat.add_sub_cancel, hmod]

/-- A new id is live and was not live before. Nothing else changes. -/
theorem newId_live {ff' : Ffid} (h : Slots n ff (x :: free) retired) (h' : Slots n ff' free retired)
    (hts : ff'.ts = Function.update ff.ts (x % n) x) :
    ¬ ff.Live (x + 1) ∧ ∀ id < 2 ^ 32, ff'.Live id ↔ id = x + 1 ∨ ff.Live id := by
  have hx := h.free_lt x (List.mem_cons_self ..)
  have hnodup := h.nodup
  rw [List.map_cons, List.nodup_cons] at hnodup
  constructor
  · intro hlive
    obtain ⟨-, hnot, -⟩ := (h.live_iff (by omega)).mp hlive
    rw [Nat.add_sub_cancel] at hnot
    exact hnot (List.mem_cons_self ..)
  · intro id hid
    rw [h'.live_iff hid, h.live_iff hid, List.map_cons, List.mem_cons, hts]
    by_cases hslot : (id - 1) % n = x % n
    · rw [hslot, Function.update_self]
      refine ⟨fun hlive => .inl (by omega), ?_⟩
      rintro (rfl | ⟨-, hnot, -⟩)
      · exact ⟨Nat.succ_pos x, hnodup.1, rfl⟩
      · exact absurd (.inl rfl) hnot
    · rw [Function.update_of_ne hslot]
      refine ⟨fun ⟨hpos, hnot, hcell⟩ => .inr ⟨hpos, not_or.mpr ⟨hslot, hnot⟩, hcell⟩, ?_⟩
      rintro (rfl | ⟨hpos, hnot, hcell⟩)
      · exact absurd rfl hslot
      · exact ⟨hpos, (not_or.mp hnot).2, hcell⟩

theorem mem_append_slot {next i : Nat} (hslot : next % n = i) :
    i ∈ (free ++ [next]).map (· % n) := by
  rw [List.map_append, ← hslot]
  exact List.mem_append_right _ (List.mem_singleton_self _)

theorem mem_append_iff {next i j : Nat} (hslot : next % n = i) (hne : j ≠ i) :
    j ∈ (free ++ [next]).map (· % n) ↔ j ∈ free.map (· % n) := by
  rw [List.map_append, List.mem_append, List.map_singleton, List.mem_singleton, hslot]
  exact or_iff_left hne

/-- A deleted id is no longer live. Nothing else changes. -/
theorem delId_live {ff' : Ffid} {id : Nat} {free' retired' : List Nat}
    (h : Slots n ff free retired) (hid : id < 2 ^ 32) (hlive : ff.Live id)
    (h' : Slots n ff' free' retired') (hgone : (id - 1) % n ∈ free'.map (· % n) ∨ (id - 1) % n ∈ retired')
    (hkeep : ∀ i, i ≠ (id - 1) % n → (i ∈ free'.map (· % n) ↔ i ∈ free.map (· % n)) ∧
      (i ∉ free'.map (· % n) → ff'.ts i = ff.ts i)) :
    ∀ id' < 2 ^ 32, ff'.Live id' ↔ id' ≠ id ∧ ff.Live id' := by
  intro id' hid'
  obtain ⟨hpos, -, hcell⟩ := (h.live_iff hid).mp hlive
  constructor
  · intro hlive'
    have hother : (id' - 1) % n ≠ (id - 1) % n := by
      intro heq
      rw [← heq] at hgone
      rcases hgone with hfree | hretired
      · exact ((h'.live_iff hid').mp hlive').2.1 hfree
      · exact h'.not_retired hid' hlive' hretired
    obtain ⟨hpos', hnot, hcell'⟩ := (h'.live_iff hid').mp hlive'
    obtain ⟨hfree, hsame⟩ := hkeep _ hother
    rw [hsame hnot] at hcell'
    refine ⟨?_, (h.live_iff hid').mpr ⟨hpos', mt hfree.mpr hnot, hcell'⟩⟩
    rintro rfl
    exact hother rfl
  · rintro ⟨hne, hlive'⟩
    obtain ⟨hpos', hnot, hcell'⟩ := (h.live_iff hid').mp hlive'
    have hother : (id' - 1) % n ≠ (id - 1) % n := by
      intro heq
      rw [heq, hcell] at hcell'
      omega
    obtain ⟨hfree, hsame⟩ := hkeep _ hother
    have hnot' := mt hfree.mp hnot
    exact (h'.live_iff hid').mpr ⟨hpos', hnot', (hsame hnot').trans hcell'⟩

end Slots

/-- The allocator of `n` slots in loop mode with the free ids `free`, less one. -/
structure Rep (n : Nat) (ff : Ffid) (free : List Nat) : Prop where
  n_pos : 0 < n
  n_lt : n < 2 ^ 16
  maxSize : ff.maxSize = n
  maxLimit : ff.maxLimit = 2 ^ 32 - 1
  isLoop : ff.isLoop = true
  threaded : Threaded ff.ts (· % n) (2 ^ 32 - 1) ff.first free
  nodup : (free.map (· % n)).Nodup
  free_lt : ∀ x ∈ free, x < 2 ^ 32 - 1
  end_eq : ∀ x ∈ free.getLast?, ff.endSlot = x % n
  live : ∀ i < n, i ∉ free.map (· % n) → ff.ts i < 2 ^ 32 - 1 ∧ ff.ts i % n = i

/-- In loop mode no slot is retired. -/
theorem rep_iff {n : Nat} {ff : Ffid} {free : List Nat} :
    Rep n ff free ↔ ff.isLoop = true ∧ Slots n ff free [] := by
  constructor
  · intro h
    exact ⟨h.isLoop, h.n_pos, h.n_lt, h.maxSize, h.maxLimit, h.threaded, h.nodup, h.free_lt,
      h.end_eq, nofun, fun i hi hnot _ => h.live i hi hnot⟩
  · rintro ⟨hloop, h⟩
    exact ⟨h.n_pos, h.n_lt, h.maxSize, h.maxLimit, hloop, h.threaded, h.nodup, h.free_lt,
      h.end_eq, fun i hi hnot => h.live i hi hnot List.not_mem_nil⟩

theorem create_rep {n : Nat} (hn : 0 < n) (hlt : n < 2 ^ 16) :
    Rep n (ffidCreate n true) (List.range n) :=
  rep_iff.mpr ⟨rfl, create_slots true hn hlt⟩

namespace Rep

variable {n x : Nat} {ff : Ffid} {free : List Nat}

theorem slots (h : Rep n ff free) : Slots n ff free [] := (rep_iff.mp h).2

theorem newId_nil (h : Rep n ff []) : ffidNewId ff = (0, 0, ff) := h.slots.newId_nil

theorem newId_cons (h : Rep n ff (x :: free)) : ∃ ff', ffidNewId ff = (x + 1, x % n, ff') ∧
    ff'.ts = Function.update ff.ts (x % n) x ∧ Rep n ff' free := by
  obtain ⟨ff', hnew, hts, hslots, -⟩ := h.slots.newId_cons
  refine ⟨ff', hnew, hts, rep_iff.mpr ⟨?_, hslots⟩⟩
  have hloop := ffidNewId_isLoop ff
  rw [hnew] at hloop
  exact hloop.trans h.isLoop

theorem live_iff (h : Rep n ff free) {id : Nat} (hid : id < 2 ^ 32) :
    ff.Live id ↔ 0 < id ∧ (id - 1) % n ∉ free.map (· % n) ∧ ff.ts ((id - 1) % n) = id - 1 :=
  h.slots.live_iff hid

/-- The next id of a live slot becomes the last free one. -/
theorem delId (h : Rep n ff free) {id : Nat} (hid : id < 2 ^ 32) (hlive : ff.Live id) :
    ∃ next, next % n = (id - 1) % n ∧ Rep n (ffidDelId ff id) (free ++ [next]) ∧
      ∀ i, i ∉ (free ++ [next]).map (· % n) → (ffidDelId ff id).ts i = ff.ts i := by
  have hloop : ¬ (ff.isLoop = false ∧ 2 ^ 32 - 1 ≤ id - 1 + n) := by
    rw [h.isLoop]
    rintro ⟨hfalse, -⟩
    cases hfalse
  obtain ⟨next, hnext, hslots, hkeep, -⟩ := h.slots.delId hid hlive hloop
  refine ⟨next, ?_, rep_iff.mpr ⟨(ffidDelId_isLoop ff id).trans h.isLoop, hslots⟩, hkeep⟩
  rw [hnext, nextId_mod]

theorem ffidIndex_eq (h : Rep n ff free) {id : Nat} (hpos : 0 < id) (hid : id < 2 ^ 32) :
    ffidIndex ff id = (id - 1) % n := h.slots.ffidIndex_eq hpos hid

theorem slot_live (h : Rep n ff free) {i : Nat} (hi : i < n) (hnot : i ∉ free.map (· % n)) :
    ff.ts i + 1 < 2 ^ 32 ∧ ff.Live (ff.ts i + 1) ∧ ffidIndex ff (ff.ts i + 1) = i :=
  h.slots.slot_live hi hnot List.not_mem_nil

theorem newId_live {ff' : Ffid} (h : Rep n ff (x :: free)) (h' : Rep n ff' free)
    (hts : ff'.ts = Function.update ff.ts (x % n) x) :
    ¬ ff.Live (x + 1) ∧ ∀ id < 2 ^ 32, ff'.Live id ↔ id = x + 1 ∨ ff.Live id :=
  h.slots.newId_live h'.slots hts

theorem delId_live {id next : Nat} (h : Rep n ff free) (hid : id < 2 ^ 32) (hlive : ff.Live id)
    (hslot : next % n = (id - 1) % n) (h' : Rep n (ffidDelId ff id) (free ++ [next]))
    (hkeep : ∀ i, i ∉ (free ++ [next]).map (· % n) → (ffidDelId ff id).ts i = ff.ts i) :
    ∀ id' < 2 ^ 32, (ffidDelId ff id).Live id' ↔ id' ≠ id ∧ ff.Live id' :=
  h.slots.delId_live hid hlive h'.slots (.inl (Slots.mem_append_slot hslot))
    fun i hi => ⟨Slots.mem_append_iff hslot hi, hkeep i⟩

end Rep

end Ffid

end RandServer
