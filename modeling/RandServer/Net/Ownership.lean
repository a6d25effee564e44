import Mathlib.Data.List.Perm.Basic
import Mathlib.Data.List.Range
import RandServer.Net.Buff

/-!
# Where the blocks are

`Memory.Accounted m pool held` says that every block that `malloc` returned is in exactly
one place: held by the owners counted in `held`, on the pool's free list, or freed. The
operations of the pool move a block from one place to another, and so do those of a slot
array, whose blocks `slotAddrs` lists. `Arena.Accounted` is the statement for a ring whose
blocks have one size. Filling a ring leaves the blocks that it has (`Arena.Fills.stays`), and
releasing leaves those from the reader's to the writer's (`buffGcHelp_live`).
-/

universe u

namespace RandServer

variable {α : Type u}

/-- The free list keeps to its limit and to blocks of the pool's size. -/
structure BuffPool.Sound (p : BuffPool α) : Prop where
  within : p.head.length ≤ p.poolMaxCnt
  sized : ∀ data ∈ p.head, data.size = p.bufferSize

namespace Memory

/-- The addresses of the blocks that `malloc` has returned. -/
def allocated (m : Memory α) : List Nat := (List.range m.brk).filter fun a => (m.fate a).isSome

/-- The blocks on the free list of a pool. -/
def idle (m : Memory α) : Option Nat → List (Block α)
  | none => []
  | some i => (m.pools i).head

structure Accounted (m : Memory α) (pool : Option Nat) (held : List Nat) : Prop where
  places : (held ++ ((m.idle pool).map Block.addr ++ m.freed)).Perm m.allocated
  sound : ∀ i, pool = some i → (m.pools i).Sound

namespace Accounted

variable {m m' : Memory α} {pool : Option Nat} {held held' : List Nat} {size : Nat}

theorem nodup (h : m.Accounted pool held) :
    (held ++ ((m.idle pool).map Block.addr ++ m.freed)).Nodup :=
  h.places.nodup_iff.mpr (List.nodup_range.filter _)

theorem perm (h : m.Accounted pool held) (hp : held'.Perm held) : m.Accounted pool held' :=
  ⟨(hp.append_right _).trans h.places, h.sound⟩

/-- What an allocation returns, if anything, is held by the caller and has the size asked
for. -/
theorem malloc (h : m.Accounted pool held) {res : Option (Block α)}
    (ht : m.malloc size = (res, m')) :
    m'.Accounted pool ((res.map Block.addr).toList ++ held) ∧
      ∀ data, res = some data → data.size = size := by
  simp only [Memory.malloc, Prod.mk.injEq] at ht
  obtain ⟨rfl, rfl⟩ := ht
  cases hfate : m.fate m.brk with
  | none =>
      have hsame : allocated { m with brk := m.brk + 1 } = m.allocated := by
        simp [allocated, List.range_succ, List.filter_append, hfate]
      refine ⟨⟨?_, h.sound⟩, by simp⟩
      rw [hsame]
      exact h.places
  | some data =>
      have hmore : allocated { m with brk := m.brk + 1 } = m.allocated ++ [m.brk] := by
        simp [allocated, List.range_succ, List.filter_append, hfate]
      refine ⟨⟨?_, h.sound⟩, ?_⟩
      · rw [hmore]
        exact (h.places.cons m.brk).trans (List.perm_append_singleton m.brk _).symm
      · intro data' hdata
        simp only [Option.map_some, Option.some.injEq] at hdata
        rw [← hdata]

theorem newBuff (h : m.Accounted pool held) {res : Option (Block α)}
    (ht : buffPoolNewBuff m pool size = (res, m')) :
    m'.Accounted pool ((res.map Block.addr).toList ++ held) ∧
      ∀ data, res = some data → data.size = size := by
  cases pool with
  | none => exact h.malloc ht
  | some i =>
      simp only [buffPoolNewBuff] at ht
      split at ht
      · exact h.malloc ht
      · rename_i hsize
        split at ht
        · exact h.malloc ht
        · -- the block comes from the free list
          rename_i data head hhead
          simp only [Prod.mk.injEq] at ht
          obtain ⟨rfl, rfl⟩ := ht
          have hsound := h.sound i rfl
          have hplaces := h.places
          simp only [idle, hhead, List.map_cons] at hplaces
          refine ⟨⟨?_, ?_⟩, ?_⟩
          · simp only [idle, setPool, Function.update_self]
            exact (List.perm_middle.symm.trans (List.Perm.refl _)).trans hplaces
          · intro j hj
            obtain rfl := Option.some.inj hj
            simp only [setPool, Function.update_self]
            have hwithin := hsound.within
            have hsized := hsound.sized
            rw [hhead] at hwithin hsized
            exact ⟨(Nat.le_succ _).trans hwithin,
              fun data' hmem => hsized data' (List.mem_cons_of_mem _ hmem)⟩
          · intro data' hdata
            obtain rfl := Option.some.inj hdata
            rw [hsound.sized data (by simp [hhead])]
            exact not_not.mp hsize

theorem free {data : Block α} (h : m.Accounted pool (data.addr :: held)) :
    (m.free data).Accounted pool held := by
  refine ⟨?_, h.sound⟩
  have hmove : (held ++ ((m.idle pool).map Block.addr ++ data.addr :: m.freed)).Perm
      (data.addr :: held ++ ((m.idle pool).map Block.addr ++ m.freed)) := by
    rw [← List.append_assoc]
    exact List.perm_middle.trans (by simp)
  exact hmove.trans h.places

theorem delBuff {data : Block α} (h : m.Accounted pool (data.addr :: held))
    (hsize : data.size = size) : (buffPoolDelBuff m pool (some data) size).Accounted pool held := by
  cases pool with
  | none => exact h.free
  | some i =>
      simp only [buffPoolDelBuff]
      split
      · exact h.free
      · rename_i hsame
        split
        · exact h.free
        · -- the block joins the free list
          rename_i hroom
          have hsound := h.sound i rfl
          refine ⟨?_, ?_⟩
          · simp only [idle, setPool, Function.update_self, List.map_cons]
            exact List.perm_middle.trans h.places
          · intro j hj
            obtain rfl := Option.some.inj hj
            simp only [setPool, Function.update_self]
            refine ⟨Nat.lt_of_not_le hroom, ?_⟩
            intro data' hmem
            cases hmem with
            | head => exact hsize.trans (not_not.mp hsame)
            | tail _ hmem => exact hsound.sized data' hmem

end Accounted

theorem foldl_free (xs : List (Block α)) (m : Memory α) :
    xs.foldl Memory.free m = { m with freed := (xs.map Block.addr).reverse ++ m.freed } := by
  induction xs generalizing m with
  | nil => rfl
  | cons data xs ih =>
      rw [List.foldl_cons, ih]
      simp [free]

/-- Lowering the limit frees the blocks beyond it. -/
theorem Accounted.revive {m : Memory α} {i : Nat} {held : List Nat}
    (h : m.Accounted (some i) held) (poolMaxCnt : Nat) (granted : Bool) :
    (buffPoolRevive m i poolMaxCnt granted).Accounted (some i) held := by
  have hsound := h.sound i rfl
  simp only [buffPoolRevive, foldl_free]
  refine ⟨?_, ?_⟩
  · refine List.Perm.trans ?_ h.places
    simp only [idle, setPool, Function.update_self]
    apply List.Perm.append_left
    rw [← List.append_assoc]
    apply List.Perm.append_right
    refine (List.perm_append_comm.trans ((List.reverse_perm _).append_right _)).trans ?_
    rw [← List.map_append, List.take_append_drop]
  · intro j hj
    obtain rfl := Option.some.inj hj
    simp only [setPool, Function.update_self]
    refine ⟨?_, ?_⟩
    · simp only [List.length_drop]
      omega
    · intro data hmem
      exact hsound.sized data (List.mem_of_mem_drop hmem)

end Memory

/-! ## Slots -/

section Slots

variable {buffers : Nat → Option (Block α)} {n i : Nat}

/-- The blocks of the first `n` slots. -/
def slotAddrs (buffers : Nat → Option (Block α)) (n : Nat) : List Nat :=
  (List.range n).filterMap fun i => (buffers i).map Block.addr

def otherAddrs (buffers : Nat → Option (Block α)) (n i : Nat) : List Nat :=
  ((List.range n).erase i).filterMap fun i => (buffers i).map Block.addr

theorem slotAddrs_perm (buffers : Nat → Option (Block α)) (hi : i < n) :
    (slotAddrs buffers n).Perm (((buffers i).map Block.addr).toList ++ otherAddrs buffers n i) := by
  have hmem : i ∈ List.range n := List.mem_range.mpr hi
  refine ((List.perm_cons_erase hmem).filterMap _).trans ?_
  cases hslot : buffers i <;> simp [hslot, otherAddrs]

@[simp] theorem otherAddrs_update (v : Option (Block α)) :
    otherAddrs (Function.update buffers i v) n i = otherAddrs buffers n i := by
  apply List.filterMap_congr
  intro j hj
  have hne : j ≠ i := (List.nodup_range.mem_erase_iff.mp hj).1
  simp [hne]

theorem slotAddrs_update (hi : i < n) (v : Option (Block α)) :
    (slotAddrs (Function.update buffers i v) n).Perm
      ((v.map Block.addr).toList ++ otherAddrs buffers n i) := by
  have h := slotAddrs_perm (Function.update buffers i v) hi
  simpa using h

/-- Copying into a block leaves it where it is. -/
theorem slotAddrs_congr {buffers' : Nat → Option (Block α)}
    (h : ∀ i < n, (buffers' i).map Block.addr = (buffers i).map Block.addr) :
    slotAddrs buffers' n = slotAddrs buffers n := by
  apply List.filterMap_congr
  intro i hi
  exact h i (List.mem_range.mp hi)

end Slots

/-! ## Rings -/

/-- All blocks of the slots have one size. -/
def Sized (buffers : Nat → Option (Block α)) (size : Nat) : Prop :=
  ∀ i data, buffers i = some data → data.size = size

theorem Sized.update {buffers : Nat → Option (Block α)} {size i : Nat}
    {v : Option (Block α)} (h : Sized buffers size) (hv : ∀ data, v = some data → data.size = size) :
    Sized (Function.update buffers i v) size := by
  intro j data hj
  by_cases hji : j = i
  · subst hji
    rw [Function.update_self] at hj
    exact hv data hj
  · rw [Function.update_of_ne hji] at hj
    exact h j data hj

/-- A ring holds blocks of one size, and every block is in one place. -/
structure Arena.Accounted (a : Arena α) (pool : Option Nat) (n size : Nat) (held : List Nat) :
    Prop where
  places : a.mem.Accounted pool (slotAddrs a.buffers n ++ held)
  sized : Sized a.buffers size

namespace Arena.Accounted

variable {a a' : Arena α} {pool : Option Nat} {n size i : Nat} {held : List Nat}

theorem fetch (h : a.Accounted pool n size held) (hi : i < n) :
    (a.fetch pool size i).2.Accounted pool n size held ∧
      ∀ data, (a.fetch pool size i).1 = some data → data.size = size := by
  simp only [Arena.fetch]
  split
  · rename_i data hdata
    refine ⟨h, fun data' hsome => ?_⟩
    obtain rfl := Option.some.inj hsome
    exact h.sized i _ hdata
  · rename_i hnone
    have hold := slotAddrs_perm a.buffers hi
    simp only [hnone, Option.map_none, Option.toList_none, List.nil_append] at hold
    split
    · rename_i mem hnew
      exact ⟨⟨(h.places.newBuff hnew).1, h.sized⟩, nofun⟩
    · rename_i data mem hnew
      obtain ⟨hplaces, hsize⟩ := h.places.newBuff hnew
      refine ⟨⟨?_, ?_⟩, fun data' hsome => ?_⟩
      · apply hplaces.perm
        refine ((slotAddrs_update hi _).append_right held).trans ?_
        exact (((hold.symm.append_right held).cons data.addr).trans (List.Perm.refl _))
      · exact h.sized.update fun data' hsome => hsize data' hsome
      · obtain rfl := Option.some.inj hsome
        exact hsize _ rfl

/-- Replacing the contents of a block. -/
theorem update (h : a.Accounted pool n size held) {data data' : Block α}
    (hdata : a.buffers i = some data) (haddr : data'.addr = data.addr)
    (hsize : data'.size = data.size) :
    ({ a with buffers := Function.update a.buffers i (some data') } : Arena α).Accounted pool n size
      held := by
  refine ⟨?_, ?_⟩
  · have hsame : slotAddrs (Function.update a.buffers i (some data')) n =
        slotAddrs a.buffers n := by
      apply slotAddrs_congr
      intro j _
      by_cases hji : j = i
      · simp [hji, hdata, haddr]
      · simp [hji]
    simp only [hsame]
    exact h.places
  · apply h.sized.update
    intro data₁ hsome
    obtain rfl := Option.some.inj hsome
    exact hsize.trans (h.sized _ _ hdata)

theorem copyIn (h : a.Accounted pool n size held) (hi : i < n) (off : Nat) (xs : List α) :
    (a.copyIn pool size i off xs).2.Accounted pool n size held := by
  have hfetch := (h.fetch hi).1
  cases hres : (a.fetch pool size i).1 with
  | none =>
      have hstep : a.copyIn pool size i off xs = (false, (a.fetch pool size i).2) := by
        simp only [Arena.copyIn]
        split <;> simp_all
      rw [hstep]
      exact hfetch
  | some data =>
      have hslot : (a.fetch pool size i).2.buffers i = some data := by
        rw [(a.fetch_some pool size i hres).1, Function.update_self]
      have hstep : a.copyIn pool size i off xs = (true,
          { (a.fetch pool size i).2 with
            buffers := Function.update (a.fetch pool size i).2.buffers i
              (some (data.write off xs)) }) := by
        simp only [Arena.copyIn]
        split <;> simp_all
      rw [hstep]
      exact hfetch.update hslot rfl rfl

end Arena.Accounted

/-! ### Filling -/

/-- The block of slot `i`, if there is one, stays where it is. -/
def Stays (buffers buffers' : Nat → Option (Block α)) (i : Nat) : Prop :=
  ∀ data, buffers i = some data → ∃ data', buffers' i = some data' ∧ data'.addr = data.addr

section Stays

variable {buffers buffers' buffers'' : Nat → Option (Block α)} {i : Nat}

theorem Stays.of_eq (h : buffers' i = buffers i) : Stays buffers buffers' i := by
  intro data hdata
  exact ⟨data, h.trans hdata, rfl⟩

theorem Stays.of_addr (h : (buffers' i).map Block.addr = (buffers i).map Block.addr) :
    Stays buffers buffers' i := by
  intro data hdata
  rw [hdata] at h
  exact Option.map_eq_some_iff.mp h

theorem Stays.trans (h : Stays buffers buffers' i) (h' : Stays buffers' buffers'' i) :
    Stays buffers buffers'' i := by
  intro data hdata
  obtain ⟨data', hdata', haddr⟩ := h data hdata
  obtain ⟨data'', hdata'', haddr'⟩ := h' data' hdata'
  exact ⟨data'', hdata'', haddr'.trans haddr⟩

end Stays

namespace Arena

variable {a a' : Arena α} {pool : Option Nat} {n size : Nat} {held : List Nat}

theorem fetch_stays (a : Arena α) (pool : Option Nat) (size i j : Nat) :
    Stays a.buffers (a.fetch pool size i).2.buffers j := by
  cases hres : (a.fetch pool size i).1 with
  | none => exact .of_eq (by rw [a.fetch_none pool size i hres])
  | some bf =>
      obtain ⟨hbuf, hkeep⟩ := a.fetch_some pool size i hres
      intro data hdata
      rw [hbuf]
      by_cases hji : j = i
      · subst hji
        exact ⟨bf, Function.update_self .., by rw [hkeep data hdata]⟩
      · exact ⟨data, by rwa [Function.update_of_ne hji], rfl⟩

theorem copyIn_stays (a : Arena α) (pool : Option Nat) (size i j off : Nat) (xs : List α) :
    Stays a.buffers (a.copyIn pool size i off xs).2.buffers j := by
  cases hres : (a.fetch pool size i).1 with
  | none => exact .of_eq (by rw [(copyIn_none hres off xs).2])
  | some bf =>
      obtain ⟨-, hkeep⟩ := a.fetch_some pool size i hres
      intro data hdata
      rw [(copyIn_some hres off xs).2]
      by_cases hji : j = i
      · subst hji
        exact ⟨_, Function.update_self .., by rw [hkeep data hdata]; rfl⟩
      · exact ⟨data, by rwa [Function.update_of_ne hji], rfl⟩

/-- `a'` results from `a` by getting blocks for the slots of a ring and copying into them. -/
inductive Fills (pool : Option Nat) (n size : Nat) (a : Arena α) : Arena α → Prop
  | refl : Fills pool n size a a
  | fetch {c : Arena α} {i : Nat} : Fills pool n size a c → i < n →
      Fills pool n size a (c.fetch pool size i).2
  | copyIn {c : Arena α} {i : Nat} (off : Nat) (xs : List α) : Fills pool n size a c → i < n →
      Fills pool n size a (c.copyIn pool size i off xs).2

namespace Fills

theorem accounted (h : Fills pool n size a a') (ha : a.Accounted pool n size held) :
    a'.Accounted pool n size held := by
  induction h with
  | refl => exact ha
  | fetch _ hi ih => exact (ih.fetch hi).1
  | copyIn off xs _ hi ih => exact ih.copyIn hi off xs

theorem stays (h : Fills pool n size a a') (i : Nat) : Stays a.buffers a'.buffers i := by
  induction h with
  | refl => exact .of_eq rfl
  | fetch _ _ ih => exact ih.trans (fetch_stays _ pool size _ i)
  | copyIn off xs _ _ ih => exact ih.trans (copyIn_stays _ pool size _ i off xs)

end Fills

end Arena

/-! ### Releasing -/

open LapRing

/-- The slots from the reader's to the writer's: those of the unread bytes, and the one to
be filled. The read cursor is one lap ahead of the reader. -/
def liveSlots (n read write : Nat) : List Nat :=
  (List.range ((cursorH write + 3 * n - cursorH read) % (2 * n) + 1)).map fun j =>
    (cursorH read + j) % n

theorem mem_liveSlots {n bs r w i : Nat} (g : Geometry n bs) (hrw : r ≤ w) (hw : w ≤ r + n * bs) :
    i ∈ liveSlots n (positionCursor n bs (r + n * bs)) (positionCursor n bs w) ↔
      ∃ p, r ≤ p ∧ p ≤ w ∧ slot n bs p = i := by
  have hn := g.n_pos
  have hle : r / bs ≤ w / bs := Nat.div_le_div_right hrw
  have hlap : w / bs ≤ r / bs + n := by
    rw [← div_add_capacity g.bs_pos]
    exact Nat.div_le_div_right hw
  have hcount : (block n bs w + 3 * n - block n bs (r + n * bs)) % (2 * n) =
      w / bs - r / bs := by
    have hlt : (r / bs + n) % (2 * n) < 2 * n := Nat.mod_lt _ (by omega)
    have hmod := Nat.mod_add_div (r / bs + n) (2 * n)
    rw [block, block, div_add_capacity g.bs_pos, Nat.add_sub_assoc (by omega), Nat.mod_add_mod]
    have hlaps : w / bs + (3 * n - (r / bs + n) % (2 * n)) =
        w / bs - r / bs + 2 * n * ((r / bs + n) / (2 * n) + 1) := by
      rw [Nat.mul_succ]
      omega
    rw [hlaps, Nat.add_mul_mod_self_left, Nat.mod_eq_of_lt (by omega)]
  have hslot : ∀ j, (block n bs (r + n * bs) + j) % n = (r / bs + j) % n := by
    intro j
    rw [Nat.add_mod, block_mod, slot_add_capacity g.bs_pos, slot, ← Nat.add_mod]
  simp only [liveSlots, cursorH_position g, hcount, hslot, List.mem_map, List.mem_range]
  constructor
  · rintro ⟨j, hj, rfl⟩
    -- the first position from `r` on in the block `j` further
    refine ⟨max r ((r / bs + j) * bs), Nat.le_max_left _ _, ?_, ?_⟩
    · apply Nat.max_le.mpr ⟨hrw, ?_⟩
      exact (Nat.le_div_iff_mul_le g.bs_pos).mp (by omega)
    · have hblock : max r ((r / bs + j) * bs) / bs = r / bs + j := by
        cases j with
        | zero => rw [Nat.add_zero, Nat.max_eq_left (Nat.div_mul_le_self r bs)]
        | succ j =>
            have hlow : r ≤ (r / bs + (j + 1)) * bs := by
              have := Nat.lt_div_mul_add g.bs_pos (a := r)
              rw [Nat.add_mul, Nat.succ_mul]
              omega
            rw [Nat.max_eq_right hlow, Nat.mul_div_cancel _ g.bs_pos]
      rw [slot, hblock]
  · rintro ⟨p, hrp, hpw, rfl⟩
    have h1 : r / bs ≤ p / bs := Nat.div_le_div_right hrp
    have h2 : p / bs ≤ w / bs := Nat.div_le_div_right hpw
    exact ⟨p / bs - r / bs, by omega, by rw [Nat.add_sub_cancel' h1, slot]⟩

/-- Moving the reader keeps the blocks of the unread bytes and of the writer. -/
theorem buffGcHelp_live {n bs bufferSize r r' w : Nat} (g : Geometry n bs) {pool : Option Nat}
    {mem : Memory α} {buffers : Nat → Option (Block α)} {t : BuffGc α} (hr : r ≤ r')
    (hr' : r' ≤ w) (hw : w ≤ r + n * bs)
    (ht : buffGcHelp buffers n bufferSize (block n bs (r + n * bs)) (block n bs (r' + n * bs))
      (block n bs w) pool mem = t) {i : Nat}
    (hi : i ∈ liveSlots n (positionCursor n bs (r' + n * bs)) (positionCursor n bs w)) :
    t.buffers i = buffers i := by
  obtain ⟨p, hrp, hpw, rfl⟩ := (mem_liveSlots g hr' (by omega)).mp hi
  obtain ⟨-, -, hbuf⟩ := buffGcHelp_spec g hr (by omega) ht
  apply (hbuf _).2
  intro hrel
  exact hrel.ne_slot g hw hrp hpw rfl

theorem buffGcStep_accounted {n size uHWrite : Nat} {pool : Option Nat} {held : List Nat}
    {s : BuffGc α} (hn : 0 < n)
    (h : (⟨s.buffers, s.mem⟩ : Arena α).Accounted pool n size held) :
    (⟨(buffGcStep n size uHWrite pool s).buffers, (buffGcStep n size uHWrite pool s).mem⟩ :
      Arena α).Accounted pool n size held := by
  simp only [buffGcStep]
  split
  · exact h
  · split
    · rename_i data hdata
      have hi : s.uHFree % n < n := Nat.mod_lt _ hn
      have hold := slotAddrs_perm s.buffers hi
      simp only [hdata, Option.map_some, Option.toList_some] at hold
      have hnew := @slotAddrs_update _ s.buffers _ _ hi none
      refine ⟨?_, ?_⟩
      · apply Memory.Accounted.delBuff
        · apply h.places.perm
          exact ((hnew.append_right held).cons data.addr).trans (hold.symm.append_right held)
        · exact h.sized _ _ hdata
      · apply h.sized.update
        intro data' hnone
        cases hnone
    · exact h

theorem buffGcLoop_accounted {n size uHRead uHWrite fuel : Nat} {pool : Option Nat}
    {held : List Nat} {s : BuffGc α} (hn : 0 < n)
    (h : (⟨s.buffers, s.mem⟩ : Arena α).Accounted pool n size held) :
    (⟨(buffGcLoop n size uHRead uHWrite pool fuel s).buffers,
      (buffGcLoop n size uHRead uHWrite pool fuel s).mem⟩ : Arena α).Accounted pool n size
        held := by
  induction fuel generalizing s with
  | zero => exact h
  | succ fuel ih =>
      simp only [buffGcLoop]
      split
      · exact h
      · exact ih (buffGcStep_accounted hn h)

theorem buffGcHelp_accounted {n size freeH uHRead uHWrite : Nat} {pool : Option Nat}
    {held : List Nat} {buffers : Nat → Option (Block α)} {mem : Memory α} (hn : 0 < n)
    (h : (⟨buffers, mem⟩ : Arena α).Accounted pool n size held) :
    (⟨(buffGcHelp buffers n size freeH uHRead uHWrite pool mem).buffers,
      (buffGcHelp buffers n size freeH uHRead uHWrite pool mem).mem⟩ : Arena α).Accounted pool n
        size held :=
  buffGcLoop_accounted (s := { buffers := buffers, uHFree := freeH, mem := mem, cnt := 0 }) hn h

end RandServer
