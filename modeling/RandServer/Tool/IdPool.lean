import Mathlib.Data.List.Nodup
import RandServer.Lib.Machine
import RandServer.Tool.Ffid

/-!
# Runs of the id allocator

An allocator is used by `ffid_new_id`, and by `ffid_del_id` with live ids. Beside it stands
what the user knows: the live ids, the free slots in the order in which they have been
released, and the slots that are retired since they have no further ids.
-/

namespace RandServer

open FreeList

structure IdPool where
  ff : Ffid
  live : List Nat
  free : List Nat
  retired : List Nat

namespace IdPool

inductive Action
  | newId
  | delId (id : Nat)

def newId (s : IdPool) : IdPool :=
  let (id, _, ff) := ffidNewId s.ff
  if id = 0 then { s with ff := ff }
  else { s with ff := ff, live := id :: s.live, free := s.free.tail }

/-- Without looping, the slot of an id from the last lap is retired. -/
def delId (s : IdPool) (id : Nat) : IdPool :=
  let slot := ffidIndex s.ff id
  let s := { s with ff := ffidDelId s.ff id, live := s.live.erase id }
  if s.ff.isLoop = false ∧ 2 ^ 32 - 1 ≤ id - 1 + s.ff.maxSize then
    { s with retired := slot :: s.retired }
  else { s with free := s.free ++ [slot] }

end IdPool

def idPool : Machine IdPool IdPool.Action where
  Init s := ∃ maxSize loop, 0 < maxSize ∧ maxSize < 2 ^ 16 ∧
    s = { ff := ffidCreate maxSize loop, live := [], free := List.range maxSize, retired := [] }
  step s
    | .newId => some s.newId
    | .delId id => if id ∈ s.live then some (s.delId id) else none

/-- The allocator is a queue of free slots. -/
structure IdPool.Fifo (s : IdPool) : Prop where
  /-- The array threads the free list from `first` to `end`. -/
  threaded : ∃ ids, Threaded s.ff.ts (· % s.ff.maxSize) s.ff.maxLimit s.ff.first ids ∧
    ids.map (· % s.ff.maxSize) = s.free ∧ ∀ slot ∈ s.free.getLast?, s.ff.endSlot = slot
  free_nodup : s.free.Nodup
  free_iff : ∀ slot, slot ∈ s.free ↔
    slot < s.ff.maxSize ∧ slot ∉ s.live.map (ffidIndex s.ff) ∧ slot ∉ s.retired
  live_distinct : (s.live.map (ffidIndex s.ff)).Nodup
  newId_fails : (ffidNewId s.ff).1 = 0 ↔ s.free = []
  newId_first : ∀ slot ∈ s.free.head?, (ffidNewId s.ff).2.1 = slot ∧
    ffidIndex s.ff (ffidNewId s.ff).1 = slot ∧ (ffidNewId s.ff).1 ∉ s.live
  hasId : ∀ id < 2 ^ 32, ffidHasId s.ff id = true ↔ id ∈ s.live
  idAt : ∀ slot < 2 ^ 16, (∀ id ∈ s.live, ffidIndex s.ff id = slot → ffidId s.ff slot = id) ∧
    (slot ∉ s.live.map (ffidIndex s.ff) → ffidId s.ff slot = 0)

namespace IdPool

/-- What the user knows agrees with the allocator. -/
structure Inv (n : Nat) (s : IdPool) (ids : List Nat) : Prop where
  slots : Ffid.Slots n s.ff ids s.retired
  free : s.free = ids.map (· % n)
  live_nodup : s.live.Nodup
  live_lt : ∀ id ∈ s.live, id < 2 ^ 32
  live_iff : ∀ id < 2 ^ 32, s.ff.Live id ↔ id ∈ s.live

namespace Inv

variable {n : Nat} {s t : IdPool} {ids : List Nat}

theorem init {maxSize : Nat} {loop : Bool} (hpos : 0 < maxSize) (hlt : maxSize < 2 ^ 16) :
    Inv maxSize
      { ff := ffidCreate maxSize loop, live := [], free := List.range maxSize, retired := [] }
      (List.range maxSize) := by
  have hslots := Ffid.create_slots loop hpos hlt
  refine ⟨hslots, (Ffid.range_slots maxSize).symm, List.nodup_nil, nofun, fun id hid => ?_⟩
  refine ⟨fun hlive => ?_, nofun⟩
  obtain ⟨-, hnot, -⟩ := (hslots.live_iff hid).mp hlive
  rw [Ffid.range_slots, List.mem_range] at hnot
  exact absurd (hslots.slot_lt id) hnot

theorem newId (h : Inv n s ids) : Inv n s.newId ids.tail := by
  cases ids with
  | nil =>
      have hnew : s.newId = s := by
        rw [IdPool.newId, h.slots.newId_nil]
        rfl
      rw [hnew]
      exact h
  | cons x ids =>
      obtain ⟨ff', hnew, hts, hslots, -⟩ := h.slots.newId_cons
      have hx := h.slots.free_lt x List.mem_cons_self
      obtain ⟨hfresh, hlive⟩ := h.slots.newId_live hslots hts
      have ht : s.newId = { s with ff := ff', live := (x + 1) :: s.live, free := s.free.tail } := by
        rw [IdPool.newId, hnew]
        exact if_neg (Nat.succ_ne_zero x)
      rw [ht]
      refine ⟨hslots, ?_, ?_, fun id hid => ?_, fun id hid => ?_⟩
      · show s.free.tail = _
        rw [h.free]
        rfl
      · exact List.nodup_cons.mpr ⟨mt (h.live_iff (x + 1) (by omega)).mpr hfresh, h.live_nodup⟩
      · rcases List.mem_cons.mp hid with rfl | hid
        · omega
        · exact h.live_lt id hid
      · rw [hlive id hid, List.mem_cons, h.live_iff id hid]

theorem delId (h : Inv n s ids) {id : Nat} (hid : id ∈ s.live) :
    Inv n (s.delId id) (if s.ff.isLoop = false ∧ 2 ^ 32 - 1 ≤ id - 1 + n then ids
      else ids ++ [Ffid.nextId n (id - 1)]) := by
  have hlt := h.live_lt id hid
  have hlive := (h.live_iff id hlt).mpr hid
  have hpos := ((h.slots.live_iff hlt).mp hlive).1
  have hslot := h.slots.ffidIndex_eq hpos hlt
  have herase : ∀ id', id' ∈ s.live.erase id ↔ id' ≠ id ∧ id' ∈ s.live :=
    fun id' => h.live_nodup.mem_erase_iff
  have hlive_lt : ∀ id' ∈ s.live.erase id, id' < 2 ^ 32 :=
    fun id' hid' => h.live_lt id' (List.mem_of_mem_erase hid')
  have hmax := h.slots.maxSize
  by_cases hretire : s.ff.isLoop = false ∧ 2 ^ 32 - 1 ≤ id - 1 + n
  · obtain ⟨hslots, hkeep, -⟩ := h.slots.retire hlt hlive hretire.1 hretire.2
    have ht : s.delId id = { s with
        ff := ffidDelId s.ff id
        live := s.live.erase id
        retired := (id - 1) % n :: s.retired } := by
      simp only [IdPool.delId, hslot, ffidDelId_isLoop, ffidDelId_maxSize, hmax, if_pos hretire]
    have hiff := h.slots.delId_live hlt hlive hslots (.inr List.mem_cons_self)
      fun i hi => ⟨Iff.rfl, fun _ => hkeep i hi⟩
    rw [ht, if_pos hretire]
    refine ⟨hslots, h.free, h.live_nodup.erase id, hlive_lt, fun id' hid' => ?_⟩
    rw [hiff id' hid', herase, h.live_iff id' hid']
  · obtain ⟨next, hnext, hslots, hkeep, -⟩ := h.slots.delId hlt hlive hretire
    have hmod : next % n = (id - 1) % n := hnext ▸ Ffid.nextId_mod n (id - 1)
    have ht : s.delId id = { s with
        ff := ffidDelId s.ff id
        live := s.live.erase id
        free := s.free ++ [(id - 1) % n] } := by
      simp only [IdPool.delId, hslot, ffidDelId_isLoop, ffidDelId_maxSize, hmax, if_neg hretire]
    have hiff := h.slots.delId_live hlt hlive hslots (.inl (Ffid.Slots.mem_append_slot hmod))
      fun i hi => ⟨Ffid.Slots.mem_append_iff hmod hi, hkeep i⟩
    rw [ht, if_neg hretire, ← hnext]
    refine ⟨hslots, ?_, h.live_nodup.erase id, hlive_lt, fun id' hid' => ?_⟩
    · show s.free ++ [(id - 1) % n] = _
      rw [h.free, List.map_append, ← hmod]
      rfl
    · rw [hiff id' hid', herase, h.live_iff id' hid']

theorem live_index (h : Inv n s ids) {id : Nat} (hid : id ∈ s.live) :
    0 < id ∧ ffidIndex s.ff id = (id - 1) % n ∧ (id - 1) % n ∉ s.free ∧
      s.ff.ts ((id - 1) % n) = id - 1 := by
  have hlt := h.live_lt id hid
  obtain ⟨hpos, hnot, hcell⟩ := (h.slots.live_iff hlt).mp ((h.live_iff id hlt).mpr hid)
  rw [← h.free] at hnot
  exact ⟨hpos, h.slots.ffidIndex_eq hpos hlt, hnot, hcell⟩

/-- A slot belongs to a live id unless it is free or retired. -/
theorem slot_iff (h : Inv n s ids) {slot : Nat} (hslot : slot < n) :
    slot ∈ s.live.map (ffidIndex s.ff) ↔ slot ∉ s.free ∧ slot ∉ s.retired := by
  constructor
  · intro hin
    obtain ⟨id, hid, rfl⟩ := List.mem_map.mp hin
    obtain ⟨-, hindex, hnot, -⟩ := h.live_index hid
    have hlt := h.live_lt id hid
    rw [hindex]
    exact ⟨hnot, h.slots.not_retired hlt ((h.live_iff id hlt).mpr hid)⟩
  · rintro ⟨hfree, hretired⟩
    rw [h.free] at hfree
    obtain ⟨hlt, hlive, hindex⟩ := h.slots.slot_live hslot hfree hretired
    exact List.mem_map.mpr ⟨_, (h.live_iff _ hlt).mp hlive, hindex⟩

theorem not_idAt (h : Inv n s ids) {slot : Nat}
    (hslot : slot ∉ s.live.map (ffidIndex s.ff)) : ffidId s.ff slot = 0 := by
  rw [ffidId, h.slots.maxSize]
  split_ifs with hge hother
  · rfl
  · rfl
  · have hstop : s.ff.ts slot = 2 ^ 32 - 1 := by
      rw [h.slot_iff (Nat.lt_of_not_le hge), h.free] at hslot
      by_cases hfree : slot ∈ ids.map (· % n)
      · obtain ⟨x, hx, heq⟩ := List.mem_map.mp hfree
        rcases h.slots.threaded.cell h.slots.nodup hx with hstop | ⟨-, hne⟩
        · rw [← heq]
          exact hstop
        · simp only [heq] at hne
          exact absurd hne hother
      · by_contra hne
        refine hslot ⟨hfree, fun hretired => hne (h.slots.dead slot hretired).2.2⟩
    rw [hstop]
    rfl

theorem idAt (h : Inv n s ids) {id : Nat} (hid : id ∈ s.live) :
    ffidId s.ff (ffidIndex s.ff id) = id := by
  obtain ⟨hpos, hindex, -, hcell⟩ := h.live_index hid
  have hlt := h.live_lt id hid
  rw [ffidId, h.slots.maxSize, hindex, if_neg (Nat.not_le_of_lt (h.slots.slot_lt id)), hcell,
    if_neg (not_not_intro rfl), Nat.sub_add_cancel hpos, u32_of_lt hlt]

theorem fifo (h : Inv n s ids) : s.Fifo := by
  obtain rfl := h.slots.maxSize
  refine ⟨⟨ids, ?_, h.free.symm, ?_⟩, ?_, fun slot => ?_, ?_, ?_, fun slot hslot => ?_,
    fun id hid => h.live_iff id hid, fun slot _ => ⟨?_, h.not_idAt⟩⟩
  · rw [h.slots.maxLimit]
    exact h.slots.threaded
  · intro slot hlast
    rw [h.free, List.getLast?_map, Option.mem_def, Option.map_eq_some_iff] at hlast
    obtain ⟨x, hx, rfl⟩ := hlast
    exact h.slots.end_eq x hx
  · rw [h.free]
    exact h.slots.nodup
  · constructor
    · intro hin
      have hlt : slot < s.ff.maxSize := by
        rw [h.free] at hin
        obtain ⟨x, -, rfl⟩ := List.mem_map.mp hin
        exact Nat.mod_lt x h.slots.n_pos
      refine ⟨hlt, fun hlive => ((h.slot_iff hlt).mp hlive).1 hin, fun hretired => ?_⟩
      rw [h.free] at hin
      exact (h.slots.dead slot hretired).2.1 hin
    · rintro ⟨hlt, hlive, hretired⟩
      by_contra hfree
      exact hlive ((h.slot_iff hlt).mpr ⟨hfree, hretired⟩)
  · refine h.live_nodup.map_on fun id hid id' hid' heq => ?_
    obtain ⟨hpos, hindex, -, hcell⟩ := h.live_index hid
    obtain ⟨hpos', hindex', -, hcell'⟩ := h.live_index hid'
    rw [hindex, hindex'] at heq
    rw [heq, hcell'] at hcell
    omega
  · cases ids with
    | nil =>
        rw [h.slots.newId_nil, h.free]
        exact ⟨fun _ => rfl, fun _ => rfl⟩
    | cons x ids =>
        obtain ⟨ff', hnew, -⟩ := h.slots.newId_cons
        rw [hnew, h.free]
        exact ⟨fun hzero => absurd hzero (Nat.succ_ne_zero x), nofun⟩
  · cases ids with
    | nil =>
        rw [h.free] at hslot
        cases hslot
    | cons x ids =>
        obtain ⟨ff', hnew, hts, hslots, -⟩ := h.slots.newId_cons
        have hx := h.slots.free_lt x List.mem_cons_self
        rw [h.free] at hslot
        cases hslot
        rw [hnew]
        refine ⟨rfl, ?_, ?_⟩
        · exact h.slots.ffidIndex_eq (Nat.succ_pos x) (by omega)
        · exact mt (h.live_iff (x + 1) (by omega)).mpr (h.slots.newId_live hslots hts).1
  · rintro id hid rfl
    exact h.idAt hid

end Inv

end IdPool

theorem IdPool.Inv.of_run {s : IdPool} (h : idPool.Reachable s) : ∃ n ids, IdPool.Inv n s ids := by
  refine @Machine.Reachable.invariant _ _ idPool _ (fun s => ∃ n ids, IdPool.Inv n s ids) ?_ ?_ h
  · rintro _ ⟨maxSize, loop, hpos, hlt, rfl⟩
    exact ⟨maxSize, _, .init hpos hlt⟩
  · rintro s t i ⟨n, ids, hs⟩ ht
    cases i with
    | newId =>
        cases ht
        exact ⟨n, _, hs.newId⟩
    | delId id =>
        have ht : (if id ∈ s.live then some (s.delId id) else none) = some t := ht
        split_ifs at ht with hid
        cases ht
        exact ⟨n, _, hs.delId hid⟩

/-- In every run that deletes only live ids, the allocator is a queue of free slots. -/
theorem idPool_fifo {s : IdPool} (h : idPool.Reachable s) : s.Fifo := by
  obtain ⟨n, ids, hinv⟩ := IdPool.Inv.of_run h
  exact hinv.fifo

theorem idPool_fifo_reuse : ∃ s : IdPool, s.live = [2] ∧ s.free = [0] ∧ s.Fifo := by
  have hrun : ∃ s, idPool.run
      { ff := ffidCreate 2 false, live := [], free := List.range 2, retired := [] }
      [.newId, .newId, .delId 1] = some s ∧ s.live = [2] ∧ s.free = [0] := ⟨_, rfl, rfl, rfl⟩
  obtain ⟨s, hrun, hlive, hfree⟩ := hrun
  have hinit : idPool.Init
      { ff := ffidCreate 2 false, live := [], free := List.range 2, retired := [] } :=
    ⟨2, false, by decide, by decide, rfl⟩
  exact ⟨s, hlive, hfree, idPool_fifo (Machine.Reachable.run (.init hinit) hrun)⟩

/-! ## The number of live ids -/

namespace IdPool

/-- Every slot is free, live or retired, and `ffid_size` counts those that are not free. -/
structure Counted (s : IdPool) : Prop where
  total : s.free.length + s.live.length + s.retired.length = s.ff.maxSize
  size : ffidSize s.ff = s.live.length + s.retired.length

/-- The step does not retire a slot. -/
def Keeps (s : IdPool) : Action → Prop
  | .newId => True
  | .delId id => ¬ (s.ff.isLoop = false ∧ 2 ^ 32 - 1 ≤ id - 1 + s.ff.maxSize)

instance (s : IdPool) : (i : Action) → Decidable (s.Keeps i)
  | .newId => inferInstanceAs (Decidable True)
  | .delId id =>
      inferInstanceAs (Decidable (¬ (s.ff.isLoop = false ∧ 2 ^ 32 - 1 ≤ id - 1 + s.ff.maxSize)))

variable {n : Nat} {s t : IdPool} {ids : List Nat}

theorem newId_retired (s : IdPool) : s.newId.retired = s.retired := by
  unfold newId
  simp only
  split <;> rfl

theorem delId_retired (s : IdPool) (id : Nat) :
    (s.delId id).retired =
      if s.Keeps (.delId id) then s.retired else ffidIndex s.ff id :: s.retired := by
  by_cases hretire : s.ff.isLoop = false ∧ 2 ^ 32 - 1 ≤ id - 1 + s.ff.maxSize
  · rw [if_neg (show ¬ s.Keeps (.delId id) from not_not_intro hretire)]
    simp only [delId, ffidDelId_isLoop, ffidDelId_maxSize, if_pos hretire]
  · rw [if_pos (show s.Keeps (.delId id) from hretire)]
    simp only [delId, ffidDelId_isLoop, ffidDelId_maxSize, if_neg hretire]

theorem Counted.newId (hs : Inv n s ids) (h : s.Counted) : s.newId.Counted := by
  have hn := hs.slots.n_lt
  have hsize : s.ff.curSize = _ := h.size
  have htotal := h.total
  rw [hs.slots.maxSize] at htotal
  cases ids with
  | nil =>
      have hnew : s.newId = s := by
        rw [IdPool.newId, hs.slots.newId_nil]
        rfl
      rw [hnew]
      exact h
  | cons x ids =>
      obtain ⟨ff', hnew, -, hslots, hcur⟩ := hs.slots.newId_cons
      have hfree : s.free.length = ids.length + 1 := by
        rw [hs.free, List.length_map, List.length_cons]
      have ht : s.newId = { s with ff := ff', live := (x + 1) :: s.live, free := s.free.tail } := by
        rw [IdPool.newId, hnew]
        exact if_neg (Nat.succ_ne_zero x)
      rw [ht]
      constructor
      · simp only [hslots.maxSize, List.length_cons, List.length_tail]
        omega
      · simp only [ffidSize, hcur, u16, List.length_cons]
        omega

theorem Counted.delId (hs : Inv n s ids) (h : s.Counted) {id : Nat} (hid : id ∈ s.live) :
    (s.delId id).Counted := by
  have hn := hs.slots.n_lt
  have hsize : s.ff.curSize = _ := h.size
  have htotal := h.total
  rw [hs.slots.maxSize] at htotal
  have hlt := hs.live_lt id hid
  have hlive := (hs.live_iff id hlt).mpr hid
  have hlen := List.length_erase_of_mem hid
  have hpos := List.length_pos_of_mem hid
  by_cases hretire : s.ff.isLoop = false ∧ 2 ^ 32 - 1 ≤ id - 1 + n
  · obtain ⟨-, -, hcur⟩ := hs.slots.retire hlt hlive hretire.1 hretire.2
    simp only [IdPool.delId, ffidDelId_isLoop, ffidDelId_maxSize, hs.slots.maxSize, if_pos hretire]
    constructor
    · simp only [ffidDelId_maxSize, hs.slots.maxSize, List.length_cons, hlen]
      omega
    · simp only [ffidSize, hcur, List.length_cons, hlen]
      omega
  · obtain ⟨next, -, -, -, hcur⟩ := hs.slots.delId hlt hlive hretire
    simp only [IdPool.delId, ffidDelId_isLoop, ffidDelId_maxSize, hs.slots.maxSize, if_neg hretire]
    constructor
    · simp only [ffidDelId_maxSize, hs.slots.maxSize, List.length_append, List.length_singleton,
        hlen]
      omega
    · simp only [ffidSize, hcur, u16, hlen]
      omega

theorem Counted.step (hs : Inv n s ids) (h : s.Counted) {i : Action}
    (ht : idPool.step s i = some t) : t.Counted := by
  cases i with
  | newId =>
      cases ht
      exact h.newId hs
  | delId id =>
      have ht : (if id ∈ s.live then some (s.delId id) else none) = some t := ht
      split_ifs at ht with hid
      cases ht
      exact h.delId hs hid

theorem Counted.of_run (h : idPool.Reachable s) : s.Counted := by
  induction h with
  | init h =>
      obtain ⟨maxSize, loop, -, -, rfl⟩ := h
      exact ⟨List.length_range, rfl⟩
  | step hs _ ht ih =>
      obtain ⟨n, ids, hinv⟩ := Inv.of_run hs
      exact ih.step hinv ht

/-- What a step adds to the retired slots. -/
theorem step_retired {i : Action} (ht : idPool.step s i = some t) :
    t.retired = [] ↔ s.retired = [] ∧ s.Keeps i := by
  cases i with
  | newId =>
      cases ht
      rw [newId_retired]
      exact (and_iff_left trivial).symm
  | delId id =>
      have ht : (if id ∈ s.live then some (s.delId id) else none) = some t := ht
      split_ifs at ht
      cases ht
      rw [delId_retired]
      split_ifs with hkeeps
      · exact (and_iff_left hkeeps).symm
      · exact ⟨nofun, fun h => absurd h.2 hkeeps⟩

theorem Counted.size_iff (h : s.Counted) : ffidSize s.ff = s.live.length ↔ s.retired = [] := by
  rw [h.size, Nat.add_eq_left, List.length_eq_zero_iff]

end IdPool

/-- As long as no slot is retired `ffid_size` is the number of live ids, and a further step
keeps it so if and only if it retires none. -/
theorem idPool_size {s : IdPool} (h : idPool.ReachableVia IdPool.Keeps s) :
    s.live.Nodup ∧ ffidSize s.ff = s.live.length ∧
      ∀ i t, idPool.step s i = some t → (ffidSize t.ff = t.live.length ↔ s.Keeps i) := by
  obtain ⟨n, ids, hinv⟩ := IdPool.Inv.of_run h.reachable
  have hcounted := IdPool.Counted.of_run h.reachable
  have hretired : s.retired = [] := by
    refine @Machine.ReachableVia.invariant _ _ idPool IdPool.Keeps _ (fun s => s.retired = []) ?_ ?_ h
    · rintro s ⟨maxSize, loop, -, -, rfl⟩
      rfl
    · intro s t i hs hkeeps ht
      exact (IdPool.step_retired ht).mpr ⟨hs, hkeeps⟩
  refine ⟨hinv.live_nodup, hcounted.size_iff.mpr hretired, fun i t ht => ?_⟩
  rw [(hcounted.step hinv ht).size_iff, IdPool.step_retired ht]
  exact and_iff_right hretired

theorem idPool_size_two : ∃ s : IdPool, s.live = [2] ∧ ffidSize s.ff = 1 := by
  have hrun : ∃ s, idPool.runVia IdPool.Keeps
      { ff := ffidCreate 2 false, live := [], free := List.range 2, retired := [] }
      [.newId, .newId, .delId 1] = some s ∧ s.live = [2] := ⟨_, rfl, rfl⟩
  obtain ⟨s, hrun, hlive⟩ := hrun
  have hinit : idPool.Init
      { ff := ffidCreate 2 false, live := [], free := List.range 2, retired := [] } :=
    ⟨2, false, by decide, by decide, rfl⟩
  refine ⟨s, hlive, (idPool_size (Machine.ReachableVia.runVia (.init hinit) hrun)).2.1.trans ?_⟩
  rw [hlive]
  rfl

theorem IdPool.Inv.newId_mem {n x : Nat} {s : IdPool} {ids : List Nat}
    (h : IdPool.Inv n s (x :: ids)) : x + 1 ∈ s.newId.live := by
  obtain ⟨ff', hnew, -⟩ := h.slots.newId_cons
  rw [IdPool.newId, hnew]
  exact List.mem_cons_self

theorem IdPool.newId_isLoop (s : IdPool) : s.newId.ff.isLoop = s.ff.isLoop := by
  rw [← ffidNewId_isLoop s.ff]
  unfold newId
  simp only
  split <;> rfl

theorem IdPool.delId_isLoop (s : IdPool) (id : Nat) : (s.delId id).ff.isLoop = s.ff.isLoop := by
  rw [← ffidDelId_isLoop s.ff id]
  unfold delId
  simp only
  split <;> rfl

/-- The only slot of an allocator without looping hands out all ids in turn. -/
theorem idPool_turn {k : Nat} (hk : k < 2 ^ 32 - 1) :
    ∃ s, idPool.Reachable s ∧ IdPool.Inv 1 s [k] ∧ s.ff.isLoop = false := by
  induction k with
  | zero =>
      have hinit : idPool.Init
          { ff := ffidCreate 1 false, live := [], free := List.range 1, retired := [] } :=
        ⟨1, false, Nat.one_pos, by decide, rfl⟩
      exact ⟨_, .init hinit, .init Nat.one_pos (by decide), rfl⟩
  | succ k ih =>
      obtain ⟨s, hs, hinv, hloop⟩ := ih (by omega)
      have hnew : idPool.Reachable s.newId := Machine.ReachableVia.step (i := .newId) hs trivial rfl
      have hmem := hinv.newId_mem
      have hdel : idPool.Reachable (s.newId.delId (k + 1)) :=
        Machine.ReachableVia.step (i := .delId (k + 1)) hnew trivial (if_pos hmem)
      have hinv' := hinv.newId.delId hmem
      have hnot : ¬ 2 ^ 32 - 1 ≤ k + 1 := Nat.not_le_of_lt hk
      simp only [Nat.add_sub_cancel, hnot, and_false, if_false, List.tail_cons, List.nil_append,
        Ffid.nextId] at hinv'
      refine ⟨_, hdel, hinv', ?_⟩
      rw [IdPool.delId_isLoop, IdPool.newId_isLoop, hloop]

/-- Deleting the last id of a slot leaves the size at one although no id is live. -/
theorem idPool_size_drifts :
    ¬ ∀ s, idPool.Reachable s → ffidSize s.ff = s.live.length := by
  intro h
  obtain ⟨s, hs, hinv, hloop⟩ := idPool_turn (k := 2 ^ 32 - 2) (by decide)
  have hnew : idPool.Reachable s.newId := Machine.ReachableVia.step (i := .newId) hs trivial rfl
  have hstep : idPool.step s.newId (.delId (2 ^ 32 - 2 + 1)) = some (s.newId.delId _) :=
    if_pos hinv.newId_mem
  have hdel : idPool.Reachable (s.newId.delId (2 ^ 32 - 2 + 1)) :=
    Machine.ReachableVia.step hnew trivial hstep
  have hretired := (IdPool.Counted.of_run hdel).size_iff.mp (h _ hdel)
  refine ((IdPool.step_retired hstep).mp hretired).2 ⟨?_, ?_⟩
  · rw [IdPool.newId_isLoop, hloop]
  · rw [hinv.newId.slots.maxSize]
    decide

end RandServer
