import RandServer.Tool.IdPool

/-!
# How often an id comes back

An allocator in loop mode, with a log of what `ffid_new_id` has returned. The ids of a slot
come in laps: each is `max_size` above the one before it until the next one would not fit
in 32 bits, then the slot starts again with its first id. An id in the log is live, or has
been deleted, and then `ffid_has_id` rejects it until its slot has gone through a lap.
-/

namespace RandServer

/-! ## The ids of a slot -/

namespace Ffid

/-- The number of ids of a slot. -/
def lapLength (n slot : Nat) : Nat := (2 ^ 32 - 1 - slot + (n - 1)) / n

/-- The id, less one, that a slot hands out after `turn` others. -/
def lapId (n slot turn : Nat) : Nat := slot + turn % lapLength n slot * n

/-- What a slot has handed out after a number of turns, the last id first. -/
def lapIds (n slot : Nat) : Nat → List Nat
  | 0 => []
  | turn + 1 => (lapId n slot turn + 1) :: lapIds n slot turn

variable {n slot turn turn' : Nat}

theorem lapLength_ge (hslot : slot < n) (hlt : n < 2 ^ 16) :
    (2 ^ 32 - 1) / n ≤ lapLength n slot :=
  Nat.div_le_div_right (by omega)

theorem lapLength_pos (hslot : slot < n) (hlt : n < 2 ^ 16) : 0 < lapLength n slot :=
  Nat.div_pos (by omega) (by omega)

/-- The turns of a lap are those whose ids fit. -/
theorem lt_lapLength_iff (hslot : slot < n) (hlt : n < 2 ^ 16) :
    turn < lapLength n slot ↔ slot + turn * n < 2 ^ 32 - 1 := by
  rw [← Nat.succ_le_iff, lapLength, Nat.le_div_iff_mul_le (by omega), Nat.succ_mul]
  omega

theorem lapId_lt (hslot : slot < n) (hlt : n < 2 ^ 16) : lapId n slot turn < 2 ^ 32 - 1 :=
  (lt_lapLength_iff hslot hlt).mp (Nat.mod_lt _ (lapLength_pos hslot hlt))

theorem lapId_mod (hslot : slot < n) : lapId n slot turn % n = slot := by
  rw [lapId, Nat.add_mul_mod_self_right, Nat.mod_eq_of_lt hslot]

theorem lapId_zero (n slot : Nat) : lapId n slot 0 = slot := by
  rw [lapId, Nat.zero_mod, Nat.zero_mul, Nat.add_zero]

/-- Turns with the same id are whole laps apart. -/
theorem lapId_distance {k : Nat} (hslot : slot < n)
    (h : lapId n slot turn = lapId n slot (k + turn)) : lapLength n slot ∣ k := by
  have hmod : turn % lapLength n slot = (k + turn) % lapLength n slot :=
    Nat.eq_of_mul_eq_mul_right (by omega) (Nat.add_left_cancel h)
  have hsub := Nat.sub_mod_eq_zero_of_mod_eq hmod.symm
  rw [Nat.add_sub_cancel] at hsub
  exact Nat.dvd_of_mod_eq_zero hsub

theorem nextId_lapId (hslot : slot < n) (hlt : n < 2 ^ 16) :
    nextId n (lapId n slot turn) = lapId n slot (turn + 1) := by
  have hpos := lapLength_pos hslot hlt
  have hturn := Nat.mod_lt turn hpos
  have hnext := @lt_lapLength_iff n slot (turn % lapLength n slot + 1) hslot hlt
  rw [Nat.succ_mul] at hnext
  unfold nextId
  by_cases hlast : turn % lapLength n slot + 1 < lapLength n slot
  · have hturn' : (turn + 1) % lapLength n slot = turn % lapLength n slot + 1 := by
      rw [Nat.add_mod, Nat.mod_eq_of_lt (show 1 < lapLength n slot by omega),
        Nat.mod_eq_of_lt hlast]
    rw [if_neg (by simp only [lapId]; omega)]
    simp only [lapId, hturn', Nat.succ_mul, Nat.add_assoc]
  · have hturn' : (turn + 1) % lapLength n slot = 0 := by
      rw [Nat.add_mod_eq_add_mod_right 1 (Nat.mod_mod turn _).symm,
        show turn % lapLength n slot + 1 = lapLength n slot by omega, Nat.mod_self]
    rw [if_pos (by simp only [lapId]; omega), lapId_mod hslot]
    simp only [lapId, hturn', Nat.zero_mul, Nat.add_zero]

/-- An entry of the log is the id of the turn that it stands at. -/
theorem lapIds_split {id : Nat} {xs ys : List Nat} (h : lapIds n slot turn = xs ++ id :: ys) :
    id = lapId n slot ys.length + 1 ∧ turn = xs.length + 1 + ys.length := by
  induction turn generalizing xs with
  | zero => simp [lapIds] at h
  | succ turn ih =>
      cases xs with
      | nil =>
          obtain ⟨rfl, rfl⟩ := List.cons.inj h
          have hlength : ∀ turn, (lapIds n slot turn).length = turn := fun turn => by
            induction turn with
            | zero => rfl
            | succ turn ih => rw [lapIds, List.length_cons, ih]
          rw [hlength]
          exact ⟨rfl, by rw [List.length_nil]; omega⟩
      | cons x xs =>
          obtain ⟨hid, hturn⟩ := ih (List.cons.inj h).2
          exact ⟨hid, by rw [List.length_cons]; omega⟩

end Ffid

/-! ## Runs with a log -/

/-- An allocator and what `ffid_new_id` has returned, each id with the index of its slot and
the last one first. -/
structure IdLog where
  pool : IdPool
  issued : List (Nat × Nat)

namespace IdLog

def newId (s : IdLog) : IdLog :=
  let (id, index, _) := ffidNewId s.pool.ff
  { pool := s.pool.newId
    issued := if id = 0 then s.issued else (id, index) :: s.issued }

def delId (s : IdLog) (id : Nat) : IdLog := { s with pool := s.pool.delId id }

end IdLog

def idLog : Machine IdLog IdPool.Action where
  Init s := ∃ maxSize, 0 < maxSize ∧ maxSize < 2 ^ 16 ∧ s = {
    pool := { ff := ffidCreate maxSize true, live := [], free := List.range maxSize, retired := [] }
    issued := [] }
  step s
    | .newId => some s.newId
    | .delId id => if id ∈ s.pool.live then some (s.delId id) else none

/-- How often a slot occurs. -/
def IdLog.turns (slot : Nat) (issued : List (Nat × Nat)) : Nat := issued.countP (·.2 = slot)

/-- Ids of a slot rise by `max_size` until they wrap, and do not come back soon. -/
structure IdLog.Spaced (s : IdLog) : Prop where
  id_slot : ∀ e ∈ s.issued, 0 < e.1 ∧ e.1 < 2 ^ 32 ∧ e.2 < s.pool.ff.maxSize ∧
    (e.1 - 1) % s.pool.ff.maxSize = e.2
  rises : ∀ later mid earlier a b slot,
    s.issued = later ++ (b, slot) :: mid ++ (a, slot) :: earlier → IdLog.turns slot mid = 0 →
    b = if a + s.pool.ff.maxSize < 2 ^ 32 then a + s.pool.ff.maxSize else slot + 1
  distance : ∀ later mid earlier id slot slot',
    s.issued = later ++ (id, slot) :: mid ++ (id, slot') :: earlier →
    (2 ^ 32 - 1) / s.pool.ff.maxSize - 1 ≤ IdLog.turns slot mid
  /-- Deleted ids are rejected. -/
  stale : ∀ e ∈ s.issued, e.1 ∉ s.pool.live → ffidHasId s.pool.ff e.1 = false
  /-- An id whose slot has been handed out again is rejected until it comes back. -/
  reissued : ∀ later earlier id slot, s.issued = later ++ (id, slot) :: earlier →
    0 < IdLog.turns slot later →
    IdLog.turns slot later < (2 ^ 32 - 1) / s.pool.ff.maxSize → ffidHasId s.pool.ff id = false

namespace IdLog

/-- What a slot has handed out. -/
def ofSlot (slot : Nat) (issued : List (Nat × Nat)) : List Nat :=
  (issued.filter (·.2 = slot)).map (·.1)

theorem length_ofSlot (slot : Nat) (issued : List (Nat × Nat)) :
    (ofSlot slot issued).length = turns slot issued := by
  rw [ofSlot, List.length_map, turns, List.countP_eq_length_filter]

theorem ofSlot_append (slot : Nat) (later earlier : List (Nat × Nat)) :
    ofSlot slot (later ++ earlier) = ofSlot slot later ++ ofSlot slot earlier := by
  simp only [ofSlot, List.filter_append, List.map_append]

theorem ofSlot_cons_self (id slot : Nat) (issued : List (Nat × Nat)) :
    ofSlot slot ((id, slot) :: issued) = id :: ofSlot slot issued := by
  simp only [ofSlot, List.filter_cons, decide_true, if_true, List.map_cons]

theorem ofSlot_cons_of_ne {id slot slot' : Nat} (hne : slot' ≠ slot) (issued : List (Nat × Nat)) :
    ofSlot slot ((id, slot') :: issued) = ofSlot slot issued := by
  simp only [ofSlot, List.filter_cons, hne, decide_false, Bool.false_eq_true, if_false]

/-- Every slot has gone through its ids in order. The ids are those of the last turn of their slot,
the free ones those of the next turn. -/
structure Inv (n : Nat) (s : IdLog) (ids : List Nat) : Prop where
  pool : IdPool.Inv n s.pool ids
  loop : s.pool.ff.isLoop = true
  slots : ∀ e ∈ s.issued, e.2 < n
  issued : ∀ slot < n, ofSlot slot s.issued = Ffid.lapIds n slot (turns slot s.issued)
  free : ∀ x ∈ ids, x = Ffid.lapId n (x % n) (turns (x % n) s.issued)
  live : ∀ id ∈ s.pool.live, ∃ turn, turns ((id - 1) % n) s.issued = turn + 1 ∧
    id - 1 = Ffid.lapId n ((id - 1) % n) turn

theorem turns_cons_self (id slot : Nat) (issued : List (Nat × Nat)) :
    turns slot ((id, slot) :: issued) = turns slot issued + 1 := by
  rw [← length_ofSlot, ofSlot_cons_self, List.length_cons, length_ofSlot]

theorem turns_cons_of_ne {id slot slot' : Nat} (hne : slot' ≠ slot) (issued : List (Nat × Nat)) :
    turns slot ((id, slot') :: issued) = turns slot issued := by
  rw [← length_ofSlot, ofSlot_cons_of_ne hne, length_ofSlot]

namespace Inv

variable {n : Nat} {s : IdLog} {ids : List Nat}

theorem newId (h : Inv n s ids) : Inv n s.newId ids.tail := by
  cases ids with
  | nil =>
      have hnew : s.newId = s := by
        simp only [IdLog.newId, IdPool.newId, h.pool.slots.newId_nil, if_true]
      rw [hnew]
      exact h
  | cons x ids =>
      obtain ⟨ff', hnew, -⟩ := h.pool.slots.newId_cons
      have hn := h.pool.slots.n_pos
      have hpool : s.newId.pool = { s.pool with
          ff := ff', live := (x + 1) :: s.pool.live, free := s.pool.free.tail } := by
        simp only [IdLog.newId, IdPool.newId, hnew, if_neg (Nat.succ_ne_zero x)]
      have hissued : s.newId.issued = (x + 1, x % n) :: s.issued := by
        simp only [IdLog.newId, hnew, if_neg (Nat.succ_ne_zero x)]
      have hnodup := h.pool.slots.nodup
      rw [List.map_cons, List.nodup_cons] at hnodup
      have hx := h.free x List.mem_cons_self
      refine ⟨h.pool.newId, ?_, fun e he => ?_, fun slot hslot => ?_, fun y hy => ?_,
        fun id hid => ?_⟩
      · rw [IdLog.newId, IdPool.newId_isLoop]
        exact h.loop
      · rw [hissued] at he
        cases he with
        | head => exact Nat.mod_lt x hn
        | tail _ he => exact h.slots e he
      · rw [hissued]
        by_cases hslot' : x % n = slot
        · subst hslot'
          rw [ofSlot_cons_self, turns_cons_self, Ffid.lapIds, ← hx, h.issued _ hslot]
        · rw [ofSlot_cons_of_ne hslot', turns_cons_of_ne hslot']
          exact h.issued slot hslot
      · have hne : x % n ≠ y % n := fun heq => hnodup.1 (heq ▸ List.mem_map_of_mem hy)
        rw [hissued, turns_cons_of_ne hne]
        exact h.free y (List.mem_cons_of_mem _ hy)
      · rw [hpool] at hid
        cases hid with
        | head =>
            refine ⟨turns (x % n) s.issued, ?_, ?_⟩
            · rw [hissued, Nat.add_sub_cancel, turns_cons_self]
            · rw [Nat.add_sub_cancel]
              exact hx
        | tail _ hid =>
            obtain ⟨-, -, hnot, -⟩ := h.pool.live_index hid
            have hne : x % n ≠ (id - 1) % n := fun heq => hnot (by
              rw [h.pool.free, List.map_cons, heq]
              exact List.mem_cons_self)
            rw [hissued, turns_cons_of_ne hne]
            exact h.live id hid

theorem delId (h : Inv n s ids) {id : Nat} (hid : id ∈ s.pool.live) :
    Inv n (s.delId id) (ids ++ [Ffid.nextId n (id - 1)]) := by
  have hpool := h.pool.delId hid
  have hloop : ¬ (s.pool.ff.isLoop = false ∧ 2 ^ 32 - 1 ≤ id - 1 + n) := by
    rw [h.loop]
    nofun
  rw [if_neg hloop] at hpool
  obtain ⟨turn, hturns, hlap⟩ := h.live id hid
  have hslot := Nat.mod_lt (id - 1) h.pool.slots.n_pos
  refine ⟨hpool, ?_, h.slots, h.issued, fun y hy => ?_, fun id' hid' => ?_⟩
  · exact (IdPool.delId_isLoop s.pool id).trans h.loop
  · cases List.mem_append.mp hy with
    | inl hy => exact h.free y hy
    | inr hy =>
        rw [List.mem_singleton.mp hy, Ffid.nextId_mod]
        show _ = Ffid.lapId n _ (turns _ s.issued)
        rw [hturns, ← Ffid.nextId_lapId hslot h.pool.slots.n_lt, ← hlap]
  · have hsub : (s.delId id).pool.live = s.pool.live.erase id := by
      simp only [IdLog.delId, IdPool.delId]
      split <;> rfl
    rw [hsub] at hid'
    exact h.live id' (List.mem_of_mem_erase hid')

/-- Two entries of a slot in the log and the turns they stand for. -/
theorem split (h : Inv n s ids) {later mid earlier : List (Nat × Nat)} {a b slot : Nat}
    (hissued : s.issued = later ++ (b, slot) :: mid ++ (a, slot) :: earlier) :
    slot < n ∧ ∃ turn, a = Ffid.lapId n slot turn + 1 ∧
      b = Ffid.lapId n slot (turns slot mid + 1 + turn) + 1 := by
  have hslot : slot < n := h.slots (a, slot) (by
    rw [hissued]
    exact List.mem_append_right _ List.mem_cons_self)
  have hlap := h.issued slot hslot
  rw [hissued, ofSlot_append, ofSlot_cons_self] at hlap
  obtain ⟨ha, -⟩ := Ffid.lapIds_split hlap.symm
  rw [ofSlot_append, ofSlot_cons_self, List.append_assoc, List.cons_append] at hlap
  obtain ⟨hb, -⟩ := Ffid.lapIds_split hlap.symm
  rw [List.length_append, List.length_cons, length_ofSlot, length_ofSlot] at hb
  rw [length_ofSlot] at ha
  refine ⟨hslot, turns slot earlier, ha, ?_⟩
  rw [hb, Nat.add_assoc, Nat.add_comm 1]

/-- The id of a turn comes back after whole laps. -/
theorem distance (h : Inv n s ids) {later mid earlier : List (Nat × Nat)} {id slot : Nat}
    (hissued : s.issued = later ++ (id, slot) :: mid ++ (id, slot) :: earlier) :
    (2 ^ 32 - 1) / n ≤ turns slot mid + 1 := by
  obtain ⟨hslot, turn, hid, hid'⟩ := h.split hissued
  have hlt := h.pool.slots.n_lt
  have hdvd := Ffid.lapId_distance hslot (Nat.succ.inj (hid.symm.trans hid'))
  exact (Ffid.lapLength_ge hslot hlt).trans (Nat.le_of_dvd (Nat.succ_pos _) hdvd)

/-- A live id is the last one that its slot has handed out. -/
theorem reissued (h : Inv n s ids) {later earlier : List (Nat × Nat)} {id slot : Nat}
    (hissued : s.issued = later ++ (id, slot) :: earlier) (hid : id ∈ s.pool.live)
    (hpos : 0 < turns slot later) : (2 ^ 32 - 1) / n ≤ turns slot later := by
  have hslot : slot < n := h.slots (id, slot) (by
    rw [hissued]
    exact List.mem_append_right _ List.mem_cons_self)
  have hlt := h.pool.slots.n_lt
  have hlap := h.issued slot hslot
  rw [hissued, ofSlot_append, ofSlot_cons_self] at hlap
  obtain ⟨hturn, hcount⟩ := Ffid.lapIds_split hlap.symm
  rw [length_ofSlot, length_ofSlot, ← hissued] at hcount
  rw [length_ofSlot] at hturn
  obtain ⟨turn, hturns, hlast⟩ := h.live id hid
  rw [hturn, Nat.add_sub_cancel, Ffid.lapId_mod hslot] at hturns hlast
  have hturn' : turn = turns slot later + turns slot earlier := by omega
  have hdvd := Ffid.lapId_distance hslot (hturn' ▸ hlast)
  exact (Ffid.lapLength_ge hslot hlt).trans (Nat.le_of_dvd hpos hdvd)

theorem id_slot (h : Inv n s ids) {id slot : Nat} (he : (id, slot) ∈ s.issued) :
    0 < id ∧ id < 2 ^ 32 ∧ slot < n ∧ (id - 1) % n = slot := by
  obtain ⟨later, earlier, hissued⟩ := List.append_of_mem he
  have hslot := h.slots _ he
  have hlap := h.issued slot hslot
  rw [hissued, ofSlot_append, ofSlot_cons_self] at hlap
  obtain ⟨rfl, -⟩ := Ffid.lapIds_split hlap.symm
  have hid := @Ffid.lapId_lt n slot (ofSlot slot earlier).length hslot h.pool.slots.n_lt
  refine ⟨Nat.succ_pos _, Nat.lt_sub_iff_add_lt.mp hid, hslot, ?_⟩
  rw [Nat.add_sub_cancel, Ffid.lapId_mod hslot]

theorem spaced (h : Inv n s ids) : s.Spaced := by
  obtain rfl := h.pool.slots.maxSize
  have hstale : ∀ id slot, (id, slot) ∈ s.issued → id ∉ s.pool.live →
      ffidHasId s.pool.ff id = false := by
    intro id slot he hid
    rw [← Bool.not_eq_true]
    exact mt (h.pool.live_iff id (h.id_slot he).2.1).mp hid
  refine ⟨fun e he => h.id_slot he, ?_, ?_, fun e he => hstale e.1 e.2 he, ?_⟩
  · intro later mid earlier a b slot hissued hmid
    obtain ⟨hslot, turn, rfl, rfl⟩ := h.split hissued
    rw [hmid, Nat.zero_add, Nat.add_comm 1, ← Ffid.nextId_lapId hslot h.pool.slots.n_lt,
      Ffid.nextId, Ffid.lapId_mod hslot]
    split_ifs <;> omega
  · intro later mid earlier id slot slot' hissued
    have hlater : (id, slot) ∈ s.issued := by
      rw [hissued, List.append_assoc]
      exact List.mem_append_right _ List.mem_cons_self
    have hearlier : (id, slot') ∈ s.issued := by
      rw [hissued]
      exact List.mem_append_right _ List.mem_cons_self
    obtain rfl : slot = slot' :=
      (h.id_slot hlater).2.2.2.symm.trans (h.id_slot hearlier).2.2.2
    exact Nat.sub_le_of_le_add (h.distance hissued)
  · intro later earlier id slot hissued hpos hlt
    refine hstale id slot ?_ fun hid => ?_
    · rw [hissued]
      exact List.mem_append_right _ List.mem_cons_self
    · exact Nat.not_le_of_lt hlt (h.reissued hissued hid hpos)

end Inv

theorem Inv.of_run {s : IdLog} (h : idLog.Reachable s) : ∃ n ids, Inv n s ids := by
  refine @Machine.Reachable.invariant _ _ idLog _ (fun s => ∃ n ids, Inv n s ids) ?_ ?_ h
  · rintro _ ⟨maxSize, hpos, hlt, rfl⟩
    refine ⟨maxSize, _, .init hpos hlt, rfl, nofun, fun _ _ => rfl, fun x hx => ?_, nofun⟩
    have hx := List.mem_range.mp hx
    rw [Nat.mod_eq_of_lt hx]
    exact (Ffid.lapId_zero maxSize x).symm
  · rintro s t i ⟨n, ids, hs⟩ ht
    cases i with
    | newId =>
        cases ht
        exact ⟨n, _, hs.newId⟩
    | delId id =>
        have ht : (if id ∈ s.pool.live then some (s.delId id) else none) = some t := ht
        split_ifs at ht with hid
        cases ht
        exact ⟨n, _, hs.delId hid⟩

end IdLog

/-- In every run in loop mode that deletes only live ids, an id comes back only after its slot
has gone through a lap, and is rejected until then. -/
theorem idLog_spaced {s : IdLog} (h : idLog.Reachable s) : s.Spaced := by
  obtain ⟨n, ids, hinv⟩ := IdLog.Inv.of_run h
  exact hinv.spaced

/-- The only slot is handed out twice. -/
theorem idLog_spaced_twice : ∃ s : IdLog, s.issued = [(2, 0), (1, 0)] ∧ s.Spaced ∧
    ffidHasId s.pool.ff 1 = false := by
  have hrun : ∃ s, idLog.run
      { pool := { ff := ffidCreate 1 true, live := [], free := List.range 1, retired := [] }
        issued := [] }
      [.newId, .delId 1, .newId] = some s ∧ s.issued = [(2, 0), (1, 0)] ∧
      s.pool.ff.maxSize = 1 := ⟨_, rfl, rfl, rfl⟩
  obtain ⟨s, hrun, hissued, hsize⟩ := hrun
  have hinit : idLog.Init
      { pool := { ff := ffidCreate 1 true, live := [], free := List.range 1, retired := [] }
        issued := [] } :=
    ⟨1, by decide, by decide, rfl⟩
  have hs := Machine.Reachable.run (.init hinit) hrun
  refine ⟨s, hissued, idLog_spaced hs, (idLog_spaced hs).reissued [(2, 0)] [] 1 0 hissued ?_ ?_⟩
  · decide
  · rw [hsize]
    decide

end RandServer
