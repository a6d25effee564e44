import Mathlib.Data.Int.DivMod
import RandServer.Lua.LuaServer
import RandServer.Lua.Moved
import RandServer.Lua.RoundTrip

/-!
# Peeling a message

`lua_service_unpack` of `lua_server.c`. It decodes a message up to a limit and returns the
number of values less the number of those to skip, which is negative if the message has
fewer or is malformed. The interpreter then takes no result: `luaD_poscall` copies from
the first result to the top of the stack, and the first result is above the top.

Both numbers are Lua integers that are cast to `int`. A number of values to skip that an
`int` cannot hold becomes another one, or a negative one, for which results are taken from
below the values.
-/

namespace RandServer

variable {inp : Input} {L L' : LuaState}

/-- The results that `luaD_poscall` takes from the stack of a function that returned `n`.
It does not ask whether there are so many. -/
def luaDPoscall (stack : List LuaValue) (n : Int) : Except Stop (List LuaValue) :=
  if (stack.length : Int) < n then .error .segfault
  else .ok (stack.drop (stack.length - n).toNat)

theorem luaDPoscall_append (args values : List LuaValue) {start : Int} (hstart : 0 ≤ start) :
    luaDPoscall (args ++ values) (values.length - start) = .ok (values.drop start.toNat) := by
  have hfirst : (((args ++ values).length : Nat) - (values.length - start) : Int).toNat =
      args.length + start.toNat := by
    rw [List.length_append]
    omega
  rw [luaDPoscall, if_neg (by rw [List.length_append]; omega), hfirst, List.drop_append,
    List.drop_of_length_le (by omega), List.nil_append, Nat.add_sub_cancel_left]

theorem luaDPoscall_of_nonpos (stack : List LuaValue) {n : Int} (h : n ≤ 0) :
    luaDPoscall stack n = .ok [] := by
  rw [luaDPoscall, if_neg (by omega), List.drop_of_length_le (by omega)]

theorem luaDPoscall_length {stack results : List LuaValue} {n : Int}
    (h : luaDPoscall stack n = .ok results) : (results.length : Int) = max 0 n := by
  unfold luaDPoscall at h
  split_ifs at h with hlt
  cases h
  rw [List.length_drop]
  omega

/-- The cast of a Lua integer to `int`. -/
def toInt (i : Int) : Int := i.bmod (2 ^ 32)

theorem toInt_of_lt {i : Int} (hlo : -2 ^ 31 ≤ i) (hhi : i < 2 ^ 31) : toInt i = i := by
  rw [toInt, Int.bmod_def]
  split_ifs <;> omega

theorem toInt_lt (i : Int) : toInt i < 2 ^ 31 := by
  rw [toInt, Int.bmod_def]
  split_ifs <;> omega

/-- How a call of `lua_service_unpack` ends. -/
structure UnpackEnd where
  lua : LuaState
  results : List LuaValue

/-- `lua_service_unpack`, called by the service's own state with the arguments `args`. `ret`
and `start` are its two integers, the fourth and the fifth argument, or -1 and 0. A failed
decode leaves `left` on the stack. -/
def luaServiceUnpack (s : LuaService) (L : LuaState) (args left : List LuaValue) (inp : Input)
    (ret start : Int) : Except Stop UnpackEnd :=
  let ret := toInt ret
  let start := toInt start
  if s.state = false then (luaDPoscall args 0).map fun results => { lua := L, results := results }
  else
    match deserializeUnpack inp ret L with
    | .ok values d =>
        (luaDPoscall (args ++ values) (values.length - start)).map fun results =>
          { lua := d.lua, results := results }
    | .error (.error _ _) d =>
        (luaDPoscall (args ++ left) (0 - start)).map fun results =>
          { lua := d.lua, results := results }
    | .error e _ => .error e

section Runs

variable {s : LuaService} {args left args' left' values : List LuaValue} {d : Deser}
  {n start : Int}

theorem luaServiceUnpack_idle (h : s.state = false) (L : LuaState) :
    luaServiceUnpack s L args left inp n start = .ok { lua := L, results := [] } := by
  simp only [luaServiceUnpack, if_pos h, luaDPoscall_of_nonpos _ (Int.le_refl 0)]
  rfl

theorem luaServiceUnpack_ok (hstate : s.state = true) (hstart : 0 ≤ toInt start)
    (h : deserializeUnpack inp (toInt n) L = .ok values d) :
    luaServiceUnpack s L args left inp n start =
      .ok { lua := d.lua, results := values.drop (toInt start).toNat } := by
  simp only [luaServiceUnpack, hstate, h, Bool.true_eq_false, if_false,
    luaDPoscall_append args values hstart]
  rfl

theorem luaServiceUnpack_malformed {code : EnError} {info : Int} (hstate : s.state = true)
    (hstart : 0 ≤ toInt start)
    (h : deserializeUnpack inp (toInt n) L = .error (.error code info) d) :
    luaServiceUnpack s L args left inp n start = .ok { lua := d.lua, results := [] } := by
  simp only [luaServiceUnpack, hstate, h, Bool.true_eq_false, if_false,
    luaDPoscall_of_nonpos (args ++ left) (by omega : 0 - toInt start ≤ 0)]
  rfl

/-- A run of the decoder under a limit is the beginning of a run without one. -/
theorem unpackValues_take {room : Nat → Nat} {fuel : Nat} {vs : List LuaValue} {d' : Deser}
    (h : unpackValues inp room (-1) fuel values d = .ok vs d') :
    (∃ rest, vs = values ++ rest) ∧ ∀ n : Nat, values.length < n →
      ∃ d'', unpackValues inp room n fuel values d = .ok (vs.take n) d'' := by
  induction fuel generalizing values d with
  | zero => cases h
  | succ fuel ih =>
      by_cases hpos : inp.size ≤ d.pos
      · rw [unpackValues_end hpos] at h
        cases h
        refine ⟨⟨[], (List.append_nil _).symm⟩, fun n hn => ⟨d', ?_⟩⟩
        rw [List.take_of_length_le (Nat.le_of_lt hn)]
        exact unpackValues_end hpos
      have hlt := Nat.lt_of_not_le hpos
      cases hrun : unpackObj inp (room values.length) d with
      | error e d₁ =>
          rw [unpackValues_error hlt hrun] at h
          cases h
      | ok res d₁ =>
          obtain ⟨ser, _ | value⟩ := res
          · rw [unpackValues_none hlt hrun] at h
            cases h
          rw [unpackValues_value hlt hrun, if_neg (by omega)] at h
          obtain ⟨⟨rest, hrest⟩, hlimit⟩ := ih h
          refine ⟨⟨value :: rest, by rw [hrest, List.append_assoc]; rfl⟩, fun n hn => ?_⟩
          rw [unpackValues_value hlt hrun]
          have hlength : (values ++ [value]).length = values.length + 1 := List.length_append
          by_cases hlast : (n : Int) ≤ values.length + 1
          · rw [if_pos ⟨by omega, hlast⟩]
            have hn : n = (values ++ [value]).length := by omega
            exact ⟨d₁, by rw [hrest, hn, List.take_left]⟩
          · rw [if_neg (fun hcount => hlast hcount.2)]
            exact hlimit n (by omega)

theorem deserializeUnpack_take {vs : List LuaValue}
    (h : deserializeUnpack inp (-1) L = .ok vs d) {n : Int} (hn : 0 < n) :
    ∃ d', deserializeUnpack inp n L = .ok (vs.take n.toNat) d' := by
  obtain ⟨n, rfl⟩ := Int.eq_ofNat_of_zero_le (Int.le_of_lt hn)
  exact (unpackValues_take h).2 n (Int.natCast_pos.mp hn)

/-- What a decode gives in one state, it gives in a later one. -/
theorem deserializeUnpack_later (hlater : L.Extends L')
    (h : deserializeUnpack inp n L = .ok values d) :
    ∃ d', deserializeUnpack inp n L' = .ok (values.map (L.moveTo L')) d' := by
  have hrun := deserializeUnpack_moves hlater inp n
  rw [h] at hrun
  generalize deserializeUnpack inp n L' = r at hrun
  cases hrun with
  | ok hvalues _ => exact ⟨_, by rw [hvalues]⟩

theorem deserializeUnpack_later_error {e : Stop} (hlater : L.Extends L')
    (h : deserializeUnpack inp n L = .error e d) :
    ∃ d', deserializeUnpack inp n L' = .error e d' := by
  have hrun := deserializeUnpack_moves hlater inp n
  rw [h] at hrun
  generalize deserializeUnpack inp n L' = r at hrun
  cases hrun with
  | error _ => exact ⟨_, rfl⟩

theorem toInt_zero : toInt 0 = 0 := rfl

/-- A call that skips values, after a call that does not. -/
theorem luaServiceUnpack_skip (hstart : 0 ≤ toInt start) (hlater : L.Extends L') {t : UnpackEnd}
    (h : luaServiceUnpack s L args left inp n 0 = .ok t) :
    ∃ t', luaServiceUnpack s L' args' left' inp n start = .ok t' ∧
      t'.results = (t.results.drop (toInt start).toNat).map (L.moveTo L') := by
  cases hstate : s.state with
  | false =>
      rw [luaServiceUnpack_idle hstate] at h
      cases h
      refine ⟨_, luaServiceUnpack_idle hstate L', ?_⟩
      rw [List.drop_nil, List.map_nil]
  | true =>
      cases hrun : deserializeUnpack inp (toInt n) L with
      | ok values d =>
          rw [luaServiceUnpack_ok hstate (Int.le_of_eq toInt_zero.symm) hrun] at h
          cases h
          obtain ⟨d', hrun'⟩ := deserializeUnpack_later hlater hrun
          refine ⟨_, luaServiceUnpack_ok hstate hstart hrun', ?_⟩
          show _ = ((values.drop 0).drop _).map _
          rw [List.drop_zero, List.map_drop]
      | error e d =>
          obtain ⟨d', hrun'⟩ := deserializeUnpack_later_error hlater hrun
          cases e with
          | error code info =>
              rw [luaServiceUnpack_malformed hstate (Int.le_of_eq toInt_zero.symm) hrun] at h
              cases h
              refine ⟨_, luaServiceUnpack_malformed hstate hstart hrun', ?_⟩
              rw [List.drop_nil, List.map_nil]
          | _ =>
              simp only [luaServiceUnpack, hstate, hrun, Bool.true_eq_false, if_false] at h
              cases h

theorem luaServiceUnpack_skip_error (hlater : L.Extends L') {e : Stop}
    (h : luaServiceUnpack s L args left inp n 0 = .error e) :
    luaServiceUnpack s L' args' left' inp n start = .error e := by
  cases hstate : s.state with
  | false =>
      rw [luaServiceUnpack_idle hstate] at h
      cases h
  | true =>
      cases hrun : deserializeUnpack inp (toInt n) L with
      | ok values d =>
          rw [luaServiceUnpack_ok hstate (Int.le_of_eq toInt_zero.symm) hrun] at h
          cases h
      | error e' d =>
          obtain ⟨d', hrun'⟩ := deserializeUnpack_later_error hlater hrun
          cases e' with
          | error code info =>
              rw [luaServiceUnpack_malformed hstate (Int.le_of_eq toInt_zero.symm) hrun] at h
              cases h
          | _ =>
              simp only [luaServiceUnpack, hstate, hrun, Bool.true_eq_false, if_false] at h
              simp only [luaServiceUnpack, hstate, hrun', Bool.true_eq_false, if_false]
              exact h

end Runs

/-! ## Messages of nils -/

/-- There are messages of any number of values. -/
theorem exists_message (k : Nat) : ∃ inp : Input, ∀ (n : Int) (L : LuaState), Asks n k →
    ∃ d, deserializeUnpack inp n L = .ok (List.replicate k .nil) d := by
  let sender : LuaState := { tables := [], userdata := [], metatables := [] }
  have hempty : ∀ t, sender.entries t = [] := fun t => rfl
  have hnil : ∀ v, sender.Occurs (List.replicate k .nil) v → v = .nil := by
    intro v hv
    cases hv with
    | root hmem => exact List.eq_of_mem_replicate hmem
    | key _ he =>
        rw [hempty] at he
        cases he
    | value _ he =>
        rw [hempty] at he
        cases he
  have hreach : ∀ t, ¬ sender.Reach (List.replicate k .nil) t := by
    intro t ht
    induction ht with
    | root hmem => cases List.eq_of_mem_replicate hmem
    | key _ he =>
        rw [hempty] at he
        cases he
    | value _ he =>
        rw [hempty] at he
        cases he
  have hfew : sender.Few (List.replicate k .nil) := by
    intro ts _ hts
    cases ts with
    | nil => exact Nat.two_pow_pos 31
    | cons t ts => exact absurd (hts t List.mem_cons_self) (hreach t)
  have hplain : Plain sender (sender.Occurs (List.replicate k .nil)) 0 := plain_of_flag rfl
  obtain ⟨m, hm⟩ := (serializePack_isOk_iff hplain).mpr hfew
  obtain ⟨linked, depth, hpacked⟩ := serializePack_packed hplain hm
  refine ⟨⟨m.data, m.data.length, Nat.le_refl _⟩, fun n L hask => ?_⟩
  have hinp : Input.Carries ⟨m.data, m.data.length, Nat.le_refl _⟩ m.data := List.take_length
  obtain ⟨values, d, f, hrun, hcopies⟩ := hpacked.unpack
    (fun v hv _ _ => by rw [hnil v hv]; exact roundTrips_nil)
    (fun t ht => absurd ht (hreach t)) hinp
    (by rw [List.length_replicate]; exact hask) L
  rw [hcopies.roots, List.map_replicate] at hrun
  exact ⟨d, hrun⟩

def runningService : LuaService where
  flag := false
  state := true
  nodeSize := 0
  nodes := []

/-! ## The results -/

/-- A call that skips `start` values gives the last values of a call that does not, or it
stops as that one does. The later call sees the objects that the earlier one created. -/
def SkipsValues (start : Int) : Prop :=
  ∀ (s : LuaService) (inp : Input) (n : Int) (L L' : LuaState)
    (args left args' left' : List LuaValue), 0 ≤ start → L.Extends L' →
    (∀ t, luaServiceUnpack s L args left inp n 0 = .ok t →
      ∃ t', luaServiceUnpack s L' args' left' inp n start = .ok t' ∧
        (t'.results.length : Int) = max 0 (t.results.length - start) ∧
        t'.results = (t.results.drop start.toNat).map (L.moveTo L')) ∧
    ∀ e, luaServiceUnpack s L args left inp n 0 = .error e →
      luaServiceUnpack s L' args' left' inp n start = .error e

/-- A call that asks for `n` values gives the first values of a full decode. -/
def LimitsValues (n : Int) : Prop :=
  ∀ (s : LuaService) (inp : Input) (L L' : LuaState) (args left vs : List LuaValue) (d : Deser),
    0 < n → s.state = true → L.Extends L' → deserializeUnpack inp (-1) L = .ok vs d →
      ∃ t, luaServiceUnpack s L' args left inp n 0 = .ok t ∧
        t.results = (vs.take n.toNat).map (L.moveTo L')

theorem skipsValues_iff {start : Int} : SkipsValues start ↔ start < 2 ^ 31 := by
  constructor
  · intro h
    by_contra hge
    have hstart : 0 ≤ start := by omega
    have hlt := toInt_lt start
    -- A message with one value more than the cast skips, or an empty one.
    obtain ⟨inp, hinp⟩ := exists_message (toInt start + 1).toNat
    obtain ⟨d, hrun⟩ := hinp 0 ⟨[], [], []⟩ fun hpos => absurd hpos (by decide)
    obtain ⟨t', hrun', hlength, -⟩ := (h runningService inp 0 _ _ [] [] [] [] hstart
      (.refl ⟨[], [], []⟩)).1 _ (luaServiceUnpack_ok rfl (Int.le_of_eq toInt_zero.symm) hrun)
    simp only [luaServiceUnpack, runningService, toInt_zero, hrun, Bool.true_eq_false,
      if_false] at hrun'
    cases hresults : luaDPoscall ([] ++ List.replicate (toInt start + 1).toNat .nil)
      ((List.replicate (toInt start + 1).toNat LuaValue.nil).length - toInt start) with
    | error e =>
        rw [hresults] at hrun'
        cases hrun'
    | ok results =>
        rw [hresults] at hrun'
        cases hrun'
        have hmany := luaDPoscall_length hresults
        simp only [toInt_zero, Int.toNat_zero, List.drop_zero, List.length_replicate]
          at hlength hmany
        omega
  · intro hlt s inp n L L' args left args' left' hstart hlater
    have hcast := toInt_of_lt (by omega : -2 ^ 31 ≤ start) hlt
    refine ⟨fun t h => ?_, fun e h => luaServiceUnpack_skip_error hlater h⟩
    obtain ⟨t', hrun, hresults⟩ := luaServiceUnpack_skip (by rw [hcast]; exact hstart) hlater h
    rw [hcast] at hresults
    refine ⟨t', hrun, ?_, hresults⟩
    rw [hresults, List.length_map, List.length_drop]
    omega

theorem limitsValues_iff {n : Int} : LimitsValues n ↔ n < 2 ^ 31 := by
  have hzero : (0 : Int) ≤ toInt 0 := Int.le_refl 0
  constructor
  · intro h
    by_contra hge
    have hn : 0 < n := by omega
    have hlt := toInt_lt n
    -- One value more than the cast asks for, or than `n` if it asks for all values.
    obtain ⟨inp, hinp⟩ := exists_message
      (if 0 < toInt n then (toInt n + 1).toNat else (n + 1).toNat)
    obtain ⟨d, hrun⟩ := hinp (-1) ⟨[], [], []⟩ fun hpos => absurd hpos (by decide)
    obtain ⟨t, ht, hresults⟩ := h runningService inp _ _ [] [] _ d hn rfl (.refl ⟨[], [], []⟩) hrun
    have hlength := congrArg List.length hresults
    by_cases hpos : 0 < toInt n
    · obtain ⟨d', hrun'⟩ := deserializeUnpack_take hrun hpos
      rw [luaServiceUnpack_ok rfl hzero hrun'] at ht
      cases ht
      simp only [if_pos hpos, toInt_zero, Int.toNat_zero, List.drop_zero, List.length_map,
        List.length_take, List.length_replicate] at hlength
      omega
    · obtain ⟨d', hrun'⟩ := hinp (toInt n) ⟨[], [], []⟩ fun h => absurd h hpos
      rw [luaServiceUnpack_ok rfl hzero hrun'] at ht
      cases ht
      simp only [if_neg hpos, toInt_zero, Int.toNat_zero, List.drop_zero, List.length_map,
        List.length_take, List.length_replicate] at hlength
      omega
  · intro hlt s inp L L' args left vs d hn hstate hlater h
    have hcast := toInt_of_lt (by omega : -2 ^ 31 ≤ n) hlt
    obtain ⟨d₁, hlimit⟩ := deserializeUnpack_take h hn
    obtain ⟨d₂, hlimit'⟩ := deserializeUnpack_later hlater hlimit
    exact ⟨_, luaServiceUnpack_ok hstate hzero (by rw [hcast]; exact hlimit'), List.drop_zero⟩

/-- Calls with the same bytes agree exactly if their numbers fit into an `int`: one that
skips values gives the last values of one that does not, and a limit gives the first values
of a full decode. The first value and the others complete each other. -/
theorem serviceUnpack_peels_iff (n start : Int) :
    (SkipsValues start ↔ start < 2 ^ 31) ∧ (LimitsValues n ↔ n < 2 ^ 31) ∧
    ∀ (s : LuaService) (inp : Input) (L : LuaState) (args left args' left' vs : List LuaValue)
      (d : Deser), s.state = true → deserializeUnpack inp (-1) L = .ok vs d →
      ∃ t t', luaServiceUnpack s L args left inp 1 0 = .ok t ∧
        luaServiceUnpack s t.lua args' left' inp (-1) 1 = .ok t' ∧
        t.results = vs.take 1 ∧ t'.results = (vs.drop 1).map (L.moveTo t.lua) := by
  refine ⟨skipsValues_iff, limitsValues_iff, ?_⟩
  intro s inp L args left args' left' vs d hstate h
  obtain ⟨d₁, hfirst⟩ := deserializeUnpack_take h (by decide : (0 : Int) < 1)
  obtain ⟨d₂, hsecond⟩ := deserializeUnpack_later (deserializeUnpack_extends hfirst) h
  refine ⟨_, _, luaServiceUnpack_ok hstate (Int.le_refl 0) hfirst,
    luaServiceUnpack_ok hstate (by decide) hsecond, ?_, ?_⟩
  · exact List.drop_zero
  · exact List.map_drop.symm

/-- A message that is a nil. -/
def nilMessage : Input where
  mem := [1]
  size := 1
  size_le := Nat.le_refl 1

/-- Skipping `2 ^ 32` values skips none. -/
theorem serviceUnpack_wraps : ¬ ∀ n start, SkipsValues start ∧ LimitsValues n := by
  intro h
  have hrun : luaServiceUnpack runningService ⟨[], [], []⟩ [] [] nilMessage (-1) 0 =
      .ok ⟨⟨[], [], []⟩, [.nil]⟩ := rfl
  obtain ⟨t', hrun', hlength, -⟩ := ((h 0 (2 ^ 32)).1 runningService nilMessage (-1) _ _ [] [] []
    [] (by decide) (.refl ⟨[], [], []⟩)).1 _ hrun
  have hwrap : luaServiceUnpack runningService ⟨[], [], []⟩ [] [] nilMessage (-1) (2 ^ 32) =
      .ok ⟨⟨[], [], []⟩, [.nil]⟩ := rfl
  rw [hwrap] at hrun'
  cases hrun'
  exact absurd hlength (by decide)

end RandServer
