import RandServer.Lua.BadKey

/-!
# Packing and unpacking

Unpacking a message of `serialize_pack` rebuilds the graph of its arguments. Values that
are not supported come back as nil, and their entries are missing, unless one of them is a
key. That key is packed as nil, and the message cannot be unpacked.
-/

namespace RandServer

variable {L : LuaState} {args : List LuaValue} {flag : Nat}

/-! ## The loop over the values -/

section Loop

variable {inp : Input} {room : Nat → Nat} {resCount : Int} {stack : Nat} {d d' : Deser}
  {vs values : List LuaValue}

theorem unpackObj_lt {fuel : Nat} {ser : EnSer} {v : LuaValue}
    (h : unpackObj inp fuel d = .ok (ser, some v) d') : d.pos < inp.size := by
  by_contra hge
  cases fuel with
  | zero => cases h
  | succ fuel =>
      rw [unpackObj_end (Nat.le_of_not_lt hge)] at h
      cases h

theorem unpackObj_lt_of_error {fuel : Nat} (h : unpackObj inp (fuel + 1) d = .error .luaError d') :
    d.pos < inp.size := by
  by_contra hge
  rw [unpackObj_end (Nat.le_of_not_lt hge)] at h
  cases h

/-- All values are returned if there is room for them. -/
theorem Reads.unpackValues (h : Reads inp stack d vs d') (hend : inp.size ≤ d'.pos)
    (hroom : ∀ below < values.length + vs.length, stack ≤ room below)
    (hcount : 0 < resCount → values.length + vs.length ≤ resCount) (n : Nat) :
    unpackValues inp room resCount (vs.length + (n + 1)) values d = .ok (values ++ vs) d' := by
  induction h generalizing values with
  | nil =>
      rw [List.length_nil, Nat.zero_add, List.append_nil]
      exact unpackValues_end hend
  | @cons d d₁ d' v vs ser hrun hser hrest ih =>
      have hlen : (v :: vs).length + (n + 1) = vs.length + (n + 1) + 1 := by
        rw [List.length_cons]
        omega
      have happend : values ++ v :: vs = values ++ [v] ++ vs := by
        rw [List.append_assoc]
        rfl
      rw [List.length_cons] at hroom hcount
      have hmore := unpackObj_more (hroom values.length (by omega)) (by rw [hrun]; exact nofun)
      rw [hlen, unpackValues_value (unpackObj_lt hrun) (hmore.trans hrun), happend]
      split_ifs with hstop
      · obtain rfl : vs = [] := by
          have hle := hcount hstop.1
          exact List.length_eq_zero_iff.mp (by omega)
        cases hrest
        rw [List.append_nil]
      · refine ih hend (fun below hbelow => hroom below ?_) fun hpos => ?_
        · rw [List.length_append, List.length_singleton] at hbelow
          omega
        · have hle := hcount hpos
          rw [List.length_append, List.length_singleton]
          omega

/-- An error within the values that are asked for is raised. -/
theorem ReadsRaise.unpackValues {count : Nat} (h : ReadsRaise inp (inp.size + 1) count d)
    (hcount : 0 < resCount → values.length + count ≤ resCount) (n : Nat) :
    ∃ d', unpackValues inp (fun _ => inp.size + 1) resCount (count + n) values d =
      .error .luaError d' := by
  obtain ⟨us, d₁, d₂, hreads, hlt, hrun⟩ := h
  induction hreads generalizing values count with
  | nil =>
      obtain ⟨count, rfl⟩ : ∃ m, count = m + 1 := ⟨count - 1, by omega⟩
      rw [Nat.add_right_comm]
      exact ⟨d₂, unpackValues_error (unpackObj_lt_of_error hrun) hrun⟩
  | @cons d d' _ v vs ser hone hser hrest ih =>
      rw [List.length_cons] at hlt
      obtain ⟨count, rfl⟩ : ∃ m, count = m + 1 := ⟨count - 1, by omega⟩
      rw [Nat.add_right_comm, unpackValues_value (unpackObj_lt hone) hone, if_neg ?_]
      · refine ih (fun hpos => ?_) (by omega) hrun
        have hle := hcount hpos
        rw [List.length_append, List.length_singleton]
        omega
      · rintro ⟨hpos, hstop⟩
        have hle := hcount hpos
        omega

end Loop

/-! ## Messages -/

theorem RoundTrips.supported {v : LuaValue} (h : RoundTrips v) : v.supported = true := by
  cases hs : v.supported with
  | true => rfl
  | false =>
      have hhas : Input.Has ⟨scalarBytes .nil, 1, Nat.le_refl 1⟩ 0 (scalarBytes .nil) :=
        ⟨Nat.le_refl 1, rfl⟩
      obtain ⟨ser, -, hrun⟩ := h ⟨scalarBytes .nil, 1, Nat.le_refl 1⟩ 0
        ⟨0, 0, [], ⟨[], [], []⟩⟩ (by rw [scalarBytes_of_not_supported hs]; exact hhas)
      obtain ⟨ser', -, hnil⟩ := roundTrips_nil _ 0 ⟨0, 0, [], ⟨[], [], []⟩⟩ hhas
      rw [hnil] at hrun
      cases hrun
      cases hs

theorem sync_init (L : LuaState) :
    Sync [] L.tables.length .empty { pos := 0, seen := 0, refs := [], lua := L } :=
  ⟨rfl, rfl⟩

namespace Packed

variable {P : LuaValue → Prop} {bytes : List UInt8} {linked : Bool} {depth : Nat} {N : Numbering}

theorem final (h : Packed L P .empty (.values args) bytes linked depth N) : Final L N := by
  obtain ⟨ts, hvisit⟩ := h.visit
  refine ⟨h.valid Numbering.empty_valid, fun id hid t ht => ?_⟩
  refine hvisit.covered t (List.mem_append_right _ ?_)
  exact List.mem_flatMap.mpr ⟨id, (hvisit.mem id).mpr ⟨rfl, hid⟩, ht⟩

theorem clean_iff (h : Packed L (L.Occurs args) .empty (.values args) bytes linked depth N) :
    Clean L .empty N (.values args) ↔ L.KeysSupported args := by
  obtain ⟨ts, hvisit⟩ := h.visit
  constructor
  · rintro ⟨hclean, -⟩ t ht
    exact hclean t rfl (h.reach_covered ht)
  · intro hkeys
    exact ⟨fun t hnone hsome => hkeys t (hvisit.holds t ((hvisit.mem t).mpr ⟨hnone, hsome⟩)).reach,
      trivial⟩

/-- What has been rebuilt is a copy of the graph. -/
theorem copies (h : Packed L P .empty (.values args) bytes linked depth N) {base : Nat}
    {L' : LuaState}
    (hrebuilt : ∀ t, N.refs t ≠ none →
      L'.entries (copyId base N t) = imageEntries (copyId base N) (L.entries t)) :
    L.Copies L' args (args.map (·.image (copyId base N))) (copyId base N) := by
  refine ⟨rfl, fun t u ht hu heq => ?_, fun t ht => ?_⟩
  · exact h.final.copyId_inj (h.reach_covered ht) (h.reach_covered hu) heq
  · rw [hrebuilt t (h.reach_covered ht)]

end Packed

/-- An input that holds just a message. -/
def Input.Carries (inp : Input) (bytes : List UInt8) : Prop := inp.mem.take inp.size = bytes

theorem Input.Carries.length {inp : Input} {bytes : List UInt8} (h : inp.Carries bytes) :
    bytes.length = inp.size := by
  have hsize := inp.size_le
  rw [← h, List.length_take]
  omega

/-- A result count that does not cut the values off. -/
def Asks (resCount : Int) (count : Nat) : Prop := 0 < resCount → (count : Int) ≤ resCount

section Unpack

variable {bytes : List UInt8} {linked : Bool} {depth : Nat} {N : Numbering} {inp : Input}
  {resCount : Int}

/-- A message with supported keys is unpacked if there is room for its nesting. -/
theorem Packed.unpackWithin
    (hcodec : ∀ v, L.Occurs args v → v.isTable = false → v.supported = true → RoundTrips v)
    (h : Packed L (L.Occurs args) .empty (.values args) bytes linked depth N)
    (hkeys : L.KeysSupported args) (hinp : inp.Carries bytes) (hcount : Asks resCount args.length)
    {room : Nat → Nat} (hroom : ∀ below < args.length, depth < room below) (receiver : LuaState) :
    ∃ values d f, deserializeUnpackWithin room inp resCount receiver = .ok values d ∧
      L.Copies d.lua args values f := by
  have hlen := hinp.length
  have hle : args.length ≤ bytes.length := h.length_le
  obtain ⟨d, hreads, hrebuilt⟩ := h.readsBack hcodec h.final Numbering.empty_valid (.refl _)
    (h.clean_iff.mpr hkeys) (.inl rfl) (sync_init receiver) (.whole hinp) (Nat.lt_succ_self depth)
  have hend : inp.size ≤ d.pos := by
    rw [hrebuilt.pos, hlen]
    exact Nat.le_add_left _ _
  obtain ⟨n, hn⟩ : ∃ n, inp.size + 1 = args.length + (n + 1) :=
    ⟨inp.size - args.length, by omega⟩
  have hrun := @Reads.unpackValues _ room resCount _ _ _ _ [] hreads hend
    (by rw [List.length_map, List.length_nil, Nat.zero_add]; exact hroom)
    (by rw [List.length_map, List.length_nil, Nat.cast_zero, zero_add]; exact hcount) n
  rw [List.length_map, ← hn] at hrun
  exact ⟨_, d, _, hrun, h.copies fun t ht => hrebuilt.fresh t rfl ht⟩

/-- A message with supported keys is unpacked. -/
theorem Packed.unpack
    (hcodec : ∀ v, L.Occurs args v → v.isTable = false → v.supported = true → RoundTrips v)
    (h : Packed L (L.Occurs args) .empty (.values args) bytes linked depth N)
    (hkeys : L.KeysSupported args) (hinp : inp.Carries bytes) (hcount : Asks resCount args.length)
    (receiver : LuaState) :
    ∃ values d f, deserializeUnpack inp resCount receiver = .ok values d ∧
      L.Copies d.lua args values f := by
  refine h.unpackWithin hcodec hkeys hinp hcount (fun _ _ => ?_) receiver
  rw [← hinp.length]
  exact Nat.lt_succ_of_le h.depth_le

/-- A message with a key that is not supported cannot be unpacked. -/
theorem Packed.unpack_raises
    (hcodec : ∀ v, L.Occurs args v → v.isTable = false → v.supported = true → RoundTrips v)
    (h : Packed L (L.Occurs args) .empty (.values args) bytes linked depth N)
    (hkeys : ¬ L.KeysSupported args) (hinp : inp.Carries bytes)
    (hcount : Asks resCount args.length) (receiver : LuaState) :
    ∃ d, deserializeUnpack inp resCount receiver = .error .luaError d := by
  have hlen := hinp.length
  have hle : args.length ≤ bytes.length := h.length_le
  have hraise := h.raisesBack hcodec h.final Numbering.empty_valid (.refl _)
    (fun hclean => hkeys (h.clean_iff.mp hclean)) (.inl rfl) (sync_init receiver) (.whole hinp)
    (Nat.lt_of_lt_of_le (Nat.lt_succ_self inp.size) (Nat.le_add_left _ 0))
  obtain ⟨n, hn⟩ : ∃ n, inp.size + 1 = args.length + n :=
    ⟨inp.size + 1 - args.length, by omega⟩
  have hrun := @ReadsRaise.unpackValues _ resCount _ [] _ hraise
    (by rw [List.length_nil, Nat.cast_zero, zero_add]; exact hcount) n
  rw [← hn] at hrun
  exact hrun

end Unpack

/-! ## The results -/

/-- Packing succeeds, and wherever its bytes are unpacked, the values are related to the
arguments. -/
def Survives (flag : Nat) (L : LuaState) (args : List LuaValue)
    (related : LuaState → List LuaValue → Prop) : Prop :=
  ∃ s, serializePack L flag args = .ok s ∧
    ∀ inp resCount receiver, inp.Carries s.data → Asks resCount args.length →
      ∃ values d, deserializeUnpack inp resCount receiver = .ok values d ∧ related d.lua values

/-- The same where the packer has room for `stack` nested calls, and the unpacker for
`room below` of them above `below` values. -/
def SurvivesWithin (stack : Nat) (room : Nat → Nat) (flag : Nat) (L : LuaState)
    (args : List LuaValue) (related : LuaState → List LuaValue → Prop) : Prop :=
  ∃ s, serializePackWithin stack L flag args = .ok s ∧
    ∀ inp resCount receiver, inp.Carries s.data → Asks resCount args.length →
      ∃ values d, deserializeUnpackWithin room inp resCount receiver = .ok values d ∧
        related d.lua values

/-- With room for their nesting, graphs survive on small stacks as well. -/
theorem survivesWithin {flag depth stack : Nat} {room : Nat → Nat}
    (hplain : Plain L (L.Occurs args) flag)
    (hcodec : ∀ v, L.Occurs args v → v.isTable = false → v.supported = true → RoundTrips v)
    (hkeys : L.KeysSupported args) (hfew : L.Few args) (hnests : L.Nests args depth)
    (hstack : depth < stack) (hroom : ∀ below < args.length, depth < room below) :
    SurvivesWithin stack room flag L args fun L' values => ∃ f, L.Copies L' args values f := by
  obtain ⟨s, hs⟩ := (serializePack_isOk_iff hplain).mpr hfew
  obtain ⟨linked, depth', hpacked⟩ := serializePack_packed hplain hs
  obtain rfl := hpacked.nests.unique hnests
  obtain ⟨s', hs', hdata, -⟩ := serializePackWithin_eq hplain hs hnests hstack
  refine ⟨s', hs', fun inp resCount receiver hinp hcount => ?_⟩
  rw [hdata] at hinp
  obtain ⟨values, d, f, hrun, hcopies⟩ :=
    hpacked.unpackWithin hcodec hkeys hinp hcount hroom receiver
  exact ⟨values, d, hrun, f, hcopies⟩

/-- Graphs of values that round-trip survive, if an `int` can number their tables and there
is room for their nesting. -/
theorem graph_survives (flag : Nat) {depth stack : Nat} {room : Nat → Nat}
    (hleaf : ∀ v, L.Occurs args v → v.isTable = false → RoundTrips v) (hfew : L.Few args)
    (hnests : L.Nests args depth) (hstack : depth < stack)
    (hroom : ∀ below < args.length, depth < room below) :
    SurvivesWithin stack room flag L args fun L' values =>
      values.length = args.length ∧ ∃ f, L.Isomorphic L' args values f := by
  have hall : ∀ v, L.Occurs args v → v.supported = true := by
    intro v hv
    cases htable : v.isTable with
    | false => exact (hleaf v hv htable).supported
    | true =>
        cases v with
        | table id => rfl
        | _ => cases htable
  obtain ⟨s, hs, hunpack⟩ := survivesWithin (plain_of_supported flag fun v hv _ => hall v hv)
    (fun v hv htable _ => hleaf v hv htable) (fun t ht e he => hall e.1 (.key ht he)) hfew hnests
    hstack hroom
  refine ⟨s, hs, fun inp resCount receiver hinp hcount => ?_⟩
  obtain ⟨values, d, hrun, f, hcopies⟩ := hunpack inp resCount receiver hinp hcount
  have hiso := hcopies.isomorphic hall
  refine ⟨values, d, hrun, ?_, f, hiso⟩
  rw [hiso.roots, List.length_map]

/-- A table that holds itself. -/
def selfTable : LuaTable where
  entries := [(.boolean true, .table 0)]
  keys_normal := by decide
  keys_nodup := by decide
  values_ne_nil := by decide

def selfState : LuaState := { tables := [selfTable], userdata := [], metatables := [] }

theorem selfState_reach {t : Nat} (h : selfState.Reach [.table 0, .nil, .table 0] t) : t = 0 := by
  induction h with
  | root hmem =>
      simp only [List.mem_cons, List.not_mem_nil, reduceCtorEq, LuaValue.table.injEq, false_or,
        or_false] at hmem
      exact hmem.elim id id
  | key _ he ih =>
      subst ih
      cases List.mem_singleton.mp he
  | value _ he ih =>
      subst ih
      cases List.mem_singleton.mp he
      rfl

theorem selfState_nests : selfState.Nests [.table 0, .nil, .table 0] 1 := by
  have hagain : selfState.Walk {0} [.table 0] 0 {0} := by
    refine .skip (fun id heq => ?_) .nil
    cases heq
    rfl
  have hbody : selfState.Walk (insert 0 ∅) [.boolean true, .table 0] 0 {0} := by
    rw [insert_empty_eq]
    exact .skip (fun id heq => LuaValue.noConfusion heq) hagain
  have hrest : selfState.Walk {0} [.nil, .table 0] 0 {0} :=
    .skip (fun id heq => LuaValue.noConfusion heq) hagain
  have hwalk : selfState.Walk ∅ [.table 0, .nil, .table 0] (max (0 + 1) 0) {0} :=
    .enter (Set.notMem_empty 0) hbody hrest
  exact ⟨_, hwalk⟩

theorem graph_survives_cycle :
    SurvivesWithin 2 (fun _ => 2) 0 selfState [.table 0, .nil, .table 0] fun L' values =>
      values.length = 3 ∧ ∃ f, selfState.Isomorphic L' [.table 0, .nil, .table 0] values f := by
  refine graph_survives 0 (fun v hv htable => ?_) (fun ts hnodup hts => ?_) selfState_nests
    (Nat.lt_succ_self 1) fun _ _ => Nat.lt_succ_self 1
  · cases hv with
    | root hmem =>
        simp only [List.mem_cons, List.not_mem_nil, or_false] at hmem
        rcases hmem with rfl | rfl | rfl
        · cases htable
        · exact roundTrips_nil
        · cases htable
    | key hreach he =>
        rw [selfState_reach hreach] at he
        cases List.mem_singleton.mp he
        exact roundTrips_boolean true
    | value hreach he =>
        rw [selfState_reach hreach] at he
        cases List.mem_singleton.mp he
        cases htable
  · have hsub : ts ⊆ [0] := fun t ht => List.mem_singleton.mpr (selfState_reach (hts t ht))
    exact Nat.lt_of_le_of_lt (hnodup.subperm hsub).length_le (by decide)

/-- A state of so many empty tables. -/
def emptyTables (n : Nat) : LuaState where
  tables := List.replicate n .empty
  userdata := []
  metatables := []

theorem emptyTables_entries (n t : Nat) : (emptyTables n).entries t = [] := by
  rw [LuaState.entries, emptyTables, List.getElem?_replicate]
  split_ifs
  · rfl
  · rfl

/-- A table that holds the next one. -/
def link (i : Nat) : LuaTable where
  entries := [(.boolean true, .table (i + 1))]
  keys_normal := List.forall_mem_singleton.mpr rfl
  keys_nodup := List.nodup_singleton _
  values_ne_nil := List.forall_mem_singleton.mpr LuaValue.noConfusion

/-- Tables inside each other, `n` of them around an empty one. -/
def chain (n : Nat) : LuaState where
  tables := (List.range n).map link ++ [.empty]
  userdata := []
  metatables := []

theorem chain_entries {n i : Nat} (h : i < n) :
    (chain n).entries i = [(.boolean true, .table (i + 1))] := by
  have hlen : i < ((List.range n).map link).length := by
    rw [List.length_map, List.length_range]
    exact h
  rw [LuaState.entries, chain, List.getElem?_append_left hlen, List.getElem?_map,
    List.getElem?_range h]
  rfl

theorem chain_occurs {n : Nat} {v : LuaValue} (h : (chain n).Occurs [.table 0] v)
    (htable : v.isTable = false) : v = .boolean true := by
  have hentry : ∀ {t : Nat} {e : LuaValue × LuaValue}, e ∈ (chain n).entries t →
      e.1 = .boolean true ∧ e.2.isTable = true := by
    intro t e he
    rcases (chain n).entries_eq (t := t) with hnil | ⟨T, hT, hentries⟩
    · rw [hnil] at he
      cases he
    · rw [hentries] at he
      rcases List.mem_append.mp hT with hlink | hempty
      · obtain ⟨i, -, rfl⟩ := List.mem_map.mp hlink
        rw [List.mem_singleton.mp he]
        exact ⟨rfl, rfl⟩
      · rw [List.mem_singleton.mp hempty] at he
        cases he
  cases h with
  | root hmem =>
      rw [List.mem_singleton.mp hmem] at htable
      cases htable
  | key _ he => exact (hentry he).1
  | value _ he =>
      rw [(hentry he).2] at htable
      cases htable

/-- A chain that is longer than the stack is not packed. -/
theorem chain_not_packed {n stack i : Nat} {s : SerializeData} (hlen : i + stack ≤ n)
    (hnew : ∀ j, i ≤ j → s.refs j = none) :
    ∃ e, packObj (chain n) stack s (.table i) = .error e := by
  induction stack generalizing i s with
  | zero => exact ⟨_, rfl⟩
  | succ stack ih =>
      by_cases hmax : s.tableRef = intMax
      · refine ⟨.overflow, ?_⟩
        rw [packObj, hnew i (Nat.le_refl i)]
        exact if_pos hmax
      rw [packObj_table (hnew i (Nat.le_refl i)) hmax, chain_entries (by omega), packEntries]
      cases stack with
      | zero => exact ⟨_, rfl⟩
      | succ stack =>
          obtain ⟨e, hrest⟩ := @ih (i + 1)
            (packBoolean (serializePackOp (s.record i) .serTableBegin) true) (by omega) (by
              intro j hj
              show (s.numbering.record i).refs j = none
              rw [Numbering.record_refs_of_ne (by omega)]
              exact hnew j (by omega))
          refine ⟨e, ?_⟩
          show ((packObj (chain n) (stack + 1) _ (.table (i + 1))) >>= _ >>= _) = _
          rw [hrest]
          rfl

/-- However large the stacks are, some graph is nested too deep to be packed. -/
theorem graph_lost : ¬ ∃ stack room, ∀ (L : LuaState) (args : List LuaValue),
    (∀ v, L.Occurs args v → v.isTable = false → RoundTrips v) →
    SurvivesWithin stack room 0 L args fun L' values =>
      values.length = args.length ∧ ∃ f, L.Isomorphic L' args values f := by
  rintro ⟨stack, room, h⟩
  obtain ⟨s, hs, -⟩ := h (chain stack) [.table 0] fun v hv htable => by
    rw [chain_occurs hv htable]
    exact roundTrips_boolean true
  obtain ⟨e, hfail⟩ := @chain_not_packed stack stack 0 (serializeInit 0) (by omega) fun _ _ => rfl
  rw [serializePackWithin, packArgs, hfail] at hs
  cases hs

/-- Only messages without unsupported keys can be unpacked. -/
theorem Survives.keysSupported {related : LuaState → List LuaValue → Prop}
    (hcodec : ∀ v, L.Occurs args v → v.isTable = false → v.supported = true → RoundTrips v)
    (h : Survives 0 L args related) : L.KeysSupported args := by
  obtain ⟨s, hs, hunpack⟩ := h
  by_contra hkeys
  obtain ⟨linked, depth, hpacked⟩ := serializePack_packed (plain_of_flag rfl) hs
  have hinp : Input.Carries ⟨s.data, s.data.length, Nat.le_refl _⟩ s.data := List.take_length
  have hcount : Asks 0 args.length := fun hpos => absurd hpos (Int.lt_irrefl 0)
  obtain ⟨values, d, hrun, -⟩ := hunpack _ 0 ⟨[], [], []⟩ hinp hcount
  obtain ⟨d', hraise⟩ := hpacked.unpack_raises hcodec hkeys hinp hcount ⟨[], [], []⟩
  rw [hrun] at hraise
  cases hraise

/-- Arbitrary values survive as far as they are supported, exactly if no key is
unsupported and an `int` can number their tables. The stacks are taken to have room for
the nesting of the tables: without it see `survivesWithin`. -/
theorem values_survive_iff
    (hcodec : ∀ v, L.Occurs args v → v.isTable = false → v.supported = true → RoundTrips v) :
    (Survives 0 L args fun L' values => ∃ f, L.Copies L' args values f) ↔
      L.KeysSupported args ∧ L.Few args := by
  have hplain : Plain L (L.Occurs args) 0 := plain_of_flag rfl
  constructor
  · intro h
    have ⟨s, hs, _⟩ := h
    exact ⟨h.keysSupported hcodec, (serializePack_isOk_iff hplain).mp ⟨s, hs⟩⟩
  · rintro ⟨hkeys, hfew⟩
    obtain ⟨s, hs⟩ := (serializePack_isOk_iff hplain).mpr hfew
    obtain ⟨linked, depth, hpacked⟩ := serializePack_packed hplain hs
    refine ⟨s, hs, fun inp resCount receiver hinp hcount => ?_⟩
    obtain ⟨values, d, f, hrun, hcopies⟩ := hpacked.unpack hcodec hkeys hinp hcount receiver
    exact ⟨values, d, hrun, f, hcopies⟩

/-- A table whose key is a function. -/
def functionKey : LuaTable where
  entries := [(.function 0, .boolean true)]
  keys_normal := by decide
  keys_nodup := by decide
  values_ne_nil := by decide

def functionState : LuaState := { tables := [functionKey], userdata := [], metatables := [] }

theorem functionState_occurs {v : LuaValue} (h : functionState.Occurs [.table 0] v) :
    v.isTable = true ∨ v.supported = false ∨ v = .boolean true := by
  have hentry : ∀ {t : Nat} {e : LuaValue × LuaValue}, e ∈ functionState.entries t →
      e = (.function 0, .boolean true) := by
    intro t e he
    rcases functionState.entries_eq (t := t) with hnil | ⟨T, hT, hentries⟩
    · rw [hnil] at he
      cases he
    · rw [hentries, List.mem_singleton.mp hT] at he
      exact List.mem_singleton.mp he
  cases h with
  | root hmem =>
      rw [List.mem_singleton.mp hmem]
      exact .inl rfl
  | key _ he =>
      cases hentry he
      exact .inr (.inl rfl)
  | value _ he =>
      cases hentry he
      exact .inr (.inr rfl)

theorem functionState_codec (v : LuaValue) (hv : functionState.Occurs [.table 0] v)
    (htable : v.isTable = false) (hsupported : v.supported = true) : RoundTrips v := by
  rcases functionState_occurs hv with h | h | rfl
  · rw [htable] at h
    cases h
  · rw [hsupported] at h
    cases h
  · exact roundTrips_boolean true

theorem values_survive_iff_function :
    (Survives 0 functionState [.table 0] fun L' values =>
      ∃ f, functionState.Copies L' [.table 0] values f) ↔
      functionState.KeysSupported [.table 0] ∧ functionState.Few [.table 0] :=
  values_survive_iff functionState_codec

theorem values_lost : ¬ ∀ (L : LuaState) (args : List LuaValue),
    (∀ v, L.Occurs args v → v.isTable = false → v.supported = true → RoundTrips v) →
    Survives 0 L args fun L' values => ∃ f, L.Copies L' args values f := by
  intro h
  have hkeys := (h functionState [.table 0] functionState_codec).keysSupported functionState_codec
  exact Bool.false_ne_true
    (hkeys 0 (.root (List.mem_singleton.mpr rfl)) _ (List.mem_singleton.mpr rfl))

end RandServer
