import RandServer.Lua.Packed

/-!
# Runs of the packer

A run of `pack_obj` writes the packed form of its value, or it meets more tables than an
`int` can number. Each table on the path to a value has a number, so the tables without
one bound the nesting that is left.
-/

namespace RandServer

variable {L : LuaState} {P : LuaValue → Prop} {flag : Nat}

/-- The numbers that a run has given so far. -/
def SerializeData.numbering (s : SerializeData) : Numbering :=
  { tableRef := s.tableRef, refs := s.refs }

/-- The tables that have no number yet. -/
def unvisited (L : LuaState) (σ : Numbering) : Nat :=
  ((Finset.range L.tables.length).filter fun id => σ.refs id = none).card

theorem unvisited_le {σ σ' : Numbering} (h : Packed.Grows σ σ') :
    unvisited L σ' ≤ unvisited L σ := by
  refine Finset.card_le_card (Finset.monotone_filter_right _ fun id _ hid => ?_)
  by_contra hne
  exact h.ne_none hne hid

theorem unvisited_record {σ : Numbering} {id : Nat} (hid : id < L.tables.length)
    (hnew : σ.refs id = none) : unvisited L (σ.record id) < unvisited L σ := by
  refine Finset.card_lt_card ?_
  rw [Finset.ssubset_iff_of_subset]
  · refine ⟨id, Finset.mem_filter.mpr ⟨Finset.mem_range.mpr hid, hnew⟩, ?_⟩
    rw [Finset.mem_filter, Numbering.record_refs_self]
    rintro ⟨-, hnone⟩
    cases hnone
  · refine Finset.monotone_filter_right _ fun id' _ hid' => ?_
    by_contra hne
    exact (Packed.Grows.record σ hnew).ne_none hne hid'

theorem entries_lt {id : Nat} (h : L.entries id ≠ []) : id < L.tables.length := by
  by_contra hge
  refine h ?_
  rw [LuaState.entries, List.getElem?_eq_none (Nat.le_of_not_lt hge)]
  rfl

/-- What a run starts from: its numbers are those of tables with `P`, and its fuel is
enough. -/
structure Ready (L : LuaState) (P : LuaValue → Prop) (flag fuel : Nat) (s : SerializeData) :
    Prop where
  flag : s.supportFlag = flag
  valid : s.numbering.Valid
  holds : ∀ t, s.refs t ≠ none → P (.table t)
  tableRef_le : s.tableRef ≤ intMax
  fuel : unvisited L s.numbering < fuel

/-- How a run ends. -/
inductive PackResult (L : LuaState) (P : LuaValue → Prop) (s : SerializeData) (job : Job) :
    Except PackFault SerializeData → Prop
  | ok {s' : SerializeData} {bytes : List UInt8} {linked : Bool} {depth : Nat} :
      s'.supportFlag = s.supportFlag → s'.data = s.data ++ bytes →
      Packed L P s.numbering job bytes linked depth s'.numbering → PackResult L P s job (.ok s')
  | overflow : Overflows P → PackResult L P s job (.error .overflow)

theorem Ready.packed {fuel : Nat} {s s' : SerializeData} {job : Job} {bytes : List UInt8}
    {linked : Bool} {depth : Nat} (h : Ready L P flag fuel s)
    (hflag : s'.supportFlag = s.supportFlag)
    (hpacked : Packed L P s.numbering job bytes linked depth s'.numbering) :
    Ready L P flag fuel s' := by
  obtain ⟨ts, hvisit⟩ := hpacked.visit
  refine ⟨hflag.trans h.flag, hpacked.valid h.valid, fun t ht => ?_,
    hpacked.tableRef_le h.tableRef_le, Nat.lt_of_le_of_lt (unvisited_le hpacked.grows) h.fuel⟩
  by_cases hold : s.refs t = none
  · exact hvisit.holds t ((hvisit.mem t).mpr ⟨hold, ht⟩)
  · exact h.holds t hold

/-- The hypotheses on the values: their scalars are written as bytes, and tables have
only such entries. -/
structure Plain (L : LuaState) (P : LuaValue → Prop) (flag : Nat) : Prop where
  scalar : ∀ v, P v → v.isTable = false → flag &&& userDataFlag = 0 ∨ v.supported = true
  entry : ∀ id, P (.table id) → ∀ e ∈ L.entries id, P e.1 ∧ P e.2

/-- One job after another. -/
theorem PackResult.bind {s : SerializeData} {job job₁ job₂ : Job}
    {x : Except PackFault SerializeData} {f : SerializeData → Except PackFault SerializeData}
    (hx : PackResult L P s job₁ x)
    (hf : ∀ {s₁ : SerializeData} {bytes : List UInt8} {linked : Bool} {depth : Nat},
      s₁.supportFlag = s.supportFlag →
      Packed L P s.numbering job₁ bytes linked depth s₁.numbering →
      PackResult L P s₁ job₂ (f s₁))
    (happend : ∀ {σ₁ σ' : Numbering} {bytes₁ bytes₂ : List UInt8} {linked₁ linked₂ : Bool}
      {depth₁ depth₂ : Nat}, Packed L P s.numbering job₁ bytes₁ linked₁ depth₁ σ₁ →
      Packed L P σ₁ job₂ bytes₂ linked₂ depth₂ σ' →
      Packed L P s.numbering job (bytes₁ ++ bytes₂) (linked₁ || linked₂) (max depth₁ depth₂) σ') :
    PackResult L P s job (x >>= f) := by
  cases hx with
  | overflow hover => exact .overflow hover
  | @ok s₁ _ _ _ hflag₁ hdata₁ hpacked₁ =>
      have hresult := hf hflag₁ hpacked₁
      show PackResult L P s job (f s₁)
      generalize f s₁ = y at hresult
      cases hresult with
      | overflow hover => exact .overflow hover
      | ok hflag₂ hdata₂ hpacked₂ =>
          refine .ok (hflag₂.trans hflag₁) ?_ (happend hpacked₁ hpacked₂)
          rw [hdata₂, hdata₁, List.append_assoc]

/-- The loop over entries, given a result for each value. -/
theorem packEntries_result {fuel : Nat}
    {pack : SerializeData → LuaValue → Except PackFault SerializeData}
    (hpack : ∀ {s v}, Ready L P flag fuel s → P v → PackResult L P s (.values [v]) (pack s v))
    {s : SerializeData} {es : List (LuaValue × LuaValue)} (hs : Ready L P flag fuel s)
    (hes : ∀ e ∈ es, P e.1 ∧ P e.2) : PackResult L P s (.entries es) (packEntries pack s es) := by
  induction es generalizing s with
  | nil => exact .ok rfl (List.append_nil _).symm .noEntries
  | cons e es ih =>
      obtain ⟨k, v⟩ := e
      obtain ⟨hk, hv⟩ := hes _ List.mem_cons_self
      have hentry : PackResult L P s (.values [k, v]) (pack s k >>= fun s₁ => pack s₁ v) :=
        (hpack hs hk).bind (fun hflag hpacked => hpack (hs.packed hflag hpacked) hv) .append
      rw [packEntries, ← bind_assoc]
      refine hentry.bind (fun hflag hpacked => ?_) .entry
      exact ih (hs.packed hflag hpacked) fun e he => hes e (List.mem_cons_of_mem _ he)

theorem packScalar_result (hplain : Plain L P flag) {fuel : Nat} {s : SerializeData}
    {v : LuaValue} (hs : Ready L P flag fuel s) (hP : P v) (hv : v.isTable = false) :
    PackResult L P s (.values [v]) (packScalar L s v) := by
  rw [packScalar_eq L (hs.flag ▸ hplain.scalar v hP hv)]
  refine .ok rfl ?_ (.scalar hv hP .nil)
  rw [List.append_nil]
  rfl

theorem packObj_table {fuel : Nat} {s : SerializeData} {id : Nat} (hnew : s.refs id = none)
    (hmax : s.tableRef ≠ intMax) :
    packObj L (fuel + 1) s (.table id) =
      packEntries (packObj L fuel) (serializePackOp (s.record id) .serTableBegin) (L.entries id) >>=
        fun s => .ok (serializePackOp s .serTableEnd) := by
  rw [packObj, hnew]
  exact if_neg hmax

/-- A table without a number, given a result for its entries. -/
theorem packTable_result {s : SerializeData} {id : Nat} {x : Except PackFault SerializeData}
    (hnew : s.refs id = none) (hP : P (.table id)) (hlt : s.tableRef < intMax)
    (hx : PackResult L P (serializePackOp (s.record id) .serTableBegin)
      (.entries (L.entries id)) x) :
    PackResult L P s (.values [.table id])
      (x >>= fun s => .ok (serializePackOp s .serTableEnd)) := by
  cases hx with
  | overflow hover => exact .overflow hover
  | @ok s' bytes _ _ hflag hdata hpacked =>
      have hpacked : Packed L P (s.numbering.record id) (.entries (L.entries id)) _ _ _
          s'.numbering := hpacked
      refine .ok hflag ?_ (.table hnew hP hlt hpacked .nil)
      show s'.data ++ [_] = _
      rw [hdata, List.append_assoc]
      exact List.append_assoc ..

theorem packObj_result (hplain : Plain L P flag) {fuel : Nat} {s : SerializeData} {v : LuaValue}
    (hs : Ready L P flag fuel s) (hP : P v) :
    PackResult L P s (.values [v]) (packObj L fuel s v) := by
  induction fuel generalizing s v with
  | zero => exact absurd hs.fuel (Nat.not_lt_zero _)
  | succ fuel ih =>
      cases v with
      | table id =>
          cases hnew : s.refs id with
          | some n =>
              rw [packObj, hnew]
              have hle := Nat.le_trans (hs.valid.range hnew).2 hs.tableRef_le
              refine .ok rfl ?_ (.ref hnew hP hle .nil)
              rw [List.append_nil, serializePackOp, serializePackBytes_append]
              rfl
          | none =>
              by_cases hmax : s.tableRef = intMax
              · rw [packObj, hnew]
                dsimp only
                rw [if_pos hmax]
                exact .overflow ⟨s.numbering, id, hs.valid, hmax, hs.holds, hnew, hP⟩
              · have hlt : s.tableRef < intMax := Nat.lt_of_le_of_ne hs.tableRef_le hmax
                rw [packObj_table hnew hmax]
                refine packTable_result hnew hP hlt ?_
                by_cases hes : L.entries id = []
                · rw [hes]
                  exact .ok rfl (List.append_nil _).symm .noEntries
                · have hfuel := @unvisited_record L s.numbering id (entries_lt hes) hnew
                  refine packEntries_result ih ⟨hs.flag, hs.valid.record id hnew, fun t ht => ?_,
                    hlt, Nat.lt_of_lt_of_le hfuel (Nat.le_of_lt_succ hs.fuel)⟩ (hplain.entry id hP)
                  by_cases heq : t = id
                  · rw [heq]
                    exact hP
                  · have ht : (s.numbering.record id).refs t ≠ none := ht
                    rw [Numbering.record_refs_of_ne heq] at ht
                    exact hs.holds t ht
      | _ => exact packScalar_result hplain hs hP rfl

/-- The loop over the arguments. -/
theorem packArgs_result (hplain : Plain L P flag) {fuel : Nat} {s : SerializeData}
    {vs : List LuaValue} (hs : Ready L P flag fuel s) (hvs : ∀ v ∈ vs, P v) :
    PackResult L P s (.values vs) (packArgs L fuel s vs) := by
  induction vs generalizing s with
  | nil => exact .ok rfl (List.append_nil _).symm .nil
  | cons v vs ih =>
      rw [packArgs]
      refine (packObj_result hplain hs (hvs v List.mem_cons_self)).bind
        (fun hflag hpacked => ?_)
        fun hfirst hrest => hfirst.append hrest
      exact ih (hs.packed hflag hpacked) fun w hw => hvs w (List.mem_cons_of_mem _ hw)

theorem plain_of_flag {vs : List LuaValue} (hflag : flag &&& userDataFlag = 0) :
    Plain L (L.Occurs vs) flag :=
  ⟨fun _ _ _ => .inl hflag, fun _ hid _ he => ⟨.key hid.reach he, .value hid.reach he⟩⟩

theorem plain_of_supported {vs : List LuaValue} (flag : Nat)
    (hvs : ∀ v, L.Occurs vs v → v.isTable = false → v.supported = true) :
    Plain L (L.Occurs vs) flag :=
  ⟨fun v hv hscalar => .inr (hvs v hv hscalar),
    fun _ hid _ he => ⟨.key hid.reach he, .value hid.reach he⟩⟩

theorem serializePack_result {vs : List LuaValue} (hplain : Plain L (L.Occurs vs) flag) :
    PackResult L (L.Occurs vs) (serializeInit flag) (.values vs) (serializePack L flag vs) := by
  refine packArgs_result hplain ⟨rfl, Numbering.empty_valid, nofun, Nat.zero_le _, ?_⟩
    fun v hv => .root hv
  have hle := Finset.card_filter_le (Finset.range L.tables.length)
    fun id => (serializeInit flag).numbering.refs id = none
  rw [Finset.card_range] at hle
  exact Nat.lt_of_le_of_lt hle (by omega)

/-- A message is the packed form of its arguments. -/
theorem serializePack_packed {vs : List LuaValue} {s : SerializeData}
    (hplain : Plain L (L.Occurs vs) flag) (h : serializePack L flag vs = .ok s) :
    ∃ linked depth, Packed L (L.Occurs vs) .empty (.values vs) s.data linked depth
      s.numbering := by
  have hresult := serializePack_result hplain
  rw [h] at hresult
  cases hresult with
  | ok _ hdata hpacked =>
      rw [hdata]
      exact ⟨_, _, hpacked⟩

/-- Packing succeeds just for fewer than `2 ^ 31` tables. -/
theorem serializePack_isOk_iff {vs : List LuaValue} (hplain : Plain L (L.Occurs vs) flag) :
    (∃ s, serializePack L flag vs = .ok s) ↔ L.Few vs := by
  constructor
  · rintro ⟨s, hs⟩
    obtain ⟨linked, depth, hpacked⟩ := serializePack_packed hplain hs
    exact hpacked.few
  · intro hfew
    have hresult := serializePack_result hplain
    generalize serializePack L flag vs = x at hresult
    cases hresult with
    | ok => exact ⟨_, rfl⟩
    | overflow hover => exact absurd hfew hover.not_few

/-! ## Runs on a small stack -/

/-- How a job is done that has this packed form. -/
def PackRun (L : LuaState) (stack : Nat) (s : SerializeData) : Job → Except PackFault SerializeData
  | .values vs => packArgs L stack s vs
  | .entries es => packEntries (packObj L stack) s es

theorem packArgs_pair (stack : Nat) (s : SerializeData) (k v : LuaValue) :
    packArgs L stack s [k, v] = packObj L stack s k >>= fun s => packObj L stack s v := by
  simp only [packArgs]
  cases packObj L stack s k with
  | error e => rfl
  | ok s₁ =>
      show packObj L stack s₁ v >>= _ = packObj L stack s₁ v
      cases packObj L stack s₁ v with
      | error e => rfl
      | ok s₂ => rfl

/-- With room for its nesting, a packed form is what is written. By induction on the form;
the tables in a table have one call less. -/
theorem Packed.run (hplain : Plain L P flag) {σ σ' : Numbering} {job : Job} {bytes : List UInt8}
    {linked : Bool} {depth : Nat} (h : Packed L P σ job bytes linked depth σ') {stack : Nat}
    (hstack : depth < stack) {s : SerializeData} (hflag : s.supportFlag = flag)
    (hs : s.numbering = σ) :
    ∃ s', PackRun L stack s job = .ok s' ∧ s'.supportFlag = flag ∧ s'.data = s.data ++ bytes ∧
      s'.numbering = σ' := by
  induction h generalizing stack s with
  | nil => exact ⟨s, rfl, hflag, (List.append_nil _).symm, hs⟩
  | @scalar σ σ' v vs bytes linked depth hv hP _ ih =>
      obtain ⟨stack, rfl⟩ := Nat.exists_eq_add_one_of_ne_zero (Nat.ne_zero_of_lt hstack)
      have hfirst : packObj L (stack + 1) s v = .ok (serializePackBytes s (scalarBytes v)) := by
        rw [← packScalar_eq L (hflag ▸ hplain.scalar v hP hv)]
        cases v with
        | table id => cases hv
        | _ => rfl
      obtain ⟨s', hrun, hflag', hdata, hs'⟩ := @ih (stack + 1) hstack
        (serializePackBytes s (scalarBytes v)) hflag hs
      refine ⟨s', ?_, hflag', ?_, hs'⟩
      · show packObj L (stack + 1) s v >>= _ = _
        rw [hfirst]
        exact hrun
      · rw [hdata, serializePackBytes, List.append_assoc]
  | @ref σ σ' id n vs bytes linked depth hn hP hle _ ih =>
      obtain ⟨stack, rfl⟩ := Nat.exists_eq_add_one_of_ne_zero (Nat.ne_zero_of_lt hstack)
      have href : s.refs id = some n := by
        rw [← hn, ← hs]
        rfl
      have hfirst : packObj L (stack + 1) s (.table id) =
          .ok (serializePackBytes s (EnSer.serTableRef.toByte :: leBytes 4 n)) := by
        rw [packObj, href]
        exact congrArg Except.ok (serializePackBytes_append s _ _)
      obtain ⟨s', hrun, hflag', hdata, hs'⟩ := @ih (stack + 1) hstack
        (serializePackBytes s (EnSer.serTableRef.toByte :: leBytes 4 n)) hflag hs
      refine ⟨s', ?_, hflag', ?_, hs'⟩
      · show packObj L (stack + 1) s (.table id) >>= _ = _
        rw [hfirst]
        exact hrun
      · rw [hdata, serializePackBytes, List.append_assoc]
  | @table σ σ₁ σ' id vs bytes₁ bytes linked₁ linked depth₁ depth hnew hP hlt _ _ ih ih' =>
      obtain ⟨stack, rfl⟩ := Nat.exists_eq_add_one_of_ne_zero (Nat.ne_zero_of_lt hstack)
      subst hs
      obtain ⟨s₁, hbody, hflag₁, hdata₁, hs₁⟩ := @ih stack (by omega)
        (serializePackOp (s.record id) .serTableBegin) hflag rfl
      have hbody : packEntries (packObj L stack) (serializePackOp (s.record id) .serTableBegin)
        (L.entries id) = .ok s₁ := hbody
      have hfirst :
          packObj L (stack + 1) s (.table id) = .ok (serializePackOp s₁ .serTableEnd) := by
        rw [packObj_table hnew (Nat.ne_of_lt hlt), hbody]
        rfl
      obtain ⟨s', hrun, hflag', hdata, hs'⟩ := @ih' (stack + 1) (by omega)
        (serializePackOp s₁ .serTableEnd) hflag₁ hs₁
      refine ⟨s', ?_, hflag', ?_, hs'⟩
      · show packObj L (stack + 1) s (.table id) >>= _ = _
        rw [hfirst]
        exact hrun
      · rw [hdata]
        show s₁.data ++ [EnSer.serTableEnd.toByte] ++ bytes = _
        rw [hdata₁]
        show s.data ++ [EnSer.serTableBegin.toByte] ++ bytes₁ ++ _ ++ bytes = _
        simp only [List.append_assoc, List.cons_append, List.nil_append]
  | noEntries => exact ⟨s, rfl, hflag, (List.append_nil _).symm, hs⟩
  | @entry σ σ₁ σ' k v es bytes₁ bytes linked₁ linked depth₁ depth _ _ ih ih' =>
      obtain ⟨s₁, hfirst, hflag₁, hdata₁, hs₁⟩ := @ih stack (by omega) s hflag hs
      obtain ⟨s', hrun, hflag', hdata, hs'⟩ := @ih' stack (by omega) s₁ hflag₁ hs₁
      have hfirst : packArgs L stack s [k, v] = .ok s₁ := hfirst
      rw [packArgs_pair] at hfirst
      refine ⟨s', ?_, hflag', ?_, hs'⟩
      · show packEntries (packObj L stack) s ((k, v) :: es) = _
        rw [packEntries, ← bind_assoc, hfirst]
        exact hrun
      · rw [hdata, hdata₁, List.append_assoc]

/-- On a stack with room for the nesting, a graph is packed as on any larger one. -/
theorem serializePackWithin_eq {vs : List LuaValue} {s : SerializeData} {depth stack : Nat}
    (hplain : Plain L (L.Occurs vs) flag) (h : serializePack L flag vs = .ok s)
    (hnests : L.Nests vs depth) (hstack : depth < stack) :
    ∃ s', serializePackWithin stack L flag vs = .ok s' ∧ s'.data = s.data ∧
      s'.numbering = s.numbering := by
  obtain ⟨linked, depth', hpacked⟩ := serializePack_packed hplain h
  obtain rfl := hpacked.nests.unique hnests
  obtain ⟨s', hrun, -, hdata, hs'⟩ := hpacked.run hplain hstack (s := serializeInit flag) rfl rfl
  exact ⟨s', hrun, hdata, hs'⟩

end RandServer
