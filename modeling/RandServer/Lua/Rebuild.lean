import RandServer.Lua.Pack

/-!
# Reading a packed form

The decoder numbers tables in the order in which it meets them, as the packer does. While
it reads a packed form, its list of references holds the tables of the form in order,
behind the tables of what stands in front of it. A reference is resolved rightly if there
are none of those.

All tables of a form are rebuilt as copies if no key in them is unsupported. Otherwise
the decoder sets a nil key, which raises a Lua error.
-/

namespace RandServer

variable {L : LuaState} {P : LuaValue → Prop} {inp : Input} {N : Numbering} {base : Nat}
  {pre : List Nat}

/-- The copy of a table, if copies are made from `base` on in the order of the numbers. -/
def copyId (base : Nat) (N : Numbering) (t : Nat) : Nat := base + (N.refs t).getD 0 - 1

theorem copyId_eq {t n : Nat} (h : N.refs t = some (n + 1)) : copyId base N t = base + n := by
  rw [copyId, h]
  rfl

/-- The numbers after all values have been packed. -/
structure Final (L : LuaState) (N : Numbering) : Prop where
  valid : N.Valid
  closed : ∀ id, N.refs id ≠ none → ∀ t ∈ L.children id, N.refs t ≠ none

theorem Final.number (hN : Final L N) {t : Nat} (ht : N.refs t ≠ none) :
    ∃ n, N.refs t = some (n + 1) ∧ n < N.tableRef := by
  obtain ⟨n, hn⟩ := Option.ne_none_iff_exists'.mp ht
  have hrange := hN.valid.range hn
  refine ⟨n - 1, ?_, by omega⟩
  rw [hn, Nat.sub_add_cancel hrange.1]

theorem Final.copyId_inj (hN : Final L N) {t u : Nat} (ht : N.refs t ≠ none)
    (hu : N.refs u ≠ none) (heq : copyId base N t = copyId base N u) : t = u := by
  obtain ⟨m, hm, -⟩ := hN.number ht
  obtain ⟨n, hn, -⟩ := hN.number hu
  rw [copyId_eq hm, copyId_eq hn] at heq
  refine hN.valid.inj hm ?_
  rw [hn, Nat.add_left_cancel heq]

/-- All keys of the tables that get numbers, and of the entries at hand, are supported. -/
def Clean (L : LuaState) (σ σ' : Numbering) (job : Job) : Prop :=
  (∀ t, σ.refs t = none → σ'.refs t ≠ none → ∀ e ∈ L.entries t, e.1.supported = true) ∧
    match job with
    | .values _ => True
    | .entries es => ∀ e ∈ es, e.1.supported = true

/-- The decoder agrees with a numbering: the tables behind `pre` are those with numbers. -/
structure Sync (pre : List Nat) (base : Nat) (σ : Numbering) (d : Deser) : Prop where
  refs : d.refs = pre ++ List.range' base σ.tableRef
  tables : d.lua.tables.length = base + σ.tableRef

/-- `unpack_obj` reads the values, one after another. -/
inductive Reads (inp : Input) (fuel : Nat) : Deser → List LuaValue → Deser → Prop
  | nil {d : Deser} : Reads inp fuel d [] d
  | cons {d d₁ d' : Deser} {v : LuaValue} {vs : List LuaValue} {ser : EnSer} :
      unpackObj inp fuel d = .ok (ser, some v) d₁ → ser ≠ .serTableEnd →
      Reads inp fuel d₁ vs d' → Reads inp fuel d (v :: vs) d'

/-- From `d` to `d'` the tables that get numbers have been rebuilt, and of the others only
the copy of `own` may have changed. -/
structure Rebuilt (L : LuaState) (pre : List Nat) (base : Nat) (N : Numbering)
    (own : Option Nat) (σ σ' : Numbering) (d d' : Deser) (len : Nat) : Prop where
  pos : d'.pos = d.pos + len
  sync : Sync pre base σ' d'
  grow : d.lua.tables.length ≤ d'.lua.tables.length
  frame : ∀ i < d.lua.tables.length, (∀ id, own = some id → i ≠ copyId base N id) →
    d'.lua.tables[i]? = d.lua.tables[i]?
  fresh : ∀ t, σ.refs t = none → σ'.refs t ≠ none →
    d'.lua.entries (copyId base N t) = imageEntries (copyId base N) (L.entries t)

namespace Clean

variable {σ σ₁ σ' : Numbering} {id : Nat} {vs : List LuaValue} {k v : LuaValue}
  {es : List (LuaValue × LuaValue)}

/-- A table gets its number before, within or after its body. -/
theorem table_iff (hnew : σ.refs id = none) (hbody : Packed.Grows (σ.record id) σ₁)
    (hrest : Packed.Grows σ₁ σ') :
    Clean L σ σ' (.values (.table id :: vs)) ↔
      Clean L (σ.record id) σ₁ (.entries (L.entries id)) ∧ Clean L σ₁ σ' (.values vs) := by
  have hgrows := (Packed.Grows.record σ hnew).trans hbody
  have hid : σ₁.refs id ≠ none := by
    rw [hbody.keeps (Numbering.record_refs_self σ id)]
    exact nofun
  constructor
  · rintro ⟨hclean, -⟩
    refine ⟨⟨fun t hnone hsome => ?_, hclean id hnew (hrest.ne_none hid)⟩,
      fun t hnone hsome => ?_, trivial⟩
    · refine hclean t ?_ (hrest.ne_none hsome)
      by_contra hne
      exact (Packed.Grows.record σ hnew).ne_none hne hnone
    · refine hclean t ?_ hsome
      by_contra hne
      exact hgrows.ne_none hne hnone
  · rintro ⟨⟨hclean, hown⟩, hclean', -⟩
    refine ⟨fun t hnone hsome => ?_, trivial⟩
    by_cases heq : t = id
    · rw [heq]
      exact hown
    · by_cases hmid : σ₁.refs t = none
      · exact hclean' t hmid hsome
      · refine hclean t ?_ hmid
        rw [Numbering.record_refs_of_ne heq]
        exact hnone

theorem entry_iff (hfirst : Packed.Grows σ σ₁) (hrest : Packed.Grows σ₁ σ') :
    Clean L σ σ' (.entries ((k, v) :: es)) ↔
      k.supported = true ∧ Clean L σ σ₁ (.values [k, v]) ∧ Clean L σ₁ σ' (.entries es) := by
  constructor
  · rintro ⟨hclean, hkeys⟩
    refine ⟨hkeys _ List.mem_cons_self, ⟨fun t hnone hsome => ?_, trivial⟩,
      fun t hnone hsome => ?_, fun e he => hkeys e (List.mem_cons_of_mem _ he)⟩
    · exact hclean t hnone (hrest.ne_none hsome)
    · refine hclean t ?_ hsome
      by_contra hne
      exact hfirst.ne_none hne hnone
  · rintro ⟨hk, ⟨hclean, -⟩, hclean', hkeys⟩
    refine ⟨fun t hnone hsome => ?_, fun e he => ?_⟩
    · by_cases hmid : σ₁.refs t = none
      · exact hclean' t hmid hsome
      · exact hclean t hnone hmid
    · rcases List.mem_cons.mp he with rfl | he
      · exact hk
      · exact hkeys e he

end Clean

namespace Rebuilt

variable {own : Option Nat} {σ σ₁ σ' : Numbering} {d d₁ d' : Deser} {len len' : Nat}

theorem refl (hsync : Sync pre base σ d) : Rebuilt L pre base N own σ σ d d 0 :=
  ⟨rfl, hsync, Nat.le_refl _, fun _ _ _ => rfl, fun _ hnone hsome => absurd hnone hsome⟩

theorem mono (h : Rebuilt L pre base N none σ σ' d d' len) (own : Option Nat) :
    Rebuilt L pre base N own σ σ' d d' len :=
  ⟨h.pos, h.sync, h.grow, fun i hi _ => h.frame i hi nofun, h.fresh⟩

/-- Bytes without a table. -/
theorem read (hsync : Sync pre base σ d) (len : Nat) :
    Rebuilt L pre base N own σ σ d (d.read len) len :=
  ⟨rfl, ⟨hsync.refs, hsync.tables⟩, Nat.le_refl _, fun _ _ _ => rfl,
    fun _ hnone hsome => absurd hnone hsome⟩

theorem entries_eq {i : Nat} (h : Rebuilt L pre base N own σ σ' d d' len)
    (hi : i < d.lua.tables.length) (hown : ∀ id, own = some id → i ≠ copyId base N id) :
    d'.lua.entries i = d.lua.entries i := by
  rw [LuaState.entries, LuaState.entries, h.frame i hi hown]

theorem trans (hN : Final L N) (h : Rebuilt L pre base N own σ σ₁ d d₁ len)
    (h' : Rebuilt L pre base N own σ₁ σ' d₁ d' len') (hown : ∀ id, own = some id → σ.refs id ≠ none)
    (hσ₁ : σ₁.Valid) (hgrows : Packed.Grows σ σ₁) (hgrows₁ : Packed.Grows σ₁ N) :
    Rebuilt L pre base N own σ σ' d d' (len + len') := by
  refine ⟨by rw [h'.pos, h.pos, Nat.add_assoc], h'.sync, Nat.le_trans h.grow h'.grow,
    fun i hi hne => ?_, fun t hnone hsome => ?_⟩
  · rw [h'.frame i (Nat.lt_of_lt_of_le hi h.grow) hne, h.frame i hi hne]
  · by_cases hmid : σ₁.refs t = none
    · exact h'.fresh t hmid hsome
    · obtain ⟨n, hn⟩ := Option.ne_none_iff_exists'.mp hmid
      have hrange := hσ₁.range hn
      have hcopy : copyId base N t = base + n - 1 := by
        rw [copyId, hgrows₁.keeps hn]
        rfl
      rw [h'.entries_eq, h.fresh t hnone hmid]
      · rw [h.sync.tables, hcopy]
        omega
      · intro id hid heq
        have hidN := (hgrows.trans hgrows₁).ne_none (hown id hid)
        have := hN.copyId_inj (hgrows₁.ne_none hmid) hidN heq
        subst this
        exact hown t hid hnone

theorem setTable (hsync : Sync pre base σ d) (id : Nat) (T : LuaTable) :
    Rebuilt L pre base N (some id) σ σ d (d.setTable (copyId base N id) T) 0 := by
  have hlen : (d.setTable (copyId base N id) T).lua.tables.length = d.lua.tables.length :=
    List.length_set
  refine ⟨rfl, ⟨hsync.refs, hlen.trans hsync.tables⟩, Nat.le_of_eq hlen.symm, fun i _ hne => ?_,
    fun _ hnone hsome => absurd hnone hsome⟩
  exact List.getElem?_set_ne (hne id rfl).symm

/-- A table: its opcode, its entries, and the opcode of its end. -/
theorem table {id : Nat} (hsync : Sync pre base σ d) (hgrows : Packed.Grows (σ.record id) N)
    (h : Rebuilt L pre base N (some id) (σ.record id) σ₁ (d.read 1).withTable d₁ len)
    (hentries : d₁.lua.entries (copyId base N id) = imageEntries (copyId base N) (L.entries id)) :
    Rebuilt L pre base N none σ σ₁ d (d₁.read 1) (1 + len + 1) := by
  have hid : copyId base N id = d.lua.tables.length := by
    rw [copyId_eq (hgrows.keeps (Numbering.record_refs_self σ id)), hsync.tables]
  have hlen : (d.read 1).withTable.lua.tables.length = d.lua.tables.length + 1 :=
    List.length_append
  refine ⟨?_, ⟨h.sync.refs, h.sync.tables⟩, ?_, fun i hi _ => ?_, fun t hnone hsome => ?_⟩
  · show d₁.pos + 1 = _
    rw [h.pos]
    show d.pos + 1 + len + 1 = _
    omega
  · have hgrow := h.grow
    rw [hlen] at hgrow
    exact Nat.le_of_succ_le hgrow
  · show d₁.lua.tables[i]? = _
    rw [h.frame i (by omega)]
    · exact List.getElem?_append_left hi
    · rintro _ ⟨⟩ rfl
      omega
  · show d₁.lua.entries _ = _
    by_cases heq : t = id
    · rw [heq, hentries]
    · refine h.fresh t ?_ hsome
      rw [Numbering.record_refs_of_ne heq]
      exact hnone

end Rebuilt

/-! ## One value -/

section Values

variable {d : Deser} {fuel : Nat}

/-- A reference, where its number is that of a table. -/
theorem unpackObj_tableRef {n id : Nat} {bytes : List UInt8}
    (h : inp.Has d.pos (EnSer.serTableRef.toByte :: leBytes 4 (n + 1) ++ bytes))
    (hn : n + 1 ≤ intMax) (href : d.refs[n]? = some id) :
    unpackObj inp (fuel + 1) d = .ok (.serTableRef, some (.table id)) (d.read 5) := by
  have hop : inp.opcode d.pos = .serTableRef := h.opcode
  have hlt : d.pos < inp.size := h.lt
  obtain ⟨⟨-, hle, hslice⟩, -⟩ := (Input.has_append.mp h).imp_left Input.has_cons.mp
  rw [leBytes_length] at hle hslice
  have hfixed : inp.fixed 4 .unpackTableRefNoIndex true (d.read 1) =
      .ok (leBytes 4 (n + 1)) (d.read 5) := by
    rw [Input.fixed_ok hle, show d.read 5 = (d.read 1).read 4 from (d.read_read 1 4).symm]
    exact congrArg (EStateM.Result.ok · _) hslice
  have hindex : int32 (leValue (leBytes 4 (n + 1))) = n + 1 := by
    rw [intMax] at hn
    rw [leValue_leBytes, Nat.mod_eq_of_lt (by omega), int32_of_lt (by omega), Nat.cast_succ]
  have hleaf : unpackLeaf inp (inp.opcode d.pos) = some (unpackTableRef inp) := by
    rw [hop]
    rfl
  have hrun : unpackTableRef inp (d.read 1) = .ok (.table id) (d.read 5) := by
    have htoNat : ((n : Int) + 1).toNat - 1 = n := by omega
    have hrefs : (d.read 5).refs = d.refs := rfl
    rw [unpackTableRef, StateError.bind_ok hfixed, StateError.get_bind]
    simp only [hindex]
    rw [if_pos (by omega), htoNat, hrefs, href]
    rfl
  rw [unpackObj_leaf hlt hleaf, hop]
  exact StateError.bind_ok hrun

/-- A scalar, or nil in its place. -/
theorem unpackObj_scalar (hcodec : ∀ v, P v → v.isTable = false → v.supported = true →
      RoundTrips v) {v : LuaValue} (hP : P v) (hv : v.isTable = false)
    (h : inp.Has d.pos (scalarBytes v)) (f : Nat → Nat) :
    ∃ ser, ser ≠ .serTableEnd ∧ unpackObj inp (fuel + 1) d =
      .ok (ser, some (v.image f)) (d.read (scalarBytes v).length) := by
  cases hs : v.supported with
  | true =>
      rw [LuaValue.image_of_supported hs, LuaValue.rename_of_not_table hv]
      exact hcodec v hP hv hs inp fuel d h
  | false =>
      rw [scalarBytes_of_not_supported hs] at h ⊢
      rw [LuaValue.image_of_not_supported hs]
      exact roundTrips_nil inp fuel d h

theorem setTable_entries {i : Nat} (hi : i < d.lua.tables.length) (T : LuaTable) :
    (d.setTable i T).lua.entries i = T.entries := by
  show ((d.lua.tables.set i T)[i]?).elim [] LuaTable.entries = T.entries
  rw [List.getElem?_set_self hi]
  rfl

/-- Setting the copy of an entry. -/
theorem rawset_copy (hN : Final L N) {id : Nat} {k v : LuaValue}
    {done es : List (LuaValue × LuaValue)} (hentries : L.entries id = done ++ (k, v) :: es)
    (hid : N.refs id ≠ none) (hk : k.supported = true)
    (hlt : copyId base N id < d.lua.tables.length)
    (htable : d.lua.entries (copyId base N id) = imageEntries (copyId base N) done) :
    ∃ T, rawset (copyId base N id) (k.image (copyId base N)) (v.image (copyId base N)) d =
        .ok () (d.setTable (copyId base N id) T) ∧
      T.entries = imageEntries (copyId base N) (done ++ [(k, v)]) := by
  generalize hf : copyId base N = f at *
  have hmem : (k, v) ∈ L.entries id := by
    rw [hentries]
    exact List.mem_append_right _ List.mem_cons_self
  have hkey : luaKey (k.rename f) = some (k.rename f) :=
    LuaValue.luaKey_rename (L.entries_normal _ hmem)
  have htableIn : ∀ {e : LuaValue × LuaValue} {t : Nat}, e ∈ L.entries id → e.1 = .table t →
      N.refs t ≠ none := by
    intro e t he heq
    refine hN.closed id hid t (mem_tablesIn.mpr (List.mem_flatMap.mpr ⟨e, he, ?_⟩))
    rw [← heq]
    exact List.mem_cons_self
  have hnew : k.rename f ∉ (imageEntries f done).map Prod.fst := by
    rw [imageEntries, List.map_map, List.mem_map]
    rintro ⟨e, he, heq⟩
    have he := List.mem_of_mem_filter he
    have hin : e ∈ L.entries id := by
      rw [hentries]
      exact List.mem_append_left _ he
    have hsame : e.1 = k := by
      refine LuaValue.rename_inj (f := f) (fun t u ht hu htu => ?_) heq
      rw [← hf] at htu
      exact hN.copyId_inj (htableIn hin ht) (htableIn hmem hu) htu
    have hnodup := L.entries_nodup (t := id)
    rw [hentries, List.map_append, List.nodup_append] at hnodup
    exact hnodup.2.2 _ (List.mem_map_of_mem he) _ List.mem_cons_self hsame
  obtain ⟨T, hT⟩ : ∃ T, d.lua.tables[f id]? = some T := ⟨_, List.getElem?_eq_getElem hlt⟩
  have hTentries : T.entries = imageEntries f done := by
    rw [← htable, LuaState.entries, hT]
    rfl
  rw [LuaValue.image_of_supported hk]
  cases hv : v.supported with
  | true =>
      have hne : v.rename f ≠ .nil := by
        rw [ne_eq, LuaValue.rename_eq_nil]
        exact L.entries_ne_nil _ hmem
      rw [LuaValue.image_of_supported hv]
      obtain ⟨T', hset, hT'⟩ := LuaTable.rawset_new (t := T) hkey hne (hTentries ▸ hnew)
      refine ⟨T', rawset_ok ?_, ?_⟩
      · rw [hT]
        exact hset
      · rw [hT', hTentries, imageEntries_append]
        simp only [imageEntries, entrySupported, List.filter_cons, List.filter_nil, hk, hv,
          Bool.and_self, if_true, List.map_cons, List.map_nil]
  | false =>
      rw [LuaValue.image_of_not_supported hv]
      have hset := LuaTable.rawset_nil (t := T) hkey (hTentries ▸ hnew)
      refine ⟨T, rawset_ok ?_, ?_⟩
      · rw [hT]
        exact hset
      · rw [hTentries, imageEntries_append]
        simp only [imageEntries, entrySupported, List.filter_cons, List.filter_nil, hk, hv,
          Bool.and_false, Bool.false_eq_true, if_false, List.map_nil, List.append_nil]

end Values

/-! ## A packed form -/

/-- What it means that a packed form is read back. The entries are those of a table whose
copy is under construction. -/
def ReadsBack (L : LuaState) (inp : Input) (pre : List Nat) (base : Nat) (N : Numbering)
    (σ : Numbering) (job : Job) (bytes : List UInt8) (depth : Nat) (σ' : Numbering) : Prop :=
  ∀ ⦃d : Deser⦄ ⦃stack : Nat⦄, Sync pre base σ d → inp.Has d.pos bytes → depth < stack →
    match job with
    | .values vs => ∃ d', Reads inp stack d (vs.map (·.image (copyId base N))) d' ∧
        Rebuilt L pre base N none σ σ' d d' bytes.length
    | .entries es => ∀ ⦃id : Nat⦄ ⦃done : List (LuaValue × LuaValue)⦄, σ.refs id ≠ none →
        L.entries id = done ++ es → copyId base N id < d.lua.tables.length →
        d.lua.entries (copyId base N id) = imageEntries (copyId base N) done →
        ∃ d', (∀ n, unpackEntries (unpackObj inp stack) (copyId base N id) (es.length + n) d =
              unpackEntries (unpackObj inp stack) (copyId base N id) n d') ∧
          Rebuilt L pre base N (some id) σ σ' d d' bytes.length ∧
          d'.lua.entries (copyId base N id) = imageEntries (copyId base N) (L.entries id)

theorem Sync.withTable {σ : Numbering} {d : Deser} (h : Sync pre base σ d) (id : Nat) :
    Sync pre base (σ.record id) (d.read 1).withTable := by
  constructor
  · show d.refs ++ [d.lua.tables.length] = pre ++ List.range' base (σ.tableRef + 1)
    rw [h.refs, h.tables, List.append_assoc, List.range'_1_concat]
  · show (d.lua.tables ++ [_]).length = base + (σ.tableRef + 1)
    rw [List.length_append, h.tables]
    rfl

theorem record_refs_ne_none (σ : Numbering) (id : Nat) : (σ.record id).refs id ≠ none := by
  rw [Numbering.record_refs_self]
  exact nofun

theorem withTable_entries (d : Deser) :
    (d.read 1).withTable.lua.entries d.lua.tables.length = [] := by
  show ((d.lua.tables ++ [LuaTable.empty])[d.lua.tables.length]?).elim [] LuaTable.entries = []
  rw [List.getElem?_concat_length]
  rfl

theorem Reads.cons_inv {fuel : Nat} {d d' : Deser} {v : LuaValue} {vs : List LuaValue}
    (h : Reads inp fuel d (v :: vs) d') :
    ∃ ser d₁, unpackObj inp fuel d = .ok (ser, some v) d₁ ∧ ser ≠ .serTableEnd ∧
      Reads inp fuel d₁ vs d' := by
  cases h with
  | cons hrun hser hrest => exact ⟨_, _, hrun, hser, hrest⟩

theorem entries_length_le (es : List (LuaValue × LuaValue)) :
    es.length ≤ (Job.entries es).locals.length := by
  induction es with
  | nil => exact Nat.le_refl 0
  | cons e es ih =>
      simp only [Job.locals, List.flatMap_cons, List.length_append, List.length_cons] at ih ⊢
      omega

section Body

variable {σ σ₁ : Numbering} {id depth stack : Nat} {bytes₁ bytes : List UInt8} {d : Deser}

/-- The state in which the entries of a table are read. -/
theorem unpackObj_body (stack : Nat) (hgrows : Packed.Grows (σ.record id) N)
    (hsync : Sync pre base σ d)
    (hhas : inp.Has d.pos (EnSer.serTableBegin.toByte :: bytes₁)) :
    unpackObj inp (stack + 1) d = (do
        unpackEntries (unpackObj inp stack) (copyId base N id) (inp.size + 1)
        return (EnSer.serTableBegin, some (LuaValue.table (copyId base N id))))
          (d.read 1).withTable ∧
      inp.Has (d.read 1).withTable.pos bytes₁ ∧
      copyId base N id < (d.read 1).withTable.lua.tables.length ∧
      (d.read 1).withTable.lua.entries (copyId base N id) = imageEntries (copyId base N) [] := by
  have hid : d.lua.tables.length = copyId base N id := by
    rw [copyId_eq (hgrows.keeps (Numbering.record_refs_self σ id)), hsync.tables]
  have htables : (d.read 1).withTable.lua.tables.length = d.lua.tables.length + 1 :=
    List.length_append
  refine ⟨?_, (Input.has_cons.mp hhas).2, by omega, ?_⟩
  · rw [unpackObj_table hhas.lt hhas.opcode, hid]
  · rw [← hid, withTable_entries]
    rfl

/-- A table is read if its entries are. -/
theorem unpackObj_copy (hgrows : Packed.Grows (σ.record id) N) (hsync : Sync pre base σ d)
    (hhas : inp.Has d.pos (EnSer.serTableBegin.toByte :: bytes₁ ++
      EnSer.serTableEnd.toByte :: bytes))
    (hstack : depth < stack) (hlen : (L.entries id).length ≤ bytes₁.length)
    (hbody : ReadsBack L inp pre base N (σ.record id) (.entries (L.entries id)) bytes₁ depth σ₁) :
    ∃ d₁, unpackObj inp (stack + 1) d =
        .ok (.serTableBegin, some (.table (copyId base N id))) d₁ ∧
      Rebuilt L pre base N none σ σ₁ d d₁ (1 + bytes₁.length + 1) := by
  obtain ⟨hfirst, hend⟩ := Input.has_append.mp hhas
  have hle := hfirst.1
  rw [List.length_cons] at hend hle
  obtain ⟨hbegin, hhas₁, hlt₁, hempty⟩ := unpackObj_body stack hgrows hsync hfirst
  obtain ⟨d₁, hrun, hrebuilt, hentries⟩ := hbody (hsync.withTable id) hhas₁ hstack
    (record_refs_ne_none σ id) rfl hlt₁ hempty
  have hpos : d.pos + (bytes₁.length + 1) = d₁.pos := by
    rw [hrebuilt.pos]
    show _ = d.pos + 1 + bytes₁.length
    omega
  rw [hpos] at hend
  have hlt := hend.lt
  obtain ⟨n, hn⟩ : ∃ n, inp.size + 1 = (L.entries id).length + (n + 1) :=
    ⟨inp.size - (L.entries id).length, by omega⟩
  obtain ⟨stack, rfl⟩ : ∃ m, stack = m + 1 := ⟨stack - 1, by omega⟩
  have hloop : unpackEntries (unpackObj inp (stack + 1)) (copyId base N id) (inp.size + 1)
      (d.read 1).withTable = .ok () (d₁.read 1) := by
    rw [hn, hrun]
    exact unpackEntries_tableEnd (unpackObj_tableEnd hlt hend.opcode)
  refine ⟨d₁.read 1, ?_, hrebuilt.table hsync hgrows hentries⟩
  rw [hbegin]
  exact StateError.bind_ok hloop

/-- An entry is set if its key and its value are read and the key is supported. -/
theorem unpackEntries_copy (hN : Final L N) {k v : LuaValue}
    {done es : List (LuaValue × LuaValue)} {linked : Bool}
    (hpacked : Packed L P σ (.values [k, v]) bytes linked depth σ₁) (hσ : σ.Valid)
    (hgrows : Packed.Grows σ₁ N)
    (hread : ReadsBack L inp pre base N σ (.values [k, v]) bytes depth σ₁)
    (hsync : Sync pre base σ d) (hhas : inp.Has d.pos bytes) (hstack : depth < stack)
    (hid : σ.refs id ≠ none) (hentries : L.entries id = done ++ (k, v) :: es)
    (hk : k.supported = true) (hlt : copyId base N id < d.lua.tables.length)
    (htable : d.lua.entries (copyId base N id) = imageEntries (copyId base N) done) :
    ∃ d₁, (∀ n, unpackEntries (unpackObj inp stack) (copyId base N id) (n + 1) d =
          unpackEntries (unpackObj inp stack) (copyId base N id) n d₁) ∧
      Rebuilt L pre base N (some id) σ σ₁ d d₁ bytes.length ∧
      d₁.lua.entries (copyId base N id) = imageEntries (copyId base N) (done ++ [(k, v)]) := by
  -- Reading the key and the value leaves the copy of the table as it is.
  obtain ⟨d₁, hreads, hrebuilt⟩ := hread hsync hhas hstack
  obtain ⟨_, dk, hkey, hkeySer, hreads⟩ := hreads.cons_inv
  obtain ⟨_, dv, hvalue, -, hreads⟩ := hreads.cons_inv
  obtain rfl : d₁ = dv := by
    cases hreads
    rfl
  have hlt₁ : copyId base N id < d₁.lua.tables.length := Nat.lt_of_lt_of_le hlt hrebuilt.grow
  have htable₁ : d₁.lua.entries (copyId base N id) = imageEntries (copyId base N) done := by
    rw [hrebuilt.entries_eq hlt nofun, htable]
  obtain ⟨T, hset, hT⟩ := rawset_copy hN hentries ((hpacked.grows.trans hgrows).ne_none hid) hk
    hlt₁ htable₁
  refine ⟨_, fun n => ?_, ?_, (setTable_entries hlt₁ T).trans hT⟩
  · rw [unpackEntries_value hkey hkeySer hvalue, StateError.bind_ok hset]
  · exact (hrebuilt.mono (some id)).trans hN (.setTable hrebuilt.sync id T)
      (fun _ heq => Option.some.inj heq ▸ hid) (hpacked.valid hσ) hpacked.grows hgrows

end Body

namespace Packed

variable {σ σ' : Numbering} {job : Job} {bytes : List UInt8} {linked : Bool} {depth : Nat}

theorem unlinked_or {linked₁ : Bool} (h : pre = [] ∨ (linked₁ || linked) = false) :
    (pre = [] ∨ linked₁ = false) ∧ (pre = [] ∨ linked = false) :=
  ⟨h.imp_right fun hor => (Bool.or_eq_false_iff.mp hor).1,
    h.imp_right fun hor => (Bool.or_eq_false_iff.mp hor).2⟩

/-- A packed form is read back if its keys are supported and its references can be
resolved. By induction on the form; the entries of a table are read into its copy, which
nothing else changes. -/
theorem readsBack (hcodec : ∀ v, P v → v.isTable = false → v.supported = true → RoundTrips v)
    (hN : Final L N) (h : Packed L P σ job bytes linked depth σ') (hσ : σ.Valid)
    (hgrows : Grows σ' N) (hclean : Clean L σ σ' job) (hlink : pre = [] ∨ linked = false) :
    ReadsBack L inp pre base N σ job bytes depth σ' := by
  induction h with
  | nil =>
      intro d stack hsync _ _
      exact ⟨d, .nil, .refl hsync⟩
  | @scalar σ σ' v vs bytes linked depth hv hP hrest ih =>
      intro d stack hsync hhas hstack
      obtain ⟨hfirst, hhas⟩ := Input.has_append.mp hhas
      obtain ⟨stack, rfl⟩ := Nat.exists_eq_add_one_of_ne_zero (Nat.ne_zero_of_lt hstack)
      obtain ⟨ser, hser, hrun⟩ := unpackObj_scalar hcodec hP hv hfirst (copyId base N)
      have hread : Rebuilt L pre base N none σ σ d _ _ := .read hsync (scalarBytes v).length
      obtain ⟨d', hreads, hrebuilt⟩ := ih hσ hgrows hclean hlink hread.sync hhas hstack
      refine ⟨d', .cons hrun hser hreads, ?_⟩
      rw [List.length_append]
      exact hread.trans hN hrebuilt nofun hσ (.refl _) (hrest.grows.trans hgrows)
  | @ref σ σ' id n vs bytes linked depth hn hP hle hrest ih =>
      intro d stack hsync hhas hstack
      obtain rfl : pre = [] := hlink.resolve_right fun htrue => by cases htrue
      have hrange := hσ.range hn
      obtain ⟨n, rfl⟩ : ∃ m, n = m + 1 := ⟨n - 1, by omega⟩
      obtain ⟨stack, rfl⟩ := Nat.exists_eq_add_one_of_ne_zero (Nat.ne_zero_of_lt hstack)
      have href : d.refs[n]? = some (copyId base N id) := by
        rw [hsync.refs, List.nil_append, List.getElem?_range' (by omega),
          copyId_eq (hgrows.keeps (hrest.grows.keeps hn)), Nat.one_mul]
      have hrun := @unpackObj_tableRef _ _ stack _ _ _ hhas hle href
      have hread : Rebuilt L [] base N none σ σ d _ _ := .read hsync 5
      have hlen : (EnSer.serTableRef.toByte :: leBytes 4 (n + 1)).length = 5 := by
        rw [List.length_cons, leBytes_length]
      have hhas := (Input.has_append.mp hhas).2
      rw [hlen] at hhas
      obtain ⟨d', hreads, hrebuilt⟩ := ih hσ hgrows hclean (.inl rfl) hread.sync hhas hstack
      refine ⟨d', .cons hrun EnSer.noConfusion hreads, ?_⟩
      rw [List.length_append, hlen]
      exact hread.trans hN hrebuilt nofun hσ (.refl _) (hrest.grows.trans hgrows)
  | @table σ σ₁ σ' id vs bytes₁ bytes linked₁ linked depth₁ depth hnew hP hlt hbody hrest ih ih' =>
      intro d stack hsync hhas hstack
      obtain ⟨stack, rfl⟩ := Nat.exists_eq_add_one_of_ne_zero (Nat.ne_zero_of_lt hstack)
      have hσ₁ := hbody.valid (hσ.record id hnew)
      have hgrows₁ := hrest.grows.trans hgrows
      obtain ⟨hclean₁, hclean₂⟩ := (Clean.table_iff hnew hbody.grows hrest.grows).mp hclean
      obtain ⟨hlink₁, hlink₂⟩ := unlinked_or hlink
      have hentries : (L.entries id).length ≤ bytes₁.length := by
        exact Nat.le_trans (entries_length_le _) hbody.length_le
      have hstack₁ : depth₁ < stack := by omega
      have hstack₂ : depth < stack + 1 := by omega
      obtain ⟨d₁, hrun, hrebuilt₁⟩ := unpackObj_copy (hbody.grows.trans hgrows₁) hsync hhas hstack₁
        hentries (ih (hσ.record id hnew) hgrows₁ hclean₁ hlink₁)
      have hhas := (Input.has_append.mp hhas).2
      have hpos : d.pos + (EnSer.serTableBegin.toByte :: bytes₁).length + 1 = d₁.pos := by
        rw [hrebuilt₁.pos, List.length_cons]
        omega
      obtain ⟨d', hreads, hrebuilt⟩ := ih' hσ₁ hgrows hclean₂ hlink₂ hrebuilt₁.sync
        (hpos ▸ (Input.has_cons.mp hhas).2) hstack₂
      have hlen :
          (EnSer.serTableBegin.toByte :: bytes₁ ++ EnSer.serTableEnd.toByte :: bytes).length =
          1 + bytes₁.length + 1 + bytes.length := by
        rw [List.length_append, List.length_cons, List.length_cons]
        omega
      refine ⟨d', .cons hrun EnSer.noConfusion hreads, ?_⟩
      rw [hlen]
      exact hrebuilt₁.trans hN hrebuilt nofun hσ₁
        ((Grows.record σ hnew).trans hbody.grows) hgrows₁
  | noEntries =>
      intro d stack hsync _ _ id done _ hentries _ htable
      rw [List.append_nil] at hentries
      refine ⟨d, fun n => by rw [List.length_nil, Nat.zero_add], .refl hsync, ?_⟩
      rw [hentries, htable]
  | @entry σ σ₁ σ' k v es bytes₁ bytes linked₁ linked depth₁ depth hfirst hrest ih ih' =>
      intro d stack hsync hhas hstack id done hid hentries hlt htable
      obtain ⟨hhas₁, hhas₂⟩ := Input.has_append.mp hhas
      have hgrows₁ := hrest.grows.trans hgrows
      have hidN : N.refs id ≠ none := (hfirst.grows.trans hgrows₁).ne_none hid
      obtain ⟨hk, hclean₁, hclean₂⟩ := (Clean.entry_iff hfirst.grows hrest.grows).mp hclean
      obtain ⟨hlink₁, hlink₂⟩ := unlinked_or hlink
      have hstack₁ : depth₁ < stack := by omega
      have hstack₂ : depth < stack := by omega
      obtain ⟨d₁, hstep, hset, htable₁⟩ := unpackEntries_copy hN hfirst hσ hgrows₁
        (ih hσ hgrows₁ hclean₁ hlink₁) hsync hhas₁ hstack₁ hid hentries hk hlt htable
      have hentries' : L.entries id = done ++ [(k, v)] ++ es := by
        rw [hentries, List.append_assoc]
        rfl
      obtain ⟨d', hrun, hrebuilt, htable'⟩ := ih' (hfirst.valid hσ) hgrows hclean₂ hlink₂
        hset.sync (hset.pos ▸ hhas₂) hstack₂ (hfirst.grows.ne_none hid) hentries'
        (Nat.lt_of_lt_of_le hlt hset.grow) htable₁
      refine ⟨d', fun n => ?_, ?_, htable'⟩
      · have hlen : ((k, v) :: es).length + n = es.length + n + 1 := by
          rw [List.length_cons]
          omega
        rw [hlen, hstep, hrun]
      · rw [List.length_append]
        exact hset.trans hN hrebuilt (fun _ heq => Option.some.inj heq ▸ hid) (hfirst.valid hσ)
          hfirst.grows hgrows₁

end Packed

end RandServer
