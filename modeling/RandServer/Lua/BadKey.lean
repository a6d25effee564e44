import RandServer.Lua.Rebuild

/-!
# Reading a packed form with an unsupported key

An unsupported key is packed as nil. The decoder reads everything up to the first entry
with such a key, and setting that entry raises a Lua error.
-/

namespace RandServer

variable {L : LuaState} {P : LuaValue → Prop} {inp : Input} {N : Numbering} {base : Nat}
  {pre : List Nat} {fuel : Nat} {d d₁ : Deser}

/-- Reading `count` values raises a Lua error. -/
def ReadsRaise (inp : Input) (fuel count : Nat) (d : Deser) : Prop :=
  ∃ us d₁ d₂, Reads inp fuel d us d₁ ∧ us.length < count ∧
    unpackObj inp fuel d₁ = .error .luaError d₂

/-- What it means that reading a packed form raises a Lua error. -/
def RaisesBack (L : LuaState) (inp : Input) (pre : List Nat) (base : Nat) (N : Numbering)
    (σ : Numbering) (job : Job) (bytes : List UInt8) : Prop :=
  ∀ ⦃d : Deser⦄ ⦃fuel : Nat⦄, Sync pre base σ d → inp.Has d.pos bytes → inp.size < d.pos + fuel →
    match job with
    | .values vs => ReadsRaise inp fuel vs.length d
    | .entries es => ∀ ⦃id : Nat⦄ ⦃done : List (LuaValue × LuaValue)⦄, σ.refs id ≠ none →
        L.entries id = done ++ es → copyId base N id < d.lua.tables.length →
        d.lua.entries (copyId base N id) = imageEntries (copyId base N) done →
        ∀ n, ∃ d', unpackEntries (unpackObj inp fuel) (copyId base N id) (es.length + n) d =
          .error .luaError d'

theorem ReadsRaise.cons {count : Nat} {v : LuaValue} (hfirst : Reads inp fuel d [v] d₁)
    (h : ReadsRaise inp fuel count d₁) : ReadsRaise inp fuel (count + 1) d := by
  obtain ⟨us, d₂, d₃, hreads, hlt, hrun⟩ := h
  obtain ⟨ser, d₁', hone, hser, hnil⟩ := hfirst.cons_inv
  obtain rfl : d₁ = d₁' := by
    cases hnil
    rfl
  exact ⟨v :: us, d₂, d₃, .cons hone hser hreads, Nat.succ_lt_succ hlt, hrun⟩

theorem ReadsRaise.head {e : Deser} (count : Nat) (h : unpackObj inp fuel d = .error .luaError e) :
    ReadsRaise inp fuel (count + 1) d := ⟨[], d, e, .nil, Nat.succ_pos count, h⟩

/-- A loop over entries raises what reading its key or its value raises. -/
theorem ReadsRaise.unpackEntries (h : ReadsRaise inp fuel 2 d) (id n : Nat) :
    ∃ d', unpackEntries (unpackObj inp fuel) id (n + 1) d = .error .luaError d' := by
  obtain ⟨us, d₁, d₂, hreads, hlt, hrun⟩ := h
  cases hreads with
  | nil => exact ⟨d₂, unpackEntries_error hrun⟩
  | cons hkey hser hreads =>
      cases hreads with
      | nil => exact ⟨d₂, unpackEntries_value_error hkey hser hrun⟩
      | cons => exact absurd hlt (by simp only [List.length_cons]; omega)

section Body

variable {σ σ₁ : Numbering} {v : LuaValue} {vs : List LuaValue} {bytes₁ bytes : List UInt8}

/-- If the first value is read, the others are to raise the error. -/
theorem RaisesBack.rest {depth : Nat} (hdepth : depth ≤ bytes₁.length)
    (hread : ReadsBack L inp pre base N σ (.values [v]) bytes₁ depth σ₁)
    (hrest : RaisesBack L inp pre base N σ₁ (.values vs) bytes) :
    RaisesBack L inp pre base N σ (.values (v :: vs)) (bytes₁ ++ bytes) := by
  intro d fuel hsync hhas hfuel
  obtain ⟨hhas₁, hhas₂⟩ := Input.has_append.mp hhas
  have hle := hhas₁.1
  have hstack : depth < fuel := by omega
  obtain ⟨d₁, hreads, hrebuilt⟩ := hread hsync hhas₁ hstack
  have hfuel₁ : inp.size < d₁.pos + fuel := by
    rw [hrebuilt.pos]
    omega
  exact .cons hreads (hrest hrebuilt.sync (hrebuilt.pos ▸ hhas₂) hfuel₁)

/-- A table raises what its entries raise. -/
theorem RaisesBack.table {id : Nat} (hgrows : Packed.Grows (σ.record id) N)
    (hlen : (L.entries id).length ≤ bytes₁.length)
    (hbody : RaisesBack L inp pre base N (σ.record id) (.entries (L.entries id)) bytes₁) :
    RaisesBack L inp pre base N σ (.values (.table id :: vs))
      (EnSer.serTableBegin.toByte :: bytes₁ ++ bytes) := by
  intro d fuel hsync hhas hfuel
  obtain ⟨hfirst, -⟩ := Input.has_append.mp hhas
  have hlt := hfirst.lt
  have hle := hfirst.1
  rw [List.length_cons] at hle
  obtain ⟨fuel, rfl⟩ : ∃ m, fuel = m + 1 := ⟨fuel - 1, by omega⟩
  obtain ⟨hbegin, hhas₁, hlt₁, hempty⟩ := unpackObj_body fuel hgrows hsync hfirst
  have hfuel₁ : inp.size < (d.read 1).withTable.pos + fuel := by
    show inp.size < d.pos + 1 + fuel
    omega
  obtain ⟨n, hn⟩ : ∃ n, inp.size + 1 = (L.entries id).length + n :=
    ⟨inp.size + 1 - (L.entries id).length, by omega⟩
  obtain ⟨d', hloop⟩ := hbody (hsync.withTable id) hhas₁ hfuel₁ (record_refs_ne_none σ id) rfl
    hlt₁ hempty n
  rw [← hn] at hloop
  exact .head vs.length (hbegin.trans (StateError.bind_error hloop))

end Body

namespace Packed

variable {σ σ' : Numbering} {job : Job} {bytes : List UInt8} {linked : Bool} {depth : Nat}

/-- Reading a packed form raises a Lua error if a key in it is not supported. By
induction on the form: what stands before the error is read. -/
theorem raisesBack (hcodec : ∀ v, P v → v.isTable = false → v.supported = true → RoundTrips v)
    (hN : Final L N) (h : Packed L P σ job bytes linked depth σ') (hσ : σ.Valid)
    (hgrows : Grows σ' N) (hclean : ¬ Clean L σ σ' job) (hlink : pre = [] ∨ linked = false) :
    RaisesBack L inp pre base N σ job bytes := by
  have hunclean : ∀ {σ : Numbering} {vs : List LuaValue}, Clean L σ σ (.values vs) :=
    ⟨fun t hnone hsome => absurd hnone hsome, trivial⟩
  induction h with
  | nil => exact (hclean hunclean).elim
  | @scalar σ σ' v vs bytes linked depth hv hP hrest ih =>
      have hread : ReadsBack L inp pre base N σ (.values [v]) (scalarBytes v ++ []) 0 σ :=
        readsBack hcodec hN (.scalar hv hP .nil) hσ (hrest.grows.trans hgrows) hunclean (.inr rfl)
      rw [List.append_nil] at hread
      exact .rest (Nat.zero_le _) hread (ih hσ hgrows hclean hlink)
  | @ref σ σ' id n vs bytes linked depth hn hP hle hrest ih =>
      obtain rfl : pre = [] := hlink.resolve_right fun htrue => by cases htrue
      have hread : ReadsBack L inp [] base N σ (.values [.table id])
          (EnSer.serTableRef.toByte :: leBytes 4 n ++ []) 0 σ :=
        readsBack hcodec hN (.ref hn hP hle .nil) hσ (hrest.grows.trans hgrows) hunclean (.inl rfl)
      rw [List.append_nil] at hread
      exact .rest (Nat.zero_le _) hread (ih hσ hgrows hclean (.inl rfl))
  | @table σ σ₁ σ' id vs bytes₁ bytes linked₁ linked depth₁ depth hnew hP hlt hbody hrest ih ih' =>
      have hgrows₁ := hrest.grows.trans hgrows
      obtain ⟨hlink₁, hlink₂⟩ := unlinked_or hlink
      rw [Clean.table_iff hnew hbody.grows hrest.grows] at hclean
      intro d fuel hsync hhas hfuel
      by_cases hclean₁ : Clean L (σ.record id) σ₁ (.entries (L.entries id))
      · have hclean₂ : ¬ Clean L σ₁ σ' (.values vs) := fun hclean₂ => hclean ⟨hclean₁, hclean₂⟩
        have htable := Packed.table hnew hP hlt hbody .nil
        have hread : ReadsBack L inp pre base N σ (.values [.table id])
            (EnSer.serTableBegin.toByte :: bytes₁ ++ [EnSer.serTableEnd.toByte])
            (max (depth₁ + 1) 0) σ₁ :=
          readsBack hcodec hN htable hσ hgrows₁
            ((Clean.table_iff hnew hbody.grows (.refl _)).mpr ⟨hclean₁, hunclean⟩)
            (by rw [Bool.or_false]; exact hlink₁)
        have hbytes : EnSer.serTableBegin.toByte :: bytes₁ ++ EnSer.serTableEnd.toByte :: bytes =
            (EnSer.serTableBegin.toByte :: bytes₁ ++ [EnSer.serTableEnd.toByte]) ++ bytes := by
          rw [List.append_assoc]
          rfl
        rw [hbytes] at hhas
        exact RaisesBack.rest htable.depth_le hread
          (ih' (hbody.valid (hσ.record id hnew)) hgrows hclean₂ hlink₂) hsync hhas hfuel
      · exact RaisesBack.table (hbody.grows.trans hgrows₁)
          (Nat.le_trans (entries_length_le _) hbody.length_le)
          (ih (hσ.record id hnew) hgrows₁ hclean₁ hlink₁) hsync hhas hfuel
  | noEntries => exact (hclean ⟨fun t hnone hsome => absurd hnone hsome,
      fun e he => absurd he List.not_mem_nil⟩).elim
  | @entry σ σ₁ σ' k v es bytes₁ bytes linked₁ linked depth₁ depth hfirst hrest ih ih' =>
      intro d fuel hsync hhas hfuel id done hid hentries hlt htable
      obtain ⟨hhas₁, hhas₂⟩ := Input.has_append.mp hhas
      have hgrows₁ := hrest.grows.trans hgrows
      obtain ⟨hlink₁, hlink₂⟩ := unlinked_or hlink
      rw [Clean.entry_iff hfirst.grows hrest.grows] at hclean
      intro n
      have hlen : ((k, v) :: es).length + n = es.length + n + 1 := by
        rw [List.length_cons]
        omega
      rw [hlen]
      by_cases hclean₁ : Clean L σ σ₁ (.values [k, v])
      · have hread : ReadsBack L inp pre base N σ (.values [k, v]) bytes₁ depth₁ σ₁ :=
          readsBack hcodec hN hfirst hσ hgrows₁ hclean₁ hlink₁
        have hstack : depth₁ < fuel := by
          have hle := hhas₁.1
          have hdepth := hfirst.depth_le
          omega
        cases hk : k.supported with
        | true =>
            obtain ⟨d₁, hstep, hset, htable₁⟩ := unpackEntries_copy hN hfirst hσ hgrows₁ hread
              hsync hhas₁ hstack hid hentries hk hlt htable
            have hentries' : L.entries id = done ++ [(k, v)] ++ es := by
              rw [hentries, List.append_assoc]
              rfl
            have hfuel₁ : inp.size < d₁.pos + fuel := by
              rw [hset.pos]
              omega
            rw [hstep]
            exact ih' (hfirst.valid hσ) hgrows (fun hclean₂ => hclean ⟨hk, hclean₁, hclean₂⟩)
              hlink₂ hset.sync (hset.pos ▸ hhas₂) hfuel₁ (hfirst.grows.ne_none hid) hentries'
              (Nat.lt_of_lt_of_le hlt hset.grow) htable₁ n
        | false =>
            obtain ⟨d₁, hreads, -⟩ := hread hsync hhas₁ hstack
            obtain ⟨_, dk, hkey, hser, hreads⟩ := hreads.cons_inv
            obtain ⟨_, dv, hvalue, -, -⟩ := hreads.cons_inv
            have hnil : luaKey (k.image (copyId base N)) = none := by
              rw [LuaValue.image_of_not_supported hk]
              rfl
            rw [unpackEntries_value hkey hser hvalue]
            exact ⟨dv, StateError.bind_error (rawset_error hnil)⟩
      · exact (ih hσ hgrows₁ hclean₁ hlink₁ hsync hhas₁ hfuel).unpackEntries _ _

end Packed

end RandServer
