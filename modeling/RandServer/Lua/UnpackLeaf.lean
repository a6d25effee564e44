import RandServer.Lua.Format

/-!
# Unpacking one item without recursion

Every case of `unpack_obj` that pushes a value directly agrees with `leafEnd`: it succeeds
exactly on complete operands and moves the cursor to their end. Only a userdata record
can make the decoder look behind the input, or leave the memory.
-/

namespace RandServer

/-- The state at the end of a run. -/
def finalState {α : Type} : EStateM.Result Stop Deser α → Deser
  | .ok _ d => d
  | .error _ d => d

/-- What unpacking a value leaves alone. -/
structure Deser.Frame (d d' : Deser) : Prop where
  refs : d'.refs = d.refs
  tables : d'.lua.tables = d.lua.tables
  metatables : d'.lua.metatables = d.lua.metatables

/-- A record stops unpacking by a read outside the memory, other values with a code. -/
structure StopsAs (record : Prop) (e : Stop) : Prop where
  segfault : record → e = .segfault
  error : ¬ record → ∃ code info, e = .error code info

theorem StopsAs.code {record : Prop} (h : ¬ record) (code : EnError) (info : Int) :
    StopsAs record (.error code info) :=
  ⟨fun hrecord => absurd hrecord h, fun _ => ⟨code, info, rfl⟩⟩

variable {inp : Input} {ser : EnSer} {d : Deser}

/-- The outcome of unpacking a leaf from `d` on. -/
structure LeafResult (inp : Input) (ser : EnSer) (d : Deser)
    (r : EStateM.Result Stop Deser LuaValue) : Prop where
  ok : ∀ v d', r = .ok v d' → d.Frame d' ∧
    leafEnd inp d.lua.metatables ser d.refs.length d.pos = some ((luaKey v).isNone, d'.pos)
  error : ∀ e d', r = .error e d' → d.Frame d' ∧
    StopsAs (ser = .serUserData ∧ d.pos + 8 ≤ inp.size) e ∧
    leafEnd inp d.lua.metatables ser d.refs.length d.pos = none
  seen : (finalState r).seen ≤ inp.size ↔ d.seen ≤ inp.size ∧
    (ser = .serUserData → d.pos + 8 ≤ inp.size →
      UserdataWithin inp d.lua.metatables inp.size d.pos)

namespace LeafResult

theorem of_ok {r : EStateM.Result Stop Deser LuaValue} {v : LuaValue} {d' : Deser}
    (hr : r = .ok v d') (hframe : d.Frame d')
    (hend : leafEnd inp d.lua.metatables ser d.refs.length d.pos =
      some ((luaKey v).isNone, d'.pos))
    (hseen : d'.seen ≤ inp.size ↔ d.seen ≤ inp.size ∧
      (ser = .serUserData → d.pos + 8 ≤ inp.size →
        UserdataWithin inp d.lua.metatables inp.size d.pos)) : LeafResult inp ser d r := by
  subst hr
  refine ⟨?_, ?_, hseen⟩
  · rintro v' d'' heq
    cases heq
    exact ⟨hframe, hend⟩
  · rintro e d'' heq
    cases heq

theorem of_error {r : EStateM.Result Stop Deser LuaValue} {e : Stop} {d' : Deser}
    (hr : r = .error e d') (hframe : d.Frame d')
    (hstop : StopsAs (ser = .serUserData ∧ d.pos + 8 ≤ inp.size) e)
    (hend : leafEnd inp d.lua.metatables ser d.refs.length d.pos = none)
    (hseen : d'.seen ≤ inp.size ↔ d.seen ≤ inp.size ∧
      (ser = .serUserData → d.pos + 8 ≤ inp.size →
        UserdataWithin inp d.lua.metatables inp.size d.pos)) : LeafResult inp ser d r := by
  subst hr
  refine ⟨?_, ?_, hseen⟩
  · rintro v' d'' heq
    cases heq
  · rintro e' d'' heq
    cases heq
    exact ⟨hframe, hstop, hend⟩

/-- A value without operands. -/
theorem pure {v : LuaValue} (hser : ser ≠ .serUserData)
    (hend : leafEnd inp d.lua.metatables ser d.refs.length d.pos =
      some ((luaKey v).isNone, d.pos)) : LeafResult inp ser d (.ok v d) :=
  of_ok rfl ⟨rfl, rfl, rfl⟩ hend ⟨fun h => ⟨h, fun heq => absurd heq hser⟩, And.left⟩

theorem read_seen {len : Nat} (hser : ser ≠ .serUserData) (h : d.pos + len ≤ inp.size) :
    (d.read len).seen ≤ inp.size ↔ d.seen ≤ inp.size ∧
      (ser = .serUserData → d.pos + 8 ≤ inp.size →
        UserdataWithin inp d.lua.metatables inp.size d.pos) := by
  constructor
  · intro hseen
    exact ⟨Nat.le_trans (Nat.le_max_left ..) hseen, fun heq => absurd heq hser⟩
  · intro hseen
    exact Nat.max_le.mpr ⟨hseen.1, h⟩

/-- A value of fixed length. -/
theorem fixed {g : List UInt8 → LuaValue} {len : Nat} {code : EnError} {withInfo : Bool}
    (hser : ser ≠ .serUserData)
    (hend : leafEnd inp d.lua.metatables ser d.refs.length d.pos =
      (inp.fixedEnd len d.pos).map ((luaKey (g (inp.slice d.pos len))).isNone, ·)) :
    LeafResult inp ser d ((do return g (← inp.fixed len code withInfo)) d) := by
  by_cases h : d.pos + len ≤ inp.size
  · refine of_ok (StateError.bind_ok (Input.fixed_ok h code withInfo)) ⟨rfl, rfl, rfl⟩ ?_
      (read_seen hser h)
    rw [hend, Input.fixedEnd, if_pos h]
    rfl
  · have hlt := Nat.lt_of_not_le h
    refine of_error (StateError.bind_error (Input.fixed_error hlt code withInfo)) ⟨rfl, rfl, rfl⟩
      (.code (fun hrecord => hser hrecord.1) _ _) ?_
      ⟨fun hseen => ⟨hseen, fun heq => absurd heq hser⟩, And.left⟩
    rw [hend, Input.fixedEnd, if_neg h]
    rfl

theorem string {width : Nat} {noSize noData : EnError} (hser : ser ≠ .serUserData)
    (hend : leafEnd inp d.lua.metatables ser d.refs.length d.pos =
      (inp.stringEnd width d.pos).map (false, ·)) :
    LeafResult inp ser d (unpackString inp width noSize noData d) := by
  by_cases h : d.pos + width ≤ inp.size
  · have hsize := StateError.bind_ok (Input.fixed_ok h noSize true)
      (f := fun size => do return LuaValue.string (← inp.fixed (leValue size) noData true))
    generalize hlen : leValue (inp.slice d.pos width) = len at hsize
    have hend' : inp.stringEnd width d.pos = inp.fixedEnd len (d.read width).pos := by
      rw [Input.stringEnd, hlen, Input.fixedEnd, if_pos h]
      rfl
    by_cases h' : (d.read width).pos + len ≤ inp.size
    · refine of_ok (hsize.trans (StateError.bind_ok (Input.fixed_ok h' noData true)))
        ⟨rfl, rfl, rfl⟩ ?_ ?_
      · rw [hend, hend', Input.fixedEnd, if_pos h']
        rfl
      · constructor
        · intro hseen
          refine ⟨Nat.le_trans ?_ hseen, fun heq => absurd heq hser⟩
          exact Nat.le_trans (Nat.le_max_left ..) (Nat.le_max_left ..)
        · intro hseen
          exact Nat.max_le.mpr ⟨Nat.max_le.mpr ⟨hseen.1, h⟩, h'⟩
    · refine of_error (hsize.trans (StateError.bind_error
        (Input.fixed_error (Nat.lt_of_not_le h') noData true))) ⟨rfl, rfl, rfl⟩
        (.code (fun hrecord => hser hrecord.1) _ _) ?_ (read_seen hser h)
      rw [hend, hend', Input.fixedEnd, if_neg h']
      rfl
  · have hlt := Nat.lt_of_not_le h
    refine of_error (StateError.bind_error (Input.fixed_error hlt noSize true)) ⟨rfl, rfl, rfl⟩
      (.code (fun hrecord => hser hrecord.1) _ _) ?_
      ⟨fun hseen => ⟨hseen, fun heq => absurd heq hser⟩, And.left⟩
    rw [hend, Input.stringEnd, Input.fixedEnd, if_neg h]
    rfl

theorem tableRef : LeafResult inp .serTableRef d (unpackTableRef inp d) := by
  have hne : EnSer.serTableRef ≠ .serUserData := by decide
  have hend : leafEnd inp d.lua.metatables .serTableRef d.refs.length d.pos =
      if 1 ≤ int32 (leValue (inp.slice d.pos 4)) ∧
        int32 (leValue (inp.slice d.pos 4)) ≤ d.refs.length then
        (inp.fixedEnd 4 d.pos).map (false, ·) else none := rfl
  by_cases h : d.pos + 4 ≤ inp.size
  · have hrefs : (d.read 4).refs = d.refs := rfl
    generalize hindex : int32 (leValue (inp.slice d.pos 4)) = index at hend
    by_cases hin : 1 ≤ index ∧ index ≤ d.refs.length
    · have hlt : index.toNat - 1 < d.refs.length := by omega
      have hrun : unpackTableRef inp d = .ok (.table d.refs[index.toNat - 1]) (d.read 4) := by
        rw [unpackTableRef, StateError.bind_ok (Input.fixed_ok h .unpackTableRefNoIndex true),
          StateError.get_bind]
        simp only [hindex]
        rw [if_pos hin.1, hrefs, List.getElem?_eq_getElem hlt]
        rfl
      refine of_ok hrun ⟨rfl, rfl, rfl⟩ ?_ (read_seen hne h)
      rw [hend, if_pos hin, Input.fixedEnd, if_pos h]
      rfl
    · have hnone : (if 1 ≤ index then d.refs[index.toNat - 1]? else none) = none := by
        split_ifs with hpos
        · apply List.getElem?_eq_none
          omega
        · rfl
      have hrun : unpackTableRef inp d =
          .error (.error .unpackTableRefNoTable (int16 (index % 2 ^ 16).toNat)) (d.read 4) := by
        rw [unpackTableRef, StateError.bind_ok (Input.fixed_ok h .unpackTableRefNoIndex true),
          StateError.get_bind]
        simp only [hindex]
        rw [hrefs, hnone]
        rfl
      refine of_error hrun ⟨rfl, rfl, rfl⟩ (.code (fun hrecord => hne hrecord.1) _ _) ?_
        (read_seen hne h)
      rw [hend, if_neg hin]
  · have hlt := Nat.lt_of_not_le h
    refine of_error (StateError.bind_error (Input.fixed_error hlt .unpackTableRefNoIndex true))
      ⟨rfl, rfl, rfl⟩ (.code (fun hrecord => hne hrecord.1) _ _) ?_
      ⟨fun hseen => ⟨hseen, fun heq => absurd heq hne⟩, And.left⟩
    rw [hend, Input.fixedEnd, if_neg h]
    split_ifs <;> rfl

/-- Looking up to `upTo` last, after everything else a userdata record needs. -/
theorem userdata_seen {seen nameEnd sizeEnd upTo pos : Nat} {registered : Prop}
    (hname : pos + 1 ≤ nameEnd)
    (hwithin : UserdataWithin inp d.lua.metatables inp.size pos ↔
      nameEnd ≤ inp.size ∧ sizeEnd ≤ inp.size ∧ (registered → upTo ≤ inp.size)) :
    (max (max (max seen (pos + 1)) nameEnd) sizeEnd ≤ inp.size ∧ (registered → upTo ≤ inp.size)) ↔
      seen ≤ inp.size ∧ UserdataWithin inp d.lua.metatables inp.size pos := by
  rw [hwithin]
  constructor
  · rintro ⟨hmax, hreg⟩
    exact ⟨by omega, by omega, by omega, hreg⟩
  · rintro ⟨hseen, hin, hsize, hreg⟩
    exact ⟨by omega, hreg⟩

theorem userdata_clause (h : d.pos + 8 ≤ inp.size) :
    (d.seen ≤ inp.size ∧ (EnSer.serUserData = .serUserData → d.pos + 8 ≤ inp.size →
      UserdataWithin inp d.lua.metatables inp.size d.pos)) ↔
      d.seen ≤ inp.size ∧ UserdataWithin inp d.lua.metatables inp.size d.pos :=
  ⟨fun hseen => ⟨hseen.1, hseen.2 rfl h⟩, fun hseen => ⟨hseen.1, fun _ _ => hseen.2⟩⟩

theorem userdata : LeafResult inp .serUserData d (unpackUserdata inp d) := by
  have hend : leafEnd inp d.lua.metatables .serUserData d.refs.length d.pos =
      if d.pos + 8 ≤ inp.size ∧ UserdataWithin inp d.lua.metatables inp.mem.length d.pos then
        some ((d.lua.metatables.lookup (inp.userdataName d.pos)).isNone, inp.userdataEnd d.pos)
      else none := rfl
  unfold unpackUserdata
  by_cases h : d.pos + 8 ≤ inp.size
  · have hsize := inp.size_le
    rw [StateError.bind_ok (Input.check_ok h .unpackUserdataNoBuff false),
      StateError.bind_ok (Input.byte_ok (by omega))]
    generalize hname : inp.userdataName d.pos = name at hend
    have hwithin : ∀ limit, UserdataWithin inp d.lua.metatables limit d.pos ↔
        d.pos + 1 + name.length + 1 ≤ limit ∧ inp.userdataSizeAt d.pos + 1 ≤ limit ∧
          ((d.lua.metatables.lookup name).isSome → inp.userdataEnd d.pos ≤ limit) := by
      intro limit
      rw [UserdataWithin, hname]
    by_cases hname_ok : d.pos + 1 + name.length + 1 ≤ inp.mem.length
    · rw [StateError.bind_ok (Input.cString_ok (d := d.read 1) hname hname_ok),
        StateError.modify_bind]
      generalize hd : Deser.mk _ _ _ _ = d₁
      have hpos : d₁.pos = inp.userdataSizeAt d.pos := by rw [← hd]; rfl
      have hseen : d₁.seen = max (max d.seen (d.pos + 1)) (d.pos + 1 + name.length + 1) := by
        rw [← hd]; rfl
      have hrefs : d₁.refs = d.refs := by rw [← hd]; rfl
      have hlua : d₁.lua = d.lua := by rw [← hd]; rfl
      have htables : d₁.lua.tables = d.lua.tables := by rw [hlua]
      have hmetatables : d₁.lua.metatables = d.lua.metatables := by rw [hlua]
      by_cases hsize_ok : inp.userdataSizeAt d.pos + 1 ≤ inp.mem.length
      · rw [StateError.bind_ok (Input.byte_ok (by rw [hpos]; exact hsize_ok)), StateError.get_bind,
          show (d₁.read 1).lua = d.lua from hlua]
        have hblock : (d₁.read 1).pos + leValue (inp.slice d₁.pos 1) = inp.userdataEnd d.pos := by
          show d₁.pos + 1 + _ = _
          rw [hpos]
          rfl
        have hmark : (d₁.read 1).seen = max (max (max d.seen (d.pos + 1))
            (d.pos + 1 + name.length + 1)) (inp.userdataSizeAt d.pos + 1) := by
          show max d₁.seen (d₁.pos + 1) = _
          rw [hseen, hpos]
        have hall := @userdata_seen inp d d.seen _ _ _ d.pos _ (by omega) (hwithin inp.size)
        cases hlookup : d.lua.metatables.lookup name with
        | none =>
            simp only [hlookup, Option.isNone_none, Option.isSome_none, Bool.false_eq_true,
              false_implies, and_true] at hend hwithin hall ⊢
            refine of_ok (StateError.modify_bind.trans rfl) ⟨hrefs, htables, hmetatables⟩ ?_ ?_
            · rw [hend, if_pos ⟨h, (hwithin _).mpr ⟨hname_ok, hsize_ok⟩⟩]
              exact congrArg (fun p => some (true, p)) hblock.symm
            · rw [userdata_clause h, ← hall, ← hmark]
        | some metatable =>
            simp only [hlookup, Option.isNone_some, Option.isSome_some, true_implies]
              at hend hwithin hall ⊢
            by_cases hblock_ok : inp.userdataEnd d.pos ≤ inp.mem.length
            · rw [StateError.bind_ok (Input.take_ok (by rw [hblock]; exact hblock_ok))]
              refine of_ok (StateError.get_bind.trans StateError.modify_bind)
                ⟨hrefs, htables, hmetatables⟩ ?_ ?_
              · rw [hend, if_pos ⟨h, (hwithin _).mpr ⟨hname_ok, hsize_ok, hblock_ok⟩⟩]
                exact congrArg (fun p => some (false, p)) hblock.symm
              · rw [userdata_clause h, ← hall, ← hmark, ← hblock, ← Nat.max_le]
                rfl
            · have hlt : inp.mem.length < (d₁.read 1).pos + leValue (inp.slice d₁.pos 1) := by
                rw [hblock]
                exact Nat.lt_of_not_le hblock_ok
              rw [StateError.bind_error (Input.take_error hlt)]
              refine of_error rfl ⟨hrefs, htables, hmetatables⟩
                ⟨fun _ => rfl, fun hnot => absurd ⟨rfl, h⟩ hnot⟩ ?_ ?_
              · rw [hend, if_neg]
                rintro ⟨-, hin⟩
                exact hblock_ok ((hwithin _).mp hin).2.2
              · rw [userdata_clause h, ← hall, ← hmark, ← hblock, ← Nat.max_le]
      · have hlt : inp.mem.length < d₁.pos + 1 := by
          rw [hpos]
          exact Nat.lt_of_not_le hsize_ok
        rw [StateError.bind_error (Input.byte_error hlt)]
        refine of_error rfl ⟨hrefs, htables, hmetatables⟩
          ⟨fun _ => rfl, fun hnot => absurd ⟨rfl, h⟩ hnot⟩ ?_ ⟨fun hle => ?_, fun hle => ?_⟩
        · rw [hend, if_neg]
          rintro ⟨-, hin⟩
          exact hsize_ok ((hwithin _).mp hin).2.1
        · have := Nat.le_trans (Nat.le_max_right d₁.seen (d₁.pos + 1)) hle
          omega
        · have := ((hwithin _).mp (hle.2 rfl h)).2.1
          omega
    · have hlt : inp.mem.length < (d.read 1).pos + name.length + 1 :=
        Nat.lt_of_not_le hname_ok
      rw [StateError.bind_error (Input.cString_error (d := d.read 1) hname hlt)]
      refine of_error rfl ⟨rfl, rfl, rfl⟩ ⟨fun _ => rfl, fun hnot => absurd ⟨rfl, h⟩ hnot⟩ ?_
        ⟨fun hle => ?_, fun hle => ?_⟩
      · rw [hend, if_neg]
        rintro ⟨-, hin⟩
        exact hname_ok ((hwithin _).mp hin).1
      · have := Nat.le_trans (Nat.le_max_right (d.read 1).seen (d.pos + 1 + name.length + 1)) hle
        omega
      · have := ((hwithin _).mp (hle.2 rfl h)).1
        omega
  · rw [StateError.bind_error (Input.check_error (Nat.lt_of_not_le h) .unpackUserdataNoBuff false)]
    refine of_error rfl ⟨rfl, rfl, rfl⟩ (.code (fun hrecord => h hrecord.2) _ _) ?_
      ⟨fun hseen => ⟨hseen, fun _ hpos => absurd hpos h⟩, And.left⟩
    rw [hend, if_neg]
    rintro ⟨hpos, -⟩
    exact h hpos

end LeafResult

theorem luaKey_number_isNone (bits : BitVec 64) :
    (luaKey (.number bits)).isNone = numIsNaN bits := by
  cases h : numIsNaN bits <;> simp [luaKey, h]

/-- The direct cases of `unpack_obj` follow the format. -/
theorem unpackLeaf_result {leaf : Decoder LuaValue} (hleaf : unpackLeaf inp ser = some leaf) :
    LeafResult inp ser d (leaf d) := by
  cases ser with
  | serNone => cases hleaf
  | serTableBegin => cases hleaf
  | serTableEnd => cases hleaf
  | serNil => cases hleaf; exact .pure nofun rfl
  | serBoolFalse => cases hleaf; exact .pure nofun rfl
  | serBoolTrue => cases hleaf; exact .pure nofun rfl
  | serInt8 => cases hleaf; exact .fixed nofun rfl
  | serInt16 => cases hleaf; exact .fixed nofun rfl
  | serInt32 => cases hleaf; exact .fixed nofun rfl
  | serInt64 => cases hleaf; exact .fixed nofun rfl
  | serLightuserData => cases hleaf; exact .fixed nofun rfl
  | serDouble =>
      cases hleaf
      refine .fixed nofun ?_
      rw [luaKey_number_isNone]
      rfl
  | serString8 => cases hleaf; exact .string nofun rfl
  | serString16 => cases hleaf; exact .string nofun rfl
  | serString32 => cases hleaf; exact .string nofun rfl
  | serTableRef => cases hleaf; exact .tableRef
  | serUserData => cases hleaf; exact .userdata

theorem unpackLeaf_eq_none (hleaf : unpackLeaf inp ser = none) (n pos : Nat)
    (metatables : List (List UInt8 × LuaMetatable)) :
    leafEnd inp metatables ser n pos = none := by
  cases ser <;> first | rfl | cases hleaf

end RandServer
