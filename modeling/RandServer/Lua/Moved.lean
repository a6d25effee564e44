import RandServer.Lua.Deserialize
import RandServer.Lua.Table
import RandServer.Lib.StateError

/-!
# Decoding beside other objects

The decoder creates objects and never looks at those that were there before. So the
same input, decoded in a state with more tables and more userdata, gives the same values
up to the identities of the new objects, which are moved on by as many places.
-/

namespace RandServer

section Values

variable (k j : Nat)

/-- A value whose table or userdata stands `k` or `j` places further on. -/
def LuaValue.move : LuaValue → LuaValue
  | .table id => .table (id + k)
  | .userdata id => .userdata (id + j)
  | v => v

variable {k j}

theorem LuaValue.move_inj {v w : LuaValue} (h : v.move k j = w.move k j) : v = w := by
  cases v with
  | table id =>
      cases w with
      | table id' => exact congrArg _ (Nat.add_right_cancel (LuaValue.table.inj h))
      | _ => cases h
  | userdata id =>
      cases w with
      | userdata id' => exact congrArg _ (Nat.add_right_cancel (LuaValue.userdata.inj h))
      | _ => cases h
  | _ =>
      cases w with
      | table id' => cases h
      | userdata id' => cases h
      | _ => exact h

@[simp] theorem LuaValue.move_eq_nil {v : LuaValue} : v.move k j = .nil ↔ v = .nil := by
  cases v <;> simp [LuaValue.move]

theorem luaKey_move (v : LuaValue) : luaKey (v.move k j) = (luaKey v).map (·.move k j) := by
  cases v with
  | number bits =>
      show luaKey (.number bits) = _
      cases hnan : numIsNaN bits with
      | true => simp only [luaKey, hnan, if_true, Option.map_none]
      | false =>
          cases hint : numIsInteger bits with
          | none => simp only [luaKey, hnan, hint, Bool.false_eq_true, if_false]; rfl
          | some i => simp only [luaKey, hnan, hint, Bool.false_eq_true, if_false]; rfl
  | _ => rfl

variable (k j)

def LuaTable.move (t : LuaTable) : LuaTable where
  entries := t.entries.map (Prod.map (·.move k j) (·.move k j))
  keys_normal := by
    intro e he
    obtain ⟨⟨key, v⟩, hmem, rfl⟩ := List.mem_map.mp he
    have hkey := t.keys_normal _ hmem
    exact (luaKey_move key).trans (congrArg (Option.map _) hkey)
  keys_nodup := by
    have hkeys : (t.entries.map (Prod.map (·.move k j) (·.move k j))).map Prod.fst =
        (t.entries.map Prod.fst).map (LuaValue.move k j) := by
      rw [List.map_map, List.map_map]
      rfl
    rw [hkeys]
    exact t.keys_nodup.map fun _ _ => LuaValue.move_inj
  values_ne_nil := by
    intro e he
    obtain ⟨⟨key, v⟩, hmem, rfl⟩ := List.mem_map.mp he
    exact fun hnil => t.values_ne_nil _ hmem (LuaValue.move_eq_nil.mp hnil)

variable {k j}

theorem LuaTable.ext_entries {t u : LuaTable} (h : t.entries = u.entries) : t = u := by
  cases t
  cases u
  cases h
  rfl

theorem LuaTable.rawset_move (t : LuaTable) (key v : LuaValue) :
    (t.move k j).rawset (key.move k j) (v.move k j) = (t.rawset key v).map (·.move k j) := by
  cases hkey : luaKey key with
  | none =>
      have hmoved : luaKey (key.move k j) = none := by rw [luaKey_move, hkey]; rfl
      rw [rawset_eq_none_iff.mpr hkey, rawset_eq_none_iff.mpr hmoved]
      rfl
  | some k₁ =>
      have hmoved : luaKey (key.move k j) = some (k₁.move k j) := by rw [luaKey_move, hkey]; rfl
      rw [rawset_eq hkey, rawset_eq hmoved]
      refine congrArg some (ext_entries ?_)
      have hfilter : (t.move k j).entries.filter (·.1 ≠ k₁.move k j) =
          (t.entries.filter (·.1 ≠ k₁)).map (Prod.map (·.move k j) (·.move k j)) := by
        rw [LuaTable.move, List.filter_map]
        refine congrArg _ (List.filter_congr fun e _ => ?_)
        exact decide_eq_decide.mpr (not_congr ⟨LuaValue.move_inj, congrArg (LuaValue.move k j)⟩)
      rw [set_entries hmoved, hfilter]
      show _ = (t.set key v).entries.map _
      rw [set_entries hkey, List.map_append]
      by_cases hnil : v = .nil
      · rw [if_pos hnil, if_pos (LuaValue.move_eq_nil.mpr hnil)]
        rfl
      · rw [if_neg hnil, if_neg (fun h => hnil (LuaValue.move_eq_nil.mp h))]
        rfl

end Values

/-! ## Two decoders side by side -/

/-- From place `b` on, the elements stand `k` places further on in the second list. -/
structure ListMoved {α : Type} (f : α → α) (b k : Nat) (l l' : List α) : Prop where
  length : l'.length = l.length + k
  get : ∀ i, b ≤ i → l'[i + k]? = (l[i]?).map f

namespace ListMoved

variable {α : Type} {f : α → α} {b k : Nat} {l l' : List α}

theorem append (h : ListMoved f b k l l') (x : α) :
    ListMoved f b k (l ++ [x]) (l' ++ [f x]) := by
  constructor
  · rw [List.length_append, List.length_append, h.length, List.length_singleton,
      List.length_singleton]
    omega
  · intro i hi
    rcases Nat.lt_trichotomy i l.length with hlt | rfl | hgt
    · have hlt' : i + k < l'.length := by
        rw [h.length]
        omega
      rw [List.getElem?_append_left hlt, List.getElem?_append_left hlt', h.get i hi]
    · rw [← h.length, List.getElem?_concat_length, List.getElem?_concat_length, Option.map_some]
    · have hout : (l ++ [x])[i]? = none := by
        rw [List.getElem?_eq_none_iff, List.length_append, List.length_singleton]
        exact hgt
      have hout' : (l' ++ [f x])[i + k]? = none := by
        rw [List.getElem?_eq_none_iff, List.length_append, List.length_singleton, h.length]
        omega
      rw [hout, hout', Option.map_none]

theorem set (h : ListMoved f b k l l') (i : Nat) (x : α) :
    ListMoved f b k (l.set i x) (l'.set (i + k) (f x)) := by
  constructor
  · rw [List.length_set, List.length_set]
    exact h.length
  · intro n hn
    rw [List.getElem?_set, List.getElem?_set, h.get n hn, h.length]
    by_cases hi : i = n
    · subst hi
      rw [if_pos rfl, if_pos rfl]
      by_cases hlt : i < l.length
      · rw [if_pos hlt, if_pos (Nat.add_lt_add_right hlt k), Option.map_some]
      · rw [if_neg hlt, if_neg (fun h => hlt (Nat.lt_of_add_lt_add_right h)), Option.map_none]
    · rw [if_neg hi, if_neg (fun h => hi (Nat.add_right_cancel h))]

end ListMoved

/-- A state that has come later: no object is gone. -/
structure LuaState.Extends (L M : LuaState) : Prop where
  metatables : M.metatables = L.metatables
  tables : L.tables.length ≤ M.tables.length
  userdata : L.userdata.length ≤ M.userdata.length

theorem LuaState.Extends.refl (L : LuaState) : L.Extends L :=
  ⟨rfl, Nat.le_refl _, Nat.le_refl _⟩

/-- The objects created since `L` stand `k` and `j` places further on in the second state. -/
structure MovedObjects (L : LuaState) (k j : Nat) (refs refs' : List Nat) (M M' : LuaState) :
    Prop where
  later : L.Extends M
  refs : refs' = refs.map (· + k)
  metatables : M'.metatables = M.metatables
  tables : ListMoved (LuaTable.move k j) L.tables.length k M.tables M'.tables
  userdata : ListMoved id L.userdata.length j M.userdata M'.userdata

structure Deser.Moved (L : LuaState) (k j : Nat) (d d' : Deser) : Prop where
  pos : d'.pos = d.pos
  seen : d'.seen = d.seen
  objects : MovedObjects L k j d.refs d'.refs d.lua d'.lua

section Decoders

open StateError

variable {inp : Input} {L : LuaState} {k j : Nat}

/-- Both decoders do the same to their objects, and return related values. -/
abbrev MovesTo (L : LuaState) (k j : Nat) {α : Type} (rel : α → α → Prop) (x x' : Decoder α) :
    Prop :=
  Alike (Deser.Moved L k j) rel x x'

theorem look_moves (upTo : Nat) : MovesTo L k j Eq (inp.look upTo) (inp.look upTo) := by
  intro d d' h
  have hnext : ({ d with seen := max d.seen upTo } : Deser).Moved L k j
      { d' with seen := max d'.seen upTo } := ⟨h.pos, congrArg (max · upTo) h.seen, h.objects⟩
  unfold Input.look
  split_ifs
  · exact .error hnext
  · exact .ok rfl hnext

theorem advance_moves (len : Nat) :
    MovesTo L k j Eq (modify fun d => { d with pos := d.pos + len } : Decoder Unit)
      (modify fun d => { d with pos := d.pos + len }) :=
  .modify rfl fun _ _ h => ⟨congrArg (· + len) h.pos, h.seen, h.objects⟩

theorem take_moves (len : Nat) : MovesTo L k j Eq (inp.take len) (inp.take len) := by
  refine Alike.bind Alike.get fun d d' h => ?_
  rw [h.pos]
  refine (look_moves _).bind fun _ _ _ => ?_
  exact (advance_moves len).bind fun _ _ _ => .pure rfl

theorem check_moves (len : Nat) (code : EnError) (withInfo : Bool) :
    MovesTo L k j Eq (inp.check len code withInfo) (inp.check len code withInfo) := by
  refine Alike.bind Alike.get fun d d' h => ?_
  rw [h.pos]
  split
  · exact .throw _
  · exact .pure rfl

theorem fixed_moves (len : Nat) (code : EnError) (withInfo : Bool) :
    MovesTo L k j Eq (inp.fixed len code withInfo) (inp.fixed len code withInfo) :=
  (check_moves len code withInfo).bind fun _ _ _ => take_moves len

theorem byte_moves : MovesTo L k j Eq inp.byte inp.byte := by
  refine (take_moves 1).bind fun bytes _ h => ?_
  obtain rfl := h
  exact .pure rfl

theorem cString_moves : MovesTo L k j Eq inp.cString inp.cString := by
  refine Alike.bind Alike.get fun d d' h => ?_
  rw [h.pos]
  exact (look_moves _).bind fun _ _ _ => .pure rfl

/-! ## Objects -/

/-- The second value is the first one, moved on. -/
def MovedValue (k j : Nat) (v v' : LuaValue) : Prop := v' = v.move k j

theorem newUserdata_moves (block : List UInt8) (metatable : LuaMetatable) :
    MovesTo L k j (MovedValue k j) (newUserdata block metatable) (newUserdata block metatable) := by
  refine Alike.bind Alike.get fun d d' h => ?_
  rw [h.objects.userdata.length]
  refine Alike.bind (Alike.modify (S := Eq) rfl fun e e' he => ⟨he.pos, he.seen, ?_⟩) ?_
  · have hobj := he.objects
    refine ⟨⟨hobj.later.metatables, hobj.later.tables, ?_⟩, hobj.refs, hobj.metatables,
      hobj.tables, hobj.userdata.append _⟩
    rw [List.length_append]
    exact Nat.le_add_right_of_le hobj.later.userdata
  · exact fun _ _ _ => .pure rfl

theorem newTable_moves :
    MovesTo L k j (fun id id' => L.tables.length ≤ id ∧ id' = id + k) newTable newTable := by
  refine Alike.bind Alike.get fun d d' h => ?_
  have hlength := h.objects.tables.length
  rw [hlength]
  refine Alike.bind (Alike.modify (S := Eq) rfl fun e e' he => ⟨he.pos, he.seen, ?_⟩) ?_
  · have hobj := he.objects
    refine ⟨⟨hobj.later.metatables, ?_, hobj.later.userdata⟩, ?_, hobj.metatables,
      hobj.tables.append _, hobj.userdata⟩
    · rw [List.length_append]
      exact Nat.le_add_right_of_le hobj.later.tables
    · rw [hobj.refs, List.map_append]
      rfl
  · exact fun _ _ _ => .pure ⟨h.objects.later.tables, rfl⟩

theorem rawset_moves {id : Nat} (hid : L.tables.length ≤ id) (key v : LuaValue) :
    MovesTo L k j Eq (rawset id key v) (rawset (id + k) (key.move k j) (v.move k j)) := by
  refine Alike.bind Alike.get fun d d' h => ?_
  have htable : (d'.lua.tables[id + k]?).getD .empty =
      ((d.lua.tables[id]?).getD .empty).move k j := by
    rw [h.objects.tables.get id hid]
    cases d.lua.tables[id]? <;> rfl
  rw [htable, LuaTable.rawset_move]
  cases ((d.lua.tables[id]?).getD .empty).rawset key v with
  | none => exact .throw _
  | some t =>
      refine .modify rfl fun e e' he => ⟨he.pos, he.seen, ?_⟩
      have hobj := he.objects
      refine ⟨⟨hobj.later.metatables, ?_, hobj.later.userdata⟩, hobj.refs, hobj.metatables,
        hobj.tables.set id t, hobj.userdata⟩
      rw [List.length_set]
      exact hobj.later.tables

theorem unpackUserdata_moves :
    MovesTo L k j (MovedValue k j) (unpackUserdata inp) (unpackUserdata inp) := by
  refine (check_moves _ _ _).bind fun _ _ _ => byte_moves.bind fun nameSize _ hsize => ?_
  obtain rfl := hsize
  refine cString_moves.bind fun name _ hname => (advance_moves _).bind fun _ _ _ => ?_
  obtain rfl := hname
  refine byte_moves.bind fun size _ hsize => Alike.bind Alike.get fun d d' h => ?_
  obtain rfl := hsize
  rw [h.objects.metatables]
  cases d.lua.metatables.lookup name with
  | none => exact (advance_moves _).bind fun _ _ _ => .pure rfl
  | some metatable =>
      refine (take_moves _).bind fun block _ hblock => ?_
      obtain rfl := hblock
      exact newUserdata_moves block metatable

theorem unpackTableRef_moves :
    MovesTo L k j (MovedValue k j) (unpackTableRef inp) (unpackTableRef inp) := by
  refine (fixed_moves _ _ _).bind fun bytes _ hbytes => Alike.bind Alike.get fun d d' h => ?_
  obtain rfl := hbytes
  rw [h.objects.refs, List.getElem?_map]
  split_ifs
  · cases d.refs[(int32 (leValue bytes)).toNat - 1]? with
    | none => exact .throw _
    | some id => exact .pure rfl
  · exact .throw _

/-- A leaf that reads bytes, and no object. -/
theorem fixed_value_moves {len : Nat} {code : EnError} {withInfo : Bool}
    {value : List UInt8 → LuaValue} (hvalue : ∀ bytes, (value bytes).move k j = value bytes) :
    MovesTo L k j (MovedValue k j) (do return value (← inp.fixed len code withInfo))
      (do return value (← inp.fixed len code withInfo)) := by
  refine (fixed_moves _ _ _).bind fun bytes _ hbytes => ?_
  obtain rfl := hbytes
  exact .pure (hvalue bytes).symm

theorem unpackString_moves (width : Nat) (noSize noData : EnError) :
    MovesTo L k j (MovedValue k j) (unpackString inp width noSize noData)
      (unpackString inp width noSize noData) := by
  refine (fixed_moves _ _ _).bind fun bytes _ hbytes => ?_
  obtain rfl := hbytes
  exact fixed_value_moves fun _ => rfl

theorem unpackLeaf_moves {ser : EnSer} {leaf : Decoder LuaValue}
    (h : unpackLeaf inp ser = some leaf) : MovesTo L k j (MovedValue k j) leaf leaf := by
  cases ser with
  | serNone => cases h
  | serTableBegin => cases h
  | serTableEnd => cases h
  | serNil => cases h; exact .pure rfl
  | serBoolFalse => cases h; exact .pure rfl
  | serBoolTrue => cases h; exact .pure rfl
  | serString8 => cases h; exact unpackString_moves _ _ _
  | serString16 => cases h; exact unpackString_moves _ _ _
  | serString32 => cases h; exact unpackString_moves _ _ _
  | serTableRef => cases h; exact unpackTableRef_moves
  | serUserData => cases h; exact unpackUserdata_moves
  | _ => cases h; exact fixed_value_moves fun _ => rfl

/-! ## The recursion -/

/-- Both opcodes are the same, and the second value is the first one, moved on. -/
def MovedItem (k j : Nat) (r r' : EnSer × Option LuaValue) : Prop :=
  r' = (r.1, r.2.map (·.move k j))

theorem unpackEntries_moves {unpack : Decoder (EnSer × Option LuaValue)}
    (hunpack : MovesTo L k j (MovedItem k j) unpack unpack) {id : Nat}
    (hid : L.tables.length ≤ id) (fuel : Nat) :
    MovesTo L k j Eq (unpackEntries unpack id fuel) (unpackEntries unpack (id + k) fuel) := by
  induction fuel with
  | zero => exact .throw _
  | succ fuel ih =>
      refine hunpack.bind fun item _ hkey => ?_
      obtain ⟨ser, key⟩ := item
      obtain rfl := hkey
      cases key with
      | none =>
          cases ser with
          | serTableEnd => exact .pure rfl
          | _ => exact .throw _
      | some key =>
          cases ser with
          | serTableEnd => exact .pure rfl
          | _ =>
              refine hunpack.bind fun item _ hvalue => ?_
              obtain ⟨_, value⟩ := item
              obtain rfl := hvalue
              cases value with
              | none => exact .throw _
              | some value => exact (rawset_moves hid key value).bind fun _ _ _ => ih

theorem unpackObj_moves (fuel : Nat) :
    MovesTo L k j (MovedItem k j) (unpackObj inp fuel) (unpackObj inp fuel) := by
  induction fuel with
  | zero => exact .throw _
  | succ fuel ih =>
      refine Alike.bind Alike.get fun d d' h => ?_
      rw [h.pos]
      split
      · exact .pure rfl
      refine byte_moves.bind fun op _ hop => ?_
      obtain rfl := hop
      cases hser : EnSer.ofOp op with
      | serTableBegin =>
          refine newTable_moves.bind fun id _ hid => ?_
          obtain ⟨hle, rfl⟩ := hid
          exact (unpackEntries_moves ih hle _).bind fun _ _ _ => .pure rfl
      | serTableEnd => exact .pure rfl
      | _ =>
          dsimp only
          split
          · rename_i leaf hleaf
            refine (unpackLeaf_moves hleaf).bind fun v _ hv => ?_
            obtain rfl := hv
            exact .pure rfl
          · exact .throw _

theorem unpackValues_moves (room : Nat → Nat) (resCount : Int) (fuel : Nat)
    (values : List LuaValue) :
    MovesTo L k j (fun vs vs' => vs' = vs.map (·.move k j))
      (unpackValues inp room resCount fuel values)
      (unpackValues inp room resCount fuel (values.map (·.move k j))) := by
  induction fuel generalizing values with
  | zero => exact .throw _
  | succ fuel ih =>
      refine Alike.bind Alike.get fun d d' h => ?_
      rw [h.pos]
      split
      · exact .pure rfl
      rw [List.length_map]
      refine (unpackObj_moves _).bind fun ⟨ser, value⟩ _ hvalue => ?_
      obtain rfl := hvalue
      cases value with
      | none => exact .throw _
      | some value =>
          have happend : values.map (·.move k j) ++ [value.move k j] =
              (values ++ [value]).map (·.move k j) := by
            rw [List.map_append]
            rfl
          show MovesTo L k j _ _ (if 0 < resCount ∧
            resCount ≤ (values.map (·.move k j) ++ [value.move k j]).length then _ else _)
          rw [happend, List.length_map]
          dsimp only
          split
          · exact .pure rfl
          · exact ih _

end Decoders

/-! ## Whole runs -/

theorem ListMoved.of_length {α : Type} {f : α → α} {k : Nat} {l l' : List α}
    (h : l'.length = l.length + k) : ListMoved f l.length k l l' := by
  refine ⟨h, fun i hi => ?_⟩
  rw [List.getElem?_eq_none hi, List.getElem?_eq_none (by omega), Option.map_none]

/-- A value decoded in `L`, as it is decoded in a later state. -/
def LuaState.moveTo (L L' : LuaState) : LuaValue → LuaValue :=
  .move (L'.tables.length - L.tables.length) (L'.userdata.length - L.userdata.length)

theorem deserializeUnpack_moves {L L' : LuaState} (h : L.Extends L') (inp : Input)
    (resCount : Int) :
    StateError.Outcomes (Deser.Moved L (L'.tables.length - L.tables.length)
        (L'.userdata.length - L.userdata.length)) (fun vs vs' => vs' = vs.map (L.moveTo L'))
      (deserializeUnpack inp resCount L) (deserializeUnpack inp resCount L') := by
  refine unpackValues_moves _ resCount _ [] _ _ ⟨rfl, rfl, .refl L, rfl, h.metatables, ?_, ?_⟩
  · exact .of_length (Nat.add_sub_cancel' h.tables).symm
  · exact .of_length (Nat.add_sub_cancel' h.userdata).symm

theorem deserializeUnpack_extends {inp : Input} {resCount : Int} {L : LuaState}
    {values : List LuaValue} {d : Deser} (h : deserializeUnpack inp resCount L = .ok values d) :
    L.Extends d.lua := by
  have hrun := deserializeUnpack_moves (.refl L) inp resCount
  rw [h] at hrun
  cases hrun with
  | ok _ hmoved => exact hmoved.objects.later

end RandServer
