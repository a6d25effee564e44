import RandServer.Lib.CWord
import RandServer.Lib.StateError
import RandServer.Lua.Serialize

/-!
# Unpacking

`deserialize_unpack` of `serialize.c`. Its input is a pointer and a size. Behind the input
there is more memory, and `seen` records how far the decoder has looked. Running off that
memory as well is a fault.

The fields `error` and `error_info` are the error of a run: after an error nothing is done
but to return. A Lua error is another way to stop, which skips the callers.

Nested tables are unpacked by nested calls, and all values wait on the Lua stack. Nothing
limits either, since the results of `lua_checkstack` are not looked at. So a run is given
the `room` that the two stacks have, and ends when it needs more.
-/

namespace RandServer

/-- The part of `en_error` that unpacking uses. -/
inductive EnError
  | unpackError
  | unpackString8NoSizeBuff
  | unpackString8NoDataBuff
  | unpackString16NoSizeBuff
  | unpackString16NoDataBuff
  | unpackString32NoSizeBuff
  | unpackString32NoDataBuff
  | unpackDoubleNoBuff
  | unpackInt8NoBuff
  | unpackInt16NoBuff
  | unpackInt32NoBuff
  | unpackInt64NoBuff
  | unpackTableNoKeyBuff
  | unpackTableNoValueBuff
  | unpackTableRefNoIndex
  | unpackTableRefNoTable
  | unpackErrorOpType
  | unpackUserdataNoBuff
  | unpackLightuserdataNoBuff
  deriving DecidableEq, Repr

/-- Why unpacking stops: an error code with its information, an error that Lua raises, a
read outside the memory, or calls that leave the stack. -/
inductive Stop
  | error (code : EnError) (info : Int)
  | luaError
  | segfault
  | stackOverflow
  | fuel
  deriving DecidableEq, Repr

/-- The input and the memory behind it. -/
structure Input where
  mem : List UInt8
  size : Nat
  size_le : size ≤ mem.length

/-- The state of a run: `bytes_pos`, how many bytes have been looked at, the table of
table references, and the Lua state. -/
structure Deser where
  pos : Nat
  seen : Nat
  refs : List Nat
  lua : LuaState

abbrev Decoder := EStateM Stop Deser

namespace Input

variable (inp : Input)

/-- Look at the bytes in front of `upTo`. -/
def look (upTo : Nat) : Decoder Unit := fun d =>
  let d := { d with seen := max d.seen upTo }
  if inp.mem.length < upTo then .error .segfault d else .ok () d

/-- Copy bytes and move on, without a check. -/
def take (len : Nat) : Decoder (List UInt8) := do
  let d ← get
  inp.look (d.pos + len)
  modify fun d => { d with pos := d.pos + len }
  return (inp.mem.drop d.pos).take len

/-- The check in front of every read. -/
def check (len : Nat) (code : EnError) (withInfo : Bool) : Decoder Unit := do
  let d ← get
  if inp.size < d.pos + len then
    throw (.error code (if withInfo then int16 d.pos else 0))

/-- A check and a read of fixed length. -/
def fixed (len : Nat) (code : EnError) (withInfo : Bool) : Decoder (List UInt8) := do
  inp.check len code withInfo
  inp.take len

/-- The zero-terminated string at the cursor. -/
def cString : Decoder (List UInt8) := do
  let d ← get
  let name := (inp.mem.drop d.pos).takeWhile (· ≠ 0)
  inp.look (d.pos + name.length + 1)
  return name

def byte : Decoder Nat := do
  let bytes ← inp.take 1
  return leValue bytes

end Input

/-- `lua_pushinteger` of a signed integer of `bytes.length` bytes. -/
def signedValue (bytes : List UInt8) : LuaValue :=
  .integer ((BitVec.ofNat (8 * bytes.length) (leValue bytes)).signExtend 64)

section Scalars

variable (inp : Input)

def unpackInteger8 : Decoder LuaValue := do
  return signedValue (← inp.fixed 1 .unpackInt8NoBuff true)

def unpackInteger16 : Decoder LuaValue := do
  return signedValue (← inp.fixed 2 .unpackInt16NoBuff true)

def unpackInteger32 : Decoder LuaValue := do
  return signedValue (← inp.fixed 4 .unpackInt32NoBuff true)

def unpackInteger64 : Decoder LuaValue := do
  return signedValue (← inp.fixed 8 .unpackInt64NoBuff false)

def unpackDouble : Decoder LuaValue := do
  return .number (BitVec.ofNat 64 (leValue (← inp.fixed 8 .unpackDoubleNoBuff true)))

/-- A string whose length takes `width` bytes. -/
def unpackString (width : Nat) (noSize noData : EnError) : Decoder LuaValue := do
  let size ← inp.fixed width noSize true
  return .string (← inp.fixed (leValue size) noData true)

def unpackString8 : Decoder LuaValue :=
  unpackString inp 1 .unpackString8NoSizeBuff .unpackString8NoDataBuff

def unpackString16 : Decoder LuaValue :=
  unpackString inp 2 .unpackString16NoSizeBuff .unpackString16NoDataBuff

/-- The length is read as an `unsigned int`. -/
def unpackString32 : Decoder LuaValue :=
  unpackString inp 4 .unpackString32NoSizeBuff .unpackString32NoDataBuff

def unpackLightuserdata : Decoder LuaValue := do
  return .lightuserdata
    (BitVec.ofNat 64 (leValue (← inp.fixed 8 .unpackLightuserdataNoBuff false)))

/-- `lua_newuserdata` and `lua_setmetatable`. -/
def newUserdata (block : List UInt8) (metatable : LuaMetatable) : Decoder LuaValue := do
  let d ← get
  modify fun d => { d with lua := { d.lua with
    userdata := d.lua.userdata ++ [{ block := block, metatable := some metatable }] } }
  return .userdata d.lua.userdata.length

/-- `unpack_userdata`. The check is for the size of a pointer. Neither the name nor the
block is checked against the size of the input. -/
def unpackUserdata : Decoder LuaValue := do
  inp.check 8 .unpackUserdataNoBuff false
  let nameSize ← inp.byte
  let name ← inp.cString
  modify fun d => { d with pos := d.pos + nameSize }
  let size ← inp.byte
  let d ← get
  match d.lua.metatables.lookup name with
  | none =>
      modify fun d => { d with pos := d.pos + size }
      return .nil
  | some metatable =>
      let block ← inp.take size
      newUserdata block metatable

/-- `unpack_table_ref`. -/
def unpackTableRef : Decoder LuaValue := do
  let index := int32 (leValue (← inp.fixed 4 .unpackTableRefNoIndex true))
  let d ← get
  match if 1 ≤ index then d.refs[index.toNat - 1]? else none with
  | some id => return .table id
  | none => throw (.error .unpackTableRefNoTable (int16 (index % 2 ^ 16).toNat))

end Scalars

/-- `lua_newtable`, and the new table is appended to the table of references. -/
def newTable : Decoder Nat := do
  let d ← get
  let id := d.lua.tables.length
  modify fun d => { d with
    refs := d.refs ++ [id]
    lua := { d.lua with tables := d.lua.tables ++ [.empty] } }
  return id

/-- `lua_rawset` on the table under construction. -/
def rawset (id : Nat) (key value : LuaValue) : Decoder Unit := do
  let d ← get
  match ((d.lua.tables[id]?).getD .empty).rawset key value with
  | none => throw .luaError
  | some t => modify fun d => { d with lua := { d.lua with tables := d.lua.tables.set id t } }

/-- The loop of `unpack_table` over the entries, given how to unpack an object. The fuel
bounds the number of entries. -/
def unpackEntries (unpack : Decoder (EnSer × Option LuaValue)) (id : Nat) :
    Nat → Decoder Unit
  | 0 => throw .fuel
  | fuel + 1 => do
      let key ← unpack
      match key with
      | (.serTableEnd, _) => return ()
      | (_, none) => throw (.error .unpackTableNoKeyBuff 0)
      | (_, some key) =>
          let value ← unpack
          match value with
          | (_, none) => throw (.error .unpackTableNoValueBuff 0)
          | (_, some value) =>
              rawset id key value
              unpackEntries unpack id fuel

/-- The cases of `unpack_obj` that push a value without recursion. -/
def unpackLeaf (inp : Input) : EnSer → Option (Decoder LuaValue)
  | .serNil => some (return .nil)
  | .serInt8 => some (unpackInteger8 inp)
  | .serInt16 => some (unpackInteger16 inp)
  | .serInt32 => some (unpackInteger32 inp)
  | .serInt64 => some (unpackInteger64 inp)
  | .serDouble => some (unpackDouble inp)
  | .serString8 => some (unpackString8 inp)
  | .serString16 => some (unpackString16 inp)
  | .serString32 => some (unpackString32 inp)
  | .serBoolFalse => some (return .boolean false)
  | .serBoolTrue => some (return .boolean true)
  | .serTableRef => some (unpackTableRef inp)
  | .serUserData => some (unpackUserdata inp)
  | .serLightuserData => some (unpackLightuserdata inp)
  | .serNone | .serTableBegin | .serTableEnd => none

/-- `unpack_obj`: the opcode and the value that is pushed. Without an opcode the result
is `ser_none`, and the end of a table pushes nothing. The stack has room for so many nested
calls, this one included. -/
def unpackObj (inp : Input) : Nat → Decoder (EnSer × Option LuaValue)
  | 0 => throw .stackOverflow
  | stack + 1 => do
      let d ← get
      if inp.size ≤ d.pos then return (.serNone, none)
      else do
        let op ← inp.byte
        match EnSer.ofOp op with
        | .serTableBegin =>
            let id ← newTable
            unpackEntries (unpackObj inp stack) id (inp.size + 1)
            return (.serTableBegin, some (.table id))
        | .serTableEnd => return (.serTableEnd, none)
        | ser =>
            match unpackLeaf inp ser with
            | some leaf => return (ser, some (← leaf))
            | none => throw (.error .unpackErrorOpType (if op < 128 then op else (op : Int) - 256))

/-- The loop of `deserialize_unpack`, with the values so far. Above `n` values there is room
for `room n` nested calls. -/
def unpackValues (inp : Input) (room : Nat → Nat) (resCount : Int) : Nat → List LuaValue →
    Decoder (List LuaValue)
  | 0, _ => throw .fuel
  | fuel + 1, values => do
      let d ← get
      if inp.size ≤ d.pos then return values
      else do
        let res ← unpackObj inp (room values.length)
        match res with
        | (ser, none) => throw (.error .unpackError ser.toByte.toNat)
        | (_, some value) =>
            if 0 < resCount ∧ resCount ≤ (values ++ [value]).length then
              return values ++ [value]
            else unpackValues inp room resCount fuel (values ++ [value])

/-- `deserialize_unpack` with so much room on the stacks: the values, or why there are
none. -/
def deserializeUnpackWithin (room : Nat → Nat) (inp : Input) (resCount : Int) (L : LuaState) :
    EStateM.Result Stop Deser (List LuaValue) :=
  unpackValues inp room resCount (inp.size + 1) [] { pos := 0, seen := 0, refs := [], lua := L }

/-- `deserialize_unpack` with room for every input of this size, since each nested call
takes a byte. Other stacks with room for what is visited make no difference
(`RoomSuffices.deserializeUnpackWithin_eq`). -/
def deserializeUnpack (inp : Input) (resCount : Int) (L : LuaState) :
    EStateM.Result Stop Deser (List LuaValue) :=
  deserializeUnpackWithin (fun _ => inp.size + 1) inp resCount L

/-! ## Running the primitives -/

/-- Reading `len` bytes moves both the cursor and the mark. -/
def Deser.read (d : Deser) (len : Nat) : Deser :=
  { d with pos := d.pos + len, seen := max d.seen (d.pos + len) }

namespace Input

variable {inp : Input} {d : Deser} {len : Nat}

/-- The `len` bytes from an offset on. -/
def slice (inp : Input) (pos len : Nat) : List UInt8 := (inp.mem.drop pos).take len

theorem look_ok {upTo : Nat} (h : upTo ≤ inp.mem.length) :
    inp.look upTo d = .ok () { d with seen := max d.seen upTo } := if_neg (Nat.not_lt_of_le h)

theorem look_error {upTo : Nat} (h : inp.mem.length < upTo) :
    inp.look upTo d = .error .segfault { d with seen := max d.seen upTo } := if_pos h

theorem take_ok (h : d.pos + len ≤ inp.mem.length) :
    inp.take len d = .ok (inp.slice d.pos len) (d.read len) :=
  StateError.get_bind.trans (StateError.bind_ok (look_ok h))

theorem take_error (h : inp.mem.length < d.pos + len) :
    inp.take len d = .error .segfault { d with seen := max d.seen (d.pos + len) } :=
  StateError.get_bind.trans (StateError.bind_error (look_error h))

theorem cString_ok {name : List UInt8} (hname : (inp.mem.drop d.pos).takeWhile (· ≠ 0) = name)
    (h : d.pos + name.length + 1 ≤ inp.mem.length) :
    inp.cString d = .ok name { d with seen := max d.seen (d.pos + name.length + 1) } := by
  subst hname
  exact StateError.get_bind.trans (StateError.bind_ok (look_ok h))

theorem cString_error {name : List UInt8}
    (hname : (inp.mem.drop d.pos).takeWhile (· ≠ 0) = name)
    (h : inp.mem.length < d.pos + name.length + 1) :
    inp.cString d = .error .segfault
      { d with seen := max d.seen (d.pos + name.length + 1) } := by
  subst hname
  exact StateError.get_bind.trans (StateError.bind_error (look_error h))

theorem check_ok (h : d.pos + len ≤ inp.size) (code : EnError) (withInfo : Bool) :
    inp.check len code withInfo d = .ok () d := by
  show (if inp.size < d.pos + len then _ else _ : Decoder Unit) d = _
  rw [if_neg (Nat.not_lt_of_le h)]
  rfl

theorem check_error (h : inp.size < d.pos + len) (code : EnError) (withInfo : Bool) :
    inp.check len code withInfo d =
      .error (.error code (if withInfo then int16 d.pos else 0)) d := by
  show (if inp.size < d.pos + len then _ else _ : Decoder Unit) d = _
  rw [if_pos h]
  rfl

theorem fixed_ok (h : d.pos + len ≤ inp.size) (code : EnError) (withInfo : Bool) :
    inp.fixed len code withInfo d = .ok (inp.slice d.pos len) (d.read len) :=
  (StateError.bind_ok (check_ok h code withInfo)).trans (take_ok (Nat.le_trans h inp.size_le))

theorem fixed_error (h : inp.size < d.pos + len) (code : EnError) (withInfo : Bool) :
    inp.fixed len code withInfo d =
      .error (.error code (if withInfo then int16 d.pos else 0)) d :=
  StateError.bind_error (check_error h code withInfo)

theorem byte_ok (h : d.pos + 1 ≤ inp.mem.length) :
    inp.byte d = .ok (leValue (inp.slice d.pos 1)) (d.read 1) :=
  StateError.bind_ok (take_ok h)

theorem byte_error (h : inp.mem.length < d.pos + 1) :
    inp.byte d = .error .segfault { d with seen := max d.seen (d.pos + 1) } :=
  StateError.bind_error (take_error h)

end Input

/-! ## Running the recursion -/

/-- The state after `lua_newtable`. -/
def Deser.withTable (d : Deser) : Deser :=
  { d with
    refs := d.refs ++ [d.lua.tables.length]
    lua := { d.lua with tables := d.lua.tables ++ [.empty] } }

/-- The state after an entry has been set. -/
def Deser.setTable (d : Deser) (id : Nat) (t : LuaTable) : Deser :=
  { d with lua := { d.lua with tables := d.lua.tables.set id t } }

def Input.opcode (inp : Input) (pos : Nat) : EnSer := EnSer.ofOp (leValue (inp.slice pos 1))

section Run

variable {inp : Input} {d d₁ d₂ : Deser} {fuel : Nat}

theorem rawset_error {id : Nat} {key value : LuaValue} (h : luaKey key = none) :
    rawset id key value d = .error .luaError d := by
  rw [rawset, StateError.get_bind, LuaTable.rawset_eq_none_iff.mpr h]
  rfl

theorem rawset_ok {id : Nat} {key value : LuaValue} {t : LuaTable}
    (h : ((d.lua.tables[id]?).getD .empty).rawset key value = some t) :
    rawset id key value d = .ok () (d.setTable id t) := by
  rw [rawset, StateError.get_bind, h]
  rfl

theorem unpackObj_end (h : inp.size ≤ d.pos) :
    unpackObj inp (fuel + 1) d = .ok (.serNone, none) d := by
  rw [unpackObj, StateError.get_bind, if_pos h]
  rfl

theorem unpackObj_op (h : d.pos < inp.size) {f : Nat → Decoder (EnSer × Option LuaValue)} :
    (inp.byte >>= f) d = f (leValue (inp.slice d.pos 1)) (d.read 1) :=
  StateError.bind_ok (Input.byte_ok (Nat.le_trans h inp.size_le))

theorem unpackObj_table (h : d.pos < inp.size) (hop : inp.opcode d.pos = .serTableBegin) :
    unpackObj inp (fuel + 1) d = (do
      unpackEntries (unpackObj inp fuel) d.lua.tables.length (inp.size + 1)
      return (EnSer.serTableBegin, some (LuaValue.table d.lua.tables.length)))
        (d.read 1).withTable := by
  rw [Input.opcode] at hop
  rw [unpackObj, StateError.get_bind, if_neg (Nat.not_le_of_lt h), unpackObj_op h, hop]
  rfl

theorem unpackObj_tableEnd (h : d.pos < inp.size) (hop : inp.opcode d.pos = .serTableEnd) :
    unpackObj inp (fuel + 1) d = .ok (.serTableEnd, none) (d.read 1) := by
  rw [Input.opcode] at hop
  rw [unpackObj, StateError.get_bind, if_neg (Nat.not_le_of_lt h), unpackObj_op h, hop]
  rfl

theorem unpackObj_leaf (h : d.pos < inp.size) {leaf : Decoder LuaValue}
    (hleaf : unpackLeaf inp (inp.opcode d.pos) = some leaf) :
    unpackObj inp (fuel + 1) d =
      (do return (inp.opcode d.pos, some (← leaf))) (d.read 1) := by
  rw [unpackObj, StateError.get_bind, if_neg (Nat.not_le_of_lt h), unpackObj_op h]
  rw [Input.opcode] at hleaf ⊢
  generalize EnSer.ofOp (leValue (inp.slice d.pos 1)) = ser at hleaf
  cases ser
  case serNone => cases hleaf
  case serTableBegin => cases hleaf
  case serTableEnd => cases hleaf
  all_goals simp only [hleaf]

theorem unpackObj_error (h : d.pos < inp.size) (hbegin : inp.opcode d.pos ≠ .serTableBegin)
    (hend : inp.opcode d.pos ≠ .serTableEnd) (hleaf : unpackLeaf inp (inp.opcode d.pos) = none) :
    ∃ info, unpackObj inp (fuel + 1) d =
      .error (.error .unpackErrorOpType info) (d.read 1) := by
  rw [unpackObj, StateError.get_bind, if_neg (Nat.not_le_of_lt h), unpackObj_op h]
  rw [Input.opcode] at hleaf hbegin hend
  generalize EnSer.ofOp (leValue (inp.slice d.pos 1)) = ser at hleaf hbegin hend
  cases ser
  case serTableBegin => exact absurd rfl hbegin
  case serTableEnd => exact absurd rfl hend
  case serNone => exact ⟨_, rfl⟩
  all_goals cases hleaf

variable {unpack : Decoder (EnSer × Option LuaValue)} {id : Nat} {ser ser' : EnSer}
  {key value : LuaValue} {e : Stop}

theorem unpackEntries_error (h : unpack d = .error e d₁) :
    unpackEntries unpack id (fuel + 1) d = .error e d₁ := StateError.bind_error h

theorem unpackEntries_tableEnd (h : unpack d = .ok (.serTableEnd, none) d₁) :
    unpackEntries unpack id (fuel + 1) d = .ok () d₁ := StateError.bind_ok h

theorem unpackEntries_noKey (h : unpack d = .ok (ser, none) d₁) (hser : ser ≠ .serTableEnd) :
    unpackEntries unpack id (fuel + 1) d = .error (.error .unpackTableNoKeyBuff 0) d₁ := by
  rw [unpackEntries, StateError.bind_ok h]
  cases ser
  case serTableEnd => exact absurd rfl hser
  all_goals rfl

theorem unpackEntries_key (h : unpack d = .ok (ser, some key) d₁) (hser : ser ≠ .serTableEnd) :
    unpackEntries unpack id (fuel + 1) d = (do
      let value ← unpack
      match value with
      | (_, none) => throw (Stop.error .unpackTableNoValueBuff 0)
      | (_, some value) =>
          rawset id key value
          unpackEntries unpack id fuel : Decoder Unit) d₁ := by
  rw [unpackEntries, StateError.bind_ok h]
  cases ser
  case serTableEnd => exact absurd rfl hser
  all_goals rfl

theorem unpackEntries_value_error (h : unpack d = .ok (ser, some key) d₁)
    (hser : ser ≠ .serTableEnd) (h' : unpack d₁ = .error e d₂) :
    unpackEntries unpack id (fuel + 1) d = .error e d₂ := by
  rw [unpackEntries_key h hser]
  exact StateError.bind_error h'

theorem unpackEntries_noValue (h : unpack d = .ok (ser, some key) d₁)
    (hser : ser ≠ .serTableEnd) (h' : unpack d₁ = .ok (ser', none) d₂) :
    unpackEntries unpack id (fuel + 1) d = .error (.error .unpackTableNoValueBuff 0) d₂ := by
  rw [unpackEntries_key h hser]
  exact StateError.bind_ok h'

theorem unpackEntries_value (h : unpack d = .ok (ser, some key) d₁)
    (hser : ser ≠ .serTableEnd) (h' : unpack d₁ = .ok (ser', some value) d₂) :
    unpackEntries unpack id (fuel + 1) d =
      (do rawset id key value; unpackEntries unpack id fuel) d₂ := by
  rw [unpackEntries_key h hser]
  exact StateError.bind_ok h'

variable {room : Nat → Nat} {resCount : Int} {values : List LuaValue}

theorem unpackValues_end (h : inp.size ≤ d.pos) :
    unpackValues inp room resCount (fuel + 1) values d = .ok values d := by
  rw [unpackValues, StateError.get_bind, if_pos h]
  rfl

theorem unpackValues_error (h : d.pos < inp.size)
    (hrun : unpackObj inp (room values.length) d = .error e d₁) :
    unpackValues inp room resCount (fuel + 1) values d = .error e d₁ := by
  rw [unpackValues, StateError.get_bind, if_neg (Nat.not_le_of_lt h)]
  exact StateError.bind_error hrun

theorem unpackValues_none (h : d.pos < inp.size)
    (hrun : unpackObj inp (room values.length) d = .ok (ser, none) d₁) :
    unpackValues inp room resCount (fuel + 1) values d =
      .error (.error .unpackError ser.toByte.toNat) d₁ := by
  rw [unpackValues, StateError.get_bind, if_neg (Nat.not_le_of_lt h)]
  exact StateError.bind_ok hrun

theorem unpackValues_value (h : d.pos < inp.size)
    (hrun : unpackObj inp (room values.length) d = .ok (ser, some value) d₁) :
    unpackValues inp room resCount (fuel + 1) values d =
      if 0 < resCount ∧ resCount ≤ values.length + 1 then .ok (values ++ [value]) d₁
      else unpackValues inp room resCount fuel (values ++ [value]) d₁ := by
  rw [unpackValues, StateError.get_bind, if_neg (Nat.not_le_of_lt h), StateError.bind_ok hrun]
  show (if 0 < resCount ∧ resCount ≤ (values ++ [value]).length then _ else _ :
    Decoder (List LuaValue)) d₁ = _
  rw [List.length_append, List.length_singleton, Nat.cast_succ]
  split_ifs
  · rfl
  · rfl

end Run

/-! ## More room -/

section Room

variable {inp : Input} {room room' : Nat → Nat} {resCount : Int}

open StateError (UpTo)

theorem unpackEntries_upTo {unpack unpack' : Decoder (EnSer × Option LuaValue)}
    (h : UpTo .stackOverflow unpack unpack') (id fuel : Nat) :
    UpTo .stackOverflow (unpackEntries unpack id fuel) (unpackEntries unpack' id fuel) := by
  induction fuel with
  | zero => exact .refl _
  | succ fuel ih =>
      refine h.bind fun ⟨ser, key⟩ => ?_
      cases ser with
      | serTableEnd => exact .refl _
      | _ =>
          cases key with
          | none => exact .refl _
          | some key =>
              refine h.bind fun ⟨ser', value⟩ => ?_
              cases value with
              | none => exact .refl _
              | some value => exact (UpTo.refl _).bind fun _ => ih

/-- A run that does not leave the stack is the same on a larger one. -/
theorem unpackObj_upTo {stack stack' : Nat} (h : stack ≤ stack') :
    UpTo .stackOverflow (unpackObj inp stack) (unpackObj inp stack') := by
  induction stack generalizing stack' with
  | zero => exact .throw _
  | succ stack ih =>
      obtain ⟨stack', rfl⟩ := Nat.exists_eq_add_one_of_ne_zero (Nat.ne_zero_of_lt h)
      refine (UpTo.refl _).bind fun d => ?_
      split_ifs
      · exact .refl _
      refine (UpTo.refl _).bind fun op => ?_
      cases EnSer.ofOp op with
      | serTableBegin =>
          exact (UpTo.refl _).bind fun id => (unpackEntries_upTo
            (ih (Nat.le_of_succ_le_succ h)) id _).bind fun _ => .refl _
      | _ => exact .refl _

theorem unpackValues_upTo (h : ∀ below, room below ≤ room' below) (fuel : Nat)
    (values : List LuaValue) :
    UpTo .stackOverflow (unpackValues inp room resCount fuel values)
      (unpackValues inp room' resCount fuel values) := by
  induction fuel generalizing values with
  | zero => exact .refl _
  | succ fuel ih =>
      refine (UpTo.refl _).bind fun d => ?_
      split_ifs
      · exact .refl _
      refine (unpackObj_upTo (h _)).bind fun ⟨ser, value⟩ => ?_
      cases value with
      | none => exact .refl _
      | some value =>
          dsimp only
          split_ifs
          · exact .refl _
          · exact ih _

theorem unpackObj_more {stack stack' : Nat} {d : Deser} (h : stack ≤ stack')
    (hover : ∀ d', unpackObj inp stack d ≠ .error .stackOverflow d') :
    unpackObj inp stack' d = unpackObj inp stack d :=
  ((unpackObj_upTo h d).resolve_left fun ⟨d', hrun⟩ => hover d' hrun).symm

end Room

end RandServer
