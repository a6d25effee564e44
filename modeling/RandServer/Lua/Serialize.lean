import RandServer.Lib.LittleEndian
import RandServer.Lua.Value

/-!
# Packing

`serialize_pack` of `serialize.c`. Every table is written where it is met first, with the
number it gets there, and later occurrences refer to that number. Entries are written in
the order of `lua_next`.

The output buffer is a list of bytes, and its allocation succeeds. The counter of tables
is an `int`, and counting beyond its range is a fault of its own. Nested tables are packed
by nested calls, and nothing limits them, so a run is given how many the stack has room for.
-/

namespace RandServer

/-- `en_ser`, the opcodes. -/
inductive EnSer
  | serNone
  | serNil
  | serInt8
  | serInt16
  | serInt32
  | serInt64
  | serDouble
  | serString8
  | serString16
  | serString32
  | serBoolFalse
  | serBoolTrue
  | serTableBegin
  | serTableEnd
  | serTableRef
  | serUserData
  | serLightuserData
  deriving DecidableEq, Repr

def EnSer.toByte : EnSer → UInt8
  | .serNone => 0
  | .serNil => 1
  | .serInt8 => 2
  | .serInt16 => 3
  | .serInt32 => 4
  | .serInt64 => 5
  | .serDouble => 6
  | .serString8 => 7
  | .serString16 => 8
  | .serString32 => 9
  | .serBoolFalse => 10
  | .serBoolTrue => 11
  | .serTableBegin => 12
  | .serTableEnd => 13
  | .serTableRef => 14
  | .serUserData => 15
  | .serLightuserData => 16

/-- The opcode of a byte, and `ser_none` for the bytes that are none. -/
def EnSer.ofOp : Nat → EnSer
  | 1 => .serNil
  | 2 => .serInt8
  | 3 => .serInt16
  | 4 => .serInt32
  | 5 => .serInt64
  | 6 => .serDouble
  | 7 => .serString8
  | 8 => .serString16
  | 9 => .serString32
  | 10 => .serBoolFalse
  | 11 => .serBoolTrue
  | 12 => .serTableBegin
  | 13 => .serTableEnd
  | 14 => .serTableRef
  | 15 => .serUserData
  | 16 => .serLightuserData
  | _ => .serNone

theorem EnSer.ofOp_toByte (ser : EnSer) : EnSer.ofOp ser.toByte.toNat = ser := by
  cases ser <;> rfl

def userDataFlag : Nat := 1

def intMax : Nat := 2 ^ 31 - 1

/-- Why packing stops: a table number beyond the range of `int`, a read behind the end of a
userdata block, or calls that leave the stack. -/
inductive PackFault
  | overflow
  | overread
  | stackOverflow
  deriving DecidableEq, Repr

/-- `serialize_data` and the Lua table from tables to their numbers. -/
structure SerializeData where
  supportFlag : Nat
  data : List UInt8
  tableRef : Nat
  refs : Nat → Option Nat

def serializeInit (supportFlag : Nat) : SerializeData where
  supportFlag := supportFlag
  data := []
  tableRef := 0
  refs := fun _ => none

def serializePackBytes (s : SerializeData) (bytes : List UInt8) : SerializeData :=
  { s with data := s.data ++ bytes }

def serializePackOp (s : SerializeData) (op : EnSer) : SerializeData :=
  serializePackBytes s [op.toByte]

def packBoolean (s : SerializeData) (b : Bool) : SerializeData :=
  serializePackOp s (if b then .serBoolTrue else .serBoolFalse)

/-- The negation of the least integer is that integer again. -/
def packInteger (s : SerializeData) (value : BitVec 64) : SerializeData :=
  let absValue := if value.toInt < 0 then (-value).toInt else value.toInt
  if absValue < 128 then
    serializePackBytes (serializePackOp s .serInt8) (leBytes 1 value.toNat)
  else if absValue < 32768 then
    serializePackBytes (serializePackOp s .serInt16) (leBytes 2 value.toNat)
  else if absValue ≤ 2147483647 then
    serializePackBytes (serializePackOp s .serInt32) (leBytes 4 value.toNat)
  else
    serializePackBytes (serializePackOp s .serInt64) (leBytes 8 value.toNat)

def packDouble (s : SerializeData) (bits : BitVec 64) : SerializeData :=
  serializePackBytes (serializePackOp s .serDouble) (leBytes 8 bits.toNat)

/-- The length of a long string is written as a `size_t`. -/
def packString (s : SerializeData) (bytes : List UInt8) : SerializeData :=
  let size := bytes.length
  let s :=
    if size < 2 ^ 7 then serializePackBytes (serializePackOp s .serString8) (leBytes 1 size)
    else if size < 2 ^ 15 then
      serializePackBytes (serializePackOp s .serString16) (leBytes 2 size)
    else serializePackBytes (serializePackOp s .serString32) (leBytes 8 size)
  serializePackBytes s bytes

/-- `pack_userdata`. The name is written with its terminating zero, and of the block as
many bytes as `__serialize` says. -/
def packUserdata (L : LuaState) (s : SerializeData) (id : Nat) :
    Except PackFault SerializeData :=
  match if s.supportFlag &&& userDataFlag ≠ 0 then (L.userdata[id]?) else none with
  | some { block := block, metatable := some { serialize := some serSize, name := some name } } =>
      let nameSize := (name.length + 1) % 256
      let size := (serSize % 256).toNat
      if block.length < size then .error .overread
      else
        let s := serializePackOp s .serUserData
        let s := serializePackBytes s (leBytes 1 nameSize)
        let s := serializePackBytes s ((name ++ [0]).take nameSize)
        let s := serializePackBytes s (leBytes 1 size)
        .ok (serializePackBytes s (block.take size))
  | _ => .ok (serializePackOp s .serNil)

def packLightuserdata (s : SerializeData) (ptr : BitVec 64) : SerializeData :=
  if s.supportFlag &&& userDataFlag ≠ 0 then
    serializePackBytes (serializePackOp s .serLightuserData) (leBytes 8 ptr.toNat)
  else serializePackOp s .serNil

/-- What `pack_obj` does with a value that is no table. -/
def packScalar (L : LuaState) (s : SerializeData) : LuaValue → Except PackFault SerializeData
  | .boolean b => .ok (packBoolean s b)
  | .integer i => .ok (packInteger s i)
  | .number bits => .ok (packDouble s bits)
  | .string bytes => .ok (packString s bytes)
  | .userdata id => packUserdata L s id
  | .lightuserdata ptr => .ok (packLightuserdata s ptr)
  | _ => .ok (serializePackOp s .serNil)

/-- The `lua_next` loop of `pack_table`, given how to pack a value. -/
def packEntries (pack : SerializeData → LuaValue → Except PackFault SerializeData) :
    SerializeData → List (LuaValue × LuaValue) → Except PackFault SerializeData
  | s, [] => .ok s
  | s, (key, value) :: rest => do
      let s ← pack s key
      let s ← pack s value
      packEntries pack s rest

/-- `table_ref[t] = ++table_ref_index`. -/
def SerializeData.record (s : SerializeData) (id : Nat) : SerializeData :=
  { s with
    tableRef := s.tableRef + 1
    refs := Function.update s.refs id (some (s.tableRef + 1)) }

/-- `pack_obj`. The stack has room for so many nested calls, this one included. -/
def packObj (L : LuaState) : Nat → SerializeData → LuaValue → Except PackFault SerializeData
  | 0, _, _ => .error .stackOverflow
  | stack + 1, s, .table id =>
      match s.refs id with
      | some index =>
          .ok (serializePackBytes (serializePackOp s .serTableRef) (leBytes 4 index))
      | none =>
          if s.tableRef = intMax then .error .overflow
          else do
            let s := serializePackOp (s.record id) .serTableBegin
            let s ← packEntries (packObj L stack) s (L.entries id)
            .ok (serializePackOp s .serTableEnd)
  | _ + 1, s, value => packScalar L s value

/-- The loop of `serialize_pack` over the arguments. -/
def packArgs (L : LuaState) (stack : Nat) :
    SerializeData → List LuaValue → Except PackFault SerializeData
  | s, [] => .ok s
  | s, value :: rest => do
      let s ← packObj L stack s value
      packArgs L stack s rest

/-- `serialize_pack` with room for so many nested calls. -/
def serializePackWithin (stack : Nat) (L : LuaState) (supportFlag : Nat) (args : List LuaValue) :
    Except PackFault SerializeData :=
  packArgs L stack (serializeInit supportFlag) args

/-- `serialize_pack` with room for all nested calls. Nested tables are distinct, so there
are not more of them than tables. -/
def serializePack (L : LuaState) (supportFlag : Nat) (args : List LuaValue) :
    Except PackFault SerializeData :=
  serializePackWithin (L.tables.length + 2) L supportFlag args

end RandServer
