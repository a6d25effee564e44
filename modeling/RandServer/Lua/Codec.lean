import RandServer.Lua.Deserialize
import RandServer.Lua.Graph

/-!
# Scalars on the wire

The bytes of a value that is no table, and what it means that a value survives them:
wherever they stand in an input, `unpack_obj` reads the value from them and stops just
behind them.
-/

namespace RandServer

/-- The bytes of a value that is no table. -/
def scalarBytes : LuaValue → List UInt8
  | .boolean b => (packBoolean (serializeInit 0) b).data
  | .integer i => (packInteger (serializeInit 0) i).data
  | .number bits => (packDouble (serializeInit 0) bits).data
  | .string bytes => (packString (serializeInit 0) bytes).data
  | _ => (serializePackOp (serializeInit 0) .serNil).data

theorem serializePackBytes_append (s : SerializeData) (bytes bytes' : List UInt8) :
    serializePackBytes (serializePackBytes s bytes) bytes' =
      serializePackBytes s (bytes ++ bytes') := by
  simp only [serializePackBytes, List.append_assoc]

theorem packInteger_eq (s : SerializeData) (i : BitVec 64) :
    packInteger s i = serializePackBytes s (scalarBytes (.integer i)) := by
  unfold scalarBytes packInteger
  simp only [serializePackOp, serializePackBytes_append]
  generalize (if i.toInt < 0 then (-i).toInt else i.toInt) = absValue
  split_ifs
  · rfl
  · rfl
  · rfl
  · rfl

theorem packString_eq (s : SerializeData) (bytes : List UInt8) :
    packString s bytes = serializePackBytes s (scalarBytes (.string bytes)) := by
  unfold scalarBytes packString
  simp only [serializePackOp, serializePackBytes_append]
  split_ifs
  · rw [serializePackBytes_append]
    rfl
  · rw [serializePackBytes_append]
    rfl
  · rw [serializePackBytes_append]
    rfl

/-- Unless it is userdata and userdata are to be packed, a value is written as its bytes. -/
theorem packScalar_eq (L : LuaState) {s : SerializeData} {v : LuaValue}
    (h : s.supportFlag &&& userDataFlag = 0 ∨ v.supported = true) :
    packScalar L s v = .ok (serializePackBytes s (scalarBytes v)) := by
  have hflag : v.supported = false → ¬ s.supportFlag &&& userDataFlag ≠ 0 := by
    intro hv
    rcases h with h | h
    · exact not_not_intro h
    · rw [hv] at h
      cases h
  cases v with
  | integer i => exact congrArg Except.ok (packInteger_eq s i)
  | string bytes => exact congrArg Except.ok (packString_eq s bytes)
  | number bits =>
      simp only [packScalar, packDouble, serializePackOp, serializePackBytes_append]
      rfl
  | userdata id =>
      simp only [packScalar, packUserdata, if_neg (hflag rfl)]
      rfl
  | lightuserdata ptr =>
      simp only [packScalar, packLightuserdata, if_neg (hflag rfl)]
      rfl
  | _ => rfl

theorem scalarBytes_length_pos (v : LuaValue) : 1 ≤ (scalarBytes v).length := by
  cases v with
  | integer i =>
      simp only [scalarBytes, packInteger, serializePackOp, serializePackBytes_append]
      split_ifs <;> simp [serializePackBytes]
  | string bytes =>
      simp only [scalarBytes, packString, serializePackOp, serializePackBytes_append]
      split_ifs <;> simp only [serializePackBytes, List.length_append, List.length_singleton] <;>
        omega
  | _ => exact Nat.le_add_left 1 _

theorem scalarBytes_of_not_supported {v : LuaValue} (h : v.supported = false) :
    scalarBytes v = scalarBytes .nil := by
  cases v with
  | function => rfl
  | thread => rfl
  | userdata => rfl
  | lightuserdata => rfl
  | _ => cases h

/-! ## Bytes in an input -/

namespace Input

variable {inp : Input} {pos : Nat} {bytes bytes' : List UInt8}

/-- The bytes stand at an offset, before the end of the input. -/
def Has (inp : Input) (pos : Nat) (bytes : List UInt8) : Prop :=
  pos + bytes.length ≤ inp.size ∧ inp.slice pos bytes.length = bytes

theorem has_append : inp.Has pos (bytes ++ bytes') ↔
    inp.Has pos bytes ∧ inp.Has (pos + bytes.length) bytes' := by
  have hslice : inp.slice pos (bytes ++ bytes').length =
      inp.slice pos bytes.length ++ inp.slice (pos + bytes.length) bytes'.length := by
    rw [slice, slice, slice, List.length_append, List.take_add, List.drop_drop]
  unfold Has
  rw [hslice, List.length_append]
  constructor
  · rintro ⟨hle, heq⟩
    have hlen : (inp.slice pos bytes.length).length = bytes.length := by
      have hsize := inp.size_le
      rw [slice, List.length_take, List.length_drop]
      omega
    obtain ⟨hleft, hright⟩ := List.append_inj heq hlen
    exact ⟨⟨by omega, hleft⟩, by omega, hright⟩
  · rintro ⟨⟨-, hleft⟩, hle, hright⟩
    exact ⟨by omega, by rw [hleft, hright]⟩

theorem has_cons {b : UInt8} : inp.Has pos (b :: bytes) ↔
    inp.Has pos [b] ∧ inp.Has (pos + 1) bytes := @has_append inp pos [b] bytes

theorem Has.lt {b : UInt8} (h : inp.Has pos (b :: bytes)) : pos < inp.size := by
  have hle := h.1
  rw [List.length_cons] at hle
  omega

theorem Has.opcode {ser : EnSer} (h : inp.Has pos (ser.toByte :: bytes)) :
    inp.opcode pos = ser := by
  have hslice := (has_cons.mp h).1.2
  rw [List.length_singleton] at hslice
  rw [Input.opcode, hslice, leValue, leValue, Nat.mul_zero, Nat.add_zero, EnSer.ofOp_toByte]

theorem Has.whole {values : List UInt8} (hmem : inp.mem.take inp.size = values) :
    inp.Has 0 values := by
  have hsize := inp.size_le
  have hlen : values.length = inp.size := by
    rw [← hmem, List.length_take]
    omega
  refine ⟨by omega, ?_⟩
  rw [slice, List.drop_zero, hlen, hmem]

end Input

theorem Deser.read_read (d : Deser) (m n : Nat) : (d.read m).read n = d.read (m + n) := by
  have hseen : max (max d.seen (d.pos + m)) (d.pos + (m + n)) = max d.seen (d.pos + (m + n)) := by
    omega
  simp only [Deser.read, Nat.add_assoc, hseen]

/-! ## Values that survive -/

/-- Wherever the bytes of a value stand, the decoder reads the value from them. -/
def RoundTrips (v : LuaValue) : Prop :=
  ∀ (inp : Input) (fuel : Nat) (d : Deser), inp.Has d.pos (scalarBytes v) →
    ∃ ser, ser ≠ .serTableEnd ∧
      unpackObj inp (fuel + 1) d = .ok (ser, some v) (d.read (scalarBytes v).length)

section RoundTrips

variable {inp : Input} {d : Deser} {fuel : Nat} {v : LuaValue} {ser : EnSer}

/-- A leaf without a payload. -/
theorem unpackObj_constant {bytes : List UInt8} (h : inp.Has d.pos (ser.toByte :: bytes))
    (hleaf : unpackLeaf inp ser = some (return v)) :
    unpackObj inp (fuel + 1) d = .ok (ser, some v) (d.read 1) := by
  rw [← h.opcode] at hleaf ⊢
  exact unpackObj_leaf h.lt hleaf

theorem roundTrips_nil : RoundTrips .nil :=
  fun _ _ _ h => ⟨.serNil, EnSer.noConfusion, unpackObj_constant h rfl⟩

theorem roundTrips_boolean (b : Bool) : RoundTrips (.boolean b) := by
  intro inp fuel d h
  cases b with
  | false => exact ⟨.serBoolFalse, EnSer.noConfusion, unpackObj_constant h rfl⟩
  | true => exact ⟨.serBoolTrue, EnSer.noConfusion, unpackObj_constant h rfl⟩

/-- A leaf whose payload has a fixed length. -/
theorem unpackObj_payload {payload : List UInt8} {len : Nat} {code : EnError} {withInfo : Bool}
    {value : List UInt8 → LuaValue} (h : inp.Has d.pos (ser.toByte :: payload))
    (hlen : payload.length = len)
    (hleaf : unpackLeaf inp ser = some (do return value (← inp.fixed len code withInfo))) :
    unpackObj inp (fuel + 1) d = .ok (ser, some (value payload)) (d.read (1 + len)) := by
  subst hlen
  obtain ⟨-, hle, hslice⟩ := Input.has_cons.mp h
  have hfixed : inp.fixed payload.length code withInfo (d.read 1) =
      .ok payload (d.read (1 + payload.length)) := by
    rw [Input.fixed_ok hle, ← Deser.read_read]
    exact congrArg (EStateM.Result.ok · _) hslice
  have hop := h.opcode
  rw [← hop] at hleaf
  rw [unpackObj_leaf h.lt hleaf, hop]
  exact StateError.bind_ok (StateError.bind_ok hfixed)

end RoundTrips

end RandServer
