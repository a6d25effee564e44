import RandServer.Lib.Block
import RandServer.Lib.CObject
import RandServer.Lib.CWord

/-!
# Packed messages

`cpack.c`. The writer and the reader have a cursor each. The writer counts all bytes of a
field, the reader adds the low sixteen bits of the length of a raw struct. Nothing is
written to a message without room for the next piece of a field; the counter is negated
instead. It is unsigned, so no later call can tell.
-/

namespace RandServer

/-- `struct cpack`. -/
structure Cpack where
  maxSize : Nat
  size : Nat
  data : Block UInt8

/-- `struct cunpack`. -/
structure Cunpack where
  unpackSize : Nat
  size : Nat
  data : Block UInt8

/-- The bytes that a 16-bit length and a pointer describe. -/
structure CString where
  data : List UInt8
  length_lt : data.length < 2 ^ 16

def CString.length (s : CString) : UInt16 := UInt16.ofNat s.data.length

/-! ## Packing -/

namespace Cpack

/-- A message before the first `pack_init`. -/
def blank : Cpack where
  maxSize := 0
  size := 0
  data := { addr := 0, size := 0, data := fun _ => 0 }

/-- `pack_init`. -/
def packInit (cp : Cpack) (maxSize : Nat) : Cpack := { cp with maxSize := maxSize, size := 0 }

/-- There are not `n` bytes left behind the counter. The sum is a `size_t`. -/
def Full (cp : Cpack) (n : Nat) : Prop := cp.maxSize < (cp.size + n) % 2 ^ 64

instance (cp : Cpack) (n : Nat) : Decidable (cp.Full n) :=
  inferInstanceAs (Decidable (cp.maxSize < (cp.size + n) % 2 ^ 64))

/-- `pack_struct`. -/
def packStruct (cp : Cpack) (value : List UInt8) : Int × Cpack :=
  -- an unsigned counter is never negative
  if cp.size < 0 then (-1, cp)
  else if cp.Full value.length then (-1, { cp with size := u32 (cp.size * (2 ^ 32 - 1)) })
  else
    (0, { cp with
      data := cp.data.write cp.size value
      size := u32 (cp.size + u32 value.length) })

def packChar (cp : Cpack) (value : Int8) : Int × Cpack := packStruct cp (CObject.bytes value)
def packUchar (cp : Cpack) (value : UInt8) : Int × Cpack := packStruct cp (CObject.bytes value)
def packShort (cp : Cpack) (value : Int16) : Int × Cpack := packStruct cp (CObject.bytes value)
def packUshort (cp : Cpack) (value : UInt16) : Int × Cpack := packStruct cp (CObject.bytes value)
def packInt (cp : Cpack) (value : Int32) : Int × Cpack := packStruct cp (CObject.bytes value)
def packUint (cp : Cpack) (value : UInt32) : Int × Cpack := packStruct cp (CObject.bytes value)
def packLl (cp : Cpack) (value : Int64) : Int × Cpack := packStruct cp (CObject.bytes value)
def packUll (cp : Cpack) (value : UInt64) : Int × Cpack := packStruct cp (CObject.bytes value)

/-- The bit pattern of a `float`. -/
def packFloat (cp : Cpack) (bits : UInt32) : Int × Cpack := packStruct cp (CObject.bytes bits)

/-- The bit pattern of a `double`. -/
def packDouble (cp : Cpack) (bits : UInt64) : Int × Cpack := packStruct cp (CObject.bytes bits)

def packString (cp : Cpack) (value : CString) : Int × Cpack :=
  let res := packStruct cp (CObject.bytes value.length)
  if res.1 = 0 then packStruct res.2 value.data else res

end Cpack

/-! ## Unpacking -/

namespace Cunpack

/-- `unpack_init`. -/
def unpackInit (length : Nat) (msg : Block UInt8) : Cunpack where
  unpackSize := 0
  size := length
  data := msg

/-- `unpack_struct`. The result is `none` where the code returns -1. -/
def unpackStruct (cunp : Cunpack) (length : Nat) : Option (List UInt8) × Cunpack :=
  if sub32 cunp.size cunp.unpackSize < length then (none, cunp)
  else
    (some (cunp.data.read cunp.unpackSize length),
      { cunp with unpackSize := u32 (cunp.unpackSize + u16 length) })

/-- A call of `unpack_struct` for an object. -/
def unpackObject (α : Type) [CObject α] (cunp : Cunpack) : Option α × Cunpack :=
  let res := unpackStruct cunp (CObject.sizeof α)
  (res.1.map CObject.ofBytes, res.2)

def unpackChar (cunp : Cunpack) : Option Int8 × Cunpack := unpackObject Int8 cunp
def unpackUchar (cunp : Cunpack) : Option UInt8 × Cunpack := unpackObject UInt8 cunp
def unpackShort (cunp : Cunpack) : Option Int16 × Cunpack := unpackObject Int16 cunp
def unpackUshort (cunp : Cunpack) : Option UInt16 × Cunpack := unpackObject UInt16 cunp
def unpackInt (cunp : Cunpack) : Option Int32 × Cunpack := unpackObject Int32 cunp
def unpackUint (cunp : Cunpack) : Option UInt32 × Cunpack := unpackObject UInt32 cunp
def unpackLl (cunp : Cunpack) : Option Int64 × Cunpack := unpackObject Int64 cunp
def unpackUll (cunp : Cunpack) : Option UInt64 × Cunpack := unpackObject UInt64 cunp
def unpackFloat (cunp : Cunpack) : Option UInt32 × Cunpack := unpackObject UInt32 cunp
def unpackDouble (cunp : Cunpack) : Option UInt64 × Cunpack := unpackObject UInt64 cunp

def unpackString (cunp : Cunpack) : Option CString × Cunpack :=
  match unpackObject UInt16 cunp with
  | (some length, cunp') =>
      if sub32 cunp'.size cunp'.unpackSize < length.toNat then (none, cunp')
      else
        (some ⟨cunp'.data.read cunp'.unpackSize length.toNat, by
            rw [Block.read_length]
            exact length.toNat_lt⟩,
          { cunp' with unpackSize := u32 (cunp'.unpackSize + length.toNat) })
  | (none, cunp') => (none, cunp')

end Cunpack

/-! ## Fields -/

/-- The calls of one name for packing and unpacking. A raw struct has a length. -/
inductive CFieldType
  | char | uchar | short | ushort | int | uint | ll | ull | float | double | string
  | struct (length : Nat)

/-- A field with the value that is packed. -/
inductive CField
  | char (value : Int8)
  | uchar (value : UInt8)
  | short (value : Int16)
  | ushort (value : UInt16)
  | int (value : Int32)
  | uint (value : UInt32)
  | ll (value : Int64)
  | ull (value : UInt64)
  | float (bits : UInt32)
  | double (bits : UInt64)
  | string (value : CString)
  | struct (value : List UInt8)

def CField.type : CField → CFieldType
  | .char _ => .char
  | .uchar _ => .uchar
  | .short _ => .short
  | .ushort _ => .ushort
  | .int _ => .int
  | .uint _ => .uint
  | .ll _ => .ll
  | .ull _ => .ull
  | .float _ => .float
  | .double _ => .double
  | .string _ => .string
  | .struct value => .struct value.length

def Cpack.packField (cp : Cpack) : CField → Int × Cpack
  | .char value => packChar cp value
  | .uchar value => packUchar cp value
  | .short value => packShort cp value
  | .ushort value => packUshort cp value
  | .int value => packInt cp value
  | .uint value => packUint cp value
  | .ll value => packLl cp value
  | .ull value => packUll cp value
  | .float bits => packFloat cp bits
  | .double bits => packDouble cp bits
  | .string value => packString cp value
  | .struct value => packStruct cp value

/-- Give the result of a call as a field. -/
def asField {α : Type} (field : α → CField) (res : Option α × Cunpack) : Option CField × Cunpack :=
  (res.1.map field, res.2)

def Cunpack.unpackField (cunp : Cunpack) : CFieldType → Option CField × Cunpack
  | .char => asField .char (unpackChar cunp)
  | .uchar => asField .uchar (unpackUchar cunp)
  | .short => asField .short (unpackShort cunp)
  | .ushort => asField .ushort (unpackUshort cunp)
  | .int => asField .int (unpackInt cunp)
  | .uint => asField .uint (unpackUint cunp)
  | .ll => asField .ll (unpackLl cunp)
  | .ull => asField .ull (unpackUll cunp)
  | .float => asField .float (unpackFloat cunp)
  | .double => asField .double (unpackDouble cunp)
  | .string => asField .string (unpackString cunp)
  | .struct length => asField .struct (unpackStruct cunp length)

/-- The results of calls in a row, and the message after them. -/
def Cpack.packFields (cp : Cpack) : List CField → List Int × Cpack
  | [] => ([], cp)
  | f :: fs =>
      let res := packField cp f
      let rest := packFields res.2 fs
      (res.1 :: rest.1, rest.2)

def Cunpack.unpackFields (cunp : Cunpack) : List CFieldType → List (Option CField) × Cunpack
  | [] => ([], cunp)
  | ty :: tys =>
      let res := unpackField cunp ty
      let rest := unpackFields res.2 tys
      (res.1 :: rest.1, rest.2)

/-! ## One call -/

namespace CField

/-- The bytes of the field in a message. -/
def bytes : CField → List UInt8
  | .char value => CObject.bytes value
  | .uchar value => CObject.bytes value
  | .short value => CObject.bytes value
  | .ushort value => CObject.bytes value
  | .int value => CObject.bytes value
  | .uint value => CObject.bytes value
  | .ll value => CObject.bytes value
  | .ull value => CObject.bytes value
  | .float bits => CObject.bytes bits
  | .double bits => CObject.bytes bits
  | .string value => CObject.bytes value.length ++ value.data
  | .struct value => value

end CField

namespace CFieldType

/-- The bytes that a call reads first. -/
def width : CFieldType → Nat
  | .char => CObject.sizeof Int8
  | .uchar => CObject.sizeof UInt8
  | .short => CObject.sizeof Int16
  | .ushort => CObject.sizeof UInt16
  | .int => CObject.sizeof Int32
  | .uint => CObject.sizeof UInt32
  | .ll => CObject.sizeof Int64
  | .ull => CObject.sizeof UInt64
  | .float => CObject.sizeof UInt32
  | .double => CObject.sizeof UInt64
  | .string => CObject.sizeof UInt16
  | .struct length => length

/-- The field with the given bytes. -/
def ofBytes : CFieldType → List UInt8 → CField
  | .char, bs => .char (CObject.ofBytes bs)
  | .uchar, bs => .uchar (CObject.ofBytes bs)
  | .short, bs => .short (CObject.ofBytes bs)
  | .ushort, bs => .ushort (CObject.ofBytes bs)
  | .int, bs => .int (CObject.ofBytes bs)
  | .uint, bs => .uint (CObject.ofBytes bs)
  | .ll, bs => .ll (CObject.ofBytes bs)
  | .ull, bs => .ull (CObject.ofBytes bs)
  | .float, bs => .float (CObject.ofBytes bs)
  | .double, bs => .double (CObject.ofBytes bs)
  | .string, bs => .string ⟨(bs.drop 2).take (2 ^ 16 - 1), by
      rw [List.length_take]
      omega⟩
  | .struct _, bs => .struct bs

end CFieldType

@[simp] theorem CString.length_toNat (s : CString) : s.length.toNat = s.data.length :=
  Nat.mod_eq_of_lt s.length_lt

namespace Cpack

variable {cp : Cpack} {value : List UInt8} {f : CField}

/-- What a call without room leaves. -/
def negate (cp : Cpack) : Cpack := { cp with size := u32 (cp.size * (2 ^ 32 - 1)) }

theorem packStruct_full (h : cp.Full value.length) : cp.packStruct value = (-1, cp.negate) := by
  unfold packStruct
  simp only [Nat.not_lt_zero, if_false, if_pos h]
  rw [negate]

theorem packStruct_room (h : ¬ cp.Full value.length) :
    cp.packStruct value = (0, { cp with
      data := cp.data.write cp.size value
      size := u32 (cp.size + u32 value.length) }) := by
  unfold packStruct
  simp only [Nat.not_lt_zero, if_false, if_neg h]

/-- A call fails if and only if there is no room. -/
theorem packStruct_ok_iff : (cp.packStruct value).1 = 0 ↔ ¬ cp.Full value.length := by
  by_cases h : cp.Full value.length
  · simp [packStruct_full h, h]
  · simp [packStruct_room h, h]

/-- All fields but strings are packed in one piece. -/
theorem packField_plain (h : f.type ≠ .string) : cp.packField f = cp.packStruct f.bytes := by
  cases f with
  | string value => exact absurd rfl h
  | _ => rfl

end Cpack

/-- The cursor is inside of the message. -/
structure Cunpack.Inv (cunp : Cunpack) : Prop where
  cursor : cunp.unpackSize ≤ cunp.size
  size_lt : cunp.size < 2 ^ 32

namespace Cunpack

variable {cunp : Cunpack} {ty : CFieldType} {n : Nat}

/-- The number of bytes behind the cursor. -/
def remaining (cunp : Cunpack) : Nat := cunp.size - cunp.unpackSize

def advance (cunp : Cunpack) (n : Nat) : Cunpack := { cunp with unpackSize := cunp.unpackSize + n }

@[simp] theorem advance_unpackSize : (cunp.advance n).unpackSize = cunp.unpackSize + n := rfl
@[simp] theorem advance_size : (cunp.advance n).size = cunp.size := rfl
@[simp] theorem advance_data : (cunp.advance n).data = cunp.data := rfl

theorem advance_advance (m n : Nat) : (cunp.advance m).advance n = cunp.advance (m + n) := by
  simp only [advance, Nat.add_assoc]

@[simp] theorem remaining_advance : (cunp.advance n).remaining = cunp.remaining - n := by
  simp only [remaining, advance_size, advance_unpackSize]
  omega

theorem Inv.advance (h : cunp.Inv) (hn : n ≤ cunp.remaining) : (cunp.advance n).Inv := by
  have hcursor := h.cursor
  unfold remaining at hn
  refine ⟨?_, h.size_lt⟩
  simp only [advance_unpackSize, advance_size]
  omega

/-- The length in front of a string. -/
def textLength (cunp : Cunpack) : UInt16 := CObject.ofBytes (cunp.data.read cunp.unpackSize 2)

/-- The string at the cursor. -/
def text (cunp : Cunpack) : CString where
  data := cunp.data.read (cunp.unpackSize + 2) cunp.textLength.toNat
  length_lt := by
    rw [Block.read_length]
    exact cunp.textLength.toNat_lt

@[simp] theorem text_length : cunp.text.data.length = cunp.textLength.toNat :=
  Block.read_length _ _ _

/-- What a call of `unpack_struct` does inside of the message. -/
theorem Inv.unpackStruct_eq (h : cunp.Inv) (n : Nat) : cunp.unpackStruct n =
    if cunp.remaining < n then (none, cunp)
    else (some (cunp.data.read cunp.unpackSize n), cunp.advance (u16 n)) := by
  have hsub : sub32 cunp.size cunp.unpackSize = cunp.remaining := sub32_of_le h.cursor h.size_lt
  unfold unpackStruct
  rw [hsub]
  split
  · rfl
  · have hcursor := h.cursor
    have hsize := h.size_lt
    have hle : u16 n ≤ n := Nat.mod_le _ _
    unfold remaining at *
    rw [u32_of_lt (by omega)]
    rfl

/-- `unpack_string` reads the length first. -/
theorem Inv.unpackObject_length (h : cunp.Inv) : cunp.unpackObject UInt16 =
    if cunp.remaining < 2 then (none, cunp) else (some cunp.textLength, cunp.advance 2) := by
  have htwo : CObject.sizeof UInt16 = 2 := rfl
  unfold unpackObject
  rw [htwo, h.unpackStruct_eq]
  split <;> rfl

theorem Inv.unpackString_eq (h : cunp.Inv) : cunp.unpackString =
    if cunp.remaining < 2 then (none, cunp)
    else if cunp.remaining < 2 + cunp.textLength.toNat then (none, cunp.advance 2)
    else (some cunp.text, cunp.advance (2 + cunp.textLength.toNat)) := by
  unfold unpackString
  rw [h.unpackObject_length]
  by_cases hshort : cunp.remaining < 2
  · simp only [if_pos hshort]
  · have hsize := h.size_lt
    have hroom : cunp.remaining = cunp.size - cunp.unpackSize := rfl
    have hsub : sub32 cunp.size (cunp.unpackSize + 2) = cunp.remaining - 2 := by
      rw [sub32_of_le (by omega) hsize]
      omega
    simp only [if_neg hshort, advance_size, advance_unpackSize, hsub]
    by_cases hcut : cunp.remaining < 2 + cunp.textLength.toNat
    · rw [if_pos (by omega), if_pos hcut]
    · rw [if_neg (by omega), if_neg hcut, u32_of_lt (by omega), Nat.add_assoc]
      rfl

/-- All fields but strings are unpacked in one piece. -/
theorem unpackField_plain (h : ty ≠ .string) :
    cunp.unpackField ty = asField ty.ofBytes (cunp.unpackStruct ty.width) := by
  cases ty with
  | string => exact absurd rfl h
  | struct length => rfl
  | _ =>
      simp only [unpackField, asField]
      exact Prod.ext (Option.map_map _ _ _) rfl

end Cunpack

end RandServer
