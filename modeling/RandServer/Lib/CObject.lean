import RandServer.Lib.LittleEndian

/-!
# Objects of a fixed size

A value whose bytes in memory a C program copies: integers of every width, and floating
point numbers as their bit patterns. The instances are little-endian.
-/

/-- A type of fixed size whose values can be read back from their bytes. -/
class CObject (α : Type) where
  sizeof : Nat
  bytes : α → List UInt8
  ofBytes : List UInt8 → α
  bytes_length (v : α) : (bytes v).length = sizeof
  ofBytes_bytes (v : α) : ofBytes (bytes v) = v

namespace CObject

attribute [simp] bytes_length ofBytes_bytes

theorem ofNat_leValue_leBytes (k : Nat) (v : BitVec (8 * k)) :
    BitVec.ofNat (8 * k) (leValue (leBytes k v.toNat)) = v := by
  have hpow : 256 ^ k = 2 ^ (8 * k) := by rw [Nat.pow_mul]
  apply BitVec.eq_of_toNat_eq
  simp only [leValue_leBytes, hpow, BitVec.toNat_ofNat, Nat.mod_mod]
  exact Nat.mod_eq_of_lt v.isLt

/-- A type whose values are the bit patterns of `k` bytes. -/
@[reducible] def ofBits {α : Type} (k : Nat) (bits : α → BitVec (8 * k))
    (value : BitVec (8 * k) → α) (h : ∀ v, value (bits v) = v) : CObject α where
  sizeof := k
  bytes v := leBytes k (bits v).toNat
  ofBytes bs := value (BitVec.ofNat (8 * k) (leValue bs))
  bytes_length v := leBytes_length k _
  ofBytes_bytes v := by rw [ofNat_leValue_leBytes, h]

instance : CObject Int8 := ofBits 1 Int8.toBitVec Int8.ofBitVec fun _ => rfl
instance : CObject UInt8 := ofBits 1 UInt8.toBitVec UInt8.ofBitVec fun _ => rfl
instance : CObject Int16 := ofBits 2 Int16.toBitVec Int16.ofBitVec fun _ => rfl
instance : CObject UInt16 := ofBits 2 UInt16.toBitVec UInt16.ofBitVec fun _ => rfl
instance : CObject Int32 := ofBits 4 Int32.toBitVec Int32.ofBitVec fun _ => rfl
instance : CObject UInt32 := ofBits 4 UInt32.toBitVec UInt32.ofBitVec fun _ => rfl
instance : CObject Int64 := ofBits 8 Int64.toBitVec Int64.ofBitVec fun _ => rfl
instance : CObject UInt64 := ofBits 8 UInt64.toBitVec UInt64.ofBitVec fun _ => rfl

end CObject
