import RandServer.Lua.Codec

/-!
# Integers on the wire

`pack_integer` chooses the narrowest of four widths by the absolute value, and the decoder
extends the sign. The width is right for every integer that has an absolute value: the
least integer is its own negation, passes for a small one and loses all but its last byte.
-/

namespace RandServer

/-- The integers that `width` bytes hold. -/
def FitsBytes (width : Nat) (v : BitVec 64) : Prop :=
  -(2 : Int) ^ (8 * width - 1) ≤ v.toInt ∧ v.toInt < 2 ^ (8 * width - 1)

theorem ofNat_leBytes (width : Nat) (v : BitVec 64) :
    BitVec.ofNat (8 * (leBytes width v.toNat).length) (leValue (leBytes width v.toNat)) =
      v.setWidth (8 * (leBytes width v.toNat).length) := by
  apply BitVec.eq_of_toNat_eq
  rw [leBytes_length, leValue_leBytes, BitVec.toNat_ofNat, BitVec.toNat_setWidth,
    show 256 ^ width = 2 ^ (8 * width) by rw [Nat.pow_mul], Nat.mod_mod]

/-- Extending the sign of the low bytes restores an integer that fits into them. -/
theorem signedValue_leBytes {width : Nat} {v : BitVec 64} (hpos : 0 < width) (hwidth : width ≤ 8)
    (h : FitsBytes width v) : signedValue (leBytes width v.toNat) = .integer v := by
  have hdvd : 2 ^ (8 * width) ∣ 2 ^ 64 := Nat.pow_dvd_pow 2 (by omega)
  have htwice : (2 ^ (8 * width) : Nat) = 2 ^ (8 * width - 1) * 2 := by
    rw [← Nat.pow_succ, Nat.succ_eq_add_one, Nat.sub_add_cancel (by omega)]
  have hmod : Int.bmod v.toNat (2 ^ (8 * width)) = v.toInt := by
    obtain ⟨hlo, hhi⟩ := h
    rw [← Int.bmod_bmod_of_dvd hdvd, ← v.toInt_eq_toNat_bmod]
    apply Int.bmod_eq_of_le_mul_two
    · rw [htwice]
      push_cast
      omega
    · rw [htwice]
      push_cast
      omega
  rw [signedValue, ofNat_leBytes, leBytes_length]
  refine congrArg LuaValue.integer (BitVec.eq_of_toInt_eq ?_)
  rw [BitVec.toInt_signExtend_of_le (by omega), BitVec.toInt_setWidth, hmod]

/-- The decoder reads an integer that fits into the width of its opcode. -/
theorem unpackObj_integer {inp : Input} {d : Deser} {fuel width : Nat} {ser : EnSer}
    {v : BitVec 64} {code : EnError} {withInfo : Bool} (hpos : 0 < width) (hwidth : width ≤ 8)
    (hfits : FitsBytes width v) (h : inp.Has d.pos (ser.toByte :: leBytes width v.toNat))
    (hleaf : unpackLeaf inp ser =
      some (do return signedValue (← inp.fixed width code withInfo))) :
    unpackObj inp (fuel + 1) d = .ok (ser, some (.integer v)) (d.read (1 + width)) := by
  rw [← signedValue_leBytes hpos hwidth hfits]
  exact unpackObj_payload h (leBytes_length width v.toNat) hleaf

/-- `pack_integer` chooses an opcode whose width holds the integer, if the integer has an
absolute value. -/
theorem scalarBytes_integer {v : BitVec 64} (h : v ≠ BitVec.intMin 64) :
    ∃ ser width code withInfo, 0 < width ∧ width ≤ 8 ∧ FitsBytes width v ∧
      scalarBytes (.integer v) = EnSer.toByte ser :: leBytes width v.toNat ∧ ser ≠ .serTableEnd ∧
      ∀ inp, unpackLeaf inp ser =
        some (do return signedValue (← inp.fixed width code withInfo)) := by
  have hlo : -(2 : Int) ^ 63 ≤ v.toInt := v.le_toInt
  have hhi : v.toInt < (2 : Int) ^ 63 := v.toInt_lt
  obtain ⟨absValue, habs, hle, hge⟩ : ∃ absValue,
      (if v.toInt < 0 then (-v).toInt else v.toInt) = absValue ∧
        v.toInt ≤ absValue ∧ -absValue ≤ v.toInt := by
    refine ⟨_, rfl, ?_, ?_⟩
    all_goals
      rw [BitVec.toInt_neg_of_ne_intMin h]
      split_ifs <;> omega
  simp only [scalarBytes, packInteger, habs, serializePackOp, serializePackBytes_append]
  split_ifs with hone htwo hfour
  · exact ⟨.serInt8, 1, _, _, by decide, by decide, ⟨by omega, by omega⟩, rfl,
      EnSer.noConfusion, fun _ => rfl⟩
  · exact ⟨.serInt16, 2, _, _, by decide, by decide, ⟨by omega, by omega⟩, rfl,
      EnSer.noConfusion, fun _ => rfl⟩
  · exact ⟨.serInt32, 4, _, _, by decide, by decide, ⟨by omega, by omega⟩, rfl,
      EnSer.noConfusion, fun _ => rfl⟩
  · exact ⟨.serInt64, 8, _, _, by decide, by decide, ⟨hlo, hhi⟩, rfl,
      EnSer.noConfusion, fun _ => rfl⟩

theorem roundTrips_integer_of_ne {v : BitVec 64} (h : v ≠ BitVec.intMin 64) :
    RoundTrips (.integer v) := by
  obtain ⟨ser, width, code, withInfo, hpos, hwidth, hfits, hbytes, hser, hleaf⟩ :=
    scalarBytes_integer h
  intro inp fuel d hin
  have hlen : (scalarBytes (.integer v)).length = 1 + width := by
    rw [hbytes, List.length_cons, leBytes_length, Nat.add_comm]
  rw [hbytes] at hin
  rw [hlen]
  exact ⟨ser, hser, unpackObj_integer hpos hwidth hfits hin (hleaf inp)⟩

/-- The least integer is its own negation, is packed into one byte, and unpacked as zero. -/
theorem not_roundTrips_intMin : ¬ RoundTrips (.integer (BitVec.intMin 64)) := by
  intro h
  obtain ⟨_, -, hrun⟩ := h ⟨[2, 0], 2, by decide⟩ 0 ⟨0, 0, [], ⟨[], [], []⟩⟩
    ⟨by decide, by decide⟩
  cases hrun

/-- An integer survives, whatever follows it, if and only if it is not the least one. -/
theorem roundTrips_integer_iff (v : BitVec 64) :
    RoundTrips (.integer v) ↔ v ≠ BitVec.intMin 64 := by
  constructor
  · rintro h rfl
    exact not_roundTrips_intMin h
  · exact roundTrips_integer_of_ne

theorem integer_lost : ¬ ∀ v, RoundTrips (.integer v) :=
  fun h => not_roundTrips_intMin (h _)

end RandServer
