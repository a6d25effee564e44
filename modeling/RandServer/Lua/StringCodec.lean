import RandServer.Lua.Codec

/-!
# Strings on the wire

`pack_string` writes the length of a string in one, two or eight bytes, and the decoder
reads one, two or four. From the third class it takes the upper half of the length for the
first four bytes of the string, and stops four bytes too early.
-/

namespace RandServer

section Decode

variable {inp : Input} {d : Deser} {fuel width : Nat} {ser : EnSer} {data : List UInt8}
  {noSize noData : EnError}

/-- The decoder reads a string behind a length of the width of its opcode. -/
theorem unpackObj_string (hlt : data.length < 256 ^ width)
    (h : inp.Has d.pos (ser.toByte :: (leBytes width data.length ++ data)))
    (hleaf : unpackLeaf inp ser = some (unpackString inp width noSize noData)) :
    unpackObj inp (fuel + 1) d =
      .ok (ser, some (.string data)) (d.read (1 + width + data.length)) := by
  obtain ⟨-, hrest⟩ := Input.has_cons.mp h
  obtain ⟨⟨hsize, hlength⟩, hle, hdata⟩ := Input.has_append.mp hrest
  simp only [leBytes_length] at hsize hlength hle hdata
  have hvalue : leValue (leBytes width data.length) = data.length := by
    rw [leValue_leBytes, Nat.mod_eq_of_lt hlt]
  have hfirst : inp.fixed width noSize true (d.read 1) =
      .ok (leBytes width data.length) ((d.read 1).read width) := by
    apply (Input.fixed_ok hsize noSize true).trans
    exact congrArg (EStateM.Result.ok · _) hlength
  have hsecond : inp.fixed data.length noData true ((d.read 1).read width) =
      .ok data (((d.read 1).read width).read data.length) := by
    apply (Input.fixed_ok hle noData true).trans
    exact congrArg (EStateM.Result.ok · _) hdata
  have hop := h.opcode
  rw [← hop] at hleaf
  rw [unpackObj_leaf h.lt hleaf, hop, ← Deser.read_read, ← Deser.read_read]
  apply StateError.bind_ok
  apply (StateError.bind_ok hfirst).trans
  rw [hvalue]
  exact StateError.bind_ok hsecond

end Decode

theorem stringBytes_length (ser : EnSer) (width : Nat) (s : List UInt8) :
    (ser.toByte :: (leBytes width s.length ++ s)).length = 1 + width + s.length := by
  simp only [List.length_cons, List.length_append, leBytes_length]
  omega

/-- The bytes of a string, with the width of its length. -/
theorem scalarBytes_string (s : List UInt8) : scalarBytes (.string s) =
    if s.length < 2 ^ 7 then EnSer.serString8.toByte :: (leBytes 1 s.length ++ s)
    else if s.length < 2 ^ 15 then EnSer.serString16.toByte :: (leBytes 2 s.length ++ s)
    else EnSer.serString32.toByte :: (leBytes 8 s.length ++ s) := by
  unfold scalarBytes packString
  simp only [serializePackOp, serializePackBytes_append]
  split_ifs
  · rfl
  · rfl
  · rfl

theorem roundTrips_string_of_lt {s : List UInt8} (h : s.length < 2 ^ 15) :
    RoundTrips (.string s) := by
  intro inp fuel d hin
  rw [scalarBytes_string] at hin ⊢
  by_cases hshort : s.length < 2 ^ 7
  · rw [if_pos hshort] at hin ⊢
    rw [stringBytes_length]
    exact ⟨.serString8, EnSer.noConfusion, unpackObj_string (by omega) hin rfl⟩
  · rw [if_neg hshort, if_pos h] at hin ⊢
    rw [stringBytes_length]
    exact ⟨.serString16, EnSer.noConfusion, unpackObj_string (by omega) hin rfl⟩

/-- Below 2^32 the upper half of an eight-byte length is zero. -/
theorem leBytes_eight {len : Nat} (h : len < 2 ^ 32) :
    leBytes 8 len = leBytes 4 len ++ [0, 0, 0, 0] := by
  have hzero : len / 256 ^ 4 = 0 := Nat.div_eq_of_lt h
  rw [leBytes_add 4 4, hzero]
  rfl

/-- What the decoder takes a long string for: the upper half of the length stands before it,
and as many bytes are missing behind. -/
def shifted (s : List UInt8) : List UInt8 := ([0, 0, 0, 0] ++ s).take s.length

theorem shifted_length (s : List UInt8) : (shifted s).length = s.length := by
  rw [shifted, List.length_take, List.length_append]
  omega

/-- The bytes of a long string begin with the bytes that the decoder reads. -/
theorem longString_append {s : List UInt8} (hlen : s.length < 2 ^ 32) :
    EnSer.serString32.toByte :: (leBytes 8 s.length ++ s) =
      EnSer.serString32.toByte :: (leBytes 4 (shifted s).length ++ shifted s) ++
        ([0, 0, 0, 0] ++ s).drop s.length := by
  rw [leBytes_eight hlen, shifted_length, List.cons_append, List.append_assoc, List.append_assoc,
    shifted, List.take_append_drop]

/-- A string of at least 2^15 bytes comes back shifted, with the cursor four bytes short. -/
theorem unpackObj_longString {inp : Input} {fuel : Nat} {d : Deser} {s : List UInt8}
    (hlong : 2 ^ 15 ≤ s.length) (hlen : s.length < 2 ^ 32)
    (h : inp.Has d.pos (scalarBytes (.string s))) :
    unpackObj inp (fuel + 1) d =
      .ok (.serString32, some (.string (shifted s))) (d.read (1 + 4 + s.length)) := by
  rw [scalarBytes_string, if_neg (by omega), if_neg (by omega), longString_append hlen] at h
  obtain ⟨hin, -⟩ := Input.has_append.mp h
  have hrun : unpackObj inp (fuel + 1) d = _ :=
    unpackObj_string (by rw [shifted_length]; exact hlen) hin rfl
  rw [shifted_length] at hrun
  exact hrun

theorem not_roundTrips_string {s : List UInt8} (hlong : 2 ^ 15 ≤ s.length)
    (hlen : s.length < 2 ^ 32) : ¬ RoundTrips (.string s) := by
  intro h
  let inp : Input := ⟨scalarBytes (.string s), (scalarBytes (.string s)).length, Nat.le_refl _⟩
  have hin : inp.Has 0 (scalarBytes (.string s)) := Input.Has.whole (List.take_length)
  obtain ⟨ser, -, hrun⟩ := h inp 0 ⟨0, 0, [], ⟨[], [], []⟩⟩ hin
  have hshort : unpackObj inp 1 ⟨0, 0, [], ⟨[], [], []⟩⟩ = _ := unpackObj_longString hlong hlen hin
  have hbytes : (scalarBytes (.string s)).length = 1 + 8 + s.length := by
    rw [scalarBytes_string, if_neg (by omega), if_neg (by omega), stringBytes_length]
  rw [hshort, hbytes] at hrun
  -- The two cursors differ by the upper half of the length.
  have hpos := congrArg Deser.pos (EStateM.Result.ok.inj hrun).2
  simp only [Deser.read] at hpos
  omega

/-- A string survives, whatever follows it, if and only if it is shorter than 2^15 bytes. -/
theorem roundTrips_string_iff (s : List UInt8) (hlen : s.length < 2 ^ 32) :
    RoundTrips (.string s) ↔ s.length < 2 ^ 15 := by
  constructor
  · intro h
    by_contra hlong
    exact not_roundTrips_string (Nat.le_of_not_lt hlong) hlen h
  · exact roundTrips_string_of_lt

theorem roundTrips_string_iff_zeros :
    RoundTrips (.string [0, 65, 0]) ↔ ([0, 65, 0] : List UInt8).length < 2 ^ 15 :=
  roundTrips_string_iff [0, 65, 0] (by decide)

theorem string_lost : ¬ ∀ s : List UInt8, s.length < 2 ^ 32 → RoundTrips (.string s) := by
  intro h
  have hlen : (List.replicate (2 ^ 15) (65 : UInt8)).length = 2 ^ 15 := List.length_replicate
  refine not_roundTrips_string ?_ ?_ (h (List.replicate (2 ^ 15) 65) ?_)
  · exact hlen.ge
  · omega
  · omega

end RandServer
