import RandServer.Tool.Cpack

/-!
# Round trips of packed messages

The writer puts the fields behind each other, and its counter is their whole length. The
cursor of the reader falls behind by a multiple of `2 ^ 16` for each longer raw struct. It
never gets ahead, so a message with such a struct is not read to its end.
-/

namespace RandServer

variable {f : CField} {fields : List CField}

namespace CField

/-- How far the cursor of the reader moves. -/
def stride : CField → Nat
  | .struct value => u16 value.length
  | f => f.bytes.length

theorem stride_le : f.stride ≤ f.bytes.length := by
  cases f with
  | struct value => exact Nat.mod_le _ _
  | _ => exact Nat.le_refl _

theorem stride_eq (h : ∀ value, f = .struct value → value.length < 2 ^ 16) :
    f.stride = f.bytes.length := by
  cases f with
  | struct value => exact u16_of_lt (h value rfl)
  | _ => rfl

theorem width_type (h : f.type ≠ .string) : f.type.width = f.bytes.length := by
  cases f with
  | string value => exact absurd rfl h
  | struct value => rfl
  | _ => exact (CObject.bytes_length _).symm

theorem u16_width (h : f.type ≠ .string) : u16 f.type.width = f.stride := by
  cases f with
  | string value => exact absurd rfl h
  | struct value => rfl
  | _ =>
      simp only [stride, bytes, CObject.bytes_length]
      rfl

theorem ofBytes_type (h : f.type ≠ .string) : f.type.ofBytes f.bytes = f := by
  cases f with
  | string value => exact absurd rfl h
  | struct value => rfl
  | _ => simp only [type, bytes, CFieldType.ofBytes, CObject.ofBytes_bytes]

theorem string_bytes_length (value : CString) :
    (CField.string value).bytes.length = 2 + value.data.length := by
  simp only [bytes, List.length_append, CObject.bytes_length]
  rfl

theorem bytes_length_lt (h : ∀ value, f = .struct value → value.length < 2 ^ 16) :
    f.bytes.length < 2 ^ 32 := by
  cases f with
  | string value =>
      have hlen := value.length_lt
      rw [string_bytes_length]
      omega
  | struct value => exact Nat.lt_trans (h value rfl) (by decide)
  | _ =>
      simp only [bytes, CObject.bytes_length]
      decide

theorem eq_string_of_type (h : f.type = .string) : ∃ value, f = .string value := by
  cases f with
  | string value => exact ⟨value, rfl⟩
  | _ => cases h

/-- The fields of a message behind each other. -/
def encode (fields : List CField) : List UInt8 := fields.flatMap bytes

/-- How far the cursor of the reader moves in a whole message. -/
def strides (fields : List CField) : Nat := (fields.map stride).sum

@[simp] theorem encode_cons : encode (f :: fields) = f.bytes ++ encode fields := List.flatMap_cons

@[simp] theorem strides_cons : strides (f :: fields) = f.stride + strides fields := by
  simp only [strides, List.map_cons, List.sum_cons]

theorem strides_le : strides fields ≤ (encode fields).length := by
  induction fields with
  | nil => exact Nat.le_refl 0
  | cons f fields ih =>
      have hf := @stride_le f
      simp only [strides_cons, encode_cons, List.length_append]
      omega

/-- The reader keeps up only if it keeps up at every field. -/
theorem stride_eq_of_strides (h : strides fields = (encode fields).length) :
    ∀ f ∈ fields, f.stride = f.bytes.length := by
  induction fields with
  | nil => nofun
  | cons f fields ih =>
      have hf := @stride_le f
      have hrest := @strides_le fields
      simp only [strides_cons, encode_cons, List.length_append] at h
      intro g hg
      cases hg with
      | head => omega
      | tail _ hg => exact ih (by omega) g hg

end CField

open CField

/-! ## The writer -/

namespace Cpack

variable {cp : Cpack}

/-- Put bytes behind the others. -/
def append (cp : Cpack) (bs : List UInt8) : Cpack :=
  { cp with data := cp.data.write cp.size bs, size := cp.size + bs.length }

@[simp] theorem append_maxSize (bs : List UInt8) : (cp.append bs).maxSize = cp.maxSize := rfl

@[simp] theorem append_size (bs : List UInt8) : (cp.append bs).size = cp.size + bs.length := rfl

@[simp] theorem append_nil : cp.append [] = cp := by
  simp only [append, Block.write_nil, List.length_nil, Nat.add_zero]

theorem append_append (xs ys : List UInt8) : (cp.append xs).append ys = cp.append (xs ++ ys) := by
  simp only [append, Block.write_write, List.length_append, Nat.add_assoc]

/-- A piece of a possible length that is packed ends inside of the message. -/
theorem packStruct_append {value : List UInt8} (hsize : cp.size ≤ cp.maxSize)
    (hmax : cp.maxSize < 2 ^ 32) (hlen : value.length < 2 ^ 32)
    (hok : (cp.packStruct value).1 = 0) :
    (cp.packStruct value).2 = cp.append value ∧ cp.size + value.length ≤ cp.maxSize := by
  have hroom := packStruct_ok_iff.mp hok
  have hfits : cp.size + value.length ≤ cp.maxSize := by
    unfold Full at hroom
    omega
  rw [packStruct_room hroom, u32_of_lt hlen, u32_of_lt (by omega)]
  exact ⟨rfl, hfits⟩

theorem packField_append (hsize : cp.size ≤ cp.maxSize) (hmax : cp.maxSize < 2 ^ 32)
    (hlen : f.bytes.length < 2 ^ 32) (hok : (cp.packField f).1 = 0) :
    (cp.packField f).2 = cp.append f.bytes ∧ cp.size + f.bytes.length ≤ cp.maxSize := by
  by_cases hty : f.type = .string
  · obtain ⟨value, rfl⟩ := eq_string_of_type hty
    have htotal := string_bytes_length value
    simp only [packField, packString] at hok ⊢
    split at hok
    · rename_i hlength
      obtain ⟨hhead, hroom⟩ := packStruct_append hsize hmax
        (by simp only [CObject.bytes_length]; decide) hlength
      rw [if_pos hlength]
      rw [hhead] at hok ⊢
      obtain ⟨htail, hfits⟩ := @packStruct_append (cp.append (CObject.bytes value.length))
        value.data hroom hmax (by omega) hok
      rw [htail, append_append]
      simp only [append_size, append_maxSize, CObject.bytes_length] at hfits
      refine ⟨rfl, ?_⟩
      rw [htotal, ← Nat.add_assoc]
      exact hfits
    · exact absurd hok ‹_›
  · rw [packField_plain hty] at hok ⊢
    exact packStruct_append hsize hmax hlen hok

/-- The message after calls that have all succeeded. -/
theorem packFields_append (hsize : cp.size ≤ cp.maxSize) (hmax : cp.maxSize < 2 ^ 32)
    (hlen : ∀ f ∈ fields, f.bytes.length < 2 ^ 32)
    (hok : ∀ ret ∈ (cp.packFields fields).1, ret = 0) :
    (cp.packFields fields).2 = cp.append (encode fields) ∧
      cp.size + (encode fields).length ≤ cp.maxSize := by
  induction fields generalizing cp with
  | nil => exact ⟨append_nil.symm, hsize⟩
  | cons f fields ih =>
      simp only [packFields, List.mem_cons, forall_eq_or_imp] at hok hlen ⊢
      obtain ⟨hf, hroom⟩ := packField_append hsize hmax hlen.1 hok.1
      rw [hf] at hok ⊢
      obtain ⟨hrest, hfits⟩ := @ih (cp.append f.bytes) hroom hmax hlen.2 hok.2
      rw [hrest, append_append, encode_cons, List.length_append, ← Nat.add_assoc]
      exact ⟨rfl, hfits⟩

theorem packStruct_size_lt (cp : Cpack) (value : List UInt8) :
    (cp.packStruct value).2.size < 2 ^ 32 := by
  by_cases h : cp.Full value.length
  · rw [packStruct_full h]
    exact Nat.mod_lt _ (by decide)
  · rw [packStruct_room h]
    exact Nat.mod_lt _ (by decide)

theorem packField_size_lt (cp : Cpack) (f : CField) : (cp.packField f).2.size < 2 ^ 32 := by
  by_cases hty : f.type = .string
  · obtain ⟨value, rfl⟩ := eq_string_of_type hty
    simp only [packField, packString]
    split <;> exact packStruct_size_lt _ _
  · rw [packField_plain hty]
    exact packStruct_size_lt cp _

/-- The counter stays a word, whatever the calls return. -/
theorem packFields_size_lt (hsize : cp.size < 2 ^ 32) : (cp.packFields fields).2.size < 2 ^ 32 := by
  induction fields generalizing cp with
  | nil => exact hsize
  | cons f fields ih => exact ih (packField_size_lt cp f)

end Cpack

/-! ## The reader -/

namespace Cunpack

variable {cunp cunp' : Cunpack}

/-- A field whose bytes are at the cursor is read. -/
theorem Inv.unpackField_of_read (h : cunp.Inv) (hlen : f.bytes.length ≤ cunp.remaining)
    (hread : cunp.data.read cunp.unpackSize f.bytes.length = f.bytes) :
    cunp.unpackField f.type = (some f, cunp.advance f.stride) := by
  by_cases hty : f.type = .string
  · obtain ⟨value, rfl⟩ := eq_string_of_type hty
    have htotal := string_bytes_length value
    rw [htotal] at hlen hread
    rw [Block.read_add] at hread
    obtain ⟨hhead, htail⟩ := List.append_inj hread (Block.read_length _ _ _)
    have hlength : cunp.textLength = value.length := by
      unfold textLength
      rw [hhead, CObject.ofBytes_bytes]
    have hnat : cunp.textLength.toNat = value.data.length := by
      rw [hlength, CString.length_toNat]
    have htext : cunp.text = value := by
      cases value with
      | mk data length_lt =>
          simp only [text, hnat, htail]
    show asField .string cunp.unpackString = _
    rw [h.unpackString_eq, if_neg (by omega), if_neg (by omega), htext, hnat, ← htotal]
    rfl
  · rw [unpackField_plain hty, h.unpackStruct_eq, width_type hty, if_neg (by omega), hread]
    simp only [asField, Option.map_some, ofBytes_type hty]
    rw [← width_type hty, u16_width hty]

/-- A field that is read back lies behind the cursor. -/
theorem Inv.unpackField_some (h : cunp.Inv) (hres : cunp.unpackField f.type = (some f, cunp')) :
    f.bytes.length ≤ cunp.remaining ∧ cunp' = cunp.advance f.stride := by
  by_cases hty : f.type = .string
  · obtain ⟨value, rfl⟩ := eq_string_of_type hty
    have hres : asField .string cunp.unpackString = (some (.string value), cunp') := hres
    rw [h.unpackString_eq] at hres
    split_ifs at hres with hshort hcut
    · cases hres
    · cases hres
    · cases hres
      have htotal := string_bytes_length cunp.text
      rw [text_length] at htotal
      refine ⟨by omega, ?_⟩
      rw [← htotal]
      rfl
  · rw [unpackField_plain hty, h.unpackStruct_eq, width_type hty] at hres
    split_ifs at hres with hshort
    · cases hres
    · obtain ⟨-, rfl⟩ := Prod.mk.inj hres
      refine ⟨by omega, ?_⟩
      rw [← width_type hty, u16_width hty]

/-- The fields behind the cursor are read if no raw struct among them is too long. -/
theorem Inv.unpackFields_of_read (h : cunp.Inv)
    (hshort : ∀ value, .struct value ∈ fields → value.length < 2 ^ 16)
    (hlen : (encode fields).length ≤ cunp.remaining)
    (hread : cunp.data.read cunp.unpackSize (encode fields).length = encode fields) :
    cunp.unpackFields (fields.map type) =
      (fields.map some, cunp.advance (encode fields).length) := by
  induction fields generalizing cunp with
  | nil => rfl
  | cons f fields ih =>
      rw [encode_cons, List.length_append] at hlen hread
      rw [Block.read_add] at hread
      obtain ⟨hf, hrest⟩ := List.append_inj hread (Block.read_length _ _ _)
      have hstride : f.stride = f.bytes.length :=
        stride_eq fun value hvalue => hshort value (by rw [hvalue]; exact List.mem_cons_self)
      have hstep := h.unpackField_of_read (by omega) hf
      rw [hstride] at hstep
      have hnext := ih (h.advance (by omega : f.bytes.length ≤ cunp.remaining))
        (fun value hvalue => hshort value (List.mem_cons_of_mem _ hvalue))
        (by rw [remaining_advance]; omega) hrest
      simp only [List.map_cons, unpackFields, hstep, hnext]
      rw [advance_advance, encode_cons, List.length_append]

/-- Where the cursor is after fields that have been read back. -/
theorem Inv.unpackFields_some (h : cunp.Inv)
    (hres : (cunp.unpackFields (fields.map type)).1 = fields.map some) :
    (cunp.unpackFields (fields.map type)).2.unpackSize = cunp.unpackSize + strides fields ∧
      ∀ f ∈ fields, f.bytes.length ≤ cunp.remaining := by
  induction fields generalizing cunp with
  | nil => exact ⟨rfl, nofun⟩
  | cons f fields ih =>
      simp only [List.map_cons, unpackFields, List.cons.injEq] at hres ⊢
      have hstep : cunp.unpackField f.type = (some f, (cunp.unpackField f.type).2) :=
        Prod.ext hres.1 rfl
      obtain ⟨hlen, hnext⟩ := h.unpackField_some hstep
      have hstride := @stride_le f
      rw [hnext] at hres ⊢
      obtain ⟨hcursor, hall⟩ := ih (h.advance (Nat.le_trans hstride hlen)) hres.2
      rw [hcursor, strides_cons, advance_unpackSize, Nat.add_assoc]
      refine ⟨rfl, fun g hg => ?_⟩
      cases hg with
      | head => exact hlen
      | tail _ hg =>
          have hg' := hall g hg
          rw [remaining_advance] at hg'
          omega

end Cunpack

/-! ## Whole messages -/

/-- Unpacking gives the packed values and ends at the end of the message. -/
def Cpack.RoundTrips (cp : Cpack) (fields : List CField) : Prop :=
  let res := (Cunpack.unpackInit cp.size cp.data).unpackFields (fields.map type)
  res.1 = fields.map some ∧ res.2.unpackSize = cp.size

namespace Cpack

variable {cp : Cpack} {maxSize : Nat}

theorem unpackInit_inv (hsize : cp.size < 2 ^ 32) : (Cunpack.unpackInit cp.size cp.data).Inv :=
  ⟨Nat.zero_le _, hsize⟩

/-- What calls write that have all succeeded. -/
theorem packInit_append (hmax : maxSize < 2 ^ 32) (hlen : ∀ f ∈ fields, f.bytes.length < 2 ^ 32)
    (hok : ∀ ret ∈ ((cp.packInit maxSize).packFields fields).1, ret = 0) :
    ((cp.packInit maxSize).packFields fields).2 = (cp.packInit maxSize).append (encode fields) :=
  (packFields_append (Nat.zero_le _) hmax hlen hok).1

/-- A message that is read back has no long raw struct. -/
theorem RoundTrips.struct_lt (hmax : maxSize < 2 ^ 32)
    (hok : ∀ ret ∈ ((cp.packInit maxSize).packFields fields).1, ret = 0)
    (h : ((cp.packInit maxSize).packFields fields).2.RoundTrips fields) {value : List UInt8}
    (hvalue : .struct value ∈ fields) : value.length < 2 ^ 16 := by
  have hsize : ((cp.packInit maxSize).packFields fields).2.size < 2 ^ 32 :=
    packFields_size_lt (show 0 < 2 ^ 32 by decide)
  obtain ⟨hcursor, hall⟩ := (unpackInit_inv hsize).unpackFields_some h.1
  have hmsg := packInit_append hmax
    (fun f hf => Nat.lt_of_le_of_lt (hall f hf) (Nat.lt_of_le_of_lt (Nat.sub_le _ _) hsize)) hok
  have hend := hcursor.symm.trans h.2
  rw [hmsg] at hend
  have hkeep : strides fields = (encode fields).length := by
    simpa only [Cunpack.unpackInit, packInit, append_size, Nat.zero_add] using hend
  have hstride : u16 value.length = value.length := stride_eq_of_strides hkeep _ hvalue
  exact hstride ▸ Nat.mod_lt _ (by decide)

end Cpack

/-- Messages whose fields have all been packed are read back if and only if no raw struct in
them has `2 ^ 16` bytes or more. -/
theorem cpack_roundTrips_iff (cp : Cpack) {maxSize : Nat} (hmax : maxSize < 2 ^ 32)
    (fields : List CField) (hok : ∀ ret ∈ ((cp.packInit maxSize).packFields fields).1, ret = 0) :
    ((cp.packInit maxSize).packFields fields).2.RoundTrips fields ↔
      ∀ value, .struct value ∈ fields → value.length < 2 ^ 16 := by
  refine ⟨fun h value hvalue => h.struct_lt hmax hok hvalue, fun hshort => ?_⟩
  have hmsg := Cpack.packInit_append hmax
    (fun f hf => bytes_length_lt fun value hvalue => hshort value (hvalue ▸ hf)) hok
  have hsize : ((cp.packInit maxSize).packFields fields).2.size < 2 ^ 32 :=
    Cpack.packFields_size_lt (show 0 < 2 ^ 32 by decide)
  have hlen : ((cp.packInit maxSize).append (encode fields)).size = (encode fields).length :=
    Nat.zero_add _
  have hall := (Cpack.unpackInit_inv hsize).unpackFields_of_read hshort
  rw [hmsg] at hall ⊢
  have hres := hall (Nat.le_of_eq hlen.symm) (Block.read_write_self _ _ _)
  unfold Cpack.RoundTrips
  rw [hres]
  exact ⟨rfl, (Nat.zero_add _).trans hlen.symm⟩

/-- An integer, a string and a raw struct. -/
def shortMessage : List CField := [.int (-1), .string ⟨[7, 8], by decide⟩, .struct [1, 2, 3]]

theorem cpack_roundTrips_iff_short :
    ((Cpack.blank.packInit 16).packFields shortMessage).2.RoundTrips shortMessage := by
  refine (cpack_roundTrips_iff _ (by decide) shortMessage (by decide)).mpr fun value hvalue => ?_
  simp only [shortMessage, List.mem_cons, reduceCtorEq, CField.struct.injEq, List.not_mem_nil,
    or_false, false_or] at hvalue
  subst hvalue
  decide

/-- A raw struct of `2 ^ 16` bytes leaves the cursor where it is. -/
theorem cpack_struct_lost : ¬ ∀ (cp : Cpack) (maxSize : Nat) (fields : List CField),
    maxSize < 2 ^ 32 → (∀ ret ∈ ((cp.packInit maxSize).packFields fields).1, ret = 0) →
      ((cp.packInit maxSize).packFields fields).2.RoundTrips fields := by
  intro h
  have hlen : (List.replicate (2 ^ 16) (0 : UInt8)).length = 2 ^ 16 := List.length_replicate
  have hok : ∀ ret ∈ ((Cpack.blank.packInit (2 ^ 16)).packFields
      [.struct (List.replicate (2 ^ 16) 0)]).1, ret = 0 := by
    simp only [Cpack.packFields, List.mem_singleton, forall_eq]
    refine Cpack.packStruct_ok_iff.mpr ?_
    unfold Cpack.Full
    rw [hlen]
    decide
  have hlt := (h _ _ _ (by decide) hok).struct_lt (by decide) hok List.mem_cons_self
  rw [hlen] at hlt
  exact absurd hlt (Nat.lt_irrefl _)

end RandServer
