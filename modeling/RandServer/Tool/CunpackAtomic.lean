import RandServer.Tool.Cpack

/-!
# Reading untrusted messages

No call moves the cursor out of the message, and a call fails exactly where the bytes are
too few. `unpack_string` moves the cursor behind the length of a string before it looks
for the text.
-/

namespace RandServer

namespace Cunpack

variable {cunp : Cunpack} {ty : CFieldType}

/-- The bytes behind the cursor are too few for the whole field. -/
def TooFew (cunp : Cunpack) : CFieldType → Prop
  | .string => cunp.remaining < 2 ∨ cunp.remaining < 2 + cunp.textLength.toNat
  | ty => cunp.remaining < ty.width

/-- A string whose length lies in the message, but not the whole text. -/
structure CutText (cunp : Cunpack) (ty : CFieldType) : Prop where
  string : ty = .string
  length : 2 ≤ cunp.remaining
  text : cunp.remaining < 2 + cunp.textLength.toNat

/-- A call stays in the message, fails exactly if there are too few bytes, and then leaves
the cursor where it is. -/
structure Atomic (cunp : Cunpack) (ty : CFieldType) : Prop where
  bounded : (cunp.unpackField ty).2.unpackSize ≤ cunp.size
  fails_iff : (cunp.unpackField ty).1 = none ↔ cunp.TooFew ty
  stays : (cunp.unpackField ty).1 = none → (cunp.unpackField ty).2.unpackSize = cunp.unpackSize

theorem tooFew_plain (h : ty ≠ .string) : cunp.TooFew ty ↔ cunp.remaining < ty.width := by
  cases ty with
  | string => exact absurd rfl h
  | _ => exact Iff.rfl

/-- What a call can do. -/
theorem Inv.unpackField_cases (h : cunp.Inv) (ty : CFieldType) :
    (cunp.TooFew ty ∧ ¬ cunp.CutText ty ∧ cunp.unpackField ty = (none, cunp)) ∨
    (cunp.TooFew ty ∧ cunp.CutText ty ∧ cunp.unpackField ty = (none, cunp.advance 2)) ∨
    (¬ cunp.TooFew ty ∧ ¬ cunp.CutText ty ∧
      ∃ f n, n ≤ cunp.remaining ∧ cunp.unpackField ty = (some f, cunp.advance n)) := by
  by_cases hty : ty = .string
  · subst hty
    have hcall : cunp.unpackField .string = asField .string cunp.unpackString := rfl
    rw [hcall, h.unpackString_eq]
    by_cases hshort : cunp.remaining < 2
    · rw [if_pos hshort]
      exact .inl ⟨.inl hshort, fun hcut => absurd hcut.length (by omega), rfl⟩
    · rw [if_neg hshort]
      by_cases htext : cunp.remaining < 2 + cunp.textLength.toNat
      · rw [if_pos htext]
        exact .inr (.inl ⟨.inr htext, ⟨rfl, by omega, htext⟩, rfl⟩)
      · rw [if_neg htext]
        refine .inr (.inr ⟨fun hfew => hfew.elim hshort htext, fun hcut => htext hcut.text, ?_⟩)
        exact ⟨.string cunp.text, _, Nat.le_of_not_lt htext, rfl⟩
  · rw [tooFew_plain hty, unpackField_plain hty, h.unpackStruct_eq]
    have hcut : ¬ cunp.CutText ty := fun hcut => hty hcut.string
    by_cases hfew : cunp.remaining < ty.width
    · rw [if_pos hfew]
      exact .inl ⟨hfew, hcut, rfl⟩
    · rw [if_neg hfew]
      have hle : u16 ty.width ≤ ty.width := Nat.mod_le _ _
      exact .inr (.inr ⟨hfew, hcut, _, _, by omega, rfl⟩)

/-- The cursor stays in the message. -/
theorem Inv.unpackField (h : cunp.Inv) (ty : CFieldType) : (cunp.unpackField ty).2.Inv := by
  obtain ⟨-, -, heq⟩ | ⟨-, hcut, heq⟩ | ⟨-, -, f, n, hn, heq⟩ := h.unpackField_cases ty
  · rwa [heq]
  · rw [heq]
    exact h.advance hcut.length
  · rw [heq]
    exact h.advance hn

/-- Only a cut string breaks what a call promises. -/
theorem Inv.atomic_iff (h : cunp.Inv) (ty : CFieldType) : cunp.Atomic ty ↔ ¬ cunp.CutText ty := by
  have hcursor := h.cursor
  obtain ⟨hfew, hcut, heq⟩ | ⟨hfew, hcut, heq⟩ | ⟨hfew, hcut, f, n, hn, heq⟩ :=
    h.unpackField_cases ty
  · refine iff_of_true ⟨?_, ?_, ?_⟩ hcut
    all_goals rw [heq]
    · exact hcursor
    · exact iff_of_true rfl hfew
    · exact fun _ => rfl
  · refine iff_of_false (fun hatomic => ?_) (not_not_intro hcut)
    have hstays := hatomic.stays
    rw [heq] at hstays
    have hmoved := hstays rfl
    simp only [advance_unpackSize] at hmoved
    omega
  · refine iff_of_true ⟨?_, ?_, ?_⟩ hcut
    all_goals rw [heq]
    · simp only [advance_unpackSize]
      unfold remaining at hn
      omega
    · exact iff_of_false nofun hfew
    · exact nofun

theorem Inv.unpackFields (h : cunp.Inv) (tys : List CFieldType) :
    (cunp.unpackFields tys).2.Inv := by
  induction tys generalizing cunp with
  | nil => exact h
  | cons ty tys ih => exact ih (h.unpackField ty)

/-- In every run the cursor stays in the message and a call fails exactly if there are too
few bytes. -/
theorem unpackFields_bounded {length : Nat} (hlen : length < 2 ^ 32) (msg : Block UInt8)
    (tys : List CFieldType) (ty : CFieldType) :
    let cunp := ((unpackInit length msg).unpackFields tys).2
    cunp.unpackSize ≤ cunp.size ∧ ((cunp.unpackField ty).1 = none ↔ cunp.TooFew ty) := by
  have hinv : (unpackInit length msg).Inv := ⟨Nat.zero_le _, hlen⟩
  have hrun := hinv.unpackFields tys
  refine ⟨hrun.cursor, ?_⟩
  obtain ⟨hfew, -, heq⟩ | ⟨hfew, -, heq⟩ | ⟨hfew, -, f, n, -, heq⟩ := hrun.unpackField_cases ty
  · simp only [heq, hfew]
  · simp only [heq, hfew]
  · simp only [heq, hfew, reduceCtorEq]

end Cunpack

/-- The calls of a run are bounded and atomic if and only if none of them meets a string whose
text is cut off. -/
theorem cunpack_atomic_iff {length : Nat} (hlen : length < 2 ^ 32) (msg : Block UInt8)
    (calls : List CFieldType) :
    (∀ pre ty post, calls = pre ++ ty :: post →
      ((Cunpack.unpackInit length msg).unpackFields pre).2.Atomic ty) ↔
    ∀ pre ty post, calls = pre ++ ty :: post →
      ¬ ((Cunpack.unpackInit length msg).unpackFields pre).2.CutText ty := by
  have hinv : (Cunpack.unpackInit length msg).Inv := ⟨Nat.zero_le _, hlen⟩
  have hcall : ∀ pre ty, ((Cunpack.unpackInit length msg).unpackFields pre).2.Atomic ty ↔
      ¬ ((Cunpack.unpackInit length msg).unpackFields pre).2.CutText ty :=
    fun pre ty => (hinv.unpackFields pre).atomic_iff ty
  simp only [hcall]

/-- The length 5 and one byte of text. -/
def cutMessage : Block UInt8 := { addr := 0, size := 3, data := fun i => if i = 0 then 5 else 0 }

/-- An integer does not fit, and the byte behind it is read at the same place. -/
theorem cunpack_atomic_iff_short :
    ((Cunpack.unpackInit 3 cutMessage).unpackFields [.uint]).2.Atomic .uchar := by
  refine (cunpack_atomic_iff (by decide) cutMessage [.uint, .uchar]).mpr ?_ [.uint] .uchar [] rfl
  intro pre ty post heq hcut
  have hmem : ty ∈ [CFieldType.uint, .uchar] := by
    rw [heq]
    exact List.mem_append_right _ List.mem_cons_self
  rw [hcut.string] at hmem
  exact absurd hmem (by simp)

/-- The cursor moves by two although the call fails. -/
theorem cunpack_not_atomic : ¬ ∀ (length : Nat) (msg : Block UInt8) (calls : List CFieldType),
    length < 2 ^ 32 → ∀ pre ty post, calls = pre ++ ty :: post →
      ((Cunpack.unpackInit length msg).unpackFields pre).2.Atomic ty := by
  intro h
  have hstays := (h 3 cutMessage [.string] (by decide) [] .string [] rfl).stays
  exact absurd (hstays (by decide)) (by decide)

end RandServer
