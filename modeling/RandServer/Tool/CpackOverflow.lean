import Mathlib.Algebra.BigOperators.Intervals
import RandServer.Tool.CpackRoundTrip

/-!
# Packing after an overflow

A call without room negates the unsigned counter. If it was `S`, the calls after it find
`2 ^ 32 - S` and `S` in turn, and zero stays zero. They all fail if none of these leaves room
for its first piece (`cpack_sticky_iff`). A string may find room for its length but not for
its text. It still writes nothing if the length is in the message already, and moves the
counters after it by two.
-/

namespace RandServer

open CField

namespace Cpack

variable {cp : Cpack} {f : CField} {fields : List CField} {n : Nat} {x : Int}

theorem negate_size : cp.negate.size = u32 (cp.size * (2 ^ 32 - 1)) := rfl

@[simp] theorem negate_data : cp.negate.data = cp.data := by rw [negate]

@[simp] theorem negate_maxSize : cp.negate.maxSize = cp.maxSize := by rw [negate]

@[simp] theorem packInit_size (cp : Cpack) (maxSize : Nat) : (cp.packInit maxSize).size = 0 := rfl

@[simp] theorem packInit_maxSize (cp : Cpack) (maxSize : Nat) :
    (cp.packInit maxSize).maxSize = maxSize := rfl

/-- The message after the length of a string. -/
def skipLength (cp : Cpack) : Cpack := { cp with size := u32 (cp.size + 2) }

@[simp] theorem skipLength_maxSize : cp.skipLength.maxSize = cp.maxSize := rfl

@[simp] theorem skipLength_data : cp.skipLength.data = cp.data := rfl

/-- Every call returns -1 and leaves the data as it is. -/
def Quiet : Cpack → List CField → Prop
  | _, [] => True
  | cp, f :: fields =>
      (cp.packField f).1 = -1 ∧ (cp.packField f).2.data = cp.data ∧ (cp.packField f).2.Quiet fields

/-- The calls that follow one that returns -1 do the same, and write nothing. -/
def Sticky (cp : Cpack) (calls : List CField) : Prop :=
  ∀ pre f post, calls = pre ++ f :: post → ((cp.packFields pre).2.packField f).1 = -1 →
    ((cp.packFields pre).2.packField f).2.Quiet post

/-! ## Counters -/

/-- What the strings add to the counter that write their lengths again: 2 after an even number
of calls, and -2 after an odd number. -/
def drift (again : Nat → Bool) (i : Nat) : Int :=
  ∑ j ∈ Finset.range i, if again j then if j % 2 = 0 then 2 else -2 else 0

/-- The counter before call `i`, if it is `start` before the first one and each call negates
it. -/
def counterAt (start : Int) (again : Nat → Bool) (i : Nat) : Nat :=
  ((if i % 2 = 0 then start + drift again i else -(start + drift again i)) % 2 ^ 32).toNat

/-- A field does not fit behind the counter `c`. Either there is no room for its first piece, or
it is a string without room for its text, and its length is `again` what the data holds. -/
def Rejected (maxSize c : Nat) (data : Block UInt8) (f : CField) (again : Bool) : Prop :=
  if again then ∃ s, f = .string s ∧ c + 2 ≤ maxSize ∧ maxSize < c + 2 + s.data.length ∧
    data.read c 2 = CObject.bytes s.length
  else maxSize < c + f.type.width

/-- None of the calls finds room, from the counter `start` on. -/
def Blocked (maxSize : Nat) (start : Int) (data : Block UInt8) (calls : List CField) : Prop :=
  ∃ again : Nat → Bool, ∀ i f, calls[i]? = some f →
    Rejected maxSize (counterAt start again i) data f (again i)

/-- Without such strings the counter alternates. -/
theorem counterAt_alternates {S : Nat} (hS : S < 2 ^ 32) (i : Nat) :
    counterAt (-S) (fun _ => false) i = if i % 2 = 0 then (2 ^ 32 - S) % 2 ^ 32 else S := by
  have hdrift : drift (fun _ => false) i = 0 := Finset.sum_const_zero
  rw [counterAt, hdrift]
  split_ifs
  · omega
  · omega

theorem drift_succ (again : Nat → Bool) (i : Nat) : drift again (i + 1) =
    (if again 0 then 2 else 0) - drift (fun j => again (j + 1)) i := by
  have hflip : ∀ j, (if again (j + 1) then if (j + 1) % 2 = 0 then (2 : Int) else -2 else 0) =
      -(if again (j + 1) then if j % 2 = 0 then 2 else -2 else 0) := by
    intro j
    split_ifs
    all_goals omega
  rw [drift, Finset.sum_range_succ', Finset.sum_congr rfl fun j _ => hflip j,
    Finset.sum_neg_distrib, drift, sub_eq_neg_add]
  rfl

theorem counterAt_succ (again : Nat → Bool) (i : Nat) : counterAt x again (i + 1) =
    counterAt (-(x + if again 0 then 2 else 0)) (fun j => again (j + 1)) i := by
  rw [counterAt, counterAt, drift_succ]
  by_cases hi : i % 2 = 0
  · rw [if_neg (by omega), if_pos hi]
    congr 2
    ring
  · rw [if_pos (by omega), if_neg hi]
    congr 2
    ring

theorem counterAt_zero (x : Int) (again : Nat → Bool) :
    counterAt x again 0 = (x % 2 ^ 32).toNat := by
  rw [counterAt, if_pos rfl, drift, Finset.sum_range_zero, add_zero]

theorem blocked_nil (maxSize : Nat) (x : Int) (data : Block UInt8) : Blocked maxSize x data [] :=
  ⟨fun _ => false, fun i f hf => by rw [List.getElem?_nil] at hf; cases hf⟩

/-- The first call decides how the counters go on. -/
theorem blocked_cons {maxSize : Nat} {data : Block UInt8} :
    Blocked maxSize x data (f :: fields) ↔
      Rejected maxSize (x % 2 ^ 32).toNat data f false ∧ Blocked maxSize (-x) data fields ∨
        Rejected maxSize (x % 2 ^ 32).toNat data f true ∧
          Blocked maxSize (-(x + 2)) data fields := by
  constructor
  · rintro ⟨again, hall⟩
    have hfirst := hall 0 f rfl
    have hrest : Blocked maxSize (-(x + if again 0 then 2 else 0)) data fields := by
      refine ⟨fun j => again (j + 1), fun i g hg => ?_⟩
      have hnext := hall (i + 1) g (by rw [List.getElem?_cons_succ]; exact hg)
      rwa [counterAt_succ] at hnext
    rw [counterAt_zero] at hfirst
    cases hagain : again 0 with
    | false =>
        rw [hagain] at hfirst hrest
        rw [if_neg Bool.false_ne_true, add_zero] at hrest
        exact .inl ⟨hfirst, hrest⟩
    | true =>
        rw [hagain] at hfirst hrest
        rw [if_pos rfl] at hrest
        exact .inr ⟨hfirst, hrest⟩
  · have hjoin : ∀ first, Rejected maxSize (x % 2 ^ 32).toNat data f first →
        Blocked maxSize (-(x + if first then 2 else 0)) data fields →
        Blocked maxSize x data (f :: fields) := by
      rintro first hfirst ⟨again, hall⟩
      refine ⟨fun i => if i = 0 then first else again (i - 1), fun i g hg => ?_⟩
      cases i with
      | zero =>
          obtain rfl := Option.some.inj hg
          rw [counterAt_zero]
          exact hfirst
      | succ i =>
          rw [List.getElem?_cons_succ] at hg
          rw [counterAt_succ]
          exact hall i g hg
    rintro (⟨hfirst, hrest⟩ | ⟨hfirst, hrest⟩)
    · exact hjoin false hfirst (by rw [if_neg Bool.false_ne_true, add_zero]; exact hrest)
    · exact hjoin true hfirst hrest

/-! ## Calls after an overflow -/

theorem negate_counter (h : cp.size = (x % 2 ^ 32).toNat) :
    cp.negate.size = (-x % 2 ^ 32).toNat := by
  rw [negate_size, u32, h]
  omega

theorem skipLength_counter (h : cp.size = (x % 2 ^ 32).toNat) :
    cp.skipLength.size = ((x + 2) % 2 ^ 32).toNat := by
  show (cp.size + 2) % 2 ^ 32 = _
  omega

theorem full_iff (hsize : cp.size < 2 ^ 32) (hn : n < 2 ^ 63) :
    cp.Full n ↔ cp.maxSize < cp.size + n := by
  rw [Full, Nat.mod_eq_of_lt (by omega)]

theorem quiet_cons_plain (h : f.type ≠ .string) :
    cp.Quiet (f :: fields) ↔ cp.Full f.type.width ∧ cp.negate.Quiet fields := by
  have hwidth := CField.width_type h
  simp only [Quiet, packField_plain h]
  by_cases hfull : cp.Full f.bytes.length
  · simp only [packStruct_full hfull, hwidth, negate_data, hfull, true_and]
  · simp only [packStruct_room hfull, hwidth, hfull, false_and, iff_false]
    exact fun hq => absurd hq.1 (by decide)

/-- A string whose length is written fails quietly if that changes nothing. -/
theorem quiet_cons_text {s : CString} (hfull : ¬ cp.Full 2) : cp.Quiet (.string s :: fields) ↔
    (cp.skipLength.Full s.data.length ∧ cp.data.read cp.size 2 = CObject.bytes s.length) ∧
      cp.skipLength.negate.Quiet fields := by
  have hlen : (CObject.bytes s.length).length = 2 := CObject.bytes_length _
  have hhead : cp.packStruct (CObject.bytes s.length) =
      (0, { cp.skipLength with data := cp.data.write cp.size (CObject.bytes s.length) }) := by
    have htwo : u32 2 = 2 := rfl
    rw [packStruct_room (hlen.symm ▸ hfull), hlen, htwo]
    rfl
  have hsame : cp.data.write cp.size (CObject.bytes s.length) = cp.data ↔
      cp.data.read cp.size 2 = CObject.bytes s.length := by
    rw [← hlen]
    exact Block.write_eq_self_iff
  have hkeep : ∀ d, { cp.skipLength with data := d }.Full s.data.length ↔
      cp.skipLength.Full s.data.length := fun _ => Iff.rfl
  simp only [Quiet, packField, packString, hhead, if_true]
  by_cases htail : cp.skipLength.Full s.data.length
  · rw [packStruct_full ((hkeep _).mpr htail)]
    simp only [negate_data, htail, true_and, hsame]
    refine and_congr_right fun hread => ?_
    rw [hsame.mpr hread]
    rfl
  · rw [packStruct_room (fun h => htail ((hkeep _).mp h))]
    simp only [htail, false_and, iff_false]
    exact fun hq => absurd hq.1 (by decide)

theorem quiet_cons_string {s : CString} : cp.Quiet (.string s :: fields) ↔
    cp.Full 2 ∧ cp.negate.Quiet fields ∨
    (¬ cp.Full 2 ∧ cp.skipLength.Full s.data.length ∧
      cp.data.read cp.size 2 = CObject.bytes s.length) ∧ cp.skipLength.negate.Quiet fields := by
  have hlen : (CObject.bytes s.length).length = 2 := CObject.bytes_length _
  by_cases hfull : cp.Full 2
  · simp only [Quiet, packField, packString, packStruct_full (hlen.symm ▸ hfull)]
    simp [hfull]
  · rw [quiet_cons_text hfull]
    simp only [hfull, false_and, false_or, not_false_eq_true, true_and]

/-- The calls fail without a write if and only if none finds room. -/
theorem quiet_iff (hsize : cp.size = (x % 2 ^ 32).toNat) (hmax : cp.maxSize < 2 ^ 32)
    (hlen : ∀ f ∈ fields, f.bytes.length < 2 ^ 63) :
    cp.Quiet fields ↔ Blocked cp.maxSize x cp.data fields := by
  induction fields generalizing cp x with
  | nil => exact iff_of_true trivial (blocked_nil _ _ _)
  | cons f fields ih =>
      have hlt : cp.size < 2 ^ 32 := by omega
      obtain ⟨hf, hrest⟩ := List.forall_mem_cons.mp hlen
      have hneg := @ih cp.negate (-x) (negate_counter hsize) (by rwa [negate_maxSize]) hrest
      rw [negate_maxSize, negate_data] at hneg
      rw [blocked_cons, ← hsize]
      by_cases hty : f.type = .string
      · obtain ⟨s, rfl⟩ := CField.eq_string_of_type hty
        have hskip := @ih cp.skipLength.negate (-(x + 2))
          (negate_counter (skipLength_counter hsize)) (by rwa [negate_maxSize]) hrest
        rw [negate_maxSize, negate_data, skipLength_maxSize, skipLength_data] at hskip
        have hbytes := string_bytes_length s
        have hlength : Rejected cp.maxSize cp.size cp.data (.string s) false ↔ cp.Full 2 := by
          rw [full_iff hlt (by decide)]
          rfl
        have htext : Rejected cp.maxSize cp.size cp.data (.string s) true ↔
            ¬ cp.Full 2 ∧ cp.skipLength.Full s.data.length ∧
              cp.data.read cp.size 2 = CObject.bytes s.length := by
          rw [full_iff hlt (by decide), Nat.not_lt]
          simp only [Rejected, if_true, CField.string.injEq, exists_eq_left']
          refine and_congr_right fun hroom => ?_
          have hnext : cp.skipLength.size = cp.size + 2 := u32_of_lt (by omega)
          rw [full_iff (by omega) (by omega), hnext, skipLength_maxSize]
        rw [quiet_cons_string, hneg, hskip, hlength, htext]
      · have hwidth := width_type hty
        have hplain : ¬ Rejected cp.maxSize cp.size cp.data f true := by
          rw [Rejected, if_pos rfl]
          rintro ⟨s, rfl, -⟩
          exact hty rfl
        have hlength : Rejected cp.maxSize cp.size cp.data f false ↔ cp.Full f.type.width := by
          rw [full_iff hlt (by rwa [hwidth])]
          rfl
        rw [quiet_cons_plain hty, hneg, hlength, or_iff_left fun h => hplain h.1]

/-! ## The first failure -/

theorem packStruct_fits {value : List UInt8} (hmax : cp.maxSize < 2 ^ 32)
    (hfit : cp.size + value.length ≤ cp.maxSize) : cp.packStruct value = (0, cp.append value) := by
  have hroom : ¬ cp.Full value.length := by
    rw [full_iff (by omega) (by omega)]
    exact Nat.not_lt.mpr hfit
  have hok := packStruct_ok_iff.mpr hroom
  exact Prod.ext hok (packStruct_append (by omega) hmax (by omega) hok).1

theorem packField_fits (hmax : cp.maxSize < 2 ^ 32)
    (hfit : cp.size + f.bytes.length ≤ cp.maxSize) : cp.packField f = (0, cp.append f.bytes) := by
  by_cases hty : f.type = .string
  · obtain ⟨s, rfl⟩ := eq_string_of_type hty
    have htwo : (CObject.bytes s.length).length = 2 := CObject.bytes_length _
    rw [string_bytes_length] at hfit
    rw [packField, packString, packStruct_fits hmax (by omega), if_pos rfl,
      @packStruct_fits (cp.append _) _ hmax (by simp only [append_size, append_maxSize]; omega),
      append_append]
    rfl
  · rw [packField_plain hty]
    exact packStruct_fits hmax hfit

theorem packFields_fit (hmax : cp.maxSize < 2 ^ 32)
    (hfit : cp.size + (encode fields).length ≤ cp.maxSize) :
    (cp.packFields fields).2 = cp.append (encode fields) := by
  induction fields generalizing cp with
  | nil => exact append_nil.symm
  | cons f fields ih =>
      rw [encode_cons, List.length_append] at hfit
      rw [packFields, packField_fits hmax (by omega)]
      have hrest := @ih (cp.append f.bytes) hmax (by simp only [append_size, append_maxSize]; omega)
      rw [hrest, append_append, encode_cons]

/-- What a call writes that fails behind `used` bytes: a string may have written its length. -/
def started (maxSize used : Nat) : CField → List UInt8
  | .string s => if used + 2 ≤ maxSize then CObject.bytes s.length else []
  | _ => []

/-- What has been written when `f` is the first call that fails. -/
def written (maxSize : Nat) (pre : List CField) (f : CField) : List UInt8 :=
  encode pre ++ started maxSize (encode pre).length f

theorem packField_refused (hmax : cp.maxSize < 2 ^ 32) (hsize : cp.size ≤ cp.maxSize)
    (hlen : f.bytes.length < 2 ^ 63) (hover : cp.maxSize < cp.size + f.bytes.length) :
    cp.packField f = (-1, (cp.append (started cp.maxSize cp.size f)).negate) := by
  by_cases hty : f.type = .string
  · obtain ⟨s, rfl⟩ := eq_string_of_type hty
    have htwo : (CObject.bytes s.length).length = 2 := CObject.bytes_length _
    rw [string_bytes_length] at hlen hover
    rw [packField, packString, started]
    by_cases hroom : cp.size + 2 ≤ cp.maxSize
    · have hfull : (cp.append (CObject.bytes s.length)).Full s.data.length := by
        rw [full_iff (by rw [append_size]; omega) (by omega), append_size, append_maxSize]
        omega
      rw [packStruct_fits hmax (by omega), if_pos rfl, packStruct_full hfull, if_pos hroom]
    · have hfull : cp.Full (CObject.bytes s.length).length := by
        rw [full_iff (by omega) (by omega)]
        omega
      rw [packStruct_full hfull, if_neg (Int.neg_ne_zero.mpr Int.one_ne_zero), if_neg hroom,
        append_nil]
  · have hnone : started cp.maxSize cp.size f = [] := by
      cases f with
      | string s => exact absurd rfl hty
      | _ => rfl
    rw [packField_plain hty, hnone, append_nil]
    exact packStruct_full ((full_iff (by omega) hlen).mpr hover)

/-- The first failure leaves the negated counter. -/
theorem quiet_after_iff {maxSize : Nat} (hmax : maxSize < 2 ^ 32) {pre post : List CField}
    (hlen : ∀ g ∈ f :: post, g.bytes.length < 2 ^ 63) (hfit : (encode pre).length ≤ maxSize)
    (hover : maxSize < (encode pre).length + f.bytes.length) :
    (((cp.packInit maxSize).packFields pre).2.packField f).1 = -1 ∧
      ((((cp.packInit maxSize).packFields pre).2.packField f).2.Quiet post ↔
        Blocked maxSize (-(written maxSize pre f).length) (cp.data.write 0 (written maxSize pre f))
          post) := by
  obtain ⟨hf, hlen⟩ := List.forall_mem_cons.mp hlen
  have hpre : ((cp.packInit maxSize).packFields pre).2 =
      (cp.packInit maxSize).append (encode pre) :=
    packFields_fit hmax (by rw [packInit_size, packInit_maxSize]; omega)
  have hused : ((cp.packInit maxSize).append (encode pre)).size = (encode pre).length :=
    Nat.zero_add _
  have hcall := @packField_refused ((cp.packInit maxSize).append (encode pre)) f hmax
    (by rw [hused]; exact hfit) hf (by rw [hused]; exact hover)
  rw [append_append, hused] at hcall
  rw [hpre, hcall]
  refine ⟨rfl, ?_⟩
  have hstop : ((cp.packInit maxSize).append (written maxSize pre f)).size =
      (written maxSize pre f).length := Nat.zero_add _
  have hword : (written maxSize pre f).length < 2 ^ 32 := by
    rw [written, List.length_append]
    cases f with
    | string s =>
        rw [started]
        split_ifs with hroom
        · have htwo : (CObject.bytes s.length).length = 2 := CObject.bytes_length _
          omega
        · rw [List.length_nil]
          omega
    | _ =>
        rw [started, List.length_nil]
        · omega
        all_goals exact nofun
  have hquiet := @quiet_iff ((cp.packInit maxSize).append (written maxSize pre f)).negate post
    (-((written maxSize pre f).length : Int))
    (negate_counter (by rw [hstop]; omega)) (by rwa [negate_maxSize]) hlen
  rw [negate_maxSize, negate_data] at hquiet
  exact hquiet

theorem Quiet.suffix {pre post : List CField} (h : cp.Quiet (pre ++ f :: post)) :
    ((cp.packFields pre).2.packField f).2.Quiet post := by
  induction pre generalizing cp with
  | nil => exact h.2.2
  | cons g pre ih => exact ih h.2.2

theorem packFields_append_cons {pre pre' : List CField} :
    (cp.packFields (pre ++ f :: pre')).2 =
      (((cp.packFields pre).2.packField f).2.packFields pre').2 := by
  induction pre generalizing cp with
  | nil => rfl
  | cons g pre ih => exact ih

/-- All calls fit, or there is a first one that does not. -/
theorem fit_or_first {maxSize : Nat} (used : Nat) (hused : used ≤ maxSize) (fields : List CField) :
    used + (encode fields).length ≤ maxSize ∨ ∃ pre f post, fields = pre ++ f :: post ∧
      used + (encode pre).length ≤ maxSize ∧
      maxSize < used + (encode pre).length + f.bytes.length := by
  induction fields generalizing used with
  | nil => exact .inl hused
  | cons f fields ih =>
      rw [encode_cons, List.length_append, ← Nat.add_assoc]
      by_cases hf : used + f.bytes.length ≤ maxSize
      · refine (ih (used + f.bytes.length) hf).imp_right ?_
        rintro ⟨pre, g, post, rfl, hfit, hover⟩
        refine ⟨f :: pre, g, post, rfl, ?_, ?_⟩
        · rwa [encode_cons, List.length_append, ← Nat.add_assoc]
        · rwa [encode_cons, List.length_append, ← Nat.add_assoc]
      · exact .inr ⟨[], f, fields, rfl, hused, Nat.lt_of_not_le hf⟩

end Cpack

open Cpack

/-- A failed call is followed by failed calls only, and nothing is written, if and only if
there is no room for any of them behind the counters `2 ^ 32 - S` and `S`, where `S` is what
had been written at the first failure. -/
theorem cpack_sticky_iff (cp : Cpack) {maxSize : Nat} (hmax : maxSize < 2 ^ 32)
    (calls : List CField) (hlen : ∀ f ∈ calls, f.bytes.length < 2 ^ 63) :
    (cp.packInit maxSize).Sticky calls ↔ ∀ pre f post, calls = pre ++ f :: post →
      (encode pre).length ≤ maxSize → maxSize < (encode pre).length + f.bytes.length →
        Blocked maxSize (-(written maxSize pre f).length) (cp.data.write 0 (written maxSize pre f))
          post := by
  constructor
  · rintro hsticky pre f post rfl hfit hover
    obtain ⟨hfails, hiff⟩ := @quiet_after_iff cp f maxSize hmax pre post
      (fun g hg => hlen g (List.mem_append_right _ hg)) hfit hover
    exact hiff.mp (hsticky pre f post rfl hfails)
  · rintro hblocked pre f post rfl hfails
    obtain hfit | ⟨pre, g, pre', rfl, hfit, hover⟩ := fit_or_first 0 (Nat.zero_le maxSize) pre
    · rw [Nat.zero_add] at hfit
      have hover : maxSize < (encode pre).length + f.bytes.length := by
        by_contra hroom
        rw [packFields_fit hmax (by rw [packInit_size, packInit_maxSize]; omega),
          packField_fits hmax (by
            rw [append_size, append_maxSize, packInit_size, packInit_maxSize]
            omega)] at hfails
        cases hfails
      exact (quiet_after_iff hmax (fun g hg => hlen g (List.mem_append_right _ hg))
        hfit hover).2.mpr (hblocked pre f post rfl hfit hover)
    · -- an earlier call has failed already
      rw [Nat.zero_add] at hfit hover
      have hsplit : pre ++ g :: pre' ++ f :: post = pre ++ g :: (pre' ++ f :: post) := by simp
      rw [hsplit] at hlen
      have hquiet := (@quiet_after_iff cp g maxSize hmax pre (pre' ++ f :: post)
        (fun g hg => hlen g (List.mem_append_right _ hg)) hfit hover).2.mpr
        (hblocked pre g (pre' ++ f :: post) hsplit hfit hover)
      rw [packFields_append_cons]
      exact hquiet.suffix

/-- No integer fits into ten bytes behind eight, nor behind `2 ^ 32 - 8`. -/
theorem cpack_sticky_iff_ten :
    (Cpack.blank.packInit 10).Sticky [.ll 0, .int 1, .int 2, .int 3] := by
  refine (cpack_sticky_iff Cpack.blank (by decide) _ (by decide)).mpr
    fun pre f post heq hfit hover => ?_
  rcases pre with _ | ⟨a, _ | ⟨b, pre⟩⟩
  · obtain ⟨rfl, -⟩ := List.cons.inj heq
    exact absurd hover (by decide)
  · obtain ⟨rfl, htail⟩ := List.cons.inj heq
    obtain ⟨rfl, rfl⟩ := List.cons.inj htail
    refine ⟨fun _ => false, fun i g hg => ?_⟩
    have hlen : (written 10 [.ll 0] (.int 1)).length = 8 := by decide
    rw [hlen, counterAt_alternates (by decide), Rejected, if_neg Bool.false_ne_true]
    rcases i with _ | _ | i
    · obtain rfl := Option.some.inj hg
      decide
    · obtain rfl := Option.some.inj hg
      decide
    · cases hg
  · obtain ⟨rfl, htail⟩ := List.cons.inj heq
    obtain ⟨rfl, -⟩ := List.cons.inj htail
    rw [encode_cons, encode_cons, List.length_append, List.length_append] at hfit
    have height : (CField.ll 0).bytes.length = 8 := by decide
    have hfour : (CField.int 1).bytes.length = 4 := by decide
    omega

/-- No room for two bytes in a message of one byte, but still room for one. -/
theorem cpack_not_sticky : ¬ ∀ (cp : Cpack) (maxSize : Nat) (calls : List CField),
    maxSize < 2 ^ 32 → (cp.packInit maxSize).Sticky calls := by
  intro h
  have hquiet := h Cpack.blank 1 [.short 0, .char 0] (by decide) [] (.short 0) [.char 0] rfl
    (by decide)
  exact absurd hquiet.1 (by decide)

end RandServer
