import Mathlib.Data.List.Basic

/-!
# Texts and patterns of Lua

`string.lower` and the matches of three patterns in the "C" locale, on texts as lists of
bytes. `findWord` is the match of `%w+`, `findArg` the one of `%(%w+%)`, and a plain text is
found where it is an infix.
-/

namespace LuaText

/-- `string.lower` of one byte. -/
def lowerByte (b : UInt8) : UInt8 :=
  if 65 ≤ b.toNat ∧ b.toNat ≤ 90 then UInt8.ofNat (b.toNat + 32) else b

/-- `%w`. -/
def isAlnum (b : UInt8) : Bool :=
  decide ((48 ≤ b.toNat ∧ b.toNat ≤ 57) ∨ (65 ≤ b.toNat ∧ b.toNat ≤ 90) ∨
    (97 ≤ b.toNat ∧ b.toNat ≤ 122))

def lower (t : List UInt8) : List UInt8 := t.map lowerByte

/-- The first run of letters and digits, and what stands behind it. -/
def findWord (t : List UInt8) : Option (List UInt8 × List UInt8) :=
  let rest := t.dropWhile fun b => !isAlnum b
  if rest = [] then none else some (rest.takeWhile isAlnum, rest.dropWhile isAlnum)

def openParen : UInt8 := 40

def closeParen : UInt8 := 41

/-- The first run of letters and digits that is all there is between parentheses. -/
def findArg : List UInt8 → Option (List UInt8)
  | [] => none
  | b :: t =>
      if b = openParen ∧ t.takeWhile isAlnum ≠ [] ∧
          (t.dropWhile isAlnum).head? = some closeParen then
        some (t.takeWhile isAlnum)
      else
        findArg t

/-- From the first opening parenthesis up to the last closing one behind it. -/
def arguments (t : List UInt8) : List UInt8 :=
  ((t.dropWhile fun b => b != openParen).reverse.dropWhile fun b => b != closeParen).reverse

theorem lowerByte_toNat (b : UInt8) : (lowerByte b).toNat =
    if 65 ≤ b.toNat ∧ b.toNat ≤ 90 then b.toNat + 32 else b.toNat := by
  rw [lowerByte]
  split_ifs with h
  · rw [UInt8.toNat_ofNat', Nat.mod_eq_of_lt (by omega)]
  · rfl

@[simp] theorem lowerByte_lowerByte (b : UInt8) : lowerByte (lowerByte b) = lowerByte b := by
  apply UInt8.toNat_inj.mp
  rw [lowerByte_toNat, lowerByte_toNat]
  split_ifs <;> omega

@[simp] theorem isAlnum_lowerByte (b : UInt8) : isAlnum (lowerByte b) = isAlnum b := by
  simp only [isAlnum, lowerByte_toNat, decide_eq_decide]
  split_ifs <;> omega

@[simp] theorem lower_lower (t : List UInt8) : lower (lower t) = lower t := by
  simp [lower]

@[simp] theorem lower_eq_nil {t : List UInt8} : lower t = [] ↔ t = [] := List.map_eq_nil_iff

/-- Matching a lowered text finds the lowered match. -/
theorem findWord_lower (t : List UInt8) :
    findWord (lower t) = (findWord t).map (Prod.map lower lower) := by
  have hdrop : (lower t).dropWhile (fun b => !isAlnum b) =
      lower (t.dropWhile fun b => !isAlnum b) := by
    rw [lower, lower, List.dropWhile_map]
    simp only [Function.comp_def, isAlnum_lowerByte]
  simp only [findWord, hdrop]
  generalize t.dropWhile (fun b => !isAlnum b) = rest
  by_cases hnil : rest = []
  · simp [hnil, lower]
  · have htake : (lower rest).takeWhile isAlnum = lower (rest.takeWhile isAlnum) := by
      rw [lower, lower, List.takeWhile_map]
      simp only [Function.comp_def, isAlnum_lowerByte]
    have hbehind : (lower rest).dropWhile isAlnum = lower (rest.dropWhile isAlnum) := by
      rw [lower, lower, List.dropWhile_map]
      simp only [Function.comp_def, isAlnum_lowerByte]
    rw [if_neg hnil, if_neg (mt lower_eq_nil.mp hnil), htake, hbehind]
    rfl

/-- The word of a lowered text is lowered. -/
theorem lower_findWord {t word behind : List UInt8} (h : findWord (lower t) = some (word, behind)) :
    lower word = word ∧ lower behind = behind := by
  rw [findWord_lower] at h
  obtain ⟨found, -, hfound⟩ := Option.map_eq_some_iff.mp h
  cases hfound
  exact ⟨lower_lower _, lower_lower _⟩

end LuaText
