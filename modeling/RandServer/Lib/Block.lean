import Mathlib.Data.List.Basic

/-!
# Heap blocks with byte-addressed contents

A block carries its address, its allocated size, and its contents. Contents are a
total function of the offset: what lies past the allocated size is never read by a
program that stays inside its blocks, so no bound is checked on access here.

`write` is a copy into the block and `read` a copy out of it. The lemmas below
give the contents of every offset after a write, which is all that representation
predicates over blocks need.
-/

universe u

structure Block (α : Type u) where
  addr : Nat
  size : Nat
  data : Nat → α

namespace Block

variable {α : Type u}

/-- Copy `xs` into the block, starting at offset `off`. -/
def write (b : Block α) (off : Nat) (xs : List α) : Block α :=
  { b with data := fun i => if off ≤ i then (xs[i - off]?).getD (b.data i) else b.data i }

/-- Copy `len` cells out of the block, starting at offset `off`. -/
def read (b : Block α) (off len : Nat) : List α :=
  (List.range len).map fun i => b.data (off + i)

@[simp] theorem write_addr (b : Block α) (off : Nat) (xs : List α) :
    (b.write off xs).addr = b.addr := rfl

@[simp] theorem write_size (b : Block α) (off : Nat) (xs : List α) :
    (b.write off xs).size = b.size := rfl

theorem write_data_before (b : Block α) {off i : Nat} (xs : List α) (hi : i < off) :
    (b.write off xs).data i = b.data i := by
  simp [write, Nat.not_le.mpr hi]

theorem write_data_after (b : Block α) {off i : Nat} (xs : List α)
    (hi : off + xs.length ≤ i) : (b.write off xs).data i = b.data i := by
  have hout : xs.length ≤ i - off := by omega
  simp [write, List.getElem?_eq_none hout]

theorem write_data_at (b : Block α) (off : Nat) {xs : List α} {i : Nat} {x : α}
    (hx : xs[i]? = some x) : (b.write off xs).data (off + i) = x := by
  simp [write, hx]

@[simp] theorem write_nil (b : Block α) (off : Nat) : b.write off [] = b := by
  simp [write]

/-- Two writes behind each other. -/
theorem write_write (b : Block α) (off : Nat) (xs ys : List α) :
    (b.write off xs).write (off + xs.length) ys = b.write off (xs ++ ys) := by
  have hdata : ∀ i, ((b.write off xs).write (off + xs.length) ys).data i =
      (b.write off (xs ++ ys)).data i := by
    intro i
    by_cases hpast : off + xs.length ≤ i
    · have hat : i - off - xs.length = i - (off + xs.length) := by omega
      simp only [write, if_pos hpast, if_pos (show off ≤ i by omega), hat,
        List.getElem?_append_right (show xs.length ≤ i - off by omega),
        List.getElem?_eq_none (show xs.length ≤ i - off by omega), Option.getD_none]
    · rw [write_data_before _ _ (Nat.lt_of_not_le hpast)]
      by_cases hin : off ≤ i
      · simp only [write, if_pos hin, List.getElem?_append_left (show i - off < xs.length by omega)]
      · rw [write_data_before _ _ (by omega), write_data_before _ _ (by omega)]
  exact congrArg (fun data => (⟨b.addr, b.size, data⟩ : Block α)) (funext hdata)

@[simp] theorem read_length (b : Block α) (off len : Nat) :
    (b.read off len).length = len := by
  simp [read]

theorem read_getElem? (b : Block α) {off len i : Nat} (hi : i < len) :
    (b.read off len)[i]? = some (b.data (off + i)) := by
  simp [read, hi]

theorem read_add (b : Block α) (off m n : Nat) :
    b.read off (m + n) = b.read off m ++ b.read (off + m) n := by
  simp [read, List.range_add, Nat.add_assoc, Function.comp_def]

/-- Reading is determined by the cells it covers. -/
theorem read_eq_of_data {b : Block α} {off : Nat} {xs : List α}
    (h : ∀ i x, xs[i]? = some x → b.data (off + i) = x) : b.read off xs.length = xs := by
  apply List.ext_getElem?
  intro i
  by_cases hi : i < xs.length
  · rw [read_getElem? b hi, h i xs[i] (List.getElem?_eq_getElem hi),
      List.getElem?_eq_getElem hi]
  · rw [List.getElem?_eq_none (by simpa using hi), List.getElem?_eq_none (by omega)]

theorem read_write_self (b : Block α) (off : Nat) (xs : List α) :
    (b.write off xs).read off xs.length = xs :=
  read_eq_of_data fun _ _ hx => b.write_data_at off hx

/-- A write changes nothing where the cells hold the values already. -/
theorem write_eq_self_iff {b : Block α} {off : Nat} {xs : List α} :
    b.write off xs = b ↔ b.read off xs.length = xs := by
  constructor
  · intro h
    have hread := b.read_write_self off xs
    rwa [h] at hread
  · intro h
    have hdata : ∀ i, (b.write off xs).data i = b.data i := by
      intro i
      by_cases hin : off ≤ i ∧ i < off + xs.length
      · obtain ⟨k, rfl⟩ := Nat.exists_eq_add_of_le hin.1
        have hget := @read_getElem? α b off xs.length k (by omega)
        rw [h] at hget
        exact b.write_data_at off hget
      · by_cases hbefore : i < off
        · exact b.write_data_before xs hbefore
        · exact b.write_data_after xs (by omega)
    exact congrArg (fun data => (⟨b.addr, b.size, data⟩ : Block α)) (funext hdata)

/-- A write past a region leaves it unchanged. -/
theorem read_write_before (b : Block α) {off len start : Nat} (xs : List α)
    (h : start + len ≤ off) : (b.write off xs).read start len = b.read start len := by
  simp only [read]
  apply List.map_congr_left
  intro i hi
  have hi : i < len := List.mem_range.mp hi
  exact b.write_data_before xs (by omega)

/-- A write in front of a region leaves it unchanged. -/
theorem read_write_after (b : Block α) {off len start : Nat} (xs : List α)
    (h : off + xs.length ≤ start) : (b.write off xs).read start len = b.read start len := by
  simp only [read]
  apply List.map_congr_left
  intro i _
  exact b.write_data_after xs (by omega)

/-- Extending a region by a write at its end. -/
theorem read_write_append (b : Block α) (start len : Nat) (xs : List α) :
    (b.write (start + len) xs).read start (len + xs.length) = b.read start len ++ xs := by
  rw [read_add, read_write_before b xs (Nat.le_refl _), read_write_self]

end Block
