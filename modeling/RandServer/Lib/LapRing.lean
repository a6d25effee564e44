import Mathlib.Logic.Function.Basic
import Mathlib.Data.Nat.ModEq
import RandServer.Lib.Block

/-!
# Rings of blocks with lap-counting cursors

A ring of `n` blocks of `bs` cells is addressed by unbounded positions. Position `p`
lies in slot `p / bs % n` at offset `p % bs`. A cursor stores the block index modulo
`2 * n` rather than `n`, so that two cursors one full capacity apart remain distinct.

All results are about positions. Programs over packed cursors use `block_advance`
and `offset_advance` to show that their index arithmetic follows the positions, and
`distance` to show that the lap-counted difference of two cursors is the true one.
`Holds` says that a segment of positions stores a given list. Its frame rules cover
the two things a ring does to its slots: copying a piece into one block, and
releasing blocks that are not in use.
-/

universe u

namespace LapRing

variable {α : Type u} {n bs : Nat}

/-- Block index of a position, counted modulo two laps. -/
def block (n bs p : Nat) : Nat := p / bs % (2 * n)

/-- Physical slot of a position. -/
def slot (n bs p : Nat) : Nat := p / bs % n

/-- Offset of a position inside its block. -/
def offset (bs p : Nat) : Nat := p % bs

theorem block_lt (hn : 0 < n) (p : Nat) : block n bs p < 2 * n :=
  Nat.mod_lt _ (by omega)

theorem offset_lt (hbs : 0 < bs) (p : Nat) : offset bs p < bs := Nat.mod_lt _ hbs

@[simp] theorem block_mod (n bs p : Nat) : block n bs p % n = slot n bs p :=
  Nat.mod_mod_of_dvd _ (Nat.dvd_mul_left n 2)

theorem position_eq (bs p : Nat) : bs * (p / bs) + offset bs p = p := Nat.div_add_mod p bs

/-- Advancing the offset and carrying whole blocks follows the position. -/
theorem carry (hbs : 0 < bs) (p k : Nat) :
    (p + k) / bs = p / bs + (offset bs p + k) / bs := by
  conv_lhs => rw [← position_eq bs p, Nat.add_assoc, Nat.mul_add_div hbs]

theorem block_advance (hbs : 0 < bs) (p k : Nat) :
    (block n bs p + (offset bs p + k) / bs) % (2 * n) = block n bs (p + k) := by
  rw [block, block, Nat.mod_add_mod, ← carry hbs]

theorem slot_advance (hbs : 0 < bs) (p k : Nat) :
    (block n bs p + (offset bs p + k) / bs) % n = slot n bs (p + k) := by
  rw [← block_mod, ← block_advance hbs, Nat.mod_mod_of_dvd _ (Nat.dvd_mul_left n 2)]

theorem offset_advance (bs p k : Nat) : (offset bs p + k) % bs = offset bs (p + k) := by
  simp only [offset, Nat.mod_add_mod]

/-- Positions in one block are ordered as their offsets. -/
theorem offset_le_of_div_eq {p k : Nat} (h : (p + k) / bs = p / bs) :
    offset bs p ≤ offset bs (p + k) := by
  have hp := position_eq bs p
  have hpk := position_eq bs (p + k)
  rw [h] at hpk
  omega

theorem offset_add_of_lt {p k : Nat} (h : offset bs p + k < bs) :
    offset bs (p + k) = offset bs p + k := by
  rw [← offset_advance, Nat.mod_eq_of_lt h]

theorem div_add_of_lt (hbs : 0 < bs) {p k : Nat} (h : offset bs p + k < bs) :
    (p + k) / bs = p / bs := by
  rw [carry hbs, Nat.div_eq_of_lt h, Nat.add_zero]

theorem block_add_of_lt (hbs : 0 < bs) {p k : Nat} (h : offset bs p + k < bs) :
    block n bs (p + k) = block n bs p := by
  simp only [block, div_add_of_lt hbs h]

theorem slot_add_of_lt (hbs : 0 < bs) {p k : Nat} (h : offset bs p + k < bs) :
    slot n bs (p + k) = slot n bs p := by
  simp only [slot, div_add_of_lt hbs h]

/-- Moving a full capacity ahead keeps the cell. -/
theorem div_add_capacity (hbs : 0 < bs) (p : Nat) : (p + n * bs) / bs = p / bs + n :=
  Nat.add_mul_div_right p n hbs

@[simp] theorem offset_add_capacity (n bs p : Nat) : offset bs (p + n * bs) = offset bs p :=
  Nat.add_mul_mod_self_right p n bs

theorem slot_add_capacity (hbs : 0 < bs) (p : Nat) :
    slot n bs (p + n * bs) = slot n bs p := by
  simp [slot, div_add_capacity hbs]

/-- The block after a boundary that is `j` blocks further. -/
theorem block_boundary (hbs : 0 < bs) {h p : Nat} (hh : (h + 1) % (2 * n) = block n bs p)
    (j : Nat) : (h + 1 + j) % (2 * n) = block n bs (p + j * bs) := by
  rw [← Nat.mod_add_mod, hh, block, block, Nat.mod_add_mod, Nat.add_mul_div_right _ _ hbs]

theorem slot_boundary (hbs : 0 < bs) {h p : Nat} (hh : (h + 1) % (2 * n) = block n bs p)
    (j : Nat) : (h + 1 + j) % n = slot n bs (p + j * bs) := by
  rw [← Nat.mod_mod_of_dvd (h + 1 + j) (Nat.dvd_mul_left n 2), block_boundary hbs hh, block_mod]

theorem offset_boundary {p : Nat} (hp : offset bs p = 0) (j : Nat) :
    offset bs (p + j * bs) = 0 := by
  rw [offset, Nat.add_mul_mod_self_right]
  exact hp

/-- Block indices less than one lap apart that share a slot are equal. -/
theorem block_index_unique {a b : Nat} (hmod : a % n = b % n) (hab : a < b + n)
    (hba : b < a + n) : a = b := by
  rcases Nat.le_total a b with h | h
  · have hd : n ∣ b - a := (Nat.modEq_iff_dvd' h).mp hmod
    have := Nat.eq_zero_of_dvd_of_lt hd (by omega)
    omega
  · have hd : n ∣ a - b := (Nat.modEq_iff_dvd' h).mp hmod.symm
    have := Nat.eq_zero_of_dvd_of_lt hd (by omega)
    omega

/-- Counters at most one lap apart are equal once they agree modulo two laps. -/
theorem lap_inj (hn : 0 < n) {a b : Nat} (hab : a ≤ b) (hba : b ≤ a + n) :
    a % (2 * n) = b % (2 * n) ↔ a = b := by
  constructor
  · intro h
    have hd : 2 * n ∣ b - a := (Nat.modEq_iff_dvd' hab).mp h
    have := Nat.eq_zero_of_dvd_of_lt hd (by omega)
    omega
  · rintro rfl
    rfl

/-- Two positions less than one capacity apart never share a cell. -/
theorem cell_unique {p q : Nat} (hslot : slot n bs p = slot n bs q)
    (hoff : offset bs p = offset bs q) (hpq : p < q + n * bs) (hqp : q < p + n * bs) :
    p = q := by
  have hp := position_eq bs p
  have hq := position_eq bs q
  rw [hoff] at hp
  have bound : ∀ {x y : Nat}, bs * x + offset bs q < bs * y + offset bs q + n * bs →
      x < y + n := by
    intro x y h
    apply Nat.lt_of_mul_lt_mul_left (a := bs)
    rw [Nat.mul_add, Nat.mul_comm bs n]
    omega
  have hblocks : p / bs = q / bs :=
    block_index_unique hslot (bound (by omega)) (bound (by omega))
  rw [← hp, hblocks, hq]

/-- Distance of two cursors from their lap-counted block indices. Both subtractions
that a program performs are exact when the cursors are at most a capacity apart. -/
theorem distance (hn : 0 < n) (hbs : 0 < bs) {w e : Nat} (hwe : w ≤ e)
    (hcap : e ≤ w + n * bs) :
    (block n bs w < block n bs e ∧
      (block n bs e - block n bs w) * bs + offset bs e - offset bs w = e - w) ∨
    (block n bs e = block n bs w ∧ offset bs w ≤ offset bs e ∧
      offset bs e - offset bs w = e - w) ∨
    (block n bs e < block n bs w ∧
      (2 * n + block n bs e - block n bs w) * bs + offset bs e - offset bs w = e - w) := by
  have he := position_eq bs e
  have hw := position_eq bs w
  have hmono : w / bs ≤ e / bs := Nat.div_le_div_right hwe
  have hspan : e / bs ≤ w / bs + n := by
    rw [← div_add_capacity hbs]
    exact Nat.div_le_div_right hcap
  obtain ⟨d, hd⟩ : ∃ d, e / bs = w / bs + d := ⟨e / bs - w / bs, by omega⟩
  have hdist : d * bs + offset bs e - offset bs w = e - w := by
    have hsplit : bs * (e / bs) = bs * (w / bs) + d * bs := by
      rw [hd, Nat.mul_add, Nat.mul_comm bs d]
    omega
  have hwlt : block n bs w < 2 * n := block_lt hn w
  have hshift : block n bs e = (block n bs w + d) % (2 * n) := by
    simp only [block, hd, Nat.mod_add_mod]
  rcases Nat.eq_zero_or_pos d with rfl | hpos
  · refine Or.inr (Or.inl ⟨?_, ?_, ?_⟩)
    · rw [hshift, Nat.add_zero, Nat.mod_eq_of_lt hwlt]
    · rw [Nat.add_zero] at hd
      rw [hd] at he
      omega
    · simpa using hdist
  · by_cases hlap : block n bs w + d < 2 * n
    · rw [Nat.mod_eq_of_lt hlap] at hshift
      refine Or.inl ⟨by omega, ?_⟩
      rw [hshift, Nat.add_sub_cancel_left]
      exact hdist
    · have hwrap : (block n bs w + d) % (2 * n) = block n bs w + d - 2 * n := by
        rw [Nat.mod_eq_sub_mod (by omega), Nat.mod_eq_of_lt (by omega)]
      rw [hwrap] at hshift
      refine Or.inr (Or.inr ⟨by omega, ?_⟩)
      have hback : 2 * n + block n bs e - block n bs w = d := by omega
      rw [hback]
      exact hdist

/-! ## Stored segments -/

/-- The contents of the cell at a position, if its block is present. -/
def cell (slots : Nat → Option (Block α)) (n bs p : Nat) : Option α :=
  (slots (slot n bs p)).map fun b => b.data (offset bs p)

/-- The positions from `lo` on store the list `xs`. -/
def Holds (slots : Nat → Option (Block α)) (n bs lo : Nat) (xs : List α) : Prop :=
  ∀ i x, xs[i]? = some x → cell slots n bs (lo + i) = some x

namespace Holds

variable {slots slots' : Nat → Option (Block α)} {lo : Nat} {xs ys : List α}

theorem nil (slots : Nat → Option (Block α)) (n bs lo : Nat) : Holds slots n bs lo [] := by
  intro i x hx
  simp at hx

theorem append_iff : Holds slots n bs lo (xs ++ ys) ↔
    Holds slots n bs lo xs ∧ Holds slots n bs (lo + xs.length) ys := by
  constructor
  · intro h
    refine ⟨fun i x hx => h i x ?_, fun i x hx => ?_⟩
    · rw [List.getElem?_append_left (List.getElem?_eq_some_iff.mp hx).1, hx]
    · rw [Nat.add_assoc]
      exact h _ x (by rw [List.getElem?_append_right (Nat.le_add_right _ _),
        Nat.add_sub_cancel_left, hx])
  · rintro ⟨hxs, hys⟩ i x hx
    rcases Nat.lt_or_ge i xs.length with hi | hi
    · exact hxs i x (by rwa [List.getElem?_append_left hi] at hx)
    · rw [List.getElem?_append_right hi] at hx
      have hcell := hys _ x hx
      rwa [Nat.add_assoc, Nat.add_sub_cancel' hi] at hcell

theorem drop (h : Holds slots n bs lo xs) (k : Nat) : Holds slots n bs (lo + k) (xs.drop k) := by
  intro i x hx
  rw [List.getElem?_drop] at hx
  rw [Nat.add_assoc]
  exact h _ x hx

theorem take (h : Holds slots n bs lo xs) (k : Nat) : Holds slots n bs lo (xs.take k) := by
  intro i x hx
  rw [List.getElem?_take] at hx
  split at hx
  · exact h i x hx
  · cases hx

/-- Only the slots under the segment matter. -/
theorem congr_slots (h : Holds slots n bs lo xs)
    (same : ∀ i, i < xs.length → slots' (slot n bs (lo + i)) = slots (slot n bs (lo + i))) :
    Holds slots' n bs lo xs := by
  intro i x hx
  have hi : i < xs.length := (List.getElem?_eq_some_iff.mp hx).1
  simp only [cell, same i hi]
  exact h i x hx

/-- A nonempty segment starts in a block that is present. -/
theorem head_present (h : Holds slots n bs lo xs) (hne : xs ≠ []) :
    ∃ b, slots (slot n bs lo) = some b := by
  obtain ⟨x, rest, rfl⟩ := List.exists_cons_of_ne_nil hne
  have hcell := h 0 x rfl
  simp only [cell, Nat.add_zero, Option.map_eq_some_iff] at hcell
  obtain ⟨b, hb, -⟩ := hcell
  exact ⟨b, hb⟩

/-- A segment inside one block is what a copy out of that block returns. -/
theorem read_eq (hbs : 0 < bs) (h : Holds slots n bs lo xs)
    (hfit : offset bs lo + xs.length ≤ bs)
    {b : Block α} (hb : slots (slot n bs lo) = some b) :
    b.read (offset bs lo) xs.length = xs := by
  apply Block.read_eq_of_data
  intro i x hx
  have hi : i < xs.length := (List.getElem?_eq_some_iff.mp hx).1
  have hlt : offset bs lo + i < bs := by omega
  have hcell := h i x hx
  simp only [cell, slot_add_of_lt hbs hlt, hb, offset_add_of_lt hlt, Option.map_some,
    Option.some.injEq] at hcell
  exact hcell

/-- Copying a piece into the block at the end of the segment extends the segment.
The piece must fit in its block, and the whole segment in one capacity. -/
theorem write_append (hbs : 0 < bs) (h : Holds slots n bs lo xs)
    (hfit : offset bs (lo + xs.length) + ys.length ≤ bs)
    (hcap : xs.length + ys.length ≤ n * bs) {b : Block α}
    (hb : ∀ b', slots (slot n bs (lo + xs.length)) = some b' → b' = b) :
    Holds (Function.update slots (slot n bs (lo + xs.length))
      (some (b.write (offset bs (lo + xs.length)) ys))) n bs lo (xs ++ ys) := by
  rw [append_iff]
  constructor
  · intro i x hx
    have hi : i < xs.length := (List.getElem?_eq_some_iff.mp hx).1
    have hcell := h i x hx
    by_cases hslot : slot n bs (lo + i) = slot n bs (lo + xs.length)
    · simp only [cell, hslot, Option.map_eq_some_iff] at hcell
      obtain ⟨b', hb', hdata⟩ := hcell
      obtain rfl := hb b' hb'
      simp only [cell, hslot, Function.update_self, Option.map_some, Option.some.injEq]
      rw [← hdata]
      -- The old cell lies on either side of the piece: inside it, the two positions
      -- would be less than a capacity apart and share a cell.
      rcases Nat.lt_or_ge (offset bs (lo + i)) (offset bs (lo + xs.length)) with hlt | hge
      · exact b'.write_data_before ys hlt
      · apply b'.write_data_after
        by_contra hin
        obtain ⟨k, hk⟩ : ∃ k, offset bs (lo + i) = offset bs (lo + xs.length) + k :=
          ⟨_, (Nat.add_sub_cancel' hge).symm⟩
        have hklt : offset bs (lo + xs.length) + k < bs := by omega
        have hsame := cell_unique
          (hslot.trans (slot_add_of_lt hbs hklt).symm)
          (hk.trans (offset_add_of_lt hklt).symm) (by omega) (by omega)
        omega
    · simpa only [cell, Function.update_of_ne hslot] using hcell
  · intro i x hx
    have hi : i < ys.length := (List.getElem?_eq_some_iff.mp hx).1
    have hlt : offset bs (lo + xs.length) + i < bs := by omega
    simp only [cell, slot_add_of_lt hbs hlt, Function.update_self, offset_add_of_lt hlt,
      Option.map_some, Option.some.injEq]
    exact b.write_data_at _ hx

end Holds

end LapRing
