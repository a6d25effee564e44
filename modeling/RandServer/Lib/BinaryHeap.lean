import Mathlib.Data.List.Nodup
import Mathlib.Logic.Equiv.Basic
import Mathlib.Order.Defs.Unbundled

/-!
# Binary heaps in an array

The first `n` cells of an array form a tree: the parent of the cell `i` is `(i - 1) / 2`.
They are ordered if each cell is on the right side of its children with respect to a
transitive and total relation. A loop that looks for the place of an item moves the
other items over a hole. `RiseReady` is the invariant of a loop that moves the hole up,
`SinkReady` of one that moves it down, and either loop may stop where the item fits.
-/

universe u

namespace BinaryHeap

variable {α : Type u}

def parent (i : Nat) : Nat := (i - 1) / 2

theorem parent_lt {i : Nat} (h : 0 < i) : parent i < i := by
  unfold parent
  omega

theorem parent_eq_iff {i c : Nat} (h : 0 < c) :
    parent c = i ↔ c = 2 * i + 1 ∨ c = 2 * i + 2 := by
  unfold parent
  omega

/-- Every cell but the first is behind its parent. -/
def Ordered (r : α → α → Prop) (cells : Nat → α) (n : Nat) : Prop :=
  ∀ c, 0 < c → c < n → r (cells (parent c)) (cells c)

/-- What the first cells hold. -/
def contents (cells : Nat → α) (n : Nat) : List α := (List.range n).map cells

section Order

variable {r : α → α → Prop} {cells : Nat → α} {n hole : Nat} {x : α}

/-- The first cell is in front of all others. -/
theorem Ordered.root [IsPreorder α r] (h : Ordered r cells n) {i : Nat} (hi : i < n) :
    r (cells 0) (cells i) := by
  induction i using Nat.strongRecOn with
  | ind i ih =>
      cases Nat.eq_zero_or_pos i with
      | inl hzero => exact hzero ▸ refl_of r _
      | inr hpos =>
          have hlt := parent_lt hpos
          exact trans_of r (ih (parent i) hlt (by omega)) (h i hpos hi)

theorem Ordered.mono {m : Nat} (h : Ordered r cells n) (hle : m ≤ n) : Ordered r cells m :=
  fun c hpos hc => h c hpos (by omega)

theorem Ordered.congr {cells' : Nat → α} (h : Ordered r cells n)
    (hsame : ∀ i < n, cells' i = cells i) : Ordered r cells' n := by
  intro c hpos hc
  rw [hsame c hc, hsame (parent c) (by have := parent_lt hpos; omega)]
  exact h c hpos hc

/-- Cells that do not touch the hole are in order, and so are the neighbours of the hole. -/
structure Around (r : α → α → Prop) (cells : Nat → α) (n hole : Nat) : Prop where
  apart : ∀ c, 0 < c → c < n → c ≠ hole → parent c ≠ hole → r (cells (parent c)) (cells c)
  across : ∀ c, 0 < c → c < n → parent c = hole → 0 < hole → r (cells (parent hole)) (cells c)

/-- The item fits above the children of the hole. -/
structure RiseReady (r : α → α → Prop) (cells : Nat → α) (n hole : Nat) (x : α) : Prop extends
    Around r cells n hole where
  below : ∀ c, 0 < c → c < n → parent c = hole → r x (cells c)

/-- The item fits below the parent of the hole. -/
structure SinkReady (r : α → α → Prop) (cells : Nat → α) (n hole : Nat) (x : α) : Prop extends
    Around r cells n hole where
  above : 0 < hole → r (cells (parent hole)) x

/-- An item that fits on both sides fills the hole. -/
theorem Around.fill (h : Around r cells n hole) (habove : 0 < hole → r (cells (parent hole)) x)
    (hbelow : ∀ c, 0 < c → c < n → parent c = hole → r x (cells c)) :
    Ordered r (Function.update cells hole x) n := by
  intro c hpos hc
  have hlt := parent_lt hpos
  by_cases hhole : c = hole
  · subst hhole
    rw [Function.update_self, Function.update_of_ne (Nat.ne_of_lt hlt)]
    exact habove hpos
  · rw [Function.update_of_ne hhole]
    by_cases hparent : parent c = hole
    · rw [hparent, Function.update_self]
      exact hbelow c hpos hc hparent
    · rw [Function.update_of_ne hparent]
      exact h.apart c hpos hc hhole hparent

theorem Ordered.around [IsTrans α r] (h : Ordered r cells n) (hhole : hole < n) :
    Around r cells n hole where
  apart c hpos hc _ _ := h c hpos hc
  across c hpos hc hparent hpos' := by
    have hstep := h c hpos hc
    rw [hparent] at hstep
    exact trans_of r (h hole hpos' hhole) hstep

/-- A new last cell is a hole. -/
theorem Ordered.rise (h : Ordered r cells n) (x : α) : RiseReady r cells (n + 1) n x where
  apart c hpos hc hne _ := h c hpos (by omega)
  across c hpos hc hparent _ := by
    have := parent_lt hpos
    omega
  below c hpos hc hparent := by
    have := parent_lt hpos
    omega

/-- An item that is not behind the parent of the hole changes places with it. -/
theorem RiseReady.move [IsTrans α r] [Std.Total r] (h : RiseReady r cells n hole x)
    (hhole : 0 < hole) (hlt : hole < n) (hnot : ¬ r (cells (parent hole)) x) :
    RiseReady r (Function.update cells hole (cells (parent hole))) n (parent hole) x := by
  have hup := parent_lt hhole
  have hx : r x (cells (parent hole)) := (total_of r x _).resolve_right hnot
  have hparent : 0 < parent hole → r (cells (parent (parent hole))) (cells (parent hole)) :=
    fun hpos => h.apart _ hpos (by omega) (Nat.ne_of_lt hup) (by have := parent_lt hpos; omega)
  have hsibling : ∀ c, 0 < c → c < n → c ≠ hole → parent c = parent hole →
      r (cells (parent hole)) (cells c) := by
    intro c hpos hc hne hc'
    rw [← hc']
    exact h.apart c hpos hc hne (by omega)
  refine ⟨⟨fun c hpos hc hne hne' => ?_, fun c hpos hc hc' hpos' => ?_⟩, fun c hpos hc hc' => ?_⟩
  · have hchole : c ≠ hole := fun heq => hne' (congrArg parent heq)
    rw [Function.update_of_ne hchole]
    by_cases hbelow : parent c = hole
    · rw [hbelow, Function.update_self]
      exact h.across c hpos hc hbelow hhole
    · rw [Function.update_of_ne hbelow]
      exact h.apart c hpos hc hchole hbelow
  · have hne : parent (parent hole) ≠ hole := by
      have := parent_lt hpos'
      omega
    rw [Function.update_of_ne hne]
    by_cases hchole : c = hole
    · rw [hchole, Function.update_self]
      exact hparent hpos'
    · rw [Function.update_of_ne hchole]
      exact trans_of r (hparent hpos') (hsibling c hpos hc hchole hc')
  · by_cases hchole : c = hole
    · rw [hchole, Function.update_self]
      exact hx
    · rw [Function.update_of_ne hchole]
      exact trans_of r hx (hsibling c hpos hc hchole hc')

/-- An item that does not fit above a child of the hole changes places with the child that is
in front of the others. -/
theorem SinkReady.move [Std.Total r] (h : SinkReady r cells n hole x) {child : Nat}
    (hchild : child < n) (hparent : parent child = hole) (hpos : 0 < child)
    (hfirst : ∀ c, 0 < c → c < n → parent c = hole → r (cells child) (cells c))
    (hnot : ¬ r x (cells child)) :
    SinkReady r (Function.update cells hole (cells child)) n child x := by
  have hup : hole < child := hparent ▸ parent_lt hpos
  have hx : r (cells child) x := (total_of r _ x).resolve_right hnot
  refine ⟨⟨fun c hpos' hc hne hne' => ?_, fun c hpos' hc hc' _ => ?_⟩, fun _ => ?_⟩
  · by_cases hchole : c = hole
    · subst hchole
      rw [Function.update_self, Function.update_of_ne (Nat.ne_of_lt (parent_lt hpos'))]
      exact h.across child hpos hchild hparent hpos'
    · rw [Function.update_of_ne hchole]
      by_cases hbelow : parent c = hole
      · rw [hbelow, Function.update_self]
        exact hfirst c hpos' hc hbelow
      · rw [Function.update_of_ne hbelow]
        exact h.apart c hpos' hc hchole hbelow
  · have hdown := parent_lt hpos'
    rw [hparent, Function.update_self, Function.update_of_ne (by omega), ← hc']
    exact h.apart c hpos' hc (by omega) (by omega)
  · rw [hparent, Function.update_self]
    exact hx

end Order

/-! ## What the cells hold -/

section Contents

variable {cells : Nat → α} {n i j : Nat} {x : α}

theorem contents_succ (cells : Nat → α) (n : Nat) :
    contents cells (n + 1) = contents cells n ++ [cells n] := by
  rw [contents, List.range_succ, List.map_append]
  rfl

theorem contents_congr {cells' : Nat → α} (h : ∀ i < n, cells' i = cells i) :
    contents cells' n = contents cells n :=
  List.map_congr_left fun i hi => h i (List.mem_range.mp hi)

/-- A new last cell. -/
theorem contents_push (cells : Nat → α) (n : Nat) (x : α) :
    contents (Function.update cells n x) (n + 1) = contents cells n ++ [x] := by
  rw [contents_succ, Function.update_self,
    contents_congr fun i hi => Function.update_of_ne (Nat.ne_of_lt hi) _ _]

theorem swap_perm (hi : i < n) (hj : j < n) :
    ((List.range n).map (Equiv.swap i j)).Perm (List.range n) := by
  have hlt : ∀ k, Equiv.swap i j k < n ↔ k < n := by
    intro k
    by_cases hki : k = i
    · simp only [hki, Equiv.swap_apply_left, hi, hj]
    · by_cases hkj : k = j
      · simp only [hkj, Equiv.swap_apply_right, hi, hj]
      · rw [Equiv.swap_apply_of_ne_of_ne hki hkj]
  refine (List.perm_ext_iff_of_nodup (List.nodup_range.map (Equiv.injective _))
    List.nodup_range).mpr fun k => ?_
  rw [List.mem_map, List.mem_range]
  constructor
  · rintro ⟨l, hl, rfl⟩
    exact (hlt l).mpr (List.mem_range.mp hl)
  · intro hk
    exact ⟨Equiv.swap i j k, List.mem_range.mpr ((hlt k).mpr hk), Equiv.swap_apply_self i j k⟩

/-- The hole and another cell change places. -/
theorem contents_move (cells : Nat → α) (x : α) (hi : i < n) (hj : j < n) :
    (contents (Function.update (Function.update cells i (cells j)) j x) n).Perm
      (contents (Function.update cells i x) n) := by
  have hswap : Function.update (Function.update cells i (cells j)) j x =
      Function.update cells i x ∘ Equiv.swap i j := by
    funext k
    by_cases hkj : k = j
    · rw [hkj, Function.update_self, Function.comp_apply, Equiv.swap_apply_right,
        Function.update_self]
    · rw [Function.update_of_ne hkj, Function.comp_apply]
      by_cases hki : k = i
      · rw [hki, Function.update_self, Equiv.swap_apply_left, Function.update_of_ne]
        exact fun heq => hkj (hki.trans heq.symm)
      · rw [Function.update_of_ne hki, Equiv.swap_apply_of_ne_of_ne hki hkj,
          Function.update_of_ne hki]
  rw [hswap, contents, ← List.map_map]
  exact (swap_perm hi hj).map _

/-- An item takes the place of another one. -/
theorem contents_update (cells : Nat → α) (x : α) (hi : i < n) :
    (cells i :: contents (Function.update cells i x) n).Perm (x :: contents cells n) := by
  induction n with
  | zero => exact absurd hi (Nat.not_lt_zero i)
  | succ n ih =>
      rw [contents_succ, contents_succ]
      by_cases hin : i = n
      · subst hin
        rw [Function.update_self,
          contents_congr fun k hk => Function.update_of_ne (Nat.ne_of_lt hk) _ _]
        exact ((List.perm_append_singleton x _).cons _).trans
          ((List.Perm.swap _ _ _).trans ((List.perm_append_singleton _ _).symm.cons _))
      · rw [Function.update_of_ne (Ne.symm hin), ← List.cons_append, ← List.cons_append]
        exact (ih (by omega)).append_right _

end Contents

end BinaryHeap
