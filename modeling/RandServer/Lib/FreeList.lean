import Mathlib.Logic.Function.Basic
import Mathlib.Data.List.Basic

/-!
# Lists threaded through an array

An array `next` links items: the item `x` has the cell `slot x`, which holds the item
after it, and the last cell holds `stop`. `Threaded next slot stop first xs` says that
following the links from `first` gives `xs`. Items with the same cell never occur
together, which is why cells other than those of the list may be written freely.
-/

namespace FreeList

variable {next next' : Nat → Nat} {slot : Nat → Nat} {stop first x y : Nat} {xs : List Nat}

/-- The links from `first` on go through `xs`. -/
def Threaded (next slot : Nat → Nat) (stop : Nat) : Nat → List Nat → Prop
  | first, [] => first = stop
  | first, x :: xs => first = x ∧ Threaded next slot stop (next (slot x)) xs

theorem Threaded.congr (h : Threaded next slot stop first xs)
    (hsame : ∀ x ∈ xs, next' (slot x) = next (slot x)) : Threaded next' slot stop first xs := by
  induction xs generalizing first with
  | nil => exact h
  | cons x xs ih =>
      obtain ⟨rfl, hrest⟩ := h
      refine ⟨rfl, ?_⟩
      rw [hsame first (List.mem_cons_self ..)]
      exact ih hrest fun y hy => hsame y (List.mem_cons_of_mem _ hy)

theorem Threaded.first_mem (h : Threaded next slot stop first xs) (hne : xs ≠ []) :
    first ∈ xs := by
  cases xs with
  | nil => exact absurd rfl hne
  | cons x xs => exact h.1 ▸ List.mem_cons_self ..

/-- Write a cell that belongs to no item of the list. -/
theorem Threaded.update (h : Threaded next slot stop first xs) {i v : Nat}
    (hi : i ∉ xs.map slot) : Threaded (Function.update next i v) slot stop first xs := by
  refine h.congr fun x hx => Function.update_of_ne (fun heq => hi ?_) _ _
  rw [← heq]
  exact List.mem_map_of_mem hx

/-- Link a new last item: its predecessor gets the link and its own cell the end mark. -/
theorem Threaded.concat (h : Threaded next slot stop first (xs ++ [x]))
    (hx : slot x ∉ xs.map slot) (hy : slot y ∉ (xs ++ [x]).map slot) :
    Threaded (Function.update (Function.update next (slot x) y) (slot y) stop) slot stop first
      (xs ++ [x, y]) := by
  induction xs generalizing first with
  | nil =>
      obtain ⟨rfl, -⟩ := h
      have hne : slot first ≠ slot y := fun heq => hy (by simp only [List.nil_append,
        List.map_cons, List.map_nil, List.mem_singleton, heq])
      refine ⟨rfl, ?_, ?_⟩
      · rw [Function.update_of_ne hne, Function.update_self]
      · rw [Function.update_self]
        rfl
  | cons z xs ih =>
      obtain ⟨rfl, hrest⟩ := h
      simp only [List.cons_append, List.map_cons, List.mem_cons, not_or] at hx hy
      refine ⟨rfl, ?_⟩
      rw [Function.update_of_ne (Ne.symm hy.1), Function.update_of_ne (Ne.symm hx.1)]
      exact ih hrest hx.2 hy.2

/-- The cell of an item holds the end mark or the next item, which has another cell. -/
theorem Threaded.cell (h : Threaded next slot stop first xs) (hnodup : (xs.map slot).Nodup)
    (hx : x ∈ xs) : next (slot x) = stop ∨
      next (slot x) ∈ xs ∧ slot (next (slot x)) ≠ slot x := by
  induction xs generalizing first with
  | nil => cases hx
  | cons z xs ih =>
      obtain ⟨rfl, hrest⟩ := h
      rw [List.map_cons, List.nodup_cons] at hnodup
      rcases List.mem_cons.mp hx with rfl | hx
      · cases xs with
        | nil => exact .inl hrest
        | cons w xs =>
            rw [hrest.1]
            refine .inr ⟨List.mem_cons_of_mem _ (List.mem_cons_self ..), fun heq => ?_⟩
            refine hnodup.1 ?_
            rw [← heq]
            exact List.mem_map_of_mem (List.mem_cons_self ..)
      · rcases ih hrest hnodup.2 hx with hstop | ⟨hin, hne⟩
        · exact .inl hstop
        · exact .inr ⟨List.mem_cons_of_mem _ hin, hne⟩

theorem Threaded.singleton : Threaded (Function.update next (slot y) stop) slot stop y [y] :=
  ⟨rfl, Function.update_self ..⟩

end FreeList
