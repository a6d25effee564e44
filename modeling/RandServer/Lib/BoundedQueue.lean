import Mathlib.Data.List.Basic

/-!
# Bounded first-in first-out queues
-/

universe u

structure BoundedQueue (α : Type u) where
  items : List α
  capacity : Nat
  fits : items.length ≤ capacity

namespace BoundedQueue

variable {α : Type u} {q : BoundedQueue α} {x : α}

def empty (capacity : Nat) : BoundedQueue α := ⟨[], capacity, Nat.zero_le _⟩

/-- Append an item, or refuse it if the queue is full. -/
def push (q : BoundedQueue α) (x : α) : Bool × BoundedQueue α :=
  if h : q.items.length < q.capacity then
    (true, ⟨q.items ++ [x], q.capacity, by
      rw [List.length_append, List.length_singleton]
      exact h⟩)
  else (false, q)

/-- Remove at most `n` items from the front. -/
def pop (q : BoundedQueue α) (n : Nat) : List α × BoundedQueue α :=
  (q.items.take n, ⟨q.items.drop n, q.capacity, by
    rw [List.length_drop]
    exact Nat.le_trans (Nat.sub_le _ _) q.fits⟩)

theorem push_room (h : q.items.length < q.capacity) :
    (q.push x).1 = true ∧ (q.push x).2.items = q.items ++ [x] := by
  rw [push, dif_pos h]
  exact ⟨rfl, rfl⟩

theorem push_full (h : ¬ q.items.length < q.capacity) : q.push x = (false, q) := dif_neg h

@[simp] theorem push_capacity : (q.push x).2.capacity = q.capacity := by
  rw [push]
  split <;> rfl

theorem mem_push {y : α} (h : y ∈ q.items) : y ∈ (q.push x).2.items := by
  rw [push]
  split
  · exact List.mem_append_left _ h
  · exact h

theorem self_mem_push (h : q.items.length < q.capacity) : x ∈ (q.push x).2.items := by
  rw [(push_room h).2]
  exact List.mem_append_right _ (List.mem_singleton_self x)

/-- What is popped and what is left are all the items. -/
theorem pop_append (n : Nat) : (q.pop n).1 ++ (q.pop n).2.items = q.items :=
  List.take_append_drop n q.items

end BoundedQueue
