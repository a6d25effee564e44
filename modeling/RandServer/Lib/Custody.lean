import Mathlib.Data.List.Nodup

/-!
# Custody of resources

A system gives out resources and takes them back. Between these, each resource that is out
has one holder, and a holder has at most one resource. `Custody` says that the resources
that are out are those that are held. It is kept when a resource is given out to someone
without one, when it passes to someone without one, and when its holder gives it back.

`Exclusive` is the same for holders that may have several resources. It is kept when one
holder gives back some of its resources and takes new ones, and when it leaves all of them to
another.
-/

universe u v

variable {α : Type u} {ω : Type v}

structure Custody (holds : α → ω → Prop) (out : List α) : Prop where
  nodup : out.Nodup
  held : ∀ x, x ∈ out ↔ ∃ o, holds x o
  one_holder : ∀ x o o', holds x o → holds x o' → o = o'
  one_resource : ∀ x y o, holds x o → holds y o → x = y

namespace Custody

variable {holds holds' : α → ω → Prop} {out : List α} {x : α} {a b : ω}

theorem mem (h : Custody holds out) (hx : holds x a) : x ∈ out := (h.held x).mpr ⟨a, hx⟩

theorem nil (hnone : ∀ x o, ¬ holds x o) : Custody holds [] where
  nodup := .nil
  held x := iff_of_false List.not_mem_nil fun ⟨o, ho⟩ => hnone x o ho
  one_holder x o _ ho := absurd ho (hnone x o)
  one_resource x _ o ho := absurd ho (hnone x o)

theorem congr (h : Custody holds out) (heq : ∀ y o, holds' y o ↔ holds y o) :
    Custody holds' out := by
  have hsame : holds' = holds := funext fun y => funext fun o => propext (heq y o)
  rw [hsame]
  exact h

/-- A new resource is given out. -/
theorem acquire (h : Custody holds out) (hx : x ∉ out) (hfree : ∀ y, ¬ holds y a)
    (heq : ∀ y o, holds' y o ↔ y = x ∧ o = a ∨ holds y o) : Custody holds' (x :: out) where
  nodup := List.nodup_cons.mpr ⟨hx, h.nodup⟩
  held y := by
    rw [List.mem_cons, h.held y]
    constructor
    · rintro (rfl | ⟨o, ho⟩)
      · exact ⟨a, (heq y a).mpr (.inl ⟨rfl, rfl⟩)⟩
      · exact ⟨o, (heq y o).mpr (.inr ho)⟩
    · rintro ⟨o, ho⟩
      exact ((heq y o).mp ho).imp And.left fun ho => ⟨o, ho⟩
  one_holder y o o' ho ho' := by
    rcases (heq y o).mp ho with ⟨rfl, rfl⟩ | hold
    · rcases (heq y o').mp ho' with ⟨-, rfl⟩ | hold'
      · rfl
      · exact absurd (h.mem hold') hx
    · rcases (heq y o').mp ho' with ⟨rfl, -⟩ | hold'
      · exact absurd (h.mem hold) hx
      · exact h.one_holder y o o' hold hold'
  one_resource y z o ho ho' := by
    rcases (heq y o).mp ho with ⟨rfl, rfl⟩ | hold
    · rcases (heq z o).mp ho' with ⟨rfl, -⟩ | hold'
      · rfl
      · exact absurd hold' (hfree z)
    · rcases (heq z o).mp ho' with ⟨-, rfl⟩ | hold'
      · exact absurd hold (hfree y)
      · exact h.one_resource y z o hold hold'

/-- A resource passes from `a` to `b`. -/
theorem move (h : Custody holds out) (hx : holds x a) (hfree : ∀ y, ¬ holds y b)
    (heq : ∀ y o, holds' y o ↔ y = x ∧ o = b ∨ o ≠ a ∧ holds y o) : Custody holds' out where
  nodup := h.nodup
  held y := by
    rw [h.held y]
    constructor
    · rintro ⟨o, ho⟩
      by_cases hoa : o = a
      · subst hoa
        exact ⟨b, (heq y b).mpr (.inl ⟨h.one_resource y x o ho hx, rfl⟩)⟩
      · exact ⟨o, (heq y o).mpr (.inr ⟨hoa, ho⟩)⟩
    · rintro ⟨o, ho⟩
      rcases (heq y o).mp ho with ⟨rfl, -⟩ | ⟨-, hold⟩
      · exact ⟨a, hx⟩
      · exact ⟨o, hold⟩
  one_holder y o o' ho ho' := by
    have hleft : ∀ p, p ≠ a → ¬ holds x p := fun p hne hp => hne (h.one_holder x p a hp hx)
    rcases (heq y o).mp ho with ⟨rfl, rfl⟩ | ⟨hne, hold⟩
    · rcases (heq y o').mp ho' with ⟨-, rfl⟩ | ⟨hne', hold'⟩
      · rfl
      · exact absurd hold' (hleft o' hne')
    · rcases (heq y o').mp ho' with ⟨rfl, -⟩ | ⟨hne', hold'⟩
      · exact absurd hold (hleft o hne)
      · exact h.one_holder y o o' hold hold'
  one_resource y z o ho ho' := by
    rcases (heq y o).mp ho with ⟨rfl, rfl⟩ | ⟨-, hold⟩
    · rcases (heq z o).mp ho' with ⟨rfl, -⟩ | ⟨-, hold'⟩
      · rfl
      · exact absurd hold' (hfree z)
    · rcases (heq z o).mp ho' with ⟨-, rfl⟩ | ⟨-, hold'⟩
      · exact absurd hold (hfree y)
      · exact h.one_resource y z o hold hold'

/-- The holder `a` gives its resource back. -/
theorem release [DecidableEq α] (h : Custody holds out) (hx : holds x a)
    (heq : ∀ y o, holds' y o ↔ o ≠ a ∧ holds y o) : Custody holds' (out.erase x) where
  nodup := h.nodup.erase x
  held y := by
    rw [h.nodup.mem_erase_iff, h.held y]
    constructor
    · rintro ⟨hne, o, ho⟩
      refine ⟨o, (heq y o).mpr ⟨?_, ho⟩⟩
      rintro rfl
      exact hne (h.one_resource y x o ho hx)
    · rintro ⟨o, ho⟩
      obtain ⟨hne, hold⟩ := (heq y o).mp ho
      refine ⟨?_, o, hold⟩
      rintro rfl
      exact hne (h.one_holder y o a hold hx)
  one_holder y o o' ho ho' := h.one_holder y o o' ((heq y o).mp ho).2 ((heq y o').mp ho').2
  one_resource y z o ho ho' := h.one_resource y z o ((heq y o).mp ho).2 ((heq z o).mp ho').2

end Custody

/-- Each resource that is out has one holder, who may have others. -/
structure Exclusive (holds : α → ω → Prop) (out : α → Prop) : Prop where
  held : ∀ x, out x ↔ ∃ o, holds x o
  one_holder : ∀ x o o', holds x o → holds x o' → o = o'

namespace Exclusive

variable {holds holds' : α → ω → Prop} {out out' : α → Prop} {x : α} {a b : ω}

theorem out_of (h : Exclusive holds out) (hx : holds x a) : out x := (h.held x).mpr ⟨a, hx⟩

/-- What another holds is not the holder's. -/
theorem not_holds (h : Exclusive holds out) (hx : holds x a) (hne : a ≠ b) : ¬ holds x b :=
  fun hb => hne (h.one_holder x a b hx hb)

theorem congr (h : Exclusive holds out) (hholds : ∀ x o, holds' x o ↔ holds x o)
    (hout : ∀ x, out' x ↔ out x) : Exclusive holds' out' where
  held x := by simp only [hout, hholds, h.held]
  one_holder x o o' ho ho' := h.one_holder x o o' ((hholds x o).mp ho) ((hholds x o').mp ho')

/-- The resources of `a` are exchanged. What it takes was not out. -/
theorem exchange (h : Exclusive holds out)
    (hother : ∀ x o, o ≠ a → (holds' x o ↔ holds x o))
    (hnew : ∀ x, holds' x a → holds x a ∨ ¬ out x)
    (hout : ∀ x, out' x ↔ holds' x a ∨ out x ∧ ¬ holds x a) : Exclusive holds' out' where
  held x := by
    rw [hout, h.held]
    constructor
    · rintro (ha | ⟨⟨o, ho⟩, hnot⟩)
      · exact ⟨a, ha⟩
      · exact ⟨o, (hother x o fun heq => hnot (heq ▸ ho)).mpr ho⟩
    · rintro ⟨o, ho⟩
      by_cases heq : o = a
      · exact .inl (heq ▸ ho)
      · have hold := (hother x o heq).mp ho
        exact .inr ⟨⟨o, hold⟩, h.not_holds hold heq⟩
  one_holder x o o' ho ho' := by
    -- nobody else has what `a` has now
    have hsole : ∀ p, holds' x p → holds' x a → p = a := by
      intro p hp ha
      by_contra hne
      have hold := (hother x p hne).mp hp
      exact (hnew x ha).elim (h.not_holds hold hne) fun hnot => hnot (h.out_of hold)
    by_cases heq : o = a
    · rw [heq] at ho ⊢
      exact (hsole o' ho' ho).symm
    by_cases heq' : o' = a
    · rw [heq'] at ho' ⊢
      exact hsole o ho ho'
    · exact h.one_holder x o o' ((hother x o heq).mp ho) ((hother x o' heq').mp ho')

/-- One resource passes from `a` to `b`. -/
theorem pass (h : Exclusive holds out) (hx : holds x a)
    (heq : ∀ y o, holds' y o ↔ y = x ∧ o = b ∨ y ≠ x ∧ holds y o) : Exclusive holds' out where
  held y := by
    rw [h.held]
    constructor
    · rintro ⟨o, ho⟩
      by_cases hyx : y = x
      · exact ⟨b, (heq y b).mpr (.inl ⟨hyx, rfl⟩)⟩
      · exact ⟨o, (heq y o).mpr (.inr ⟨hyx, ho⟩)⟩
    · rintro ⟨o, ho⟩
      rcases (heq y o).mp ho with ⟨rfl, -⟩ | ⟨-, hold⟩
      · exact ⟨a, hx⟩
      · exact ⟨o, hold⟩
  one_holder y o o' ho ho' := by
    rcases (heq y o).mp ho with ⟨rfl, rfl⟩ | ⟨hne, hold⟩
    · rcases (heq y o').mp ho' with ⟨-, rfl⟩ | ⟨hne', -⟩
      · rfl
      · exact absurd rfl hne'
    · rcases (heq y o').mp ho' with ⟨rfl, -⟩ | ⟨-, hold'⟩
      · exact absurd rfl hne
      · exact h.one_holder y o o' hold hold'

/-- All resources of `a` pass to `b`. -/
theorem merge (h : Exclusive holds out)
    (heq : ∀ y o, holds' y o ↔ o ≠ a ∧ holds y o ∨ o = b ∧ holds y a) : Exclusive holds' out where
  held y := by
    rw [h.held]
    constructor
    · rintro ⟨o, ho⟩
      by_cases hoa : o = a
      · exact ⟨b, (heq y b).mpr (.inr ⟨rfl, hoa ▸ ho⟩)⟩
      · exact ⟨o, (heq y o).mpr (.inl ⟨hoa, ho⟩)⟩
    · rintro ⟨o, ho⟩
      rcases (heq y o).mp ho with ⟨-, hold⟩ | ⟨-, hold⟩
      · exact ⟨o, hold⟩
      · exact ⟨a, hold⟩
  one_holder y o o' ho ho' := by
    rcases (heq y o).mp ho with ⟨hne, hold⟩ | ⟨rfl, hold⟩
    · rcases (heq y o').mp ho' with ⟨-, hold'⟩ | ⟨-, hold'⟩
      · exact h.one_holder y o o' hold hold'
      · exact absurd hold' (h.not_holds hold hne)
    · rcases (heq y o').mp ho' with ⟨hne, hold'⟩ | ⟨rfl, -⟩
      · exact absurd hold (h.not_holds hold' hne)
      · rfl

end Exclusive
