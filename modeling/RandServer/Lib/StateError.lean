import Mathlib.Logic.Basic

/-!
# Runs of state and error programs

Equations for a program of `EStateM` that runs in a given state, one for each way in which
its first part can end, and rules for two programs that run side by side.
-/

universe u

namespace StateError

variable {ε σ α β : Type u} {x : EStateM ε σ α} {f : α → EStateM ε σ β} {s s' : σ} {a : α} {e : ε}

theorem bind_ok (h : x s = .ok a s') : (x >>= f) s = f a s' := by
  show EStateM.bind x f s = _
  rw [EStateM.bind, h]

theorem bind_error (h : x s = .error e s') : (x >>= f) s = .error e s' := by
  show EStateM.bind x f s = _
  rw [EStateM.bind, h]

theorem get_bind {g : σ → EStateM ε σ β} : (get >>= g) s = g s s := bind_ok rfl

theorem modify_bind {g : σ → σ} {h : PUnit → EStateM ε σ β} :
    (modify g >>= h) s = h ⟨⟩ (g s) := bind_ok rfl

theorem pure_bind : (pure a >>= f) s = f a s := bind_ok rfl

/-! ## Programs that give up -/

section GivesUp

/-- `x` runs as `y` does, unless it stops with `e`. -/
def UpTo (e : ε) (x y : EStateM ε σ α) : Prop := ∀ s, (∃ s', x s = .error e s') ∨ x s = y s

namespace UpTo

variable {y : EStateM ε σ α} {g : α → EStateM ε σ β}

theorem refl (x : EStateM ε σ α) : UpTo e x x := fun _ => .inr rfl

theorem throw (y : EStateM ε σ α) : UpTo e (MonadExcept.throw e) y := fun s => .inl ⟨s, rfl⟩

theorem bind (h : UpTo e x y) (hf : ∀ a, UpTo e (f a) (g a)) : UpTo e (x >>= f) (y >>= g) := by
  intro s
  rcases h s with ⟨s', hstop⟩ | hxy
  · exact .inl ⟨s', bind_error hstop⟩
  · cases hx : x s with
    | error e' s' =>
        rw [bind_error hx, bind_error (hxy.symm.trans hx)]
        exact .inr rfl
    | ok a s' =>
        rw [bind_ok hx, bind_ok (hxy.symm.trans hx)]
        exact hf a s'

end UpTo

end GivesUp

/-! ## Two programs side by side -/

section Alike

variable {α' β' : Type u} {R : σ → σ → Prop} {rel : α → α' → Prop} {rel' : β → β' → Prop}

/-- Two runs that end in the same way. -/
inductive Outcomes (R : σ → σ → Prop) (rel : α → α' → Prop) :
    EStateM.Result ε σ α → EStateM.Result ε σ α' → Prop
  | ok {a : α} {a' : α'} {s s' : σ} : rel a a' → R s s' → Outcomes R rel (.ok a s) (.ok a' s')
  | error {e : ε} {s s' : σ} : R s s' → Outcomes R rel (.error e s) (.error e s')

/-- From related states two programs end in the same way, and in related states again. -/
def Alike (R : σ → σ → Prop) (rel : α → α' → Prop) (x : EStateM ε σ α) (x' : EStateM ε σ α') :
    Prop :=
  ∀ s s', R s s' → Outcomes R rel (x s) (x' s')

namespace Alike

variable {x' : EStateM ε σ α'} {f' : α' → EStateM ε σ β'}

theorem bind (h : Alike R rel x x') (hf : ∀ a a', rel a a' → Alike R rel' (f a) (f' a')) :
    Alike R rel' (x >>= f) (x' >>= f') := by
  intro s s' hs
  have hfirst := h s s' hs
  cases hx : x s with
  | ok a s₁ =>
      cases hx' : x' s' with
      | ok a' s₁' =>
          rw [hx, hx'] at hfirst
          cases hfirst with
          | ok hrel hnext =>
              rw [bind_ok hx, bind_ok hx']
              exact hf a a' hrel s₁ s₁' hnext
      | error e s₁' =>
          rw [hx, hx'] at hfirst
          cases hfirst
  | error e s₁ =>
      cases hx' : x' s' with
      | ok a' s₁' =>
          rw [hx, hx'] at hfirst
          cases hfirst
      | error e' s₁' =>
          rw [hx, hx'] at hfirst
          cases hfirst with
          | error hnext =>
              rw [bind_error hx, bind_error hx']
              exact .error hnext

theorem pure {a : α} {a' : α'} (h : rel a a') :
    Alike R rel (pure a : EStateM ε σ α) (pure a') := fun _ _ hs => .ok h hs

theorem throw (e : ε) : Alike R rel (throw e : EStateM ε σ α) (throw e) := fun _ _ hs => .error hs

theorem get : Alike R R (get : EStateM ε σ σ) get := fun _ _ hs => .ok hs hs

theorem modify {g g' : σ → σ} {S : PUnit → PUnit → Prop} (hrel : S ⟨⟩ ⟨⟩)
    (h : ∀ s s', R s s' → R (g s) (g' s')) :
    Alike R S (modify g : EStateM ε σ PUnit) (modify g') := fun s s' hs => .ok hrel (h s s' hs)

end Alike

end Alike

end StateError
