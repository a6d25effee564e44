import Mathlib.Logic.Basic

/-!
# Runs of a deterministic machine

A machine has a set of initial states and a step function that is undefined on
actions the current state does not allow. Every source of nondeterminism, such as
a scheduling choice or the outcome of a system call, is part of the action.

`ReachableVia ok` collects the states of runs whose steps all satisfy a side
condition on the state before the step and the action. Ordinary reachability is
the instance without a condition, so one induction rule serves both.
-/

universe u v

structure Machine (σ : Type u) (ι : Type v) where
  Init : σ → Prop
  step : σ → ι → Option σ

namespace Machine

variable {σ : Type u} {ι : Type v} {M : Machine σ ι} {ok ok' : σ → ι → Prop} {s t : σ}

/-- The states of runs in which every step meets `ok`. -/
inductive ReachableVia (M : Machine σ ι) (ok : σ → ι → Prop) : σ → Prop
  | init {s : σ} : M.Init s → ReachableVia M ok s
  | step {s t : σ} {i : ι} : ReachableVia M ok s → ok s i → M.step s i = some t →
      ReachableVia M ok t

def Reachable (M : Machine σ ι) (s : σ) : Prop := M.ReachableVia (fun _ _ => True) s

namespace ReachableVia

theorem invariant {inv : σ → Prop} (init : ∀ s, M.Init s → inv s)
    (step : ∀ s t i, inv s → ok s i → M.step s i = some t → inv t)
    (h : M.ReachableVia ok s) : inv s := by
  induction h with
  | init hs => exact init _ hs
  | step _ hok hstep ih => exact step _ _ _ ih hok hstep

/-- Weaken the side condition. -/
theorem mono (h : M.ReachableVia ok s) (weaken : ∀ s i, ok s i → ok' s i) :
    M.ReachableVia ok' s := by
  induction h with
  | init hs => exact .init hs
  | step _ hok hstep ih => exact ih.step (weaken _ _ hok) hstep

theorem reachable (h : M.ReachableVia ok s) : M.Reachable s :=
  h.mono (fun _ _ _ => trivial)

end ReachableVia

theorem Reachable.invariant {inv : σ → Prop} (init : ∀ s, M.Init s → inv s)
    (step : ∀ s t i, inv s → M.step s i = some t → inv t)
    (h : M.Reachable s) : inv s :=
  ReachableVia.invariant init (fun s t i hs _ ht => step s t i hs ht) h

/-- The same steps, from one state. -/
def startingAt (M : Machine σ ι) (s : σ) : Machine σ ι where
  Init t := t = s
  step := M.step

/-- A run goes on with another. -/
theorem ReachableVia.trans (h : M.ReachableVia ok s) (h' : (M.startingAt s).ReachableVia ok t) :
    M.ReachableVia ok t := by
  induction h' with
  | init hs => exact hs ▸ h
  | step _ hok hstep ih => exact ih.step hok hstep

/-- Execute a list of actions, stopping at the first one that is not allowed. -/
def run (M : Machine σ ι) : σ → List ι → Option σ
  | s, [] => some s
  | s, i :: is => (M.step s i).bind fun t => M.run t is

/-- Execute a list of actions as long as each of them meets a decidable condition. -/
def runVia (M : Machine σ ι) (ok : σ → ι → Prop) [∀ s i, Decidable (ok s i)] :
    σ → List ι → Option σ
  | s, [] => some s
  | s, i :: is => if ok s i then (M.step s i).bind fun t => M.runVia ok t is else none

theorem ReachableVia.runVia [∀ s i, Decidable (ok s i)] {is : List ι}
    (h : M.ReachableVia ok s) (hrun : M.runVia ok s is = some t) : M.ReachableVia ok t := by
  induction is generalizing s with
  | nil =>
      cases hrun
      exact h
  | cons i is ih =>
      simp only [Machine.runVia] at hrun
      split at hrun
      · obtain ⟨mid, hstep, hrest⟩ := Option.bind_eq_some_iff.mp hrun
        exact ih (h.step ‹_› hstep) hrest
      · cases hrun

theorem Reachable.run {is : List ι} (h : M.Reachable s) (hrun : M.run s is = some t) :
    M.Reachable t := by
  induction is generalizing s with
  | nil =>
      cases hrun
      exact h
  | cons i is ih =>
      obtain ⟨mid, hstep, hrest⟩ := Option.bind_eq_some_iff.mp hrun
      exact ih (ReachableVia.step h trivial hstep) hrest

end Machine
