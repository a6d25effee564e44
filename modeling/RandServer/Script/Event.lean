import Mathlib.Data.List.Basic
import Mathlib.Logic.Function.Basic

/-!
# Events

`event.lua`. `trigger_fun` wants to protect every call with `log.try_catch`. But `try_catch`
is a global function of `log.lua`, and the module that this file returns has no such field.
So the first call is one of `nil`, which raises an error before the function is called.
-/

namespace RandServer

namespace Event

/-- A call that registers a function for an event, or takes it off the list. -/
inductive Call
  | reg (eventType : Nat) (fn : Nat)
  | unreg (eventType : Nat) (fn : Nat)

def Call.eventType : Call → Nat
  | reg eventType _ => eventType
  | unreg eventType _ => eventType

/-- The lists in the module `m`. -/
abbrev Funs := Nat → Option (List Nat)

/-- `reg_fun`. -/
def regFun (m : Funs) (eventType fn : Nat) : Funs :=
  Function.update m eventType (some ((m eventType).getD [] ++ [fn]))

/-- `unreg_fun`. -/
def unregFun (m : Funs) (eventType fn : Nat) : Funs :=
  match m eventType with
  | none => m
  | some funs => Function.update m eventType (some (funs.erase fn))

def Call.run (m : Funs) : Call → Funs
  | reg eventType fn => regFun m eventType fn
  | unreg eventType fn => unregFun m eventType fn

/-- The lists after some calls. -/
def runCalls (m : Funs) (calls : List Call) : Funs := calls.foldl Call.run m

/-- What a function does when it is called, which may depend on all functions that have been
called up to then. -/
structure Behaviour where
  calls : List Nat → List Call
  raises : List Nat → Bool

/-- The lists, and the functions that have been called. -/
structure State where
  funs : Funs
  called : List Nat

/-- Call a function. The flag says whether it raises an error. -/
def callFun (b : Behaviour) (s : State) (fn : Nat) : State × Bool :=
  let called := s.called ++ [fn]
  ({ funs := runCalls s.funs (b.calls called), called := called }, b.raises called)

/-- The field `try_catch` of the module `log`, if there is one. -/
structure LogModule where
  tryCatch : Option (State × Bool → State)

/-- The module that `log.lua` returns has the field `to_string` only. -/
def logModule : LogModule where
  tryCatch := none

/-- The global `try_catch`, which drops the error of a function. -/
def tryCatch (res : State × Bool) : State := res.1

/-- The loop of `trigger_fun` from an index on, with the list as it is at each turn. The flag says
whether it ends with an error. -/
def triggerLoop (log : LogModule) (b : Behaviour) (eventType : Nat) :
    Nat → Nat → State → Option (State × Bool)
  | 0, _, _ => none
  | fuel + 1, i, s =>
      match ((s.funs eventType).getD [])[i]? with
      | none => some (s, false)
      | some fn =>
          match log.tryCatch with
          | none => some (s, true)
          | some tryCatch => triggerLoop log b eventType fuel (i + 1) (tryCatch (callFun b s fn))

def triggerFun (log : LogModule) (b : Behaviour) (fuel : Nat) (m : Funs) (eventType : Nat) :
    Option (State × Bool) :=
  match m eventType with
  | none => some (⟨m, []⟩, false)
  | some _ => triggerLoop log b eventType fuel 0 ⟨m, []⟩

/-- Call each of some functions that is still registered when its turn comes. -/
def notify (b : Behaviour) (eventType : Nat) : List Nat → State → State
  | [], s => s
  | fn :: fns, s =>
      if fn ∈ (s.funs eventType).getD [] then notify b eventType fns (callFun b s fn).1
      else notify b eventType fns s

/-- `trigger_fun` ends, and has called each function once that was registered when it started
and was still registered when its turn came. -/
def CallsListeners (log : LogModule) (b : Behaviour) (m : Funs) (eventType : Nat) : Prop :=
  ∃ fuel res, triggerFun log b fuel m eventType = some res ∧
    res.1.called = (notify b eventType ((m eventType).getD []).eraseDups ⟨m, []⟩).called

variable {b : Behaviour} {m : Funs} {s : State} {eventType fn : Nat} {fns : List Nat}

theorem called_prefix_notify : s.called <+: (notify b eventType fns s).called := by
  induction fns generalizing s with
  | nil => exact List.prefix_refl _
  | cons fn fns ih =>
      rw [notify]
      split
      · have hrest := @ih (callFun b s fn).1
        exact (List.prefix_append s.called [fn]).trans hrest
      · exact ih

/-- The first function has its turn before any other can take it off the list. -/
theorem notify_cons_ne_nil (h : fn ∈ (s.funs eventType).getD []) :
    (notify b eventType (fn :: fns) s).called ≠ [] := by
  rw [notify, if_pos h]
  intro hnil
  have hprefix := @called_prefix_notify b (callFun b s fn).1 eventType fns
  rw [hnil] at hprefix
  exact absurd (List.prefix_nil.mp hprefix) (by simp [callFun])

/-- Without `log.try_catch` nothing is called. -/
theorem triggerFun_called {fuel : Nat} {res : State × Bool}
    (h : triggerFun logModule b fuel m eventType = some res) : res.1.called = [] := by
  unfold triggerFun at h
  split at h
  · cases h
    rfl
  · cases fuel with
    | zero => cases h
    | succ fuel =>
        rw [triggerLoop] at h
        split at h
        · cases h
          rfl
        · cases h
          rfl

/-! ## With the global function in its place -/

/-- A function that is called leaves the list of an event that it makes no calls for. -/
theorem runCalls_of_ne {calls : List Call} (h : ∀ c ∈ calls, c.eventType ≠ eventType) :
    runCalls m calls eventType = m eventType := by
  induction calls generalizing m with
  | nil => rfl
  | cons c calls ih =>
      rw [List.forall_mem_cons] at h
      have hrest := @ih (c.run m) h.2
      refine hrest.trans ?_
      cases c with
      | reg ev fn => exact Function.update_of_ne (Ne.symm h.1) _ _
      | unreg ev fn =>
          show unregFun m ev fn eventType = m eventType
          unfold unregFun
          cases m ev with
          | none => rfl
          | some funs => exact Function.update_of_ne (Ne.symm h.1) _ _

theorem triggerLoop_eq_notify {pre : List Nat}
    (hquiet : ∀ called, ∀ c ∈ b.calls called, c.eventType ≠ eventType)
    (hlist : s.funs eventType = some (pre ++ fns)) :
    triggerLoop ⟨some tryCatch⟩ b eventType (fns.length + 1) pre.length s =
      some (notify b eventType fns s, false) := by
  induction fns generalizing pre s with
  | nil => simp only [triggerLoop, hlist, Option.getD_some, List.append_nil, List.getElem?_length,
      notify]
  | cons fn fns ih =>
      have hget : (pre ++ fn :: fns)[pre.length]? = some fn := by
        rw [List.getElem?_append_right (Nat.le_refl _), Nat.sub_self]
        rfl
      have hmem : fn ∈ pre ++ fn :: fns := List.mem_append_right _ List.mem_cons_self
      have hnext : (callFun b s fn).1.funs eventType = some ((pre ++ [fn]) ++ fns) := by
        refine (runCalls_of_ne (hquiet _)).trans (hlist.trans ?_)
        rw [List.append_assoc]
        rfl
      have hrest := @ih (callFun b s fn).1 (pre ++ [fn]) hnext
      rw [List.length_append] at hrest
      rw [List.length_cons, triggerLoop, hlist, Option.getD_some, hget, notify, hlist,
        Option.getD_some, if_pos hmem]
      exact hrest

/-- With the global `try_catch` all functions are called, whatever errors they raise, as long as
they leave the list alone. -/
theorem callsListeners_tryCatch (hquiet : ∀ called, ∀ c ∈ b.calls called, c.eventType ≠ eventType)
    (hlist : m eventType = some fns) (hnodup : fns.eraseDups = fns) :
    CallsListeners ⟨some tryCatch⟩ b m eventType := by
  refine ⟨fns.length + 1, (notify b eventType fns ⟨m, []⟩, false), ?_, ?_⟩
  · unfold triggerFun
    rw [hlist]
    exact @triggerLoop_eq_notify b ⟨m, []⟩ eventType fns [] hquiet hlist
  · rw [hlist, Option.getD_some, hnodup]

end Event

open Event

/-- After any calls of `reg_fun` and `unreg_fun`, `trigger_fun` calls the functions if and only if
there are none. -/
theorem trigger_calls_iff (calls : List Call) (b : Behaviour) (eventType : Nat) :
    CallsListeners logModule b (runCalls (fun _ => none) calls) eventType ↔
      (runCalls (fun _ => none) calls eventType).getD [] = [] := by
  generalize runCalls (fun _ => none) calls = m
  constructor
  · rintro ⟨fuel, res, hres, hcalled⟩
    rw [triggerFun_called hres] at hcalled
    cases hlist : (m eventType).getD [] with
    | nil => rfl
    | cons fn fns =>
        rw [hlist, List.eraseDups_cons] at hcalled
        refine absurd hcalled.symm (notify_cons_ne_nil ?_)
        rw [hlist]
        exact List.mem_cons_self
  · intro hnil
    rw [CallsListeners, hnil]
    refine ⟨1, (⟨m, []⟩, false), ?_, rfl⟩
    unfold triggerFun
    split
    · rfl
    · simp only [triggerLoop, hnil, List.getElem?_nil]

/-- One function is registered, and not called. -/
theorem trigger_calls_none : ¬ ∀ (calls : List Call) (b : Behaviour) (eventType : Nat),
    CallsListeners logModule b (runCalls (fun _ => none) calls) eventType := by
  intro h
  obtain ⟨fuel, res, hres, hcalled⟩ := h [.reg 1 7] ⟨fun _ => [], fun _ => false⟩ 1
  rw [triggerFun_called hres] at hcalled
  exact absurd hcalled (by decide)

end RandServer
