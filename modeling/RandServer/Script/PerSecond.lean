import Mathlib.Algebra.Group.Int.Defs
import Mathlib.Algebra.Group.Nat.Defs
import Mathlib.Data.List.Basic

/-!
# Functions per hour, minute and second

`deriver_per_second` of `sec_tick.lua`. It means to select the functions of an hour or a
minute once, but it remembers only the day, so it selects them in every call. It does so
before it puts the new time into the environment, and it looks only whether a condition
raises an error, not at what it returns. The condition on the second is never evaluated.
-/

namespace RandServer

namespace PerSecond

/-- What `tdriver.get_UTC_tm` returns. -/
structure UtcTm where
  year : Int
  month : Int
  day : Int
  hour : Int
  minute : Int
  second : Int
  weekday : Int
  yearday : Int

/-- A condition, as a function of the environment, in which there is no time before the first
call. It raises an error, or what it returns is true or not. -/
abbrev Chunk := Option UtcTm → Option Bool

/-- An entry of `hour_funs` or `minute_funs`. The condition is missing if it cannot be loaded. -/
structure TimeFun where
  fn : Nat
  cond : Option Chunk

/-- An entry of `second_funs`. -/
structure SecondFun where
  fn : Nat
  minute : Option Chunk
  second : Option Chunk

/-- The module `m` with `time_env`. -/
structure State where
  hourFuns : List TimeFun
  minuteFuns : List TimeFun
  secondFuns : List SecondFun
  checkTime : Option Int
  curHourFuns : List TimeFun
  curMinuteFuns : List TimeFun
  curSecondFuns : List SecondFun
  timeEnv : Option UtcTm

/-- The state before the first call of the driver. -/
def start (hourFuns minuteFuns : List TimeFun) (secondFuns : List SecondFun) : State where
  hourFuns := hourFuns
  minuteFuns := minuteFuns
  secondFuns := secondFuns
  checkTime := none
  curHourFuns := []
  curMinuteFuns := []
  curSecondFuns := []
  timeEnv := none

/-- The first result of `try_catch` for a condition: that it raises no error. -/
def tryCatch (cond : Option Chunk) (env : Option UtcTm) : Bool := (cond.bind (· env)).isSome

/-- The functions that a call of the driver runs, in this order. -/
structure Ran where
  hour : List TimeFun
  minute : List TimeFun
  second : List SecondFun

/-- `deriver_per_second`. -/
def deriverPerSecond (s : State) (t : UtcTm) : Ran × State :=
  -- `m.check_time` is one value, so the other two variables are nil
  let checkDay := s.checkTime
  let checkHour : Option Int := none
  let checkMinut : Option Int := none
  let ch := checkDay ≠ some t.day ∨ checkHour ≠ some t.hour
  let cm := ch ∨ checkMinut ≠ some t.minute
  let curHourFuns :=
    if ch then s.hourFuns.filter (tryCatch ·.cond s.timeEnv) else s.curHourFuns
  let curMinuteFuns :=
    if cm then s.minuteFuns.filter (tryCatch ·.cond s.timeEnv) else s.curMinuteFuns
  let curSecondFuns :=
    if cm then s.secondFuns.filter (tryCatch ·.minute s.timeEnv) else s.curSecondFuns
  ({ hour := if t.second = 0 ∧ t.minute = 0 then curHourFuns else []
     minute := if t.second = 0 then curMinuteFuns else []
     second := curSecondFuns },
    { s with
      checkTime := some t.day
      curHourFuns := curHourFuns
      curMinuteFuns := curMinuteFuns
      curSecondFuns := curSecondFuns
      timeEnv := some t })

/-- The state after calls at certain times. -/
def after (s : State) (times : List UtcTm) : State :=
  times.foldl (fun s t => (deriverPerSecond s t).2) s

/-- The condition is true at a time. -/
def Holds (cond : Option Chunk) (t : UtcTm) : Prop := cond.bind (· (some t)) = some true

instance (cond : Option Chunk) (t : UtcTm) : Decidable (Holds cond t) :=
  inferInstanceAs (Decidable (_ = _))

/-- The functions whose conditions are true at the time. -/
def due (s : State) (t : UtcTm) : Ran where
  hour := if t.second = 0 ∧ t.minute = 0 then s.hourFuns.filter (Holds ·.cond t) else []
  minute := if t.second = 0 then s.minuteFuns.filter (Holds ·.cond t) else []
  second := s.secondFuns.filter fun v => Holds v.minute t ∧ Holds v.second t

/-- In the environment of the previous call, exactly those conditions raise no error that are
true at the time, and the conditions on the second go with those on the minute. -/
structure Agrees (s : State) (t : UtcTm) : Prop where
  hour : t.second = 0 → t.minute = 0 →
    ∀ v ∈ s.hourFuns, tryCatch v.cond s.timeEnv ↔ Holds v.cond t
  minute : t.second = 0 → ∀ v ∈ s.minuteFuns, tryCatch v.cond s.timeEnv ↔ Holds v.cond t
  second : ∀ v ∈ s.secondFuns,
    tryCatch v.minute s.timeEnv ↔ Holds v.minute t ∧ Holds v.second t

variable {s : State} {t : UtcTm} {times : List UtcTm}

/-- All functions are selected again in each call. -/
theorem deriverPerSecond_ran : (deriverPerSecond s t).1 =
    { hour := if t.second = 0 ∧ t.minute = 0 then s.hourFuns.filter (tryCatch ·.cond s.timeEnv) else []
      minute := if t.second = 0 then s.minuteFuns.filter (tryCatch ·.cond s.timeEnv) else []
      second := s.secondFuns.filter (tryCatch ·.minute s.timeEnv) } := by
  have hnone : ∀ x : Int, (none : Option Int) ≠ some x := fun _ => nofun
  simp only [deriverPerSecond, ne_eq, hnone, not_false_eq_true, or_true, if_true]

theorem filter_eq_iff {α : Type} {p q : α → Bool} {xs : List α} :
    xs.filter p = xs.filter q ↔ ∀ x ∈ xs, p x ↔ q x := by
  refine ⟨fun h x hx => ?_, fun h => List.filter_congr fun x hx => Bool.eq_iff_iff.mpr (h x hx)⟩
  have hmem : x ∈ xs.filter p ↔ x ∈ xs.filter q := by rw [h]
  simpa only [List.mem_filter, hx, true_and] using hmem

theorem ite_nil_eq_iff {α : Type} {c : Prop} [Decidable c] {xs ys : List α} :
    (if c then xs else []) = (if c then ys else []) ↔ (c → xs = ys) := by
  by_cases h : c
  · simp only [h, if_true, true_implies]
  · simp only [h, if_false, false_implies]

/-- One call runs what is due if and only if the conditions agree with its test. -/
theorem ran_eq_due_iff : (deriverPerSecond s t).1 = due s t ↔ Agrees s t := by
  simp only [deriverPerSecond_ran, due, Ran.mk.injEq, ite_nil_eq_iff, filter_eq_iff,
    decide_eq_true_eq]
  exact ⟨fun ⟨hhour, hminute, hsecond⟩ => ⟨fun hs hm => hhour ⟨hs, hm⟩, hminute, hsecond⟩,
    fun h => ⟨fun hsm => h.hour hsm.1 hsm.2, h.minute, h.second⟩⟩

/-- The functions stay registered, and the environment is that of the last call. -/
theorem after_eq : (after s times).hourFuns = s.hourFuns ∧
    (after s times).minuteFuns = s.minuteFuns ∧ (after s times).secondFuns = s.secondFuns ∧
    (after s times).timeEnv = times.getLast?.or s.timeEnv := by
  induction times generalizing s with
  | nil => exact ⟨rfl, rfl, rfl, rfl⟩
  | cons t times ih =>
      obtain ⟨hhour, hminute, hsecond, henv⟩ := @ih (deriverPerSecond s t).2
      refine ⟨hhour, hminute, hsecond, henv.trans ?_⟩
      rw [List.getLast?_cons]
      cases times.getLast? <;> rfl

end PerSecond

open PerSecond

/-- At each of some calls the driver runs the functions whose conditions are true if and only if
at each of them, in the environment of the call before, exactly these conditions raise no
error. -/
theorem perSecond_due_iff (hourFuns minuteFuns : List TimeFun) (secondFuns : List SecondFun)
    (times : List UtcTm) :
    (∀ pre t post, times = pre ++ t :: post →
      (deriverPerSecond (after (start hourFuns minuteFuns secondFuns) pre) t).1 =
        due (start hourFuns minuteFuns secondFuns) t) ↔
    ∀ pre t post, times = pre ++ t :: post →
      Agrees { start hourFuns minuteFuns secondFuns with timeEnv := pre.getLast? } t := by
  have hcall : ∀ pre t, (deriverPerSecond (after (start hourFuns minuteFuns secondFuns) pre) t).1 =
      due (start hourFuns minuteFuns secondFuns) t ↔
      Agrees { start hourFuns minuteFuns secondFuns with timeEnv := pre.getLast? } t := by
    intro pre t
    obtain ⟨hhour, hminute, hsecond, henv⟩ := @after_eq (start hourFuns minuteFuns secondFuns) pre
    have henv' : pre.getLast?.or (start hourFuns minuteFuns secondFuns).timeEnv = pre.getLast? :=
      Option.or_none
    rw [← ran_eq_due_iff, deriverPerSecond_ran, deriverPerSecond_ran, hhour, hminute, hsecond, henv,
      henv']
    rfl
  simp only [hcall]

/-- Midnight of the first of January 1970. -/
def epoch : UtcTm where
  year := 70
  month := 0
  day := 1
  hour := 0
  minute := 0
  second := 0
  weekday := 4
  yearday := 0

/-- `return H == 5`. -/
def atFive : Chunk := fun env => some (env.any fun t => t.hour == 5)

/-- A function for five o'clock runs at midnight. -/
theorem perSecond_runs_early : ¬ ∀ (hourFuns minuteFuns : List TimeFun) (secondFuns : List SecondFun)
    (times : List UtcTm) (pre : List UtcTm) (t : UtcTm) (post : List UtcTm),
    times = pre ++ t :: post →
      (deriverPerSecond (after (start hourFuns minuteFuns secondFuns) pre) t).1 =
        due (start hourFuns minuteFuns secondFuns) t := by
  intro h
  have hran := congrArg (fun ran => ran.hour.map TimeFun.fn)
    (h [⟨7, some atFive⟩] [] [] [epoch] [] epoch [] rfl)
  exact absurd hran (by decide)

end RandServer
