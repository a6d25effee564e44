import RandServer.Lib.CWord

/-!
# The time driver

`tdriver.c`. The driver is told how many milliseconds have passed and carries what is left
of a second and of a tenth of a second from call to call, beginning with what passes between two
readings of the clock in `time_driver_init`. The seconds that the calls report add up
(`passes_sec`). `time_driver_get_new_100msec` does not return the tenths of a second
that a call completed but the milliseconds that are left over, so these results add up in
few runs only, and `timeDriver_conserves_iff` says in which.
-/

universe u

namespace RandServer

variable {τ : Type u}

/-- `time_driver`. The type `τ` stands for `struct tm`. -/
structure TimeDriver (τ : Type u) where
  utcBaseSeconds : Nat
  utcPassSeconds : Nat
  uClock : Nat
  secTick : Nat
  msec100Tick : Nat
  passSec : Nat
  pass100msec : Nat
  tmTime : τ

/-- `time_driver_pass_msec`. -/
def timeDriverPassMsec (localtime : Nat → τ) (td : TimeDriver τ) (msec : Nat) : TimeDriver τ :=
  let secTick := u32 (td.secTick + msec)
  let msec100Tick := u32 (td.msec100Tick + msec)
  let utcPassSeconds := u32 (td.utcPassSeconds + secTick / 1000)
  { td with
    secTick := secTick % 1000
    msec100Tick := msec100Tick % 100
    passSec := secTick / 1000
    pass100msec := msec100Tick / 100
    utcPassSeconds := utcPassSeconds
    tmTime := localtime ((utcPassSeconds + td.utcBaseSeconds) % 2 ^ 64) }

/-- `time_driver_update`, given two readings of `msec_clock`. The second one is used if the
first one lies before the last update. -/
def timeDriverUpdate (localtime : Nat → τ) (td : TimeDriver τ) (clock clock' : Nat) :
    TimeDriver τ :=
  if clock < td.uClock then
    let uTemp := if clock' < td.uClock then u32 clock' else u32 (clock' - td.uClock)
    timeDriverPassMsec localtime { td with uClock := clock' } uTemp
  else
    timeDriverPassMsec localtime { td with uClock := clock } (u32 (clock - td.uClock))

/-- `time_driver_init`, given the result of `time` and the readings of `msec_clock`. -/
def timeDriverInit (localtime : Nat → τ) (td : TimeDriver τ) (time clock clock' clock'' : Nat) :
    TimeDriver τ :=
  timeDriverUpdate localtime
    { td with
      secTick := 0
      msec100Tick := 0
      passSec := 0
      pass100msec := 0
      utcBaseSeconds := u32 time
      utcPassSeconds := 0
      uClock := clock }
    clock' clock''

/-- `time_driver_get_new_sec`. -/
def timeDriverGetNewSec (td : TimeDriver τ) : Nat := td.passSec

/-- `time_driver_get_new_100msec`. It returns the tick, not `pass_100msec`. -/
def timeDriverGetNew100msec (td : TimeDriver τ) : Nat := td.msec100Tick

namespace TimeDriver

/-- The driver after each of the increments. -/
def passes (localtime : Nat → τ) : TimeDriver τ → List Nat → List (TimeDriver τ)
  | _, [] => []
  | td, m :: ms =>
      timeDriverPassMsec localtime td m :: passes localtime (timeDriverPassMsec localtime td m) ms

/-- The driver after all increments. -/
def passAll (localtime : Nat → τ) (td : TimeDriver τ) (ms : List Nat) : TimeDriver τ :=
  ms.foldl (timeDriverPassMsec localtime) td

/-- What a clock says has passed since the last update. -/
def elapsed (uClock clock clock' : Nat) : Nat :=
  if clock < uClock then if clock' < uClock then u32 clock' else u32 (clock' - uClock)
  else u32 (clock - uClock)

/-- The counters, read after every step, add up to the time that has elapsed since the driver
had `start` milliseconds behind it. -/
structure Conserves (localtime : Nat → τ) (start : Nat) (td : TimeDriver τ) (ms : List Nat) :
    Prop where
  sec : ((passes localtime td ms).map timeDriverGetNewSec).sum =
    (start + ms.sum) / 1000 - start / 1000
  utc : (passAll localtime td ms).utcPassSeconds =
    u32 (td.utcPassSeconds + ((start + ms.sum) / 1000 - start / 1000))
  tenths : ((passes localtime td ms).map timeDriverGetNew100msec).sum =
    (start + ms.sum) / 100 - start / 100

/-- The increments that the code's counter gets right: together with the carried
milliseconds, a multiple of 101 below 10100. -/
def Coincide : Nat → List Nat → Prop
  | _, [] => True
  | tick, m :: ms => (tick + m) % 101 = 0 ∧ tick + m < 10100 ∧ Coincide ((tick + m) % 100) ms

variable {localtime : Nat → τ} {td : TimeDriver τ} {m : Nat} {ms : List Nat}

section PassMsec

variable (hsec : td.secTick < 1000) (hm : m + 999 < 2 ^ 32)

include hsec hm

theorem passMsec_secTick :
    (timeDriverPassMsec localtime td m).secTick = (td.secTick + m) % 1000 := by
  simp only [timeDriverPassMsec]
  rw [u32_of_lt (by omega)]

theorem passMsec_passSec :
    (timeDriverPassMsec localtime td m).passSec = (td.secTick + m) / 1000 := by
  simp only [timeDriverPassMsec]
  rw [u32_of_lt (by omega)]

theorem passMsec_utcPassSeconds : (timeDriverPassMsec localtime td m).utcPassSeconds =
    u32 (td.utcPassSeconds + (td.secTick + m) / 1000) := by
  simp only [timeDriverPassMsec]
  rw [u32_of_lt (x := td.secTick + m) (by omega)]

end PassMsec

theorem passMsec_msec100Tick (htick : td.msec100Tick < 100) (hm : m + 999 < 2 ^ 32) :
    (timeDriverPassMsec localtime td m).msec100Tick = (td.msec100Tick + m) % 100 := by
  simp only [timeDriverPassMsec]
  rw [u32_of_lt (by omega)]

/-- The reported seconds are those of the carried and the new milliseconds together. -/
theorem passes_sec (hms : ∀ m ∈ ms, m + 999 < 2 ^ 32) (hsec : td.secTick < 1000) :
    ((passes localtime td ms).map timeDriverGetNewSec).sum = (td.secTick + ms.sum) / 1000 := by
  induction ms generalizing td with
  | nil => simp [passes, Nat.div_eq_of_lt hsec]
  | cons m ms ih =>
      have hm := hms m List.mem_cons_self
      have htick := @passMsec_secTick τ localtime td m hsec hm
      have hrest := @ih (timeDriverPassMsec localtime td m)
        (fun m' hm' => hms m' (List.mem_cons_of_mem _ hm')) (by rw [htick]; omega)
      have hone : timeDriverGetNewSec (timeDriverPassMsec localtime td m) =
          (td.secTick + m) / 1000 :=
        passMsec_passSec hsec hm
      simp only [passes, List.map_cons, List.sum_cons, hrest, htick, hone]
      omega

theorem passAll_utcPassSeconds (hms : ∀ m ∈ ms, m + 999 < 2 ^ 32) (hsec : td.secTick < 1000)
    (hutc : td.utcPassSeconds < 2 ^ 32) : (passAll localtime td ms).utcPassSeconds =
      u32 (td.utcPassSeconds + (td.secTick + ms.sum) / 1000) := by
  induction ms generalizing td with
  | nil =>
      simp only [passAll, List.foldl_nil, List.sum_nil, Nat.add_zero, Nat.div_eq_of_lt hsec]
      exact (u32_of_lt hutc).symm
  | cons m ms ih =>
      have hm := hms m List.mem_cons_self
      have htick := @passMsec_secTick τ localtime td m hsec hm
      have hpass := @passMsec_utcPassSeconds τ localtime td m hsec hm
      have hrest := @ih (timeDriverPassMsec localtime td m)
        (fun m' hm' => hms m' (List.mem_cons_of_mem _ hm')) (by rw [htick]; omega)
        (by rw [hpass]; exact Nat.mod_lt _ (by decide))
      have hcarry : (td.secTick + m) / 1000 + ((td.secTick + m) % 1000 + ms.sum) / 1000 =
          (td.secTick + (m + ms.sum)) / 1000 := by omega
      change (passAll localtime (timeDriverPassMsec localtime td m) ms).utcPassSeconds = _
      rw [hrest, hpass, htick, List.sum_cons, u32, u32, Nat.mod_add_mod, Nat.add_assoc, hcarry]
      rfl

/-! ## Tenths of a second -/

/-- A remainder of 100 equals the quotient for multiples of 101 below 10100. -/
theorem mod_eq_div_iff (x : Nat) : x % 100 = x / 100 ↔ x % 101 = 0 ∧ x < 10100 := by omega

/-- The reported tenths are right after every step exactly if the increments coincide. -/
theorem passes_tenths_iff (hms : ∀ m ∈ ms, m + 999 < 2 ^ 32) (htick : td.msec100Tick < 100) :
    (∀ pre, pre <+: ms → ((passes localtime td pre).map timeDriverGetNew100msec).sum =
        (td.msec100Tick + pre.sum) / 100) ↔ Coincide td.msec100Tick ms := by
  induction ms generalizing td with
  | nil =>
      constructor
      · exact fun _ => trivial
      · intro _ pre hpre
        obtain rfl := List.prefix_nil.mp hpre
        simp [passes, Nat.div_eq_of_lt htick]
  | cons m ms ih =>
      have hm := hms m List.mem_cons_self
      have hnext := @passMsec_msec100Tick τ localtime td m htick hm
      have hrest := @ih (timeDriverPassMsec localtime td m)
        (fun m' hm' => hms m' (List.mem_cons_of_mem _ hm')) (by rw [hnext]; omega)
      have hone : timeDriverGetNew100msec (timeDriverPassMsec localtime td m) =
          (td.msec100Tick + m) % 100 := hnext
      rw [Coincide, ← hnext, ← hrest, ← and_assoc, ← mod_eq_div_iff]
      constructor
      · intro h
        have hfirst := h [m] (List.prefix_cons_inj m |>.mpr (List.nil_prefix))
        simp only [passes, List.map_cons, List.map_nil, List.sum_cons, List.sum_nil, hone] at hfirst
        refine ⟨by omega, fun pre hpre => ?_⟩
        have hpre' := h (m :: pre) ((List.prefix_cons_inj m).mpr hpre)
        simp only [passes, List.map_cons, List.sum_cons, hone] at hpre'
        rw [hnext]
        omega
      · rintro ⟨hfirst, hlater⟩ pre hpre
        cases pre with
        | nil => simp [passes, Nat.div_eq_of_lt htick]
        | cons m' pre =>
            obtain ⟨rfl, hrest'⟩ := List.cons_prefix_cons.mp hpre
            have hsum := hlater pre hrest'
            rw [hnext] at hsum
            simp only [passes, List.map_cons, List.sum_cons, hone, hsum]
            omega

theorem elapsed_lt (uClock clock clock' : Nat) : elapsed uClock clock clock' < 2 ^ 32 := by
  unfold elapsed
  split_ifs
  all_goals exact Nat.mod_lt _ (by decide)

/-- An update passes the milliseconds that have elapsed. -/
theorem update_eq (localtime : Nat → τ) (td : TimeDriver τ) (clock clock' : Nat) :
    ∃ uClock, timeDriverUpdate localtime td clock clock' =
      timeDriverPassMsec localtime { td with uClock := uClock }
        (elapsed td.uClock clock clock') := by
  unfold timeDriverUpdate elapsed
  split_ifs
  all_goals exact ⟨_, rfl⟩

/-- What initialization leaves of the milliseconds between its readings of the clock. -/
theorem init_fields (td : TimeDriver τ) (time clock clock' clock'' : Nat) :
    (timeDriverInit localtime td time clock clock' clock'').secTick =
        elapsed clock clock' clock'' % 1000 ∧
      (timeDriverInit localtime td time clock clock' clock'').msec100Tick =
        elapsed clock clock' clock'' % 100 ∧
      (timeDriverInit localtime td time clock clock' clock'').utcPassSeconds =
        elapsed clock clock' clock'' / 1000 := by
  have hlt := elapsed_lt clock clock' clock''
  rw [timeDriverInit]
  obtain ⟨uClock, hupdate⟩ := update_eq localtime
    { td with
      secTick := 0
      msec100Tick := 0
      passSec := 0
      pass100msec := 0
      utcBaseSeconds := u32 time
      utcPassSeconds := 0
      uClock := clock } clock' clock''
  rw [hupdate]
  simp only [timeDriverPassMsec, Nat.zero_add, u32_of_lt hlt]
  exact ⟨trivial, trivial, u32_of_lt (by omega)⟩

end TimeDriver

open TimeDriver

/-- From a fresh driver, the counters add up after every step exactly if each increment
together with the carried milliseconds is a multiple of 101 below 10100. -/
theorem timeDriver_conserves_iff (localtime : Nat → τ) (td : TimeDriver τ)
    (time clock clock' clock'' : Nat) {ms : List Nat} (hms : ∀ m ∈ ms, m + 999 < 2 ^ 32) :
    (∀ pre, pre <+: ms → Conserves localtime (elapsed clock clock' clock'')
      (timeDriverInit localtime td time clock clock' clock'') pre) ↔
      Coincide (elapsed clock clock' clock'' % 100) ms := by
  obtain ⟨hsec, htick, hutc⟩ := @init_fields τ localtime td time clock clock' clock''
  have hlt := elapsed_lt clock clock' clock''
  generalize timeDriverInit localtime td time clock clock' clock'' = fresh at hsec htick hutc ⊢
  generalize elapsed clock clock' clock'' = start at hsec htick hutc hlt ⊢
  have hiff := @passes_tenths_iff τ localtime fresh ms hms (by omega)
  rw [htick] at hiff
  rw [← hiff]
  have htenths : ∀ x, (start + x) / 100 - start / 100 = (start % 100 + x) / 100 := by omega
  have hseconds : ∀ x, (start + x) / 1000 - start / 1000 = (start % 1000 + x) / 1000 := by omega
  constructor
  · intro h pre hpre
    rw [(h pre hpre).tenths, htenths]
  · intro h pre hpre
    have hpre' : ∀ m ∈ pre, m + 999 < 2 ^ 32 := fun m hm => hms m (hpre.subset hm)
    refine ⟨?_, ?_, ?_⟩
    · rw [passes_sec hpre' (by omega), hsec, hseconds]
    · rw [passAll_utcPassSeconds hpre' (by omega) (by omega), hsec, hseconds]
    · rw [h pre hpre, htenths]

/-- A driver in memory that has not been initialized. -/
def TimeDriver.blank : TimeDriver Unit where
  utcBaseSeconds := 0
  utcPassSeconds := 0
  uClock := 0
  secTick := 0
  msec100Tick := 0
  passSec := 0
  pass100msec := 0
  tmTime := ()

/-- Two increments of 202 and 200 milliseconds, four tenths of a second. -/
theorem timeDriver_conserves_four : Conserves (fun _ => ()) 0
    (timeDriverInit (fun _ => ()) .blank 1700000000 5 5 5) [202, 200] :=
  (@timeDriver_conserves_iff Unit (fun _ => ()) .blank 1700000000 5 5 5
    [202, 200] (by decide)).mpr ⟨by decide, by decide, by decide, by decide, trivial⟩
      _ (List.prefix_refl _)

/-- A tenth of a second passes, and none is reported. -/
theorem timeDriver_loses_tenth : ¬ ∀ ms : List Nat, (∀ m ∈ ms, m + 999 < 2 ^ 32) →
    Conserves (fun _ => ()) 0 (timeDriverInit (fun _ => ()) .blank 1700000000 5 5 5) ms := by
  intro h
  have htenths := (h [100] (by decide)).tenths
  exact absurd htenths (by decide)

end RandServer
