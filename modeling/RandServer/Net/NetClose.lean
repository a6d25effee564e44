import RandServer.Net.Descriptors

/-!
# Closing a service

`net_close` runs when no other thread uses the service. It closes the sessions in the slots
without sending their rests, takes all ids off the delay queue, and then waits for the
sessions that are in `close_root` from earlier on. It does not wait any longer once
`epoll_wait` fails.
-/

namespace RandServer

open KeySeq

namespace Descriptors

/-- `net_socket_close`, with its two critical sections. -/
def netSocketClose (s : Descriptors) (t nd : Nat) (sendRest : Bool) (sys : Syscalls) :
    Option Descriptors := do
  let s ← s.step (.clear t nd sendRest sys)
  match s.registry.threads t with
  | .pendingRelease _ => s.step (.release t)
  | _ => some s

/-- The first loop of `net_close`, over these slots. -/
def netCloseSlots (t : Nat) (sys : Syscalls) (s : Descriptors) : List Nat → Option Descriptors
  | [] => some s
  | index :: slots =>
      let id := ffidId s.service.socketIds index
      (if id = 0 then some s else s.netSocketClose t id false sys).bind fun s =>
        netCloseSlots t sys s slots

/-- The second loop of `net_close`. Every call of `net_delay` but the last takes an id off the
queue, which bounds the fuel. -/
def netCloseDelay (sys : Syscalls) (s : NetService) : Nat → Option NetService
  | 0 => none
  | fuel + 1 => do
      let (cnt, s) ← netDelay s (List.replicate 1024 sys)
      if 0 < cnt then netCloseDelay sys s fuel else some s

/-- `net_close` up to its last loop. -/
def netCloseStart (t : Nat) (sys : Syscalls) (s : Descriptors) : Option Descriptors := do
  let s ← netCloseSlots t sys s (List.range s.service.size)
  let service ← netCloseDelay sys s.service (s.service.delayQueue.items.length + 1)
  some (s.setService service)

/-- One event of `net_wait`, with its two parts. -/
def netWaitOne (s : Descriptors) (id : Nat) (events : PollEvents) (connected : Bool)
    (sys : Syscalls) : Option Descriptors := do
  let s ← s.step (.wait id events connected sys)
  let index := ffidIndex s.service.socketIds id
  if (s.found index).isSome then s.step (.rest index sys) else some s

/-- No thread is opening, adding or closing a session, or in the middle of an event. -/
structure Idle (s : Descriptors) : Prop where
  threads : ∀ t, s.registry.threads t = .idle ∧ s.opening t = none
  found : ∀ index, s.found index = none

end Descriptors

/-- The last loop of `net_close`. `ended` says whether it is left because of an error. -/
structure NetClosing where
  state : Descriptors
  ended : Option Bool

namespace NetClosing

/-- An event of `net_wait`, a call without events, and a call that fails. -/
inductive Action
  | event (id : Nat) (events : PollEvents) (connected : Bool) (sys : Syscalls)
  | timeout
  | error

def step (s : NetClosing) (a : Action) : Option NetClosing :=
  if s.ended.isSome then none
  else
    match a with
    | .event id events connected sys =>
        (s.state.netWaitOne id events connected sys).map fun state => { s with state := state }
    | .timeout =>
        some { s with ended := if s.state.service.closeRoot.isNil then some false else none }
    | .error => some { s with ended := some true }

/-- The sessions in `close_root` can be removed from there when they are released. -/
def Kept (s : NetClosing) : Action → Prop
  | .event id events connected sys => ∀ t, s.state.step (.wait id events connected sys) = some t →
      t.Kept (.rest (ffidIndex t.service.socketIds id) sys)
  | _ => True

/-- The open sockets are those of the sessions in `close_root`, and all sockets are closed
unless `epoll_wait` has failed. -/
structure Closes (s : NetClosing) : Prop where
  rests : ∀ fd, fd ∈ s.state.opened ↔
    ∃ id, HasKey id s.state.service.closeRoot.inOrder ∧ (s.state.rests id).fd = fd
  nodup : s.state.opened.Nodup
  stray : s.state.stray = []
  ended : s.ended = some false → s.state.opened = []

end NetClosing

/-- The last loop of `net_close`, from a state that the loops before it leave. -/
def netClosing (s : Descriptors) : Machine NetClosing NetClosing.Action where
  Init v := v = { state := s, ended := none }
  step := NetClosing.step

namespace Descriptors

variable {s s' : Descriptors} {t nd : Nat} {sys : Syscalls}

/-! ## The slots -/

/-- Slots have been emptied without a rest to send. -/
structure Emptied (s s' : Descriptors) : Prop where
  reached : descriptors.ReachableVia Kept s'
  idle : s'.Idle
  closeRoot : s'.service.closeRoot = s.service.closeRoot
  size : s'.service.size = s.service.size
  slots : ∀ i, s.service.sessions i = none → s'.service.sessions i = none

theorem Emptied.trans {s₁ : Descriptors} (h₁ : Emptied s s₁) (h₂ : Emptied s₁ s') :
    Emptied s s' where
  reached := h₂.reached
  idle := h₂.idle
  closeRoot := h₂.closeRoot.trans h₁.closeRoot
  size := h₂.size.trans h₁.size
  slots := fun i hi => h₂.slots i (h₁.slots i hi)

/-- Without a rest to send the first critical section always has a result. -/
theorem registry_clear_isSome (r : Registry) (hidle : r.threads t = .idle) :
    ∃ r', r.step (.clear t nd false sys) = some r' := by
  simp only [Registry.step, hidle]
  by_cases hnd : nd = 0
  · exact ⟨_, if_pos hnd⟩
  rw [if_neg hnd]
  obtain ⟨res, hres⟩ : ∃ res, netSocketCloseClear r.service nd false sys = some res := by
    cases hi : r.service.sessions (ffidIndex r.service.socketIds nd) with
    | none =>
        simp only [netSocketCloseClear, hi]
        exact ⟨_, rfl⟩
    | some session =>
        simp only [netSocketCloseClear, hi, Bool.false_eq_true, if_false, Option.map_some]
        split
        · exact ⟨_, rfl⟩
        · exact ⟨_, rfl⟩
  rw [hres]
  exact ⟨_, rfl⟩

/-- The second critical section always has a result. -/
theorem release_of_pending (hpending : s.registry.threads t = .pendingRelease nd) :
    ∃ s', s.step (.release t) = some s' ∧ s'.service = netSocketCloseRelease s.service nd ∧
      s'.registry.threads = Function.update s.registry.threads t .idle ∧
      s'.opening = s.opening ∧ s'.found = s.found := by
  refine ⟨{ s with registry := { s.registry.setThread t .idle with
    service := netSocketCloseRelease s.registry.service nd
    deleted := Function.update s.registry.deleted nd (s.registry.deleted nd + 1) } },
    ?_, rfl, rfl, rfl, rfl⟩
  simp only [step, Registry.step, hpending, Option.map_some]

/-- Closing the session of a handle empties its slot. -/
theorem netSocketClose_emptied (h : descriptors.ReachableVia Kept s) (hidle : s.Idle) :
    ∃ s', s.netSocketClose t nd false sys = some s' ∧ Emptied s s' ∧
      (∀ session, s.service.sessions (ffidIndex s.service.socketIds nd) = some session →
        session.id = nd → nd ≠ 0 →
          s'.service.sessions (ffidIndex s.service.socketIds nd) = none) := by
  have hkept : s.Kept (.clear t nd false sys) := fun hno => absurd hno Bool.false_ne_true
  obtain ⟨r, hr⟩ := @registry_clear_isSome t nd sys s.registry (hidle.threads t).1
  rcases registry_clear hr with ⟨rfl, hnone⟩ |
    ⟨-, session, u, session', hslot, hid, hsame, hsome, rfl, hposted⟩
  · have hclear : s.step (.clear t nd false sys) = some s := by
      simp only [step, clear, hr, Option.bind_eq_bind, Option.bind_some, service, hnone]
    refine ⟨s, ?_, ⟨h, hidle, rfl, rfl, fun _ hi => hi⟩, ?_⟩
    · simp only [netSocketClose, hclear, Option.bind_eq_bind, Option.bind_some,
        (hidle.threads t).1]
    · intro session hslot hid hnd
      have hfilter : (some session).filter (fun session => decide (session.id = nd)) =
          some session := by
        rw [Option.filter_some, if_pos (decide_eq_true hid)]
      have hslot : s.registry.service.sessions (ffidIndex s.registry.service.socketIds nd) =
          some session := hslot
      simp only [closing, if_neg hnd, hslot, hfilter, Option.bind_some, Bool.false_eq_true,
        if_false, reduceCtorEq] at hnone
  · have hrest : EpollClose.posted session' = false := by
      cases hyes : EpollClose.posted session' with
      | false => rfl
      | true => cases hposted hyes
    generalize hindex : ffidIndex s.registry.service.socketIds nd = index at *
    generalize hdetach : netSocketCloseDetach u index nd false sys.alloc session' = v at *
    let s₁ : Descriptors := closeFd { s with registry :=
      { s.registry.setThread t (.pendingRelease nd) with service := v } } session'.fd
    have hclear : s.step (.clear t nd false sys) = some s₁ := by
      simp only [step, clear, hr, Option.bind_eq_bind, Option.bind_some, service, hsome, hrest,
        Bool.false_eq_true, if_false, s₁]
    have hpending : s₁.registry.threads t = .pendingRelease nd := by
      rw [closeFd_registry]
      exact Registry.setThread_self _ _ _
    obtain ⟨s₂, hrelease, hservice, hthreads, hopening, hfound⟩ := release_of_pending hpending
    have hservice : s₂.service = netSocketCloseRelease v nd := by
      rw [hservice, closeFd_service]
      rfl
    have hopening : s₂.opening = s.opening := hopening.trans (closeFd_opening _ _)
    have hfound : s₂.found = s.found := hfound.trans (closeFd_found _ _)
    have hreach : descriptors.ReachableVia Kept s₂ :=
      .step (i := .release t) (.step (i := .clear t nd false sys) h hkept hclear) trivial hrelease
    have hsessions := @sessions_detach u session' index nd false sys.alloc
    have hroot := @closeRoot_detach u session' index nd false sys.alloc
    have hsize := @size_detach u session' index nd false sys.alloc
    rw [hdetach, hsame.slots] at hsessions
    rw [hdetach, hrest, if_neg Bool.false_ne_true, hsame.closeRoot] at hroot
    rw [hdetach, hsame.size] at hsize
    refine ⟨s₂, ?_, ⟨hreach, ⟨fun t' => ⟨?_, ?_⟩, fun index => ?_⟩, ?_, ?_, fun i hi => ?_⟩,
      fun _ _ _ _ => ?_⟩
    · simp only [netSocketClose, hclear, Option.bind_eq_bind, Option.bind_some, hpending, hrelease]
    · rw [hthreads, closeFd_registry]
      by_cases heq : t' = t
      · rw [heq, Function.update_self]
      · rw [Function.update_of_ne heq]
        exact (Registry.setThread_of_ne _ _ heq).trans (hidle.threads t').1
    · rw [hopening]
      exact (hidle.threads t').2
    · rw [hfound]
      exact hidle.found index
    · rw [hservice]
      exact hroot
    · rw [hservice]
      exact hsize
    · rw [hservice]
      show v.sessions i = none
      rw [hsessions]
      by_cases heq : i = index
      · rw [heq, Function.update_self]
      · rw [Function.update_of_ne heq]
        exact hi
    · rw [hservice]
      show v.sessions (ffidIndex s.registry.service.socketIds nd) = none
      rw [hsessions, hindex, Function.update_self]

/-- The id of a session can be found from its slot. -/
theorem ffidId_of_slot (h : s.Inv) {i : Nat} {session : NetSession}
    (hi : s.service.sessions i = some session) :
    ffidId s.service.socketIds i = session.id ∧ session.id ≠ 0 ∧
      ffidIndex s.service.socketIds session.id = i := by
  obtain ⟨free, hreg⟩ := h.registry
  have hown : s.registry.Owns i session.id .session := ⟨session, hi, rfl⟩
  obtain ⟨hlt, hnot, hcell⟩ := hreg.owned i session.id .session hown
  obtain ⟨hid, -, hindex⟩ := hreg.owner_live hown
  have hpos : 0 < session.id := by omega
  have hmod := hreg.rep.ffidIndex_eq hpos hid
  rw [hindex, ← hcell, Nat.add_sub_cancel] at hmod
  refine ⟨?_, by omega, hindex⟩
  have hcell : s.service.socketIds.ts i + 1 = session.id := hcell
  have hmax : s.service.socketIds.maxSize = s.service.size := hreg.rep.maxSize
  have hmod : s.service.socketIds.ts i % s.service.size = i := hmod.symm
  rw [ffidId, hmax, if_neg (Nat.not_le_of_lt hlt), hmod, if_neg (not_not.mpr rfl), hcell]
  exact Nat.mod_eq_of_lt hid

theorem netCloseSlots_emptied {slots : List Nat} (h : descriptors.ReachableVia Kept s)
    (hidle : s.Idle) :
    ∃ s', s.netCloseSlots t sys slots = some s' ∧ Emptied s s' ∧
      ∀ i ∈ slots, s'.service.sessions i = none := by
  induction slots generalizing s with
  | nil =>
      exact ⟨s, rfl, ⟨h, hidle, rfl, rfl, fun _ hi => hi⟩,
        fun i hi => absurd hi List.not_mem_nil⟩
  | cons index slots ih =>
      -- the slot is empty after its turn
      obtain ⟨s₁, hclose, hemptied, hnone⟩ : ∃ s₁,
          (if ffidId s.service.socketIds index = 0 then some s
            else s.netSocketClose t (ffidId s.service.socketIds index) false sys) = some s₁ ∧
          Emptied s s₁ ∧ s₁.service.sessions index = none := by
        cases hi : s.service.sessions index with
        | none =>
            split
            · exact ⟨s, rfl, ⟨h, hidle, rfl, rfl, fun _ hi => hi⟩, hi⟩
            · obtain ⟨s₁, hclose, hemptied, -⟩ := netSocketClose_emptied h hidle
              exact ⟨s₁, hclose, hemptied, hemptied.slots index hi⟩
        | some session =>
            obtain ⟨hid, hzero, hindex⟩ := ffidId_of_slot (inv_of_reachable h) hi
            rw [hid, if_neg hzero]
            obtain ⟨s₁, hclose, hemptied, hnone⟩ :=
              @netSocketClose_emptied s t session.id sys h hidle
            rw [hindex] at hnone
            exact ⟨s₁, hclose, hemptied, hnone session hi rfl hzero⟩
      obtain ⟨s', hrest, hemptied', hall⟩ := ih hemptied.reached hemptied.idle
      refine ⟨s', ?_, hemptied.trans hemptied', fun i hi => ?_⟩
      · simp only [netCloseSlots, hclose, Option.bind_some, hrest]
      · obtain rfl | hi := List.mem_cons.mp hi
        · exact hemptied'.slots i hnone
        · exact hall i hi

/-! ## The delay queue -/

/-- `net_delay` is a part of a run. -/
theorem netDelay_reachable {calls : List Syscalls} {cnt : Nat} {v : NetService}
    (h : descriptors.ReachableVia Kept s) (hv : netDelay s.service calls = some (cnt, v)) :
    descriptors.ReachableVia Kept (s.setService v) := by
  induction calls generalizing s cnt v with
  | nil =>
      cases hv
      exact h
  | cons sys calls ih =>
      obtain ⟨⟨taken, u⟩, hone, hv⟩ := Option.bind_eq_some_iff.mp hv
      have hstep : descriptors.ReachableVia Kept (s.setService u) := by
        refine .step (i := .call (.delay sys)) h trivial ?_
        show (Option.map _ _).map _ = _
        rw [hone]
        rfl
      dsimp only at hv
      split at hv
      · obtain ⟨⟨cnt', w⟩, hrest, heq⟩ := Option.bind_eq_some_iff.mp hv
        cases heq
        have hreach := ih hstep hrest
        exact hreach
      · cases hv
        exact hstep

/-- Without sessions `net_delay` only takes ids off the queue. -/
theorem netDelay_empty {v : NetService} (hempty : ∀ i, v.sessions i = none)
    (calls : List Syscalls) :
    ∃ w, netDelay v calls = some (min calls.length v.delayQueue.items.length, w) ∧
      w.delayQueue.items = v.delayQueue.items.drop calls.length ∧
      w.sessions = v.sessions ∧ w.closeRoot = v.closeRoot := by
  induction calls generalizing v with
  | nil => exact ⟨v, by simp [netDelay], rfl, rfl, rfl⟩
  | cons sys calls ih =>
      cases hitems : v.delayQueue.items with
      | nil =>
          have hpop : v.delayQueue.pop 1 = ([], (v.delayQueue.pop 1).2) :=
            Prod.ext (by simp [BoundedQueue.pop, hitems]) rfl
          refine ⟨v, ?_, ?_, rfl, rfl⟩
          · rw [netDelay, netDelayOne, hpop]
            rfl
          · rw [hitems]
            rfl
      | cons id ids =>
          have hpop : v.delayQueue.pop 1 = ([id], (v.delayQueue.pop 1).2) :=
            Prod.ext (by simp [BoundedQueue.pop, hitems]) rfl
          have hone : netDelayOne v sys =
              some (true, { v with delayQueue := (v.delayQueue.pop 1).2 }) := by
            rw [netDelayOne, hpop]
            simp only [hempty]
          have hrest : (v.delayQueue.pop 1).2.items = ids := by simp [BoundedQueue.pop, hitems]
          obtain ⟨w, hw, hqueue, hsessions, hroot⟩ :=
            @ih { v with delayQueue := (v.delayQueue.pop 1).2 } hempty
          refine ⟨w, ?_, ?_, hsessions, hroot⟩
          · simp only [netDelay, hone, Option.bind_eq_bind, Option.bind_some, if_true, hw]
            rw [hrest, List.length_cons, List.length_cons, Nat.succ_min_succ]
          · rw [hqueue]
            show (v.delayQueue.pop 1).2.items.drop _ = _
            rw [hrest]
            rfl

theorem netCloseDelay_empty (h : descriptors.ReachableVia Kept s)
    (hempty : ∀ i, s.service.sessions i = none) {fuel : Nat}
    (hfuel : s.service.delayQueue.items.length < fuel) :
    ∃ v, netCloseDelay sys s.service fuel = some v ∧ v.delayQueue.items = [] ∧
      v.sessions = s.service.sessions ∧ v.closeRoot = s.service.closeRoot ∧
      descriptors.ReachableVia Kept (s.setService v) := by
  induction fuel generalizing s with
  | zero => exact absurd hfuel (Nat.not_lt_zero _)
  | succ fuel ih =>
      obtain ⟨w, hw, hqueue, hsessions, hroot⟩ :=
        netDelay_empty hempty (List.replicate 1024 sys)
      have hreach := netDelay_reachable h hw
      rw [List.length_replicate] at hw hqueue
      simp only [netCloseDelay, hw, Option.bind_eq_bind, Option.bind_some]
      by_cases hmore : 0 < s.service.delayQueue.items.length
      · rw [if_pos (lt_min (by decide) hmore)]
        obtain ⟨v, hv, hdone, hsessions', hroot', hreach'⟩ := @ih (s.setService w) hreach
          (fun i => by rw [← hempty i, ← hsessions]; rfl) (by
            show w.delayQueue.items.length < fuel
            rw [hqueue, List.length_drop]
            omega)
        exact ⟨v, hv, hdone, hsessions'.trans hsessions, hroot'.trans hroot, hreach'⟩
      · have hnil : s.service.delayQueue.items = [] :=
          List.length_eq_zero_iff.mp (Nat.eq_zero_of_not_pos hmore)
        rw [if_neg (fun hpos => hmore (lt_min_iff.mp hpos).2)]
        refine ⟨w, rfl, ?_, hsessions, hroot, hreach⟩
        rw [hqueue, hnil]
        rfl

/-- The first two loops end, with empty slots and an empty delay queue. -/
theorem netCloseStart_empty (h : descriptors.ReachableVia Kept s) (hidle : s.Idle) :
    ∃ v, s.netCloseStart t sys = some v ∧ descriptors.ReachableVia Kept v ∧ v.Idle ∧
      v.service.delayQueue.items = [] ∧ v.service.closeRoot = s.service.closeRoot ∧
      ∀ i, v.service.sessions i = none := by
  obtain ⟨s₁, hslots, hemptied, hnone⟩ :=
    @netCloseSlots_emptied s t sys (List.range s.service.size) h hidle
  have hall : ∀ i, s₁.service.sessions i = none := by
    intro i
    by_cases hi : i < s.service.size
    · exact hnone i (List.mem_range.mpr hi)
    · refine hemptied.slots i ?_
      cases hslot : s.service.sessions i with
      | none => rfl
      | some session =>
          obtain ⟨free, hreg⟩ := (inv_of_reachable h).registry
          exact absurd (hreg.owned i session.id .session ⟨session, hslot, rfl⟩).1 hi
  obtain ⟨v, hdelay, hqueue, hsessions, hroot, hreach⟩ :=
    @netCloseDelay_empty s₁ sys hemptied.reached hall _ (Nat.lt_succ_self _)
  refine ⟨s₁.setService v, ?_, hreach, ⟨hemptied.idle.threads, hemptied.idle.found⟩, hqueue,
    hroot.trans hemptied.closeRoot,
    fun i => (congrFun hsessions i).trans (hall i)⟩
  simp only [netCloseStart, hslots, hdelay, Option.bind_eq_bind, Option.bind_some]

end Descriptors

/-! ## The last loop -/

namespace NetClosing

variable {v : Descriptors} {s t : NetClosing}

/-- The invariant. -/
structure Inv (s : NetClosing) : Prop where
  reached : descriptors.ReachableVia Descriptors.Kept s.state
  idle : s.state.Idle
  slots : ∀ i, s.state.service.sessions i = none
  ended : s.ended = some false → s.state.service.closeRoot = .nil

/-- The slots are empty, and no thread is in the middle of anything but this event. -/
structure Waits (s t : Descriptors) (index : Nat) : Prop where
  slots : ∀ i, t.service.sessions i = none
  threads : t.registry.threads = s.registry.threads
  opening : t.opening = s.opening
  found : ∀ i, i ≠ index → t.found i = s.found i

theorem Waits.refl {s : Descriptors} (hslots : ∀ i, s.service.sessions i = none) (index : Nat) :
    Waits s s index := ⟨hslots, rfl, rfl, fun _ _ => rfl⟩

/-- Sessions that are not in their slots are only looked up. -/
theorem wait_waits {s t : Descriptors} {id : Nat} {events : PollEvents} {connected : Bool}
    {sys : Syscalls} (hslots : ∀ i, s.service.sessions i = none)
    (ht : s.step (.wait id events connected sys) = some t) :
    t.service = s.service ∧ Waits s t (ffidIndex s.service.socketIds id) := by
  simp only [Descriptors.step, Descriptors.wait, hslots, Option.filter_none] at ht
  split at ht
  · cases ht
    exact ⟨rfl, .refl hslots _⟩
  · rw [Option.ite_none_left_eq_some] at ht
    obtain ⟨-, ht⟩ := ht
    split at ht
    · cases ht
      exact ⟨rfl, .refl hslots _⟩
    · cases ht
      refine ⟨rfl, hslots, rfl, rfl, fun i hi => ?_⟩
      dsimp only
      rw [Function.update_of_ne hi]

/-- Events of sessions in `close_root` do not fill slots. -/
theorem rest_waits {s t : Descriptors} {index : Nat} {sys : Syscalls}
    (hslots : ∀ i, s.service.sessions i = none) (hfound : ∀ i, i ≠ index → s.found i = none)
    (ht : s.step (.rest index sys) = some t) : Waits s t index ∧ ∀ i, t.found i = none := by
  obtain ⟨node, hnode, ht⟩ := Option.bind_eq_some_iff.mp ht
  simp only [Option.ite_none_left_eq_some] at ht
  obtain ⟨-, ht⟩ := ht
  obtain ⟨⟨released, service, session⟩, hrest, ht⟩ := Option.bind_eq_some_iff.mp ht
  obtain ⟨u, hsame, hcases⟩ := Descriptors.handleRest_cases hrest
  have hservice : service.sessions = s.service.sessions := by
    rcases hcases with ⟨-, rfl⟩ | ⟨-, hrelease⟩
    · exact hsame.slots
    · obtain ⟨res, -, heq⟩ := Option.bind_eq_some_iff.mp hrelease
      cases heq
      exact hsame.slots
  have hslots' : ∀ i, service.sessions i = none := fun i => by rw [hservice, hslots]
  have hnone : ∀ i, Function.update s.found index none i = none := by
    intro i
    by_cases heq : i = index
    · rw [heq, Function.update_self]
    · rw [Function.update_of_ne heq, hfound i heq]
  cases released with
  | true =>
      have ht : Descriptors.freeNode (Descriptors.closeFd { s.setService service with
          found := Function.update s.found index none
          rests := Function.update s.rests node.id session } session.fd)
            (Descriptors.freedKey node.id s.service.closeRoot) = t := Option.some.inj ht
      have hfreed : ∀ i, t.found i = none := by
        intro i
        rw [← ht]
        refine Descriptors.freeNode_found_none ?_
        rw [Descriptors.closeFd_found]
        exact hnone i
      refine ⟨⟨fun i => ?_, ?_, ?_, fun i hi => (hfreed i).trans (hfound i hi).symm⟩, hfreed⟩
      · rw [← ht, Descriptors.service, Descriptors.freeNode_registry, Descriptors.closeFd_registry]
        exact hslots' i
      · rw [← ht, Descriptors.freeNode_registry, Descriptors.closeFd_registry]
        rfl
      · rw [← ht, Descriptors.freeNode_opening, Descriptors.closeFd_opening]
        rfl
  | false =>
      cases ht
      exact ⟨⟨hslots', rfl, rfl, fun i hi => (hnone i).trans (hfound i hi).symm⟩, hnone⟩

theorem Inv.step {a : Action} (h : s.Inv) (hok : s.Kept a) (ht : s.step a = some t) : t.Inv := by
  unfold NetClosing.step at ht
  split at ht
  · cases ht
  · rename_i hrunning
    cases a with
    | event id events connected sys =>
        obtain ⟨state, hevent, rfl⟩ := Option.map_eq_some_iff.mp ht
        obtain ⟨u, hwait, hevent⟩ := Option.bind_eq_some_iff.mp hevent
        have hreach : descriptors.ReachableVia Descriptors.Kept u :=
          .step (i := .wait id events connected sys) h.reached trivial hwait
        obtain ⟨hservice, hwaits⟩ := wait_waits h.slots hwait
        rw [← hservice] at hwaits
        have hfound : ∀ i, i ≠ ffidIndex u.service.socketIds id → u.found i = none :=
          fun i hi => (hwaits.found i hi).trans (h.idle.found i)
        have hidle : ∀ t', u.registry.threads t' = .idle ∧ u.opening t' = none := by
          rw [hwaits.threads, hwaits.opening]
          exact h.idle.threads
        have hnot : s.ended ≠ some false := fun hended => hrunning (by rw [hended]; rfl)
        dsimp only at hevent
        split at hevent
        · obtain ⟨hrests, hnone⟩ := rest_waits hwaits.slots hfound hevent
          refine ⟨.step (i := .rest _ sys) hreach (hok u hwait) hevent, ⟨fun t' => ?_, hnone⟩,
            hrests.slots, fun hended => absurd hended hnot⟩
          rw [hrests.threads, hrests.opening]
          exact hidle t'
        · rename_i hsome
          rw [Option.some.injEq] at hevent
          subst hevent
          refine ⟨hreach, ⟨hidle, fun i => ?_⟩, hwaits.slots, fun hended => absurd hended hnot⟩
          by_cases hi : i = ffidIndex u.service.socketIds id
          · rw [hi]
            exact Option.not_isSome_iff_eq_none.mp hsome
          · exact hfound i hi
    | timeout =>
        cases ht
        refine ⟨h.reached, h.idle, h.slots, fun hended => ?_⟩
        dsimp only at hended ⊢
        split at hended
        · rename_i hnil
          cases hroot : s.state.service.closeRoot with
          | nil => rfl
          | node l k v n r =>
              rw [hroot] at hnil
              cases hnil
        · cases hended
    | error =>
        cases ht
        exact ⟨h.reached, h.idle, h.slots, fun hended => by cases hended⟩

theorem Inv.closes (h : s.Inv) : s.Closes := by
  have hacc := (Descriptors.inv_of_reachable h.reached).accounts
  have hrests : ∀ fd, fd ∈ s.state.opened ↔
      ∃ id, HasKey id s.state.service.closeRoot.inOrder ∧ (s.state.rests id).fd = fd := by
    intro fd
    rw [hacc.custody.held]
    constructor
    · rintro ⟨t | t | i | id, hheld⟩
      · obtain ⟨session, ht, -⟩ := hheld
        rw [(h.idle.threads t).2] at ht
        cases ht
      · obtain ⟨id, index, session, ht, -⟩ := hheld
        rw [(h.idle.threads t).1] at ht
        cases ht
      · obtain ⟨session, hi, -⟩ := hheld
        rw [h.slots] at hi
        cases hi
      · exact ⟨id, hheld⟩
    · rintro ⟨id, hheld⟩
      exact ⟨.rest id, hheld⟩
  refine ⟨hrests, hacc.custody.nodup, hacc.stray, fun hended => ?_⟩
  refine List.eq_nil_iff_forall_not_mem.mpr fun fd hfd => ?_
  obtain ⟨id, ⟨value, hmem⟩, -⟩ := (hrests fd).mp hfd
  rw [h.ended hended] at hmem
  exact absurd hmem List.not_mem_nil

end NetClosing

/-- When no thread uses a service any more, the first loops of `net_close` end, and in its last
loop the open sockets are those of the sessions in `close_root`. Without an error of
`epoll_wait` it ends with all sockets closed. -/
theorem netClose_closes {s : Descriptors} (h : descriptors.ReachableVia Descriptors.Kept s)
    (hidle : s.Idle) (t : Nat) (sys : Syscalls) :
    ∃ v, s.netCloseStart t sys = some v ∧ v.service.closeRoot = s.service.closeRoot ∧
      v.service.delayQueue.items = [] ∧
      ∀ u, (netClosing v).ReachableVia NetClosing.Kept u → u.Closes := by
  obtain ⟨v, hv, hreach, hidle', hqueue, hroot, hslots⟩ :=
    @Descriptors.netCloseStart_empty s t sys h hidle
  refine ⟨v, hv, hroot, hqueue, fun u hu => ?_⟩
  have hinv : u.Inv := by
    refine hu.invariant (fun w hw => ?_) fun _ _ _ hs hok ht => NetClosing.Inv.step hs hok ht
    rw [hw]
    exact ⟨hreach, hidle', hslots, fun hended => by cases hended⟩
  exact hinv.closes

/-- A service with a listener and a session in `close_root` closes the listener. -/
theorem netClose_closes_listener : ∃ s v : Descriptors, s.opened = [4, 3] ∧
    s.netCloseStart 0 {} = some v ∧ v.opened = [4] ∧
    ∀ u, (netClosing v).ReachableVia NetClosing.Kept u → u.Closes := by
  obtain ⟨s, hreach, hidle, hopened, hleft⟩ : ∃ s, descriptors.ReachableVia Descriptors.Kept s ∧
      s.Idle ∧ s.opened = [4, 3] ∧ (s.netCloseStart 0 {}).map Descriptors.opened = some [4] := by
    have hinit : descriptors.Init Descriptors.idle :=
      ⟨2, _, by decide, by decide, rfl, fun _ => rfl, fun _ => rfl, rfl, rfl⟩
    refine ⟨_, .step (i := .release 0)
      (.step (i := .clear 0 2 true {})
      (.step (i := .call (.write 2 [6] 1 false {}))
      (.step (i := .cfg ⟨88, 40, 24, 32⟩ 2 (some Descriptors.idleConfig) {})
      (.step (i := .install 0)
      (.step (i := .newId 0)
      (.step (i := .socket 0 4 (.netAccept 1) true)
      (.step (i := .install 0)
      (.step (i := .newId 0)
      (.step (i := .socket 0 3 (.netListen 2 80 5 true true) true)
      (.init hinit) trivial rfl) trivial rfl) trivial rfl) trivial rfl) trivial rfl) trivial rfl)
      ?_ rfl) trivial rfl) ?_ rfl) trivial rfl, ⟨fun t => ?_, fun _ => rfl⟩, rfl, ?_⟩
    · rintro ⟨cfg, session, -, ⟨-, hno⟩ | ⟨hback, -⟩⟩
      · exact hno fun _ _ => rfl
      · cases hback
    · exact fun _ => ⟨rfl, by decide +kernel, by decide +kernel⟩
    · cases t with
      | zero => exact ⟨rfl, rfl⟩
      | succ t => exact ⟨rfl, rfl⟩
    · decide +kernel
  obtain ⟨v, hv, -, -, hcloses⟩ := netClose_closes hreach hidle 0 {}
  rw [hv] at hleft
  exact ⟨s, v, hopened, hv, Option.some.inj hleft, hcloses⟩

end RandServer
