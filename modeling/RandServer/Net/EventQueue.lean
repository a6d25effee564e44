import RandServer.Net.NetService

/-!
# Queued sessions are found again

A session is put into the event queue and into the delay queue at most once, and a flag
of the session says that it is there. A flag must therefore not be set without the id
in the queue, or the session is never picked up again.

`push_queue` and `push_delay_queue` set the flag before they write to the queue, and the
write fails when ids of closed sessions fill it. `HasRoom` says that this does not happen
in a step, and `eventQueue_queued` that flags and queues agree as long as it does not.
-/

namespace RandServer

namespace NetService

/-- Sessions whose flags are set are in the queues. -/
structure Queued (s : NetService) : Prop where
  queue : ∀ i session, s.sessions i = some session → session.inQueue = true →
    session.id ∈ s.queue.items
  delayQueue : ∀ i session, s.sessions i = some session → session.inDelayQueue = true →
    session.id ∈ s.delayQueue.items

/-- The calls that concern the queues. A call of `net_delay` is a run of `netDelay`
steps, one for each id taken off the queue. -/
inductive QueueAction
  | create (fd : Int) (aiFamily : Nat) (lsession : Option ListenSession) (connectFlag : Bool)
  | close (nd : Nat) (sendRest : Bool) (sys : Syscalls)
  | pushQueue (nd event : Nat) (err : Int)
  | netQueue (maxevents : Int)
  | pushDelayQueue (nd : Nat)
  | netDelay (sys : Syscalls)

/-- `push_delay_queue` for the session of a handle. -/
def pushDelayQueueOf (s : NetService) (nd : Nat) : NetService :=
  match s.sessions (ffidIndex s.socketIds nd) with
  | none => s
  | some session =>
      if session.id = nd then
        let res := RandServer.pushDelayQueue s session
        res.2.1.setSession (ffidIndex s.socketIds nd) (some res.2.2)
      else s

def queueStep (s : NetService) : QueueAction → Option NetService
  | .create fd aiFamily lsession connectFlag =>
      some (addNetSession s { createNetSession with
        fd := fd
        aiFamily := aiFamily
        lsession := lsession
        connectFlag := connectFlag }).2
  | .close nd sendRest sys => netSocketClose s nd sendRest sys
  | .pushQueue nd event err => some (pushQueueWithLock s nd event err).2
  | .netQueue maxevents => some (RandServer.netQueue s maxevents).2
  | .pushDelayQueue nd => some (s.pushDelayQueueOf nd)
  | .netDelay sys => (netDelayOne s sys).map Prod.snd

/-- What the step pushes finds room in its queue. -/
def HasRoom (s : NetService) : QueueAction → Prop
  | .create _ _ _ _ => True
  | .close _ _ _ => True
  | .netQueue _ => True
  | .pushQueue nd _ _ =>
      ∀ session ∈ s.sessions (ffidIndex s.socketIds nd),
        nd ≠ 0 → session.id = nd → Takes s.queue session.inQueue session.id
  | .pushDelayQueue nd =>
      ∀ session ∈ s.sessions (ffidIndex s.socketIds nd),
        session.id = nd → Takes s.delayQueue session.inDelayQueue session.id
  | .netDelay sys =>
      ∀ id ∈ s.delayQueue.items.head?, ∀ session ∈ s.sessions (ffidIndex s.socketIds id),
        session.id = id → postWriteFails session sys = true →
          Takes s.queue session.inQueue session.id

end NetService

def eventQueue : Machine NetService NetService.QueueAction where
  Init s := ∃ size mem, 1 ≤ size ∧ s = netCreate size mem
  step := NetService.queueStep

/-- A call of `net_delay` is a run of its iterations. -/
theorem netDelay_run {s t : NetService} {calls : List Syscalls} {cnt : Nat}
    (ht : netDelay s calls = some (cnt, t)) :
    eventQueue.run s ((calls.take (cnt + 1)).map .netDelay) = some t := by
  induction calls generalizing s cnt with
  | nil =>
      cases ht
      rfl
  | cons sys calls ih =>
      obtain ⟨⟨taken, u⟩, hone, ht⟩ := Option.bind_eq_some_iff.mp ht
      have hstep : eventQueue.step s (.netDelay sys) = some u := by
        simp only [eventQueue, NetService.queueStep, hone, Option.map_some]
      cases taken with
      | false =>
          cases ht
          simp only [List.take_succ_cons, List.take_zero, List.map_cons, List.map_nil,
            Machine.run, hstep, Option.bind_some]
      | true =>
          obtain ⟨⟨cnt', v⟩, hrest, heq⟩ := Option.bind_eq_some_iff.mp ht
          cases heq
          simp only [List.take_succ_cons, List.map_cons, Machine.run, hstep, Option.bind_some]
          exact ih hrest

namespace NetService

/-! ## The invariant -/

/-- A session lies in the slot of its id, and its flags agree with the queues; `pending`
are ids taken off the event queue and not yet looked at. -/
structure QueueInv (pending : List Nat) (s : NetService) : Prop where
  maxLimit : s.socketIds.maxLimit = 2 ^ 32 - 1
  index : ∀ i session, s.sessions i = some session → ffidIndex s.socketIds session.id = i
  listed : ∀ i session, s.sessions i = some session → s.Listed pending session
  delayed : ∀ i session, s.sessions i = some session → session.inDelayQueue = true →
    session.id ∈ s.delayQueue.items

namespace QueueInv

variable {pending : List Nat} {s t : NetService} {session : NetSession} {i : Nat}

theorem queued (h : QueueInv [] s) : s.Queued := ⟨h.listed, h.delayed⟩

/-- Replace the session of one slot. -/
theorem setSession (h : QueueInv pending s) (hindex : ffidIndex s.socketIds session.id = i)
    (hlisted : s.Listed pending session)
    (hdelayed : session.inDelayQueue = true → session.id ∈ s.delayQueue.items) :
    QueueInv pending (s.setSession i (some session)) := by
  have hcases : ∀ j other, (s.setSession i (some session)).sessions j = some other →
      j = i ∧ other = session ∨ s.sessions j = some other := by
    intro j other hj
    by_cases heq : j = i
    · subst heq
      rw [setSession_self] at hj
      exact .inl ⟨rfl, (Option.some.inj hj).symm⟩
    · rw [setSession_of_ne heq] at hj
      exact .inr hj
  refine ⟨h.maxLimit, ?_, ?_, ?_⟩
  · intro j other hj
    rcases hcases j other hj with ⟨rfl, rfl⟩ | hold
    · exact hindex
    · exact h.index j other hold
  · intro j other hj
    rcases hcases j other hj with ⟨rfl, rfl⟩ | hold
    · exact hlisted
    · exact h.listed j other hold
  · intro j other hj
    rcases hcases j other hj with ⟨rfl, rfl⟩ | hold
    · exact hdelayed
    · exact h.delayed j other hold

theorem grows (h : QueueInv pending s) (hgrows : Grows s t) : QueueInv pending t := by
  obtain ⟨hsessions, hids, hdelay, -⟩ := id hgrows
  refine ⟨hids ▸ h.maxLimit, ?_, ?_, ?_⟩
  · rw [hsessions, hids]
    exact h.index
  · rw [hsessions]
    exact fun j other hj => hgrows.listed (h.listed j other hj)
  · rw [hsessions, hdelay]
    exact h.delayed

theorem clear (h : QueueInv pending s) (i : Nat) : QueueInv pending (s.setSession i none) := by
  have hold : ∀ j other, (s.setSession i none).sessions j = some other →
      s.sessions j = some other := by
    intro j other hj
    by_cases heq : j = i
    · subst heq
      rw [setSession_self] at hj
      cases hj
    · rw [setSession_of_ne heq] at hj
      exact hj
  exact ⟨h.maxLimit, fun j other hj => h.index j other (hold j other hj),
    fun j other hj => h.listed j other (hold j other hj),
    fun j other hj => h.delayed j other (hold j other hj)⟩

/-- Handing out and taking back ids does not move a session to another slot. -/
theorem withIds (h : QueueInv pending s) {ff : Ffid} (hsize : ff.maxSize = s.socketIds.maxSize)
    (hlimit : ff.maxLimit = s.socketIds.maxLimit) :
    QueueInv pending { s with socketIds := ff } := by
  refine ⟨hlimit.trans h.maxLimit, fun j other hj => ?_, h.listed, h.delayed⟩
  rw [ffidIndex_congr hsize]
  exact h.index j other hj

theorem addNetSession (h : QueueInv pending s) (hqueue : session.inQueue = false)
    (hdelay : session.inDelayQueue = false) : QueueInv pending (addNetSession s session).2 := by
  have hids : QueueInv pending { s with socketIds := (ffidNewId s.socketIds).2.2 } :=
    h.withIds (ffidNewId_maxSize _) (ffidNewId_maxLimit _)
  unfold RandServer.addNetSession addNetSessionId
  dsimp only
  split_ifs with hid
  · exact hids
  · refine hids.setSession ?_ ?_ ?_
    · rw [ffidIndex_congr (ffidNewId_maxSize _)]
      exact ffidIndex_newId h.maxLimit hid
    · intro hflag
      rw [hqueue] at hflag
      cases hflag
    · intro hflag
      rw [hdelay] at hflag
      cases hflag

theorem netSocketClose (h : QueueInv pending s) {nd : Nat} {sendRest : Bool} {sys : Syscalls}
    (ht : netSocketClose s nd sendRest sys = some t) : QueueInv pending t := by
  unfold RandServer.netSocketClose at ht
  split_ifs at ht with hzero
  · cases ht
    exact h
  · obtain ⟨⟨found, u⟩, hclear, heq⟩ := Option.bind_eq_some_iff.mp ht
    cases heq
    rcases netSocketCloseClear_spec hclear with ⟨rfl, rfl⟩ | ⟨rfl, session, v, -, -, hgrows, hgrows'⟩
    · exact h
    · exact (((h.grows hgrows).clear _).grows hgrows').withIds (ffidDelId_maxSize ..)
        (ffidDelId_maxLimit ..)

/-- Flag and queue agree after the push if and only if the queue takes the id. -/
theorem pushQueue_iff (h : QueueInv [] s) {nd event : Nat} {err : Int} :
    (HasRoom s (.pushQueue nd event err) → QueueInv [] (pushQueueWithLock s nd event err).2) ∧
      ((pushQueueWithLock s nd event err).2.Queued → HasRoom s (.pushQueue nd event err)) := by
  cases hslot : s.sessions (ffidIndex s.socketIds nd) with
  | none =>
      simp only [pushQueueWithLock, HasRoom, hslot]
      exact ⟨fun _ => h, fun _ _ hno => (nomatch hno)⟩
  | some session =>
      simp only [pushQueueWithLock, HasRoom, hslot, Option.mem_def, Option.some.injEq,
        forall_eq']
      by_cases hnd : nd = 0 ∨ session.id ≠ nd
      · rw [if_pos hnd]
        exact ⟨fun _ => h, fun _ hpos hid => absurd hnd (not_or.mpr ⟨hpos, not_not.mpr hid⟩)⟩
      · rw [if_neg hnd]
        obtain ⟨hpos, hid⟩ := not_or.mp hnd
        obtain rfl := not_not.mp hid
        generalize hpush : pushQueue s session event err = res
        obtain ⟨ret, t, session'⟩ := res
        obtain ⟨hgrows, hid', hdelay, hlisted⟩ := pushQueue_spec hpush
        have hiff := hlisted (h.listed _ _ hslot)
        constructor
        · intro hroom
          refine (h.grows hgrows).setSession ?_ (hiff.mpr (hroom hpos rfl)) ?_
          · rw [hgrows.socketIds, hid']
          · rw [hgrows.delayQueue, hdelay, hid']
            exact h.delayed _ _ hslot
        · intro hqueued _ _
          exact hiff.mp (hqueued.queue _ _ setSession_self)

theorem pushDelayQueue_iff (h : QueueInv [] s) {nd : Nat} :
    (HasRoom s (.pushDelayQueue nd) → QueueInv [] (s.pushDelayQueueOf nd)) ∧
      ((s.pushDelayQueueOf nd).Queued → HasRoom s (.pushDelayQueue nd)) := by
  cases hslot : s.sessions (ffidIndex s.socketIds nd) with
  | none =>
      simp only [pushDelayQueueOf, HasRoom, hslot]
      exact ⟨fun _ => h, fun _ _ hno => (nomatch hno)⟩
  | some session =>
      simp only [pushDelayQueueOf, HasRoom, hslot, Option.mem_def, Option.some.injEq, forall_eq']
      by_cases hid : session.id = nd
      · subst hid
        simp only [if_true, forall_const]
        generalize hpush : pushDelayQueue s session = res
        obtain ⟨ret, t, session'⟩ := res
        obtain ⟨hsessions, hids, hqueue, hgrows, hid', hflag, hiff⟩ := pushDelayQueue_spec hpush
        have hiff := hiff (h.delayed _ _ hslot)
        have ht : QueueInv [] t := by
          refine ⟨hids ▸ h.maxLimit, ?_, ?_, ?_⟩
          · rw [hsessions, hids]
            exact h.index
          · intro j other hj hlisted
            rw [hqueue]
            exact h.listed j other (hsessions ▸ hj) hlisted
          · intro j other hj hdelay
            exact hgrows _ (h.delayed j other (hsessions ▸ hj) hdelay)
        constructor
        · intro hroom
          refine ht.setSession ?_ (fun hlisted => ?_) (hiff.mpr hroom)
          · rw [hids, hid']
          · rw [hqueue, hid']
            exact h.listed _ _ hslot (hflag ▸ hlisted)
        · intro hqueued
          exact hiff.mp (hqueued.delayQueue _ _ setSession_self)
      · simp only [if_neg hid]
        exact ⟨fun _ => h, fun _ heq => absurd heq hid⟩

/-- A pending id whose session is not there, or is not flagged, can be dropped. -/
theorem drop {msg : Nat} (h : QueueInv (msg :: pending) s)
    (hmsg : ∀ session, s.sessions (ffidIndex s.socketIds msg) = some session →
      session.id = msg → session.inQueue = false) : QueueInv pending s := by
  refine ⟨h.maxLimit, h.index, fun i session hi hflag => ?_, h.delayed⟩
  rcases List.mem_cons.mp (h.listed i session hi hflag) with hid | hin
  · have hslot := h.index i session hi
    rw [hid] at hslot
    rw [hmsg session (hslot ▸ hi) hid] at hflag
    cases hflag
  · exact hin

/-- Looking at a pending id clears the flag of its session. -/
theorem netQueueBatch (h : QueueInv pending s) (cnt : Nat) :
    QueueInv [] (netQueueBatch s cnt pending).2.2 := by
  induction pending generalizing s cnt with
  | nil => exact h
  | cons msg msgs ih =>
      cases hslot : s.sessions (ffidIndex s.socketIds msg) with
      | none =>
          simp only [RandServer.netQueueBatch, hslot]
          refine ih (h.drop fun session hsession => ?_) _
          rw [hslot] at hsession
          cases hsession
      | some session =>
          simp only [RandServer.netQueueBatch, hslot]
          split_ifs with hid
          · have hset : QueueInv (msg :: msgs) (s.setSession (ffidIndex s.socketIds msg)
                (some { session with events := 0, inQueue := false })) :=
              h.setSession (h.index _ session hslot) (fun hno => absurd hno Bool.false_ne_true)
                (h.delayed _ session hslot)
            refine ih (hset.drop fun other hother _ => ?_) _
            rw [setSession_socketIds, setSession_self] at hother
            rw [← Option.some.inj hother]
          · refine ih (h.drop fun other hother hmsg => ?_) _
            rw [hslot] at hother
            cases hother
            exact absurd hmsg hid

theorem netQueueLoop (h : QueueInv [] s) (fuel maxevents : Nat) :
    QueueInv [] (netQueueLoop s fuel maxevents).2 := by
  induction fuel generalizing s maxevents with
  | zero => exact h
  | succ fuel ih =>
      unfold RandServer.netQueueLoop
      split_ifs with hdone
      · exact h
      · have hpop : QueueInv (s.queue.pop (min 128 maxevents)).1
            { s with queue := (s.queue.pop (min 128 maxevents)).2 } := by
          refine ⟨h.maxLimit, h.index, fun i session hi hflag => ?_, h.delayed⟩
          rw [BoundedQueue.pop_append]
          exact h.listed i session hi hflag
        have hbatch := hpop.netQueueBatch (min 128 maxevents)
        dsimp only
        split_ifs
        · exact hbatch
        · exact ih hbatch _

/-- Take the first id off the delay queue; only its own session can miss it. -/
theorem popDelay (h : QueueInv [] s) {id : Nat} {q : BoundedQueue Nat}
    (hitems : s.delayQueue.items = id :: q.items)
    (hid : ∀ session, s.sessions (ffidIndex s.socketIds id) = some session →
      session.id = id → session.inDelayQueue = false) :
    QueueInv [] { s with delayQueue := q } := by
  refine ⟨h.maxLimit, h.index, h.listed, fun i session hi hflag => ?_⟩
  have hin := h.delayed i session hi hflag
  rw [hitems] at hin
  rcases List.mem_cons.mp hin with heq | hin
  · have hslot := h.index i session hi
    rw [heq] at hslot
    rw [hid session (hslot ▸ hi) heq] at hflag
    cases hflag
  · exact hin

theorem netDelay_iff (h : QueueInv [] s) {sys : Syscalls} {taken : Bool}
    (ht : netDelayOne s sys = some (taken, t)) :
    (HasRoom s (.netDelay sys) → QueueInv [] t) ∧ (t.Queued → HasRoom s (.netDelay sys)) := by
  unfold netDelayOne at ht
  cases hitems : s.delayQueue.items with
  | nil =>
      simp only [BoundedQueue.pop, hitems, List.take_nil, Option.some.injEq, Prod.mk.injEq] at ht
      rw [← ht.2]
      refine ⟨fun _ => h, fun _ id hid => ?_⟩
      rw [hitems] at hid
      cases hid
  | cons id ids =>
      obtain ⟨q, hpop, hq⟩ : ∃ q, s.delayQueue.pop 1 = ([id], q) ∧ q.items = ids := by
        refine ⟨(s.delayQueue.pop 1).2, ?_, ?_⟩
        · simp only [BoundedQueue.pop, hitems, List.take_succ_cons, List.take_zero]
        · simp only [BoundedQueue.pop, hitems, List.drop_succ_cons, List.drop_zero]
      subst hq
      simp only [HasRoom, hitems, List.head?_cons, Option.mem_def, Option.some.injEq, forall_eq']
      simp only [hpop] at ht
      cases hslot : s.sessions (ffidIndex s.socketIds id) with
      | none =>
          simp only [hslot, Option.some.injEq, Prod.mk.injEq] at ht
          rw [← ht.2]
          refine ⟨fun _ => h.popDelay hitems fun session hno => ?_, fun _ session hno => ?_⟩
          · rw [hslot] at hno
            cases hno
          · cases hno
      | some session =>
          simp only [hslot] at ht
          simp only [Option.some.injEq, forall_eq']
          by_cases hid : session.id = id
          · subst hid
            rw [if_pos rfl] at ht
            obtain ⟨⟨ret, u, session'⟩, hpost, heq⟩ := Option.bind_eq_some_iff.mp ht
            cases heq
            obtain ⟨hgrows, hid', hdelay, hlisted⟩ := postWrite_spec hpost
            have hiff := hlisted (h.listed _ session hslot)
            -- Clearing the delay flag first, the id may leave the delay queue.
            have hclear : QueueInv [] (s.setSession (ffidIndex s.socketIds session.id)
                (some { session with inDelayQueue := false })) :=
              h.setSession (h.index _ session hslot) (h.listed _ session hslot)
                (fun hno => absurd hno Bool.false_ne_true)
            have hpopped : QueueInv [] { s.setSession (ffidIndex s.socketIds session.id)
                (some { session with inDelayQueue := false }) with delayQueue := q } := by
              refine hclear.popDelay hitems fun other hother _ => ?_
              rw [setSession_socketIds, setSession_self] at hother
              rw [← Option.some.inj hother]
            have hposted : QueueInv [] (u.setSession (ffidIndex s.socketIds session.id)
                (some { session with inDelayQueue := false })) := by
              refine hpopped.grows ⟨?_, hgrows.socketIds, hgrows.delayQueue, hgrows.queue⟩
              simp only [NetService.setSession, hgrows.sessions]
            constructor
            · intro hroom
              rw [← setSession_setSession]
              refine hposted.setSession ?_ (hiff.mpr (hroom rfl)) ?_
              · rw [setSession_socketIds, hgrows.socketIds, hid']
              · rw [hdelay]
                exact fun hno => absurd hno Bool.false_ne_true
            · intro hqueued _
              exact hiff.mp (hqueued.queue _ _ setSession_self)
          · rw [if_neg hid] at ht
            simp only [Option.some.injEq, Prod.mk.injEq] at ht
            rw [← ht.2]
            refine ⟨fun _ => h.popDelay hitems fun other hother heq => ?_, fun _ heq => ?_⟩
            · rw [hslot] at hother
              cases hother
              exact absurd heq hid
            · exact absurd heq hid

end QueueInv

theorem QueueInv.init {s : NetService} (h : ∃ size mem, 1 ≤ size ∧ s = netCreate size mem) :
    QueueInv [] s := by
  obtain ⟨size, mem, -, rfl⟩ := h
  have hnone : ∀ i, (netCreate size mem).sessions i = none := fun _ => rfl
  refine ⟨rfl, ?_, ?_, ?_⟩
  all_goals
    intro i session hi
    rw [hnone] at hi
    cases hi

/-- A step with room keeps the invariant, and a step after which flags and queues agree
had room. -/
theorem QueueInv.step {s t : NetService} {i : QueueAction} (h : QueueInv [] s)
    (ht : s.queueStep i = some t) : (s.HasRoom i → QueueInv [] t) ∧ (t.Queued → s.HasRoom i) := by
  cases i with
  | create fd aiFamily lsession connectFlag =>
      simp only [queueStep, Option.some.injEq] at ht
      rw [← ht]
      exact ⟨fun _ => h.addNetSession rfl rfl, fun _ => trivial⟩
  | close nd sendRest sys =>
      simp only [queueStep] at ht
      exact ⟨fun _ => h.netSocketClose ht, fun _ => trivial⟩
  | pushQueue nd event err =>
      simp only [queueStep, Option.some.injEq] at ht
      rw [← ht]
      exact h.pushQueue_iff
  | netQueue maxevents =>
      simp only [queueStep, Option.some.injEq] at ht
      rw [← ht]
      exact ⟨fun _ => h.netQueueLoop _ _, fun _ => trivial⟩
  | pushDelayQueue nd =>
      simp only [queueStep, Option.some.injEq] at ht
      rw [← ht]
      exact h.pushDelayQueue_iff
  | netDelay sys =>
      simp only [queueStep] at ht
      obtain ⟨⟨taken, u⟩, hone, rfl⟩ := Option.map_eq_some_iff.mp ht
      exact h.netDelay_iff hone

instance (s : NetService) : (i : QueueAction) → Decidable (s.HasRoom i)
  | .create _ _ _ _ => .isTrue trivial
  | .close _ _ _ => .isTrue trivial
  | .netQueue _ => .isTrue trivial
  | .pushQueue _ _ _ => inferInstanceAs (Decidable (∀ _ ∈ _, _))
  | .pushDelayQueue _ => inferInstanceAs (Decidable (∀ _ ∈ _, _))
  | .netDelay _ => inferInstanceAs (Decidable (∀ _ ∈ _, ∀ _ ∈ _, _))

end NetService

/-- As long as the queues take the ids pushed, every flagged session is in its queue, and
a step that finds no room leaves a flagged session outside. -/
theorem eventQueue_queued {s : NetService} (h : eventQueue.ReachableVia NetService.HasRoom s) :
    s.Queued ∧ ∀ i t, s.queueStep i = some t → (t.Queued ↔ s.HasRoom i) := by
  have hinv : NetService.QueueInv [] s := h.invariant
    (fun _ hs => NetService.QueueInv.init hs)
    (fun _ _ _ hs hok ht => (NetService.QueueInv.step hs ht).1 hok)
  exact ⟨hinv.queued, fun i t ht => ⟨(hinv.step ht).2, fun hok => ((hinv.step ht).1 hok).queued⟩⟩

/-- A service of one slot on a heap of zeros. -/
def oneSlot : NetService := netCreate 1
  { brk := 0, fate := fun _ => some (fun _ => 0), freed := [], pools := fun _ => buffPoolCreate 4 0 }

/-- The slot is used again while the id of the closed session is still queued. -/
theorem eventQueue_queued_reuse : ∃ s, eventQueue.runVia NetService.HasRoom oneSlot
    [.create 7 2 none false, .pushQueue 1 1 0, .close 1 false {}, .create 8 2 none false,
      .pushQueue 2 1 0, .pushDelayQueue 2] = some s ∧ s.queue.items = [1, 2] ∧ s.Queued := by
  have hinit : eventQueue.Init oneSlot := ⟨1, _, Nat.le_refl 1, rfl⟩
  obtain ⟨s, hrun, hitems⟩ : ∃ s, eventQueue.runVia NetService.HasRoom oneSlot
      [.create 7 2 none false, .pushQueue 1 1 0, .close 1 false {}, .create 8 2 none false,
        .pushQueue 2 1 0, .pushDelayQueue 2] = some s ∧ s.queue.items = [1, 2] := ⟨_, rfl, rfl⟩
  exact ⟨s, hrun, hitems, (eventQueue_queued (.runVia (.init hinit) hrun)).1⟩

/-- Four ids of closed sessions fill the queue. The fifth session is flagged all the same. -/
theorem eventQueue_loses_wakeup : ¬ ∀ s, eventQueue.Reachable s → s.Queued := by
  intro h
  obtain ⟨s, session, hrun, hslot, hflag, hid, hitems⟩ : ∃ s session, eventQueue.run oneSlot
      [.create 7 2 none false, .pushQueue 1 1 0, .close 1 false {},
        .create 7 2 none false, .pushQueue 2 1 0, .close 2 false {},
        .create 7 2 none false, .pushQueue 3 1 0, .close 3 false {},
        .create 7 2 none false, .pushQueue 4 1 0, .close 4 false {},
        .create 7 2 none false, .pushQueue 5 1 0] = some s ∧ s.sessions 0 = some session ∧
      session.inQueue = true ∧ session.id = 5 ∧ s.queue.items = [1, 2, 3, 4] :=
    ⟨_, _, rfl, rfl, rfl, rfl, rfl⟩
  have hreach : eventQueue.Reachable s := Machine.Reachable.run
    (.init ⟨1, _, Nat.le_refl 1, rfl⟩) hrun
  have hin := (h s hreach).queue 0 session hslot hflag
  rw [hid, hitems] at hin
  exact absurd hin (by decide)

end RandServer
