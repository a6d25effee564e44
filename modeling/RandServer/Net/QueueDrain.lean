import RandServer.Net.EventQueue

/-!
# Draining the event queue

`net_queue` takes ids off the queue in batches and skips those of closed sessions. Its
variable `cnt` holds the size of the batch at first, and after the batch the slot of its
last id. The loop ends when the batch has fewer ids than `cnt`, so a full batch ends it
too if the last slot is high enough.
-/

namespace RandServer

namespace NetService

variable {s t : NetService} {seen ids : List Nat} {id : Nat}

/-! ## What there is to report -/

/-- The session with an id, unless it is closed. -/
def liveSession (s : NetService) (id : Nat) : Option NetSession :=
  (s.sessions (ffidIndex s.socketIds id)).filter (·.id = id)

def live (s : NetService) (id : Nat) : Bool := (s.liveSession id).isSome

/-- The events of the live ids in a list, once those in `seen` have been reported. An id
that comes again has no events left. -/
def reports (s : NetService) : List Nat → List Nat → List NetEvent
  | _, [] => []
  | seen, id :: ids =>
      match s.liveSession id with
      | none => s.reports seen ids
      | some session =>
          { events := if id ∈ seen then 0 else session.events, nd := id, data := session.data } ::
            s.reports (id :: seen) ids

theorem reports_length (seen ids : List Nat) : (s.reports seen ids).length = ids.countP s.live := by
  induction ids generalizing seen with
  | nil => rfl
  | cons id ids ih =>
      cases hlive : s.liveSession id with
      | none =>
          have hnot : ¬ s.live id = true := by rw [live, hlive]; exact Bool.false_ne_true
          simp only [reports, hlive, ih, List.countP_cons_of_neg hnot]
      | some session =>
          have hyes : s.live id = true := by rw [live, hlive]; rfl
          simp only [reports, hlive, List.length_cons, ih, List.countP_cons_of_pos hyes]

/-- `t` is `s` after the ids in `seen` have been reported. -/
structure Reported (s t : NetService) (seen : List Nat) : Prop where
  socketIds : t.socketIds = s.socketIds
  sessions : ∀ id, t.liveSession id = (s.liveSession id).map fun session =>
    if id ∈ seen then { session with events := 0, inQueue := false } else session

theorem liveSession_eq_some {session : NetSession} : s.liveSession id = some session ↔
    s.sessions (ffidIndex s.socketIds id) = some session ∧ session.id = id := by
  rw [liveSession, Option.filter_eq_some_iff, decide_eq_true_eq]

theorem liveSession_eq_none : s.liveSession id = none ↔
    ∀ session, s.sessions (ffidIndex s.socketIds id) = some session → session.id ≠ id := by
  rw [Option.eq_none_iff_forall_ne_some]
  constructor
  · exact fun h session hslot hid => h session (liveSession_eq_some.mpr ⟨hslot, hid⟩)
  · exact fun h session hlive => h session (liveSession_eq_some.mp hlive).1
      (liveSession_eq_some.mp hlive).2

theorem Reported.refl (s : NetService) : Reported s s [] := by
  refine ⟨rfl, fun id => ?_⟩
  simp only [List.not_mem_nil, if_false, Option.map_id']

/-- Reporting one session. -/
theorem Reported.report (h : Reported s t seen) {session : NetSession}
    (hlive : t.liveSession id = some session) :
    Reported s (t.setSession (ffidIndex t.socketIds id)
      (some { session with events := 0, inQueue := false })) (id :: seen) := by
  obtain ⟨hslot, hid⟩ := liveSession_eq_some.mp hlive
  refine ⟨h.socketIds, fun other => ?_⟩
  by_cases hother : other = id
  · subst hother
    obtain ⟨first, hfirst, hsession⟩ :=
      Option.map_eq_some_iff.mp ((h.sessions other).symm.trans hlive)
    have hcleared : { session with events := 0, inQueue := false } =
        { first with events := 0, inQueue := false } := by
      rw [← hsession]
      split_ifs
      · rfl
      · rfl
    rw [hfirst, Option.map_some, if_pos List.mem_cons_self, ← hcleared]
    exact liveSession_eq_some.mpr ⟨setSession_self, hid⟩
  · have hsame : (t.setSession (ffidIndex t.socketIds id)
        (some { session with events := 0, inQueue := false })).liveSession other =
        t.liveSession other := by
      by_cases hsameSlot : ffidIndex t.socketIds other = ffidIndex t.socketIds id
      · -- The slot belongs to `id`, before and after.
        have hne : session.id ≠ other := fun heq => hother (heq.symm.trans hid)
        have hbefore : t.liveSession other = none := by
          apply liveSession_eq_none.mpr
          intro session' hslot'
          rw [hsameSlot, hslot] at hslot'
          cases hslot'
          exact hne
        rw [hbefore]
        apply liveSession_eq_none.mpr
        intro session' hslot'
        rw [setSession_socketIds, hsameSlot, setSession_self] at hslot'
        cases hslot'
        exact hne
      · rw [liveSession, liveSession, setSession_socketIds, setSession_of_ne hsameSlot]
    rw [hsame, h.sessions other]
    simp only [List.mem_cons, hother, false_or]

/-- What is reported after the ids of a first part. -/
theorem reports_append (seen ids ids' : List Nat) :
    s.reports seen (ids ++ ids') =
      s.reports seen ids ++ s.reports ((ids.filter s.live).reverse ++ seen) ids' := by
  induction ids generalizing seen with
  | nil => rfl
  | cons id ids ih =>
      cases hlive : s.liveSession id with
      | none =>
          have hnot : s.live id = false := by rw [NetService.live, hlive]; rfl
          simp only [List.cons_append, reports, hlive, ih, List.filter_cons, hnot,
            Bool.false_eq_true, if_false]
      | some session =>
          have hyes : s.live id = true := by rw [NetService.live, hlive]; rfl
          simp only [List.cons_append, reports, hlive, ih, List.filter_cons, hyes, if_true,
            List.reverse_cons, List.append_assoc, List.nil_append]

theorem netQueueBatch_stale (h : s.liveSession id = none) (cnt : Nat) :
    netQueueBatch s cnt (id :: ids) = netQueueBatch s (ffidIndex s.socketIds id) ids := by
  rw [netQueueBatch]
  cases hslot : s.sessions (ffidIndex s.socketIds id) with
  | none => rfl
  | some session => exact if_neg (liveSession_eq_none.mp h session hslot)

theorem netQueueBatch_live {session : NetSession} (h : s.liveSession id = some session)
    (cnt : Nat) :
    netQueueBatch s cnt (id :: ids) =
      let res := netQueueBatch (s.setSession (ffidIndex s.socketIds id)
        (some { session with events := 0, inQueue := false })) (ffidIndex s.socketIds id) ids
      ({ events := session.events, nd := session.id, data := session.data } :: res.1, res.2) := by
  obtain ⟨hslot, hid⟩ := liveSession_eq_some.mp h
  rw [netQueueBatch, hslot]
  exact if_pos hid

theorem getLast?_cons_map (f : Nat → Nat) (id : Nat) (ids : List Nat) (cnt : Nat) :
    ((id :: ids).getLast?.map f).getD cnt = (ids.getLast?.map f).getD (f id) := by
  rw [List.getLast?_cons]
  cases ids.getLast? with
  | none => rfl
  | some last => rfl

/-- A batch reports its live ids, and leaves the slot of its last id in the counter. -/
theorem Reported.batch (h : Reported s t seen) (cnt : Nat) (msgs : List Nat) :
    (netQueueBatch t cnt msgs).1 = s.reports seen msgs ∧
      (netQueueBatch t cnt msgs).2.1 = (msgs.getLast?.map (ffidIndex s.socketIds)).getD cnt ∧
      (netQueueBatch t cnt msgs).2.2.queue = t.queue ∧
      Reported s (netQueueBatch t cnt msgs).2.2 ((msgs.filter s.live).reverse ++ seen) := by
  induction msgs generalizing t seen cnt with
  | nil => exact ⟨rfl, rfl, rfl, h⟩
  | cons msg msgs ih =>
      have hmap := h.sessions msg
      rw [getLast?_cons_map]
      cases hfirst : s.liveSession msg with
      | none =>
          rw [hfirst, Option.map_none] at hmap
          have hnot : s.live msg = false := by rw [NetService.live, hfirst]; rfl
          simp only [netQueueBatch_stale hmap, h.socketIds, reports, hfirst, List.filter_cons,
            hnot, Bool.false_eq_true, if_false]
          exact ih h _
      | some first =>
          rw [hfirst, Option.map_some] at hmap
          have hyes : s.live msg = true := by rw [NetService.live, hfirst]; rfl
          have hreport := h.report hmap
          rw [h.socketIds] at hreport
          obtain ⟨hevents, hcnt, hqueue, hnext⟩ := ih hreport (ffidIndex s.socketIds msg)
          simp only [netQueueBatch_live hmap, h.socketIds, reports, hfirst, List.filter_cons, hyes,
            if_true, List.reverse_cons, List.append_assoc, List.singleton_append]
          refine ⟨?_, hcnt, hqueue, hnext⟩
          rw [hevents, liveSession_eq_some.mp hmap |>.2]
          split_ifs
          · rfl
          · rfl

/-! ## The loop -/

/-- How many ids the next batch takes, if `wanted` events are missing. -/
def batchSize (wanted : Nat) : Nat := min 128 wanted

/-- No batch ends the loop early: it has the missing events, or all the ids that are left,
or its last id has a slot up to the size of the batch, and the batches behind go on. -/
inductive GoesOn (s : NetService) : Nat → List Nat → Prop
  | enough {wanted : Nat} {ids : List Nat} : (ids.take (batchSize wanted)).countP s.live = wanted →
      GoesOn s wanted ids
  | all {wanted : Nat} {ids : List Nat} : ids.length ≤ batchSize wanted → GoesOn s wanted ids
  | next {wanted last : Nat} {ids : List Nat} :
      (ids.take (batchSize wanted)).getLast? = some last →
      ffidIndex s.socketIds last ≤ batchSize wanted →
      GoesOn s (wanted - (ids.take (batchSize wanted)).countP s.live)
        (ids.drop (batchSize wanted)) →
      GoesOn s wanted ids

/-- Behind a batch that does not end the loop, the rest has to go on. -/
theorem goesOn_iff_rest {wanted last : Nat}
    (hlast : (ids.take (batchSize wanted)).getLast? = some last)
    (hslot : ffidIndex s.socketIds last ≤ batchSize wanted) :
    GoesOn s wanted ids ↔ GoesOn s (wanted - (ids.take (batchSize wanted)).countP s.live)
      (ids.drop (batchSize wanted)) := by
  constructor
  · intro h
    cases h with
    | enough hcount =>
        rw [hcount, Nat.sub_self]
        exact .enough (by rw [batchSize, Nat.min_zero, List.take_zero, List.countP_nil])
    | all hall =>
        rw [List.drop_of_length_le hall]
        exact .all (Nat.zero_le _)
    | next _ _ hrest => exact hrest
  · exact .next hlast hslot

/-- A batch that ends the loop early. -/
theorem goesOn_iff_last {wanted : Nat}
    (h : ∀ last, (ids.take (batchSize wanted)).getLast? = some last →
      (ids.take (batchSize wanted)).length < ffidIndex s.socketIds last) :
    GoesOn s wanted ids ↔ (ids.take (batchSize wanted)).countP s.live = wanted ∨
      ids.drop (batchSize wanted) = [] := by
  rw [List.drop_eq_nil_iff]
  constructor
  · intro hgoes
    cases hgoes with
    | enough hcount => exact .inl hcount
    | all hall => exact .inr hall
    | next hlast hslot _ =>
        right
        have hshort := h _ hlast
        rw [List.length_take] at hshort
        omega
  · rintro (hcount | hall)
    · exact .enough hcount
    · exact .all hall

theorem netQueueLoop_batch (s : NetService) (fuel : Nat) {wanted : Nat} (h : wanted ≠ 0) :
    netQueueLoop s (fuel + 1) wanted =
      let res := netQueueBatch { s with queue := (s.queue.pop (batchSize wanted)).2 }
        (batchSize wanted) (s.queue.items.take (batchSize wanted))
      if (s.queue.items.take (batchSize wanted)).length < res.2.1 then (res.1, res.2.2)
      else
        let rest := netQueueLoop res.2.2 fuel (wanted - res.1.length)
        (res.1 ++ rest.1, rest.2) := by
  rw [netQueueLoop, if_neg h]
  rfl

/-- What `net_queue` does from a state in which some ids have been reported. -/
theorem Reported.loop (h : Reported s t seen) {fuel : Nat} (wanted : Nat)
    (hfuel : t.queue.items.length < fuel) :
    ∃ m, (netQueueLoop t fuel wanted).1 = s.reports seen (t.queue.items.take m) ∧
      (netQueueLoop t fuel wanted).2.queue.items = t.queue.items.drop m ∧
      (netQueueLoop t fuel wanted).1.length ≤ wanted ∧
      ((netQueueLoop t fuel wanted).1.length = wanted ∨
          (netQueueLoop t fuel wanted).2.queue.items = [] ↔ GoesOn s wanted t.queue.items) := by
  induction fuel generalizing t seen wanted with
  | zero => exact absurd hfuel (Nat.not_lt_zero _)
  | succ fuel ih =>
      by_cases hzero : wanted = 0
      · subst hzero
        refine ⟨0, List.take_zero ▸ rfl, List.drop_zero.symm, Nat.le_refl 0, ?_⟩
        exact iff_of_true (.inl rfl)
          (.enough (by rw [batchSize, Nat.min_zero, List.take_zero, List.countP_nil]))
      have hpos : 0 < batchSize wanted := Nat.lt_min.mpr ⟨by decide, Nat.pos_of_ne_zero hzero⟩
      have hpop : Reported s { t with queue := (t.queue.pop (batchSize wanted)).2 } seen :=
        ⟨h.socketIds, h.sessions⟩
      obtain ⟨hevents, hcnt, hqueue, hnext⟩ :=
        hpop.batch (batchSize wanted) (t.queue.items.take (batchSize wanted))
      have hloop := netQueueLoop_batch t fuel hzero
      revert hloop hevents hcnt hqueue hnext
      generalize netQueueBatch { t with queue := (t.queue.pop (batchSize wanted)).2 }
        (batchSize wanted) (t.queue.items.take (batchSize wanted)) = res
      obtain ⟨events, cnt, u⟩ := res
      dsimp only
      intro hevents hcnt hqueue hnext hloop
      have hitems : u.queue.items = t.queue.items.drop (batchSize wanted) := by rw [hqueue]; rfl
      have hcount : events.length = (t.queue.items.take (batchSize wanted)).countP s.live := by
        rw [hevents, reports_length]
      have hle : events.length ≤ wanted := by
        have hpart := List.countP_le_length (p := s.live) (l := t.queue.items.take (batchSize wanted))
        rw [← hcount, List.length_take] at hpart
        exact Nat.le_trans hpart (Nat.le_trans (Nat.min_le_left ..) (Nat.min_le_right ..))
      by_cases hstop : (t.queue.items.take (batchSize wanted)).length < cnt
      · rw [if_pos hstop] at hloop
        rw [hloop]
        refine ⟨batchSize wanted, hevents, hitems, hle, ?_⟩
        rw [goesOn_iff_last, hcount, hitems]
        intro last hlast
        rw [hcnt, hlast, Option.map_some, Option.getD_some] at hstop
        exact hstop
      · rw [if_neg hstop] at hloop
        obtain ⟨last, hlast⟩ :
            ∃ last, (t.queue.items.take (batchSize wanted)).getLast? = some last := by
          apply Option.ne_none_iff_exists'.mp
          intro hnone
          rw [hcnt, hnone, List.getLast?_eq_none_iff.mp hnone, Option.map_none, Option.getD_none,
            List.length_nil] at hstop
          exact hstop hpos
        have hslot : ffidIndex s.socketIds last ≤ batchSize wanted := by
          rw [hcnt, hlast, Option.map_some, Option.getD_some, List.length_take] at hstop
          exact Nat.le_trans (Nat.le_of_not_lt hstop) (Nat.min_le_left ..)
        have hshort : u.queue.items.length < fuel := by
          rw [hitems, List.length_drop]
          have hne : t.queue.items ≠ [] := by
            intro hnil
            rw [hnil, List.take_nil] at hlast
            cases hlast
          have := List.length_pos_iff.mpr hne
          omega
        obtain ⟨m, hrest, hleft, hwithin, hiff⟩ := ih hnext (wanted - events.length) hshort
        rw [hloop]
        dsimp only
        rw [hitems] at hrest hleft hiff
        refine ⟨batchSize wanted + m, ?_, ?_, ?_, ?_⟩
        · rw [List.take_add, reports_append, ← hevents, hrest]
        · rw [hleft, List.drop_drop]
        · rw [List.length_append]
          omega
        · rw [goesOn_iff_rest hlast hslot, ← hcount, ← hiff, List.length_append]
          refine or_congr ?_ Iff.rfl
          omega

end NetService

/-- `net_queue` returns at most `maxevents` events, those of the first live ids of the queue,
and fewer only if the queue is empty. -/
structure NetQueueDrains (s : NetService) (maxevents : Int) : Prop where
  count : ((netQueue s maxevents).1.length : Int) ≤ maxevents
  events : (netQueue s maxevents).1 =
    (s.reports [] s.queue.items).take (netQueue s maxevents).1.length
  drained : ((netQueue s maxevents).1.length : Int) = maxevents ∨
    (netQueue s maxevents).2.queue.items = []

/-- A call of `net_queue` drains the queue as far as it is asked to if and only if no batch
ends its loop early. -/
theorem netQueue_drains_iff (s : NetService) {maxevents : Int} (h : 1 ≤ maxevents) :
    NetQueueDrains s maxevents ↔ s.GoesOn maxevents.toNat s.queue.items := by
  obtain ⟨m, hevents, -, hle, hiff⟩ := (NetService.Reported.refl s).loop maxevents.toNat
    (Nat.lt_succ_self s.queue.items.length)
  have htoNat : ((netQueue s maxevents).1.length : Int) = maxevents ↔
      (netQueue s maxevents).1.length = maxevents.toNat := by omega
  have hreports : (netQueue s maxevents).1 =
      (s.reports [] s.queue.items).take (netQueue s maxevents).1.length := by
    have hparts := s.reports_append [] (s.queue.items.take m) (s.queue.items.drop m)
    rw [List.take_append_drop, ← hevents] at hparts
    rw [hparts]
    exact List.take_left.symm
  rw [← hiff]
  constructor
  · exact fun hdrains => hdrains.drained.imp htoNat.mp id
  · intro hend
    refine ⟨?_, hreports, hend.imp htoNat.mpr id⟩
    have hle : (netQueue s maxevents).1.length ≤ maxevents.toNat := hle
    omega

/-- A service of three slots on a heap of zeros. -/
def threeSlots : NetService := netCreate 3
  { brk := 0, fate := fun _ => some (fun _ => 0), freed := [], pools := fun _ => buffPoolCreate 4 0 }

theorem netQueue_drains_iff_empty : NetQueueDrains threeSlots 1 ↔ threeSlots.GoesOn 1 [] :=
  netQueue_drains_iff threeSlots (Int.le_refl 1)

/-- The id of a closed session in the third slot ends a call for one event, in front of a
live id. -/
theorem netQueue_stops_early : ¬ ∀ s, eventQueue.Reachable s → ∀ maxevents : Int,
    1 ≤ maxevents → NetQueueDrains s maxevents := by
  intro h
  obtain ⟨s, hrun, hevents, hitems⟩ : ∃ s, eventQueue.run threeSlots
      [.create 7 2 none false, .create 8 2 none false, .create 9 2 none false, .pushQueue 3 1 0,
        .close 3 false {}, .pushQueue 1 1 0] = some s ∧ (netQueue s 1).1 = [] ∧
      (netQueue s 1).2.queue.items = [1] := ⟨_, rfl, rfl, rfl⟩
  have hreach : eventQueue.Reachable s := Machine.Reachable.run
    (.init ⟨3, _, by decide, rfl⟩) hrun
  obtain hall | hempty := (h s hreach 1 (Int.le_refl 1)).drained
  · rw [hevents] at hall
    exact absurd hall (by decide)
  · rw [hitems] at hempty
    exact absurd hempty (by decide)

end RandServer
