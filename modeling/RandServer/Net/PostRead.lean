import RandServer.Net.NetWait
import RandServer.Net.RecvStored

/-!
# Receiving into a session

`post_rest_read` reads until the socket is empty, or it sets `etflag` because the receive
buffer is full. `Received` is what holds after it, for the bytes that `recv` has returned. The
end is about the event queue, which a chunk that completes a message enters.
-/

namespace RandServer.PostRead

open Framing

/-- The session receives with epoll, and it is in the queue if its flag says so, which
then reports `Eve_Read`. -/
structure Active (v : RecvVersion) (enByte : EnByteSize) (cap : Nat) (stored : List UInt8)
    (s : NetService) (session : NetSession) (r : ReadSession) : Prop where
  stores : r.rbuff.Stores enByte cap stored
  version : r.rbuff.version = v
  posted : r.op = opNetRead
  listen : session.lsession = none
  connected : session.connectFlag = false
  queue : s.queue.items = if session.inQueue then [session.id] else []
  capacity : 0 < s.queue.capacity
  event : session.inQueue = true → session.events &&& eveRead ≠ 0

/-- What receiving leaves alone. -/
structure Same (s : NetService) (session : NetSession) (r : ReadSession) (s' : NetService)
    (session' : NetSession) (r' : ReadSession) : Prop where
  id : session'.id = session.id
  slots : s'.sessions = s.sessions
  ids : s'.socketIds = s.socketIds
  fate : s'.mem.fate = s.mem.fate
  cursor : r'.rbuff.read = r.rbuff.read
  queued : session.inQueue = true → session'.inQueue = true

theorem Same.trans {s s₁ s₂ : NetService} {session session₁ session₂ : NetSession}
    {r r₁ r₂ : ReadSession} (h₁ : Same s session r s₁ session₁ r₁)
    (h₂ : Same s₁ session₁ r₁ s₂ session₂ r₂) : Same s session r s₂ session₂ r₂ where
  id := h₂.id.trans h₁.id
  slots := h₂.slots.trans h₁.slots
  ids := h₂.ids.trans h₁.ids
  fate := h₂.fate.trans h₁.fate
  cursor := h₂.cursor.trans h₁.cursor
  queued := fun hq => h₂.queued (h₁.queued hq)

section Active

variable {v : RecvVersion} {enByte : EnByteSize} {cap room : Nat} {stored xs : List UInt8}
variable {s s' : NetService} {session session' : NetSession} {r : ReadSession} {sys : Syscalls}
variable {b₁ b₂ : RecvBuff} {m₁ m₂ : Memory UInt8} {ptr : Option RecvPtr} {p : RecvPtr} {ret : Int}

/-- Another state of the buffer and the heap. -/
theorem Active.buffer {stored' : List UInt8} (h : Active v enByte cap stored s session r)
    (hstores : b₁.Stores enByte cap stored') (hversion : b₁.version = r.rbuff.version)
    (m : Memory UInt8) (x : Option ReadSession) (etflag : Bool) :
    Active v enByte cap stored' { s with mem := m } { session with rsession := x }
      { r with rbuff := b₁, etflag := etflag } where
  stores := hstores
  version := hversion.trans h.version
  posted := h.posted
  listen := h.listen
  connected := h.connected
  queue := h.queue
  capacity := h.capacity
  event := h.event

theorem or_eveRead_ne (events : Nat) : (events ||| eveRead) &&& eveRead ≠ 0 := by
  intro hzero
  have hread : Nat.testBit eveRead 1 = true := rfl
  have hbit := congrArg (Nat.testBit · 1) hzero
  simp only [Nat.testBit_and, Nat.testBit_or, hread, Bool.or_true, Bool.and_true,
    Nat.zero_testBit] at hbit
  cases hbit

theorem Active.setSession (h : Active v enByte cap stored s session r) (i : Nat)
    (x : Option NetSession) : Active v enByte cap stored (s.setSession i x) session r :=
  ⟨h.stores, h.version, h.posted, h.listen, h.connected, h.queue, h.capacity, h.event⟩

/-- A message that is complete is reported. -/
theorem Active.pushQueue (h : Active v enByte cap stored s session r) {err ret : Int}
    (ht : RandServer.pushQueue s session eveRead err = (ret, s', session')) :
    Active v enByte cap stored s' session' r ∧ Same s session r s' session' r ∧
      session'.inQueue = true := by
  have hroom : session.inQueue = false → s.queue.items.length < s.queue.capacity := by
    intro hflag
    rw [h.queue, hflag]
    exact h.capacity
  have hqueue := h.queue
  unfold RandServer.pushQueue at ht
  cases hflag : session.inQueue with
  | true =>
      simp only [hflag, if_true, Prod.mk.injEq] at ht
      obtain ⟨-, rfl, rfl⟩ := ht
      rw [hflag] at hqueue
      exact ⟨⟨h.stores, h.version, h.posted, h.listen, h.connected, hqueue, h.capacity,
        fun _ => or_eveRead_ne _⟩, ⟨rfl, rfl, rfl, rfl, rfl, fun _ => rfl⟩, rfl⟩
  | false =>
      simp only [hflag, Bool.false_eq_true, if_false, Prod.mk.injEq] at ht
      obtain ⟨-, rfl, rfl⟩ := ht
      refine ⟨⟨h.stores, h.version, h.posted, h.listen, rfl, ?_, ?_, fun _ => or_eveRead_ne _⟩,
        ⟨rfl, rfl, rfl, rfl, rfl, fun _ => rfl⟩, rfl⟩
      · rw [(BoundedQueue.push_room (hroom hflag)).2, hqueue, hflag]
        rfl
      · rw [BoundedQueue.push_capacity]
        exact h.capacity

/-- `Eve_Read` is pushed if a chunk has completed a message. -/
theorem Active.report {r' : ReadSession} (h : Active v enByte cap stored s' session' r')
    (hsame : Same s session r s' session' r') (ret err : Int) :
    ∃ s₁ session₁, (if ret > 0 then (RandServer.pushQueue s' session' eveRead err).2
        else (s', session')) = (s₁, session₁) ∧ Active v enByte cap stored s₁ session₁ r' ∧
      Same s session r s₁ session₁ r' ∧ (0 < ret → session₁.inQueue = true) := by
  by_cases hret : ret > 0
  · obtain ⟨ret', s₁, session₁, hpush⟩ : ∃ ret' s₁ session₁,
        RandServer.pushQueue s' session' eveRead err = (ret', s₁, session₁) := ⟨_, _, _, rfl⟩
    obtain ⟨hactive, hsame₁, hqueued⟩ := h.pushQueue hpush
    rw [if_pos hret, hpush]
    exact ⟨s₁, session₁, rfl, hactive, hsame.trans hsame₁, fun _ => hqueued⟩
  · rw [if_neg hret]
    exact ⟨s', session', rfl, h, hsame, fun hpos => absurd hpos hret⟩

/-! ### One turn of the loop -/

theorem postRestReadLoop_full (hp : recvBuffPrepare s.mem r.rbuff = (0, ptr, b₁, m₁))
    (rs : List RecvResult) : postRestReadLoop sys s session r rs =
      some ({ s with mem := m₁ },
        { session with rsession := some { r with rbuff := b₁, etflag := true } }) := by
  cases rs with
  | nil => simp only [postRestReadLoop, hp, if_true]
  | cons res rs => simp only [postRestReadLoop, hp, if_true]

theorem postRestReadLoop_again (hp : recvBuffPrepare s.mem r.rbuff = (room, some p, b₁, m₁))
    (hroom : room ≠ 0) (hc : recvBuffConsume m₁ b₁ 0 = (ret, b₂, m₂)) (rs : List RecvResult) :
    postRestReadLoop sys s session r (.error eagain :: rs) =
      some ({ s with mem := m₂ },
        { session with rsession := some { r with rbuff := b₂ } }) := by
  simp only [postRestReadLoop, hp, hc, if_neg hroom, if_true]

theorem postRestReadLoop_received (sys : Syscalls) (session : NetSession)
    (hp : recvBuffPrepare s.mem r.rbuff = (room, some p, b₁, m₁)) (hroom : room ≠ 0)
    (hxs : xs ≠ []) (hfit : xs.length ≤ room)
    (hc : recvBuffConsume m₁ (b₁.fill p xs) xs.length = (ret, b₂, m₂)) (hret : 0 ≤ ret)
    (rs : List RecvResult) : postRestReadLoop sys s session r (.received xs :: rs) =
      let r := { r with rbuff := b₂ }
      let session := { session with rsession := some r }
      let pushed := if ret > 0 then
          (RandServer.pushQueue { s with mem := m₂ } session eveRead sys.errno).2
        else ({ s with mem := m₂ }, session)
      postRestReadLoop sys pushed.1 pushed.2 r rs := by
  simp only [postRestReadLoop, hp, hc, if_neg hroom, if_neg (Nat.not_lt.mpr hfit), if_neg hxs,
    if_neg (Int.not_lt.mpr hret)]

/-! ### The loop -/

/-- The outcome of receiving. A full buffer holds a message, and a message that has been
completed is reported. -/
structure Received (v : RecvVersion) (enByte : EnByteSize) (cap : Nat)
    (stored stored' : List UInt8) (s : NetService) (session : NetSession) (r : ReadSession)
    (s' : NetService) (session' : NetSession) (r' : ReadSession) : Prop where
  active : Active v enByte cap stored' s' session' r'
  same : Same s session r s' session' r'
  full : r'.etflag = true → (split enByte.toNat cap stored').1 ≠ []
  notified : (split enByte.toNat cap stored').1 ≠ [] →
    (split enByte.toNat cap stored).1 ≠ [] ∨ session'.inQueue = true

theorem Received.trans {stored₁ stored₂ : List UInt8} {s₁ s₂ : NetService}
    {session₁ session₂ : NetSession} {r₁ r₂ : ReadSession}
    (h₁ : Received v enByte cap stored stored₁ s session r s₁ session₁ r₁)
    (h₂ : Received v enByte cap stored₁ stored₂ s₁ session₁ r₁ s₂ session₂ r₂) :
    Received v enByte cap stored stored₂ s session r s₂ session₂ r₂ where
  active := h₂.active
  same := h₁.same.trans h₂.same
  full := h₂.full
  notified := by
    intro hsome
    obtain hsome | hqueued := h₂.notified hsome
    · exact (h₁.notified hsome).imp_right h₂.same.queued
    · exact .inr hqueued

/-- A buffer without room holds a message. -/
theorem Active.full (h : Active v enByte cap stored s session r) (halloc : s.mem.AllocOk)
    (hvalid : ValidPrefix enByte.toNat cap stored)
    (hcompletes : v.Completes enByte.toNat cap stored)
    (hp : recvBuffPrepare s.mem r.rbuff = (0, ptr, b₁, m₁)) :
    Received v enByte cap stored stored s session r { s with mem := m₁ }
      { session with rsession := some { r with rbuff := b₁, etflag := true } }
      { r with rbuff := b₁, etflag := true } := by
  have hcursor := recvBuffPrepare_read s.mem r.rbuff
  rw [hp] at hcursor
  obtain ⟨hstores, hversion, hfate⟩ := h.stores.prepare hp
  have hsome := h.stores.prepare_zero halloc hvalid (by rw [h.version]; exact hcompletes)
    (by rw [hp])
  exact ⟨h.buffer hstores hversion _ _ true, ⟨rfl, rfl, rfl, hfate, hcursor, id⟩,
    fun _ => hsome, fun _ => .inl hsome⟩

/-- Nothing is received from an empty socket. -/
theorem Active.again (h : Active v enByte cap stored s session r) (het : r.etflag = false)
    (halloc : s.mem.AllocOk) (hvalid : ValidPrefix enByte.toNat cap stored)
    (hcompletes : v.Completes enByte.toNat cap stored)
    (hp : recvBuffPrepare s.mem r.rbuff = (room, some p, b₁, m₁)) (hroom : room ≠ 0)
    (hc : recvBuffConsume m₁ b₁ 0 = (ret, b₂, m₂)) :
    Received v enByte cap stored stored s session r { s with mem := m₂ }
      { session with rsession := some { r with rbuff := b₂ } } { r with rbuff := b₂ } := by
  have hcursor := recvBuffPrepare_read s.mem r.rbuff
  rw [hp] at hcursor
  have hcursor₂ := recvBuffConsume_read m₁ b₁ 0
  rw [hc] at hcursor₂
  obtain ⟨p', hp', hturn⟩ := h.stores.turn hp (Nat.pos_of_ne_zero hroom)
  obtain rfl := Option.some.inj hp'
  obtain ⟨hstores, hversion, hfate, -⟩ := hturn [] (Nat.zero_le _) ret b₂ m₂
    (by rw [RecvBuff.fill_nil]; exact hc) halloc (by rw [List.append_nil]; exact hvalid)
    (by rw [h.version, List.append_nil]; exact hcompletes)
  rw [List.append_nil] at hstores
  refine ⟨h.buffer hstores hversion _ _ r.etflag,
    ⟨rfl, rfl, rfl, hfate, hcursor₂.trans hcursor, id⟩, fun hyes => ?_, .inl⟩
  rw [het] at hyes
  cases hyes

/-- A chunk is received, and a message that it completes is reported. -/
theorem Active.chunk (h : Active v enByte cap stored s session r) (het : r.etflag = false)
    (halloc : s.mem.AllocOk) (hvalid : ValidPrefix enByte.toNat cap (stored ++ xs))
    (hcompletes : v.Completes enByte.toNat cap (stored ++ xs))
    (hp : recvBuffPrepare s.mem r.rbuff = (room, some p, b₁, m₁)) (hroom : room ≠ 0)
    (hfit : xs.length ≤ room)
    (hc : recvBuffConsume m₁ (b₁.fill p xs) xs.length = (ret, b₂, m₂)) (err : Int) :
    0 ≤ ret ∧ ∃ s₁ session₁, (if ret > 0 then
        (RandServer.pushQueue { s with mem := m₂ }
          { session with rsession := some { r with rbuff := b₂ } } eveRead err).2
      else ({ s with mem := m₂ }, { session with rsession := some { r with rbuff := b₂ } })) =
        (s₁, session₁) ∧
      Received v enByte cap stored (stored ++ xs) s session r s₁ session₁
        { r with rbuff := b₂ } := by
  have hcursor := recvBuffPrepare_read s.mem r.rbuff
  rw [hp] at hcursor
  have hcursor₂ := recvBuffConsume_read m₁ (b₁.fill p xs) xs.length
  rw [hc, RecvBuff.fill_read] at hcursor₂
  obtain ⟨p', hp', hturn⟩ := h.stores.turn hp (Nat.pos_of_ne_zero hroom)
  obtain rfl := Option.some.inj hp'
  obtain ⟨hstores, hversion, hfate, hcount⟩ := hturn xs hfit ret b₂ m₂ hc halloc hvalid
    (by rw [h.version]; exact hcompletes)
  have hmore := (@split_isPrefixOf _ cap enByte.toNat_pos stored xs).length_le
  have hactive := h.buffer hstores hversion m₂ (some { r with rbuff := b₂ }) r.etflag
  have hsame : Same s session r { s with mem := m₂ }
      { session with rsession := some { r with rbuff := b₂ } } { r with rbuff := b₂ } :=
    ⟨rfl, rfl, rfl, hfate, hcursor₂.trans hcursor, id⟩
  obtain ⟨s₁, session₁, hpushed, hactive₁, hsame₁, hreport⟩ := hactive.report hsame ret err
  refine ⟨by omega, s₁, session₁, hpushed, hactive₁, hsame₁, fun hyes => ?_, fun hsome => ?_⟩
  · exact absurd (het.symm.trans hyes) Bool.false_ne_true
  · by_cases hold : (split enByte.toNat cap stored).1 = []
    · rw [hold, List.length_nil] at hcount
      have hpos := List.length_pos_iff.mpr hsome
      exact .inr (hreport (by omega))
    · exact .inl hold

/-- `post_rest_read` takes what `recv` returns. It stops at an empty socket, or it sets
`etflag`. -/
theorem Active.loop {rs : List RecvResult} (h : Active v enByte cap stored s session r)
    (het : r.etflag = false) (halloc : s.mem.AllocOk) (hplain : ∀ res ∈ rs, res.Plain)
    (huses : UsesUp (postRestReadLoop sys s session r) rs)
    (hvalid : ValidPrefix enByte.toNat cap (stored ++ RecvResult.bytes rs))
    (hcompletes : v.Completes enByte.toNat cap (stored ++ RecvResult.bytes rs))
    (hrun : postRestReadLoop sys s session r rs = some (s', session')) :
    ∃ r', session'.rsession = some r' ∧
      Received v enByte cap stored (stored ++ RecvResult.bytes rs) s session r s' session' r' ∧
      (r'.etflag = false → ∃ e, rs.getLast? = some (.error e)) := by
  induction rs generalizing s session r stored with
  | nil =>
      obtain ⟨room, ptr, b₁, m₁, hp⟩ : ∃ room ptr b₁ m₁,
          recvBuffPrepare s.mem r.rbuff = (room, ptr, b₁, m₁) := ⟨_, _, _, _, rfl⟩
      by_cases hzero : room = 0
      · subst hzero
        rw [postRestReadLoop_full hp] at hrun
        cases hrun
        rw [RecvResult.bytes, List.append_nil] at hvalid hcompletes ⊢
        refine ⟨_, rfl, h.full halloc hvalid hcompletes hp, fun hno => ?_⟩
        cases hno
      · simp only [postRestReadLoop, hp, if_neg hzero] at hrun
        cases hrun
  | cons res rs ih =>
      obtain ⟨room, ptr, b₁, m₁, hp⟩ : ∃ room ptr b₁ m₁,
          recvBuffPrepare s.mem r.rbuff = (room, ptr, b₁, m₁) := ⟨_, _, _, _, rfl⟩
      have hzero : room ≠ 0 := by
        rintro rfl
        have hnone := huses 0 (Nat.zero_lt_succ _)
        rw [postRestReadLoop_full hp] at hnone
        cases hnone
      obtain ⟨p, rfl, -⟩ := h.stores.turn hp (Nat.pos_of_ne_zero hzero)
      cases res with
      | error e =>
          obtain rfl : e = eagain := hplain _ List.mem_cons_self
          -- the socket is empty, and this was the last call
          obtain rfl : rs = [] := by
            by_contra hne
            have hnone := huses 1 (Nat.succ_lt_succ (List.length_pos_iff.mpr hne))
            rw [List.take_succ_cons, postRestReadLoop_again hp hzero rfl] at hnone
            cases hnone
          obtain ⟨ret, b₂, m₂, hc⟩ : ∃ ret b₂ m₂, recvBuffConsume m₁ b₁ 0 = (ret, b₂, m₂) :=
            ⟨_, _, _, rfl⟩
          rw [postRestReadLoop_again hp hzero hc] at hrun
          cases hrun
          rw [RecvResult.bytes, RecvResult.bytes, List.append_nil] at hvalid hcompletes ⊢
          exact ⟨_, rfl, h.again het halloc hvalid hcompletes hp hzero hc,
            fun _ => ⟨eagain, rfl⟩⟩
      | received xs =>
          have hxs : xs ≠ [] := hplain _ List.mem_cons_self
          rw [RecvResult.bytes, ← List.append_assoc] at hvalid hcompletes ⊢
          have hfit : xs.length ≤ room := by
            by_contra hlong
            simp only [postRestReadLoop, hp, if_neg hzero, if_pos (Nat.lt_of_not_le hlong)] at hrun
            cases hrun
          obtain ⟨ret, b₂, m₂, hc⟩ : ∃ ret b₂ m₂,
              recvBuffConsume m₁ (b₁.fill p xs) xs.length = (ret, b₂, m₂) := ⟨_, _, _, rfl⟩
          obtain ⟨hret, s₁, session₁, hpushed, hchunk⟩ := h.chunk het halloc hvalid.of_append
            (hcompletes.of_append enByte.toNat_pos) hp hzero hfit hc sys.errno
          have hsteps := postRestReadLoop_received sys session hp hzero hxs hfit hc hret
          simp only [hpushed] at hsteps
          rw [hsteps] at hrun
          have huses' : ∀ n < rs.length, _ := fun n hn => huses (n + 1) (Nat.succ_lt_succ hn)
          simp only [List.take_succ_cons, hsteps] at huses'
          obtain ⟨r', hr', hreceived, hlast⟩ := ih hchunk.active het
            (halloc.of_fate_eq hchunk.same.fate)
            (fun res hres => hplain res (List.mem_cons_of_mem _ hres)) huses' hvalid hcompletes hrun
          refine ⟨r', hr', hchunk.trans hreceived, fun hagain => ?_⟩
          obtain ⟨e, hlast⟩ := hlast hagain
          refine ⟨e, ?_⟩
          cases rs with
          | nil => cases hlast
          | cons res rs => rwa [List.getLast?_cons_cons]

/-- The outcomes of `recv` are an argument of their own. -/
theorem postRestReadLoop_recvs (sys : Syscalls) (recvs rs : List RecvResult) :
    postRestReadLoop { sys with recvs := recvs } s session r rs =
      postRestReadLoop sys s session r rs := by
  induction rs generalizing s session r with
  | nil => simp only [postRestReadLoop]
  | cons res rs ih => simp only [postRestReadLoop, ih]

theorem pushQueue_isSome {event : Nat} {err : Int} (h : session.rsession.isSome = true)
    (ht : (RandServer.pushQueue s session event err).2 = (s', session')) :
    session'.rsession.isSome = true := by
  cases hflag : session.inQueue <;>
    simp only [RandServer.pushQueue, hflag, Bool.false_eq_true, if_true, if_false,
      Prod.mk.injEq] at ht
  all_goals
    obtain ⟨-, rfl⟩ := ht
    exact h

/-- Receiving keeps the read session. -/
theorem postRestReadLoop_isSome {rs : List RecvResult}
    (hrun : postRestReadLoop sys s session r rs = some (s', session')) :
    session'.rsession.isSome = true := by
  induction rs generalizing s session r with
  | nil =>
      simp only [postRestReadLoop, Option.ite_none_right_eq_some, Option.some.injEq,
        Prod.mk.injEq] at hrun
      obtain ⟨-, -, rfl⟩ := hrun
      rfl
  | cons res rs ih =>
      simp only [postRestReadLoop] at hrun
      split at hrun
      · cases hrun
        rfl
      · split at hrun
        · cases hrun
        · split at hrun
          · cases hrun
            rfl
          · exact pushQueue_isSome rfl (Option.some.inj hrun)
        · split at hrun
          · cases hrun
          · split at hrun
            · exact pushQueue_isSome rfl (Option.some.inj hrun)
            · split at hrun
              · exact pushQueue_isSome rfl (Option.some.inj hrun)
              · exact ih hrun

/-- An event for arrived bytes leads to `post_rest_read`. -/
theorem Active.netWaitEvent (h : Active v enByte cap stored s session r)
    (hslot : s.sessions (ffidIndex s.socketIds session.id) = some session)
    (hr : session.rsession = some r) (connected : Bool) (rs : List RecvResult) :
    netWaitEvent s session.id PollEvents.readable connected { sys with recvs := rs } =
      (postRestReadLoop sys s session { r with etflag := false } rs).map fun res =>
        res.1.setSession (ffidIndex s.socketIds session.id) (some res.2) := by
  have hhandle : handleSession s session PollEvents.readable connected { sys with recvs := rs } =
      postRestReadLoop sys s session { r with etflag := false } rs := by
    simp only [handleSession, h.listen, h.connected, PollEvents.readable, Option.isSome_none,
      Bool.false_eq_true, if_false, if_true, postRestRead, hr, Option.bind_eq_bind,
      Option.bind_some]
    exact postRestReadLoop_recvs sys rs rs
  simp only [RandServer.netWaitEvent, hslot, ne_eq, not_true_eq_false, if_false, hhandle,
    Option.bind_eq_bind]
  cases hres : postRestReadLoop sys s session { r with etflag := false } rs with
  | none => rfl
  | some res => rfl

theorem Active.netSocketRead (h : Active v enByte cap stored s session r)
    (hslot : s.sessions (ffidIndex s.socketIds session.id) = some session)
    (hr : session.rsession = some r) (hid : 0 < session.id) (usize : Int) (rs : List RecvResult) :
    RandServer.netSocketRead s session.id usize { sys with recvs := rs } =
      (if r.etflag then postRestReadLoop sys s session { r with etflag := false } rs
        else some (s, session)).bind fun res => res.2.rsession.map fun r =>
          let read := recvBuffRead res.1.mem r.rbuff usize
          (read.1, read.2.1, { res.1.setSession (ffidIndex s.socketIds session.id)
            (some { res.2 with rsession := some { r with rbuff := read.2.2.1 } }) with
              mem := read.2.2.2 }) := by
  have hop : r.op ≠ opNetNone := by
    rw [h.posted]
    decide
  have hpost : postRead s session { sys with recvs := rs } =
      (if r.etflag then postRestReadLoop sys s session { r with etflag := false } rs
        else some (s, session)).map fun res => (0, res.1, res.2) := by
    simp only [postRead, hr, if_pos hop, postRestRead, Option.bind_eq_bind,
      postRestReadLoop_recvs]
    split
    · rw [Option.map_eq_bind]
      rfl
    · rfl
  have hnot : ¬ (session.id = 0 ∨ session.id ≠ session.id ∨ session.rsession.isNone = true) := by
    rw [hr]
    simp only [ne_eq, not_true_eq_false, Option.isNone_some, Bool.false_eq_true, or_false]
    omega
  rw [RandServer.netSocketRead, hslot]
  simp only [if_neg hnot, hpost, Option.bind_eq_bind]
  generalize (if r.etflag then postRestReadLoop sys s session { r with etflag := false } rs
    else some (s, session)) = res
  cases res with
  | none => rfl
  | some res =>
      simp only [Option.map_some, Option.bind_some]
      cases res.2.rsession with
      | none => rfl
      | some r => rfl

/-! ### The event queue -/

theorem netQueueLoop_nil (hqueue : s.queue.items = []) (fuel maxevents : Nat) :
    ∃ queue, netQueueLoop s fuel maxevents = ([], { s with queue := queue }) ∧
      queue.items = [] ∧ queue.capacity = s.queue.capacity := by
  cases fuel with
  | zero => exact ⟨s.queue, rfl, hqueue, rfl⟩
  | succ fuel =>
      by_cases hzero : maxevents = 0
      · exact ⟨s.queue, by rw [netQueueLoop, if_pos hzero], hqueue, rfl⟩
      · have hnil : (s.queue.pop (min 128 maxevents)).1 = [] := by
          show s.queue.items.take _ = []
          rw [hqueue, List.take_nil]
        have hpos : 0 < min 128 maxevents := by omega
        refine ⟨(s.queue.pop (min 128 maxevents)).2, ?_, ?_, rfl⟩
        · rw [netQueueLoop, if_neg hzero]
          simp only [hnil, netQueueBatch, List.length_nil, if_pos hpos]
        · show s.queue.items.drop _ = []
          rw [hqueue, List.drop_nil]

/-- One id whose session is in its slot. -/
theorem netQueueLoop_singleton (hqueue : s.queue.items = [session.id])
    (hslot : s.sessions (ffidIndex s.socketIds session.id) = some session) (fuel : Nat)
    {maxevents : Nat} (hzero : maxevents ≠ 0) :
    ∃ queue, netQueueLoop s (fuel + 1) maxevents =
        ([{ events := session.events, nd := session.id, data := session.data }],
          { s.setSession (ffidIndex s.socketIds session.id)
              (some { session with events := 0, inQueue := false }) with queue := queue }) ∧
      queue.items = [] ∧ queue.capacity = s.queue.capacity := by
  have htake : (s.queue.pop (min 128 maxevents)).1 = [session.id] := by
    show s.queue.items.take _ = _
    rw [hqueue]
    exact List.take_of_length_le (by rw [List.length_singleton]; omega)
  have hdrop : (s.queue.pop (min 128 maxevents)).2.items = [] := by
    show s.queue.items.drop _ = []
    rw [hqueue]
    exact List.drop_of_length_le (by rw [List.length_singleton]; omega)
  rw [netQueueLoop, if_neg hzero]
  simp only [htake, netQueueBatch, hslot, if_true, List.length_singleton]
  split
  · exact ⟨_, rfl, hdrop, rfl⟩
  · obtain ⟨queue, hloop, hitems, hcapacity⟩ := @netQueueLoop_nil
      ({ s with queue := (s.queue.pop (min 128 maxevents)).2 }.setSession
        (ffidIndex s.socketIds session.id) (some { session with events := 0, inQueue := false }))
      hdrop fuel (maxevents - 1)
    rw [hloop]
    exact ⟨queue, rfl, hitems, hcapacity⟩

/-- The session leaves the queue with its event, if anything is taken. -/
theorem Active.netQueue (h : Active v enByte cap stored s session r)
    (hslot : s.sessions (ffidIndex s.socketIds session.id) = some session) (maxevents : Int) :
    ∃ events session', (RandServer.netQueue s maxevents).1 = events ∧
      (RandServer.netQueue s maxevents).2.sessions (ffidIndex s.socketIds session.id) =
        some session' ∧
      (RandServer.netQueue s maxevents).2.socketIds = s.socketIds ∧
      session'.rsession = session.rsession ∧ session'.id = session.id ∧
      Active v enByte cap stored (RandServer.netQueue s maxevents).2 session' r ∧
      (session.inQueue = true → session'.inQueue = true ∨
        ∃ e ∈ events, e.nd = session.id ∧ e.events &&& eveRead ≠ 0) := by
  have hqueue := h.queue
  cases hflag : session.inQueue with
  | false =>
      rw [hflag, if_neg Bool.false_ne_true] at hqueue
      obtain ⟨queue, hloop, hitems, hcapacity⟩ :=
        netQueueLoop_nil hqueue (s.queue.items.length + 1) maxevents.toNat
      rw [RandServer.netQueue, hloop]
      refine ⟨[], session, rfl, hslot, rfl, rfl, rfl, ⟨h.stores, h.version, h.posted, h.listen,
        h.connected, ?_, ?_, h.event⟩, ?_⟩
      · rw [hitems, hflag]
        rfl
      · rw [hcapacity]
        exact h.capacity
      · intro hno
        cases hno
  | true =>
      rw [hflag, if_pos rfl] at hqueue
      by_cases hzero : maxevents.toNat = 0
      · have hloop : RandServer.netQueue s maxevents = ([], s) := by
          rw [RandServer.netQueue, netQueueLoop, if_pos hzero]
        rw [hloop]
        exact ⟨[], session, rfl, hslot, rfl, rfl, rfl, h, fun _ => .inl hflag⟩
      · obtain ⟨queue, hloop, hitems, hcapacity⟩ :=
          netQueueLoop_singleton hqueue hslot s.queue.items.length hzero
        rw [RandServer.netQueue, hloop]
        refine ⟨_, { session with events := 0, inQueue := false }, rfl, ?_, rfl, rfl, rfl,
          ⟨h.stores, h.version, h.posted, h.listen, h.connected, hitems, ?_, ?_⟩,
          fun _ => .inr ⟨_, List.mem_singleton_self _, rfl, h.event hflag⟩⟩
        · simp only [NetService.setSession_self]
        · rw [hcapacity]
          exact h.capacity
        · intro hno
          cases hno

end Active

end RandServer.PostRead
