import RandServer.Net.NetWait

/-!
# Sending from a session

The socket that a session sends to, and what posting, receiving and draining the event
queue leave of the session. The kernel holds the bytes that the peer has not taken yet. If
it has found no room for more, it raises an edge when the peer takes some, provided that the
socket is registered for writing.
-/

namespace RandServer

/-! ## The socket -/

/-- `held` of `size` bytes are in use. `full` says that the last look has found no room. -/
structure SendSocket where
  size : Nat
  held : Nat
  full : Bool
  edge : Bool

/-- What happens at the socket during a call. -/
inductive SendEvent
  | drain (n : Nat)
  | send (res : SendResult)

/-- The outcomes of the calls of `send`. -/
def SendEvent.sends : List SendEvent → List SendResult
  | [] => []
  | .drain _ :: es => sends es
  | .send res :: es => res :: sends es

/-- The number of bytes that `send` has taken over. -/
def SendResult.count : List SendResult → Nat
  | [] => 0
  | .sent n :: rs => n + count rs
  | .error _ :: rs => count rs

/-- An error other than that of a full socket. -/
def SendResult.fails : SendResult → Bool
  | .sent _ => false
  | .error e => e ≠ eagain

namespace SendSocket

def writable (k : SendSocket) : Bool := k.held < k.size

/-- epoll looks at the socket. -/
def look (k : SendSocket) : SendSocket := { k with full := k.full || !k.writable }

/-- `epoll_wait` takes the edge. -/
def poll (k : SendSocket) : SendSocket := { k.look with edge := false }

/-- `epoll_ctl` registers the socket for writing, which raises an edge if there is room. -/
def ctl (k : SendSocket) : SendSocket := { k.look with edge := k.edge || k.writable }

/-- The peer takes bytes, or `send` takes some over or fails. It fails with `EAGAIN` if
there is no room. -/
def event (k : SendSocket) (posted : Bool) : SendEvent → Option SendSocket
  | .drain n =>
      if n = 0 ∨ k.held < n then none
      else some { k with
        held := k.held - n
        full := false
        edge := k.edge || (posted && k.full) }
  | .send (.sent n) =>
      if n = 0 ∨ k.size < k.held + n then none else some { k with held := k.held + n }
  | .send (.error e) =>
      if e = 0 ∨ e = eagain ∧ k.writable = true then none
      else some { k with full := k.full || e = eagain }

def serve (k : SendSocket) (posted : Bool) : List SendEvent → Option SendSocket
  | [] => some k
  | e :: es => (k.event posted e).bind fun k => k.serve posted es

/-- `full` is set only if there is no room. -/
structure Sound (k : SendSocket) : Prop where
  fits : k.held ≤ k.size
  full : k.full = true → k.size ≤ k.held

/-- An edge is pending, or the next bytes that the peer takes raise one. -/
def Awaits (k : SendSocket) : Prop := k.edge = true ∨ k.full = true

/-- The effect of a call on the socket. -/
structure Serves (k : SendSocket) (posted : Bool) (es : List SendEvent) (k' : SendSocket) :
    Prop where
  sound : k.Sound → k'.Sound
  size : k'.size = k.size
  held : k'.held ≤ k.held + SendResult.count (SendEvent.sends es)
  valid : ∀ res ∈ SendEvent.sends es, res.Valid
  awaits : posted = true → k.Sound →
    k.Awaits ∨ .error eagain ∈ SendEvent.sends es → k'.Awaits

variable {k k₁ k' : SendSocket} {posted : Bool} {es : List SendEvent}

theorem Sound.look (h : k.Sound) : k.look.Sound := by
  refine ⟨h.fits, fun hfull => ?_⟩
  simp only [SendSocket.look, writable, Bool.or_eq_true, Bool.not_eq_true',
    decide_eq_false_iff_not, Nat.not_lt] at hfull
  exact hfull.elim h.full id

theorem Sound.poll (h : k.Sound) : k.poll.Sound := ⟨h.look.fits, h.look.full⟩

theorem Sound.ctl (h : k.Sound) : k.ctl.Sound := ⟨h.look.fits, h.look.full⟩

/-- After registering there is an edge, or the socket has been found full. -/
theorem awaits_ctl (k : SendSocket) : k.ctl.Awaits := by
  cases hroom : k.writable with
  | true => exact .inl (by simp only [SendSocket.ctl, hroom, Bool.or_true])
  | false => exact .inr (by simp only [SendSocket.ctl, SendSocket.look, hroom, Bool.not_false,
      Bool.or_true])

/-- If `epoll_wait` finds no room, the peer raises the next edge. -/
theorem awaits_poll (hroom : k.writable = false) : k.poll.Awaits :=
  .inr (by simp only [SendSocket.poll, SendSocket.look, hroom, Bool.not_false, Bool.or_true])

theorem Serves.nil (k : SendSocket) (posted : Bool) : k.Serves posted [] k where
  sound := id
  size := rfl
  held := Nat.le_refl _
  valid := fun _ hres => absurd hres List.not_mem_nil
  awaits := fun _ _ h => h.resolve_right List.not_mem_nil

theorem Serves.drain {n : Nat} (h : k₁.Serves posted es k')
    (hevent : k.event posted (.drain n) = some k₁) : k.Serves posted (.drain n :: es) k' := by
  simp only [event, Option.ite_none_left_eq_some, Option.some.injEq] at hevent
  obtain ⟨-, rfl⟩ := hevent
  have hsound : k.Sound → Sound { k with
      held := k.held - n, full := false, edge := k.edge || (posted && k.full) } := fun hk =>
    ⟨Nat.le_trans (Nat.sub_le _ _) hk.fits, fun hno => absurd hno Bool.false_ne_true⟩
  refine ⟨fun hk => h.sound (hsound hk), h.size,
    Nat.le_trans h.held (Nat.add_le_add_right (Nat.sub_le _ _) _), h.valid,
    fun hposted hk hawaits => h.awaits hposted (hsound hk) (hawaits.imp_left ?_)⟩
  rintro (hedge | hfull)
  · exact .inl (by simp only [hedge, Bool.true_or])
  · exact .inl (by simp only [hposted, hfull, Bool.and_true, Bool.or_true])

theorem Serves.sent {n : Nat} (h : k₁.Serves posted es k')
    (hevent : k.event posted (.send (.sent n)) = some k₁) :
    k.Serves posted (.send (.sent n) :: es) k' := by
  simp only [event, Option.ite_none_left_eq_some, Option.some.injEq, not_or, Nat.not_lt] at hevent
  obtain ⟨⟨hpos, hroom⟩, rfl⟩ := hevent
  have hsound : k.Sound → Sound { k with held := k.held + n } := fun hk =>
    ⟨hroom, fun hfull => Nat.le_add_right_of_le (hk.full hfull)⟩
  refine ⟨fun hk => h.sound (hsound hk), h.size, ?_, ?_, fun hposted hk hawaits => ?_⟩
  · rw [SendEvent.sends, SendResult.count, ← Nat.add_assoc]
    exact h.held
  · intro res hres
    obtain rfl | hres := List.mem_cons.mp hres
    · trivial
    · exact h.valid res hres
  · refine h.awaits hposted (hsound hk) (hawaits.imp_right fun hmem => ?_)
    obtain heq | hmem := List.mem_cons.mp hmem
    · cases heq
    · exact hmem

theorem Serves.error {e : Nat} (h : k₁.Serves posted es k')
    (hevent : k.event posted (.send (.error e)) = some k₁) :
    k.Serves posted (.send (.error e) :: es) k' := by
  simp only [event, Option.ite_none_left_eq_some, Option.some.injEq, not_or, not_and,
    Bool.not_eq_true] at hevent
  obtain ⟨⟨he, hfull⟩, rfl⟩ := hevent
  have hsound : k.Sound → Sound { k with full := k.full || e = eagain } := by
    refine fun hk => ⟨hk.fits, fun hyes => ?_⟩
    obtain hold | heq := (Bool.or_eq_true _ _).mp hyes
    · exact hk.full hold
    · have hnot := hfull (of_decide_eq_true heq)
      rw [writable, decide_eq_false_iff_not, Nat.not_lt] at hnot
      exact hnot
  refine ⟨fun hk => h.sound (hsound hk), h.size, h.held, ?_, fun hposted hk hawaits => ?_⟩
  · intro res hres
    obtain rfl | hres := List.mem_cons.mp hres
    · exact he
    · exact h.valid res hres
  · refine h.awaits hposted (hsound hk) ?_
    rcases hawaits with (hedge | hold) | hmem
    · exact .inl (.inl hedge)
    · exact .inl (.inr (by simp only [hold, Bool.true_or]))
    · obtain heq | hmem := List.mem_cons.mp hmem
      · cases heq
        exact .inl (.inr (by simp only [decide_true, Bool.or_true]))
      · exact .inr hmem

theorem serve_spec (h : k.serve posted es = some k') : k.Serves posted es k' := by
  induction es generalizing k with
  | nil =>
      cases h
      exact .nil _ _
  | cons e es ih =>
      obtain ⟨k₁, hevent, hrest⟩ := Option.bind_eq_some_iff.mp h
      cases e with
      | drain n => exact (ih hrest).drain hevent
      | send res =>
          cases res with
          | sent n => exact (ih hrest).sent hevent
          | error e => exact (ih hrest).error hevent

end SendSocket

/-- The call uses all of the outcomes, since fewer are not enough for it. -/
def UsesAll {α β : Type} (call : List β → Option α) (rs : List β) : Prop :=
  ∀ n < rs.length, (call (rs.take n)).isNone

instance {α β : Type} (call : List β → Option α) (rs : List β) : Decidable (UsesAll call rs) :=
  Nat.decidableBallLT _ _

namespace PostWrite

/-! ## What sending takes out of the buffer -/

section Loop

variable {enByte : EnByteSize} {n bs r : Nat} {q : List UInt8} {m m' : Memory UInt8}
variable {w w' : WriteSession} {sends : List SendResult} {ret : Int}

theorem sendBuffConsume_write (m : Memory UInt8) (b : SendBuff) (usize : Nat) :
    (sendBuffConsume m b usize).1.write = b.write := by
  unfold sendBuffConsume
  split <;> rfl

/-- Only an error ends the loop before the buffer is empty. -/
theorem postRestWriteLoop_same (ht : postRestWriteLoop m w sends = some (ret, w', m')) :
    w'.op = w.op ∧ w'.sbuff.write = w.sbuff.write ∧ (ret ≠ 0 → ∃ e, .error e ∈ sends) := by
  induction sends generalizing m w with
  | nil =>
      simp only [postRestWriteLoop, Option.ite_none_right_eq_some, Option.some.injEq,
        Prod.mk.injEq] at ht
      obtain ⟨-, rfl, rfl, -⟩ := ht
      exact ⟨rfl, rfl, fun hret => absurd rfl hret⟩
  | cons res sends ih =>
      by_cases hzero : (sendBuffPrepare w.sbuff).1 = 0
      · simp only [postRestWriteLoop, hzero, if_true, Option.some.injEq, Prod.mk.injEq] at ht
        obtain ⟨rfl, rfl, -⟩ := ht
        exact ⟨rfl, rfl, fun hret => absurd rfl hret⟩
      · cases res with
        | error e =>
            have hmem : ∃ e', SendResult.error e' ∈ SendResult.error e :: sends :=
              ⟨e, List.mem_cons_self⟩
            simp only [postRestWriteLoop, if_neg hzero] at ht
            split at ht
            · cases ht
              exact ⟨rfl, rfl, fun _ => hmem⟩
            · cases ht
              exact ⟨rfl, rfl, fun _ => hmem⟩
        | sent k =>
            simp only [postRestWriteLoop, if_neg hzero] at ht
            split at ht
            · cases ht
            · obtain ⟨hop, hwrite, herror⟩ := ih ht
              refine ⟨hop, hwrite.trans (sendBuffConsume_write ..), fun hret => ?_⟩
              obtain ⟨e, he⟩ := herror hret
              exact ⟨e, List.mem_cons_of_mem _ he⟩

theorem postRestWriteLoop_fails (ht : postRestWriteLoop m w sends = some (ret, w', m'))
    (hret : ret < 0) : ∃ res ∈ sends, res.fails = true := by
  induction sends generalizing m w with
  | nil =>
      simp only [postRestWriteLoop, Option.ite_none_right_eq_some, Option.some.injEq,
        Prod.mk.injEq] at ht
      obtain ⟨-, rfl, -⟩ := ht
      exact absurd hret (lt_irrefl 0)
  | cons res sends ih =>
      by_cases hzero : (sendBuffPrepare w.sbuff).1 = 0
      · simp only [postRestWriteLoop, hzero, if_true, Option.some.injEq, Prod.mk.injEq] at ht
        exact absurd hret (by rw [← ht.1]; exact lt_irrefl 0)
      · cases res with
        | error e =>
            simp only [postRestWriteLoop, if_neg hzero] at ht
            split at ht
            · cases ht
              exact absurd hret (by omega)
            · rename_i hagain
              exact ⟨_, List.mem_cons_self, decide_eq_true hagain⟩
        | sent k =>
            simp only [postRestWriteLoop, if_neg hzero] at ht
            split at ht
            · cases ht
            · obtain ⟨res, hres, hfails⟩ := ih ht
              exact ⟨res, List.mem_cons_of_mem _ hres, hfails⟩

/-- The bytes that the loop hands over are as many as `send` takes over. -/
theorem postRestWriteSent_length (hrep : SendBuff.Rep enByte n bs w.sbuff r q)
    (huses : UsesAll (postRestWriteLoop m w) sends)
    (ht : postRestWriteLoop m w sends = some (ret, w', m')) :
    (postRestWriteSent m w sends).length = SendResult.count sends := by
  induction sends generalizing m w r q with
  | nil => rfl
  | cons res sends ih =>
      have hzero : (sendBuffPrepare w.sbuff).1 ≠ 0 := by
        intro hzero
        have hnone := huses 0 (Nat.zero_lt_succ _)
        simp only [List.take_zero, postRestWriteLoop, if_pos hzero, Option.isNone_some] at hnone
        cases hnone
      cases res with
      | error e =>
          -- no call of `send` follows an error
          obtain rfl : sends = [] := by
            by_contra hne
            have hnone := huses 1 (Nat.succ_lt_succ (List.length_pos_iff.mpr hne))
            simp only [List.take_succ_cons, postRestWriteLoop, if_neg hzero] at hnone
            split at hnone <;> cases hnone
          simp only [postRestWriteSent, if_neg hzero, SendResult.count, List.length_nil]
      | sent k =>
          simp only [postRestWriteLoop, if_neg hzero] at ht
          split at ht
          · cases ht
          · rename_i hlt
            have hle : k ≤ (sendBuffPrepare w.sbuff).1 := Nat.le_of_not_lt hlt
            obtain ⟨hrep', -⟩ := hrep.consume (Nat.le_trans hle hrep.prepare_le) (m := m)
            have huses' : UsesAll (postRestWriteLoop (sendBuffConsume m w.sbuff k).2
                { w with sbuff := (sendBuffConsume m w.sbuff k).1 }) sends := by
              intro i hi
              have hnone := huses (i + 1) (Nat.succ_lt_succ hi)
              simpa only [List.take_succ_cons, postRestWriteLoop, if_neg hzero, if_neg hlt]
                using hnone
            have hlen : (q.take k).length = k :=
              List.length_take_of_le (Nat.le_trans hle hrep.prepare_le)
            simp only [postRestWriteSent, if_neg hzero, SendResult.count, hrep.peek_eq hle,
              List.length_append, hlen, ih hrep' huses' ht]

end Loop

/-! ## What a call leaves of the session -/

/-- The session is registered for receiving. -/
def receives (session : NetSession) : Bool := session.rsession.any (·.op ≠ opNetNone)

/-- What only opening and closing change. -/
structure Intact (s : NetService) (session : NetSession) (s' : NetService)
    (session' : NetSession) : Prop where
  id : session'.id = session.id
  fd : session'.fd = session.fd
  slots : s'.sessions = s.sessions
  ids : s'.socketIds = s.socketIds
  closeRoot : s'.closeRoot = s.closeRoot
  size : s'.size = s.size

/-- What a call leaves alone. -/
structure Same (s : NetService) (session : NetSession) (s' : NetService) (session' : NetSession) :
    Prop extends Intact s session s' session' where
  delayQueue : s'.delayQueue = s.delayQueue
  delayed : session'.inDelayQueue = session.inDelayQueue
  listen : session'.lsession = session.lsession
  connected : session.connectFlag = false → session'.connectFlag = false

/-- Receiving keeps the bytes to send, and the registration unless it fails. -/
structure ReadSide (s : NetService) (session : NetSession) (s' : NetService)
    (session' : NetSession) : Prop extends Same s session s' session' where
  sbuff : session'.wsession.map WriteSession.sbuff = session.wsession.map WriteSession.sbuff
  wsession : receives session' = true → session'.wsession = session.wsession

variable {s s₁ s' : NetService} {session session₁ session' : NetSession} {sys : Syscalls}

theorem Intact.refl (s : NetService) (session : NetSession) : Intact s session s session :=
  ⟨rfl, rfl, rfl, rfl, rfl, rfl⟩

theorem Intact.trans (h₁ : Intact s session s₁ session₁) (h₂ : Intact s₁ session₁ s' session') :
    Intact s session s' session' where
  id := h₂.id.trans h₁.id
  fd := h₂.fd.trans h₁.fd
  slots := h₂.slots.trans h₁.slots
  ids := h₂.ids.trans h₁.ids
  closeRoot := h₂.closeRoot.trans h₁.closeRoot
  size := h₂.size.trans h₁.size

theorem Same.refl (s : NetService) (session : NetSession) : Same s session s session :=
  ⟨⟨rfl, rfl, rfl, rfl, rfl, rfl⟩, rfl, rfl, rfl, fun h => h⟩

theorem Same.trans (h₁ : Same s session s₁ session₁) (h₂ : Same s₁ session₁ s' session') :
    Same s session s' session' where
  toIntact := h₁.toIntact.trans h₂.toIntact
  delayQueue := h₂.delayQueue.trans h₁.delayQueue
  delayed := h₂.delayed.trans h₁.delayed
  listen := h₂.listen.trans h₁.listen
  connected := fun h => h₂.connected (h₁.connected h)

theorem ReadSide.refl (s : NetService) (session : NetSession) : ReadSide s session s session :=
  ⟨.refl s session, rfl, fun _ => rfl⟩

/-- A call after one that has kept the registration. -/
theorem Same.reads (h₁ : Same s session s₁ session₁) (hw : session₁.wsession = session.wsession)
    (h₂ : ReadSide s₁ session₁ s' session') : ReadSide s session s' session' where
  toSame := h₁.trans h₂.toSame
  sbuff := h₂.sbuff.trans (congrArg _ hw)
  wsession := fun h => (h₂.wsession h).trans hw

theorem pushQueue_same {event : Nat} {err : Int}
    (ht : (pushQueue s session event err).2 = (s', session')) :
    Same s session s' session' ∧ session'.wsession = session.wsession ∧
      session'.rsession = session.rsession := by
  unfold pushQueue at ht
  cases hflag : session.inQueue with
  | true =>
      simp only [hflag, if_true, Prod.mk.injEq] at ht
      obtain ⟨rfl, rfl⟩ := ht
      exact ⟨⟨⟨rfl, rfl, rfl, rfl, rfl, rfl⟩, rfl, rfl, rfl, fun h => h⟩, rfl, rfl⟩
  | false =>
      simp only [hflag, Bool.false_eq_true, if_false, Prod.mk.injEq] at ht
      obtain ⟨rfl, rfl⟩ := ht
      exact ⟨⟨⟨rfl, rfl, rfl, rfl, rfl, rfl⟩, rfl, rfl, rfl, fun _ => rfl⟩, rfl, rfl⟩

theorem receives_cleanEpollOp (session : NetSession) : receives (cleanEpollOp session) = false := by
  cases hr : session.rsession <;> simp [receives, cleanEpollOp, hr]

theorem cleanEpollOp_sbuff (session : NetSession) :
    (cleanEpollOp session).wsession.map WriteSession.sbuff =
      session.wsession.map WriteSession.sbuff := by
  cases hw : session.wsession <;> simp [cleanEpollOp, hw]

/-- Without registrations. -/
theorem ReadSide.of_clean (h : Same s session s' session')
    (hw : session'.wsession = (cleanEpollOp session).wsession)
    (hr : session'.rsession = (cleanEpollOp session).rsession) : ReadSide s session s' session' where
  toSame := h
  sbuff := by rw [hw, cleanEpollOp_sbuff]
  wsession := by
    intro hyes
    have hno := receives_cleanEpollOp session
    rw [receives, ← hr] at hno
    rw [receives, hno] at hyes
    cases hyes

/-- An error is reported. -/
theorem reads_error {event : Nat} {err : Int}
    (ht : (pushQueue s (cleanEpollOp session) event err).2 = (s', session')) :
    ReadSide s session s' session' := by
  obtain ⟨hsame, hw, hr⟩ := pushQueue_same ht
  exact .of_clean ⟨⟨hsame.id, hsame.fd, hsame.slots, hsame.ids, hsame.closeRoot,
    hsame.size⟩,
    hsame.delayQueue, hsame.delayed, hsame.listen, hsame.connected⟩ hw hr

/-- The heap and the read session concern receiving only. -/
theorem ReadSide.buffer {m : Memory UInt8} {r : Option ReadSession}
    (h : ReadSide { s with mem := m } { session with rsession := r } s' session') :
    ReadSide s session s' session' :=
  have hsame : Same s session { s with mem := m } { session with rsession := r } :=
    ⟨⟨rfl, rfl, rfl, rfl, rfl, rfl⟩, rfl, rfl, rfl, fun h => h⟩
  hsame.reads rfl h

/-- Reading from the buffer. -/
theorem ReadSide.setBuffer (h : ReadSide s session s₁ session₁) {r : ReadSession}
    (hr : session₁.rsession = some r) (b : RecvBuff) :
    ReadSide s session s₁ { session₁ with rsession := some { r with rbuff := b } } where
  toSame := ⟨⟨h.id, h.fd, h.slots, h.ids, h.closeRoot, h.size⟩, h.delayQueue, h.delayed,
    h.listen, h.connected⟩
  sbuff := h.sbuff
  wsession := fun hyes => h.wsession (by rw [receives, hr]; exact hyes)

/-- A complete message is reported. -/
theorem ReadSide.pushQueue {event : Nat} {err : Int}
    (h : ReadSide (pushQueue s session event err).2.1 (pushQueue s session event err).2.2
      s' session') :
    ReadSide s session s' session' := by
  obtain ⟨hsame, hw, -⟩ := @pushQueue_same s _ session _ event err rfl
  exact hsame.reads hw h

theorem postRestReadLoop_reads {r : ReadSession} {recvs : List RecvResult}
    (ht : postRestReadLoop sys s session r recvs = some (s', session')) :
    ReadSide s session s' session' := by
  induction recvs generalizing s session r with
  | nil =>
      simp only [postRestReadLoop, Option.ite_none_right_eq_some, Option.some.injEq,
        Prod.mk.injEq] at ht
      obtain ⟨-, rfl, rfl⟩ := ht
      exact (ReadSide.refl _ _).buffer
  | cons res recvs ih =>
      simp only [postRestReadLoop] at ht
      split at ht
      · cases ht
        exact (ReadSide.refl _ _).buffer
      · split at ht
        · cases ht
        · split at ht
          · cases ht
            exact (ReadSide.refl _ _).buffer
          · exact (reads_error (Option.some.inj ht)).buffer
        · split at ht
          · cases ht
          · split at ht
            · exact (reads_error (Option.some.inj ht)).buffer
            · split at ht
              · exact (reads_error (Option.some.inj ht)).buffer
              · split at ht
                · exact (ih ht).pushQueue.buffer
                · exact (ih ht).buffer

theorem postRestRead_reads (ht : postRestRead s session sys = some (s', session')) :
    ReadSide s session s' session' := by
  cases hr : session.rsession with
  | none =>
      simp only [postRestRead, hr, Option.some.injEq, Prod.mk.injEq] at ht
      obtain ⟨rfl, rfl⟩ := ht
      exact .refl _ _
  | some r =>
      simp only [postRestRead, hr] at ht
      exact postRestReadLoop_reads ht

theorem postRead_reads {ret : Int} (ht : postRead s session sys = some (ret, s', session')) :
    ReadSide s session s' session' := by
  cases hr : session.rsession with
  | none =>
      simp only [postRead, hr, Option.some.injEq, Prod.mk.injEq] at ht
      obtain ⟨-, rfl, rfl⟩ := ht
      exact .refl _ _
  | some r =>
      simp only [postRead, hr] at ht
      by_cases hop : r.op ≠ opNetNone
      · rw [if_pos hop] at ht
        split at ht
        · obtain ⟨⟨s₁, session₁⟩, hrest, heq⟩ := Option.bind_eq_some_iff.mp ht
          cases heq
          exact postRestRead_reads hrest
        · cases ht
          exact .refl _ _
      · rw [if_neg hop] at ht
        split at ht
        · cases ht
          obtain ⟨hsame, hw, hr'⟩ := @pushQueue_same s _ session _ (eveRead ||| eveError)
            sys.errno rfl
          refine .of_clean ⟨⟨hsame.id, hsame.fd, hsame.slots, hsame.ids, hsame.closeRoot,
    hsame.size⟩,
            hsame.delayQueue, hsame.delayed, hsame.listen, hsame.connected⟩ ?_ ?_
          · simp only [cleanEpollOp, hw]
          · simp only [cleanEpollOp, hr']
        · cases ht
          exact ReadSide.buffer (m := s.mem) (r := some { r with op := opNetRead }) (.refl _ _)

/-! ## Sending -/

section Sending

variable {enByte : EnByteSize} {n bs r : Nat} {q : List UInt8} {w : WriteSession} {ret : Int}

/-- The bytes that `post_write` hands to the socket. -/
def postWriteSent (m : Memory UInt8) (w : WriteSession) (sends : List SendResult) : List UInt8 :=
  if w.op = opNetNone then [] else postRestWriteSent m { w with etflag := false } sends

/-- The outcome of sending from a buffer with the bytes `q`. If all is well, bytes stay only
behind an error or if the socket has just been registered. -/
def Sends (enByte : EnByteSize) (n bs : Nat) (w : WriteSession) (q sent : List UInt8)
    (sends : List SendResult) (session' : NetSession) (well : Prop) : Prop :=
  ∃ w' r' q', session'.wsession = some w' ∧ SendBuff.Rep enByte n bs w'.sbuff r' q' ∧
    sent ++ q' = q ∧ w'.sbuff.write = w.sbuff.write ∧
    (well → q' ≠ [] → w'.op ≠ opNetNone ∧ (w.op ≠ opNetNone → ∃ e, .error e ∈ sends))

/-- A negative result is that of a call of `send`. -/
theorem postRestWrite_fails (hw : session.wsession = some w)
    (ht : postRestWrite s session sys = some (ret, s', session')) (hret : ret < 0) :
    ∃ res ∈ sys.sends, res.fails = true := by
  simp only [postRestWrite, hw] at ht
  obtain ⟨⟨ret', w', mem⟩, hloop, heq⟩ := Option.bind_eq_some_iff.mp ht
  cases heq
  exact postRestWriteLoop_fails hloop hret

/-- Sending runs the loop. -/
theorem postRestWriteLoop_of_postRestWrite (hw : session.wsession = some w)
    (ht : postRestWrite s session sys = some (ret, s', session')) :
    ∃ res, postRestWriteLoop s.mem { w with etflag := false } sys.sends = some res := by
  simp only [postRestWrite, hw] at ht
  obtain ⟨res, hloop, -⟩ := Option.bind_eq_some_iff.mp ht
  exact ⟨res, hloop⟩

theorem postRestWrite_sends (hw : session.wsession = some w)
    (hrep : SendBuff.Rep enByte n bs w.sbuff r q) (hop : w.op ≠ opNetNone)
    (hvalid : ∀ res ∈ sys.sends, res.Valid)
    (ht : postRestWrite s session sys = some (ret, s', session')) :
    Same s session s' session' ∧ Sends enByte n bs w q
      (postRestWriteSent s.mem { w with etflag := false } sys.sends) sys.sends session' True := by
  simp only [postRestWrite, hw] at ht
  obtain ⟨⟨ret', w', mem⟩, hloop, heq⟩ := Option.bind_eq_some_iff.mp ht
  cases heq
  obtain ⟨r', q', hrep', -, hsent, hzero, -⟩ :=
    postRestWriteLoop_spec (w := { w with etflag := false }) hrep hvalid hloop
  obtain ⟨hop', hwrite, herror⟩ := postRestWriteLoop_same hloop
  refine ⟨⟨⟨rfl, rfl, rfl, rfl, rfl, rfl⟩, rfl, rfl, rfl, fun h => h⟩,
    w', r', q', rfl, hrep', hsent, hwrite,
    fun _ hne => ⟨?_, fun _ => herror fun hret => hne (hzero hret)⟩⟩
  rw [hop']
  exact hop

theorem postWrite_sends (hw : session.wsession = some w)
    (hrep : SendBuff.Rep enByte n bs w.sbuff r q) (hvalid : ∀ res ∈ sys.sends, res.Valid)
    (ht : postWrite s session sys = some (ret, s', session')) :
    Same s session s' session' ∧
      Sends enByte n bs w q (postWriteSent s.mem w sys.sends) sys.sends session'
        (receives session' = true) := by
  simp only [postWrite, hw] at ht
  by_cases hop : w.op = opNetNone
  · rw [if_neg (not_not.mpr hop)] at ht
    have hsent : postWriteSent s.mem w sys.sends ++ q = q := by
      rw [postWriteSent, if_pos hop, List.nil_append]
    by_cases hzero : (sendBuffPrepare w.sbuff).1 = 0
    · rw [if_pos hzero] at ht
      cases ht
      exact ⟨.refl _ _, w, r, q, hw, hrep, hsent, rfl,
        fun _ hne => absurd (hrep.prepare_eq_zero.mp hzero) hne⟩
    · rw [if_neg hzero] at ht
      split at ht
      · cases ht
        obtain ⟨hsame, hw', -⟩ := @pushQueue_same s _ session _ (writeError ||| eveError)
          sys.errno rfl
        refine ⟨⟨⟨hsame.id, hsame.fd, hsame.slots, hsame.ids, hsame.closeRoot, hsame.size⟩,
            hsame.delayQueue, hsame.delayed, hsame.listen, hsame.connected⟩,
          { w with op := opNetNone }, r, q, ?_, hrep, hsent, rfl, fun hyes => ?_⟩
        · simp only [cleanEpollOp, hw', hw, Option.map_some]
        · rw [receives_cleanEpollOp] at hyes
          cases hyes
      · cases ht
        exact ⟨⟨⟨rfl, rfl, rfl, rfl, rfl, rfl⟩, rfl, rfl, rfl, fun h => h⟩,
          { w with op := opNetWrite }, r, q, rfl, hrep, hsent, rfl,
          fun _ _ => ⟨(by decide : opNetWrite ≠ opNetNone), fun hno => absurd hop hno⟩⟩
  · rw [if_pos hop] at ht
    obtain ⟨⟨ret', s₁, session₁⟩, hrest, heq⟩ := Option.bind_eq_some_iff.mp ht
    cases heq
    rw [postWriteSent, if_neg hop]
    obtain ⟨hsame, w', r', q', hw', hrep', hsent, hwrite, hwell⟩ :=
      postRestWrite_sends hw hrep hop hvalid hrest
    exact ⟨hsame, w', r', q', hw', hrep', hsent, hwrite, fun _ => hwell trivial⟩

theorem postRestWriteLoop_of_postWrite (hw : session.wsession = some w) (hop : w.op ≠ opNetNone)
    (ht : postWrite s session sys = some (ret, s', session')) :
    ∃ res, postRestWriteLoop s.mem { w with etflag := false } sys.sends = some res := by
  simp only [postWrite, hw, if_pos hop] at ht
  obtain ⟨⟨ret', s₁, session₁⟩, hrest, -⟩ := Option.bind_eq_some_iff.mp ht
  exact postRestWriteLoop_of_postRestWrite hw hrest

/-- Receiving after sending. -/
theorem Sends.reads {sent : List UInt8} {sends : List SendResult} {well : Prop}
    (h₁ : Sends enByte n bs w q sent sends session₁ well) (h₂ : ReadSide s₁ session₁ s' session') :
    Sends enByte n bs w q sent sends session' (well ∧ receives session' = true) := by
  obtain ⟨w', r', q', hw', hrep', hsent, hwrite, hwell⟩ := h₁
  have hsbuff := h₂.sbuff
  rw [hw', Option.map_some] at hsbuff
  obtain ⟨w'', hw'', heq⟩ := Option.map_eq_some_iff.mp hsbuff
  refine ⟨w'', r', q', hw'', by rw [heq]; exact hrep', hsent, by rw [heq]; exact hwrite, ?_⟩
  rintro ⟨hyes, hreceives⟩
  have hsame := h₂.wsession hreceives
  rw [hw', hw''] at hsame
  rw [Option.some.inj hsame]
  exact hwell hyes

/-- An error ends the registration. -/
theorem handleSession_err {events : PollEvents} {connected : Bool}
    (hlisten : session.lsession = none) (herr : events.err = true)
    (ht : handleSession s session events connected sys = some (s', session')) :
    receives session' = false := by
  simp only [handleSession, hlisten, herr, Option.isSome_none, Bool.false_eq_true, if_false,
    if_true, Option.some.injEq] at ht
  obtain ⟨-, -, hr⟩ := pushQueue_same ht
  rw [receives, hr]
  exact receives_cleanEpollOp session

/-- An event that does not report room to write. -/
theorem handleSession_reads {events : PollEvents} {connected : Bool}
    (hlisten : session.lsession = none) (hconnected : session.connectFlag = false)
    (hevents : events.err = true ∨ events.out = false)
    (ht : handleSession s session events connected sys = some (s', session')) :
    ReadSide s session s' session' := by
  simp only [handleSession, hlisten, hconnected, Option.isSome_none, Bool.false_eq_true, if_false]
    at ht
  split at ht
  · exact reads_error (Option.some.inj ht)
  · rename_i herr
    rw [hevents.resolve_left herr] at ht
    simp only [Bool.false_eq_true, if_false, Option.bind_eq_bind, Option.bind_some] at ht
    split at ht
    · exact postRestRead_reads ht
    · cases ht
      exact .refl _ _

theorem postRestWriteLoop_of_handleSession {inp connected : Bool}
    (hlisten : session.lsession = none) (hconnected : session.connectFlag = false)
    (hw : session.wsession = some w)
    (ht : handleSession s session { err := false, out := true, inp := inp } connected sys =
      some (s', session')) :
    ∃ res, postRestWriteLoop s.mem { w with etflag := false } sys.sends = some res := by
  simp only [handleSession, hlisten, hconnected, Option.isSome_none, Bool.false_eq_true, if_false,
    if_true] at ht
  obtain ⟨⟨err, s₁, session₁⟩, hwrite, -⟩ := Option.bind_eq_some_iff.mp ht
  exact postRestWriteLoop_of_postRestWrite hw hwrite

/-- An event that reports room to write. -/
theorem handleSession_sends {inp connected : Bool} (hlisten : session.lsession = none)
    (hconnected : session.connectFlag = false) (hw : session.wsession = some w)
    (hrep : SendBuff.Rep enByte n bs w.sbuff r q) (hop : w.op ≠ opNetNone)
    (hvalid : ∀ res ∈ sys.sends, res.Valid)
    (ht : handleSession s session { err := false, out := true, inp := inp } connected sys =
      some (s', session')) :
    Same s session s' session' ∧
      Sends enByte n bs w q (postRestWriteSent s.mem { w with etflag := false } sys.sends)
        sys.sends session' ((∀ res ∈ sys.sends, res.fails = false) ∧ receives session' = true) := by
  simp only [handleSession, hlisten, hconnected, Option.isSome_none, Bool.false_eq_true, if_false,
    if_true] at ht
  obtain ⟨⟨err, s₂, session₂⟩, hwrite, ht⟩ := Option.bind_eq_some_iff.mp ht
  obtain ⟨hsame, hsends⟩ := postRestWrite_sends hw hrep hop hvalid hwrite
  obtain ⟨s₁, session₁, hrest, hsame₁, hsends₁⟩ : ∃ s₁ session₁,
      (if inp = true then postRestRead s₁ session₁ sys else some (s₁, session₁)) =
        some (s', session') ∧ Same s session s₁ session₁ ∧ Sends enByte n bs w q
      (postRestWriteSent s.mem { w with etflag := false } sys.sends) sys.sends session₁
      (∀ res ∈ sys.sends, res.fails = false) := by
    dsimp only at ht
    split at ht
    · -- an error other than `EAGAIN` is reported
      rename_i herr
      have hreads := @reads_error s₂ _ session₂ _ (handleEpollout ||| eveError) err rfl
      obtain ⟨w', r', q', hw', hrep', hsent, hwrite', -⟩ := hsends.reads hreads
      refine ⟨_, _, ht, hsame.trans hreads.toSame, w', r', q', hw', hrep', hsent, hwrite',
        fun hno => ?_⟩
      obtain ⟨e, hmem, hfails⟩ := postRestWrite_fails hw hwrite herr
      rw [hno _ hmem] at hfails
      cases hfails
    · obtain ⟨w', r', q', hw', hrep', hsent, hwrite', hwell⟩ := hsends
      exact ⟨_, _, ht, hsame, w', r', q', hw', hrep', hsent, hwrite', fun _ => hwell trivial⟩
  split at hrest
  · have hreads := postRestRead_reads hrest
    exact ⟨hsame₁.trans hreads.toSame, hsends₁.reads hreads⟩
  · cases hrest
    obtain ⟨w', r', q', hw', hrep', hsent, hwrite', hwell⟩ := hsends₁
    exact ⟨hsame₁, w', r', q', hw', hrep', hsent, hwrite', fun hyes => hwell hyes.1⟩

end Sending

/-! ## Draining the event queue -/

/-- `net_queue` takes events off the sessions and leaves the rest of them alone. -/
structure Drained (s t : NetService) : Prop where
  ids : t.socketIds = s.socketIds
  delayQueue : t.delayQueue = s.delayQueue
  closeRoot : t.closeRoot = s.closeRoot
  size : t.size = s.size
  empty : ∀ i, s.sessions i = none → t.sessions i = none
  sessions : ∀ i session, s.sessions i = some session → ∃ events inQueue,
    t.sessions i = some { session with events := events, inQueue := inQueue }

section Drained

variable {t u : NetService}

theorem Drained.refl (s : NetService) : Drained s s :=
  ⟨rfl, rfl, rfl, rfl, fun _ h => h, fun _ _ h => ⟨_, _, h⟩⟩

theorem Drained.trans (h₁ : Drained s t) (h₂ : Drained t u) : Drained s u where
  ids := h₂.ids.trans h₁.ids
  delayQueue := h₂.delayQueue.trans h₁.delayQueue
  closeRoot := h₂.closeRoot.trans h₁.closeRoot
  size := h₂.size.trans h₁.size
  empty := fun i hi => h₂.empty i (h₁.empty i hi)
  sessions := by
    intro i session hi
    obtain ⟨events, inQueue, hi⟩ := h₁.sessions i session hi
    exact h₂.sessions i { session with events := events, inQueue := inQueue } hi

/-- Events are taken off one session. -/
theorem drained_setSession (hslot : s.sessions (ffidIndex s.socketIds session.id) = some session) :
    Drained s (s.setSession (ffidIndex s.socketIds session.id)
      (some { session with events := 0, inQueue := false })) := by
  refine ⟨rfl, rfl, rfl, rfl, fun i hi => ?_, fun i other hi => ?_⟩
  · by_cases heq : i = ffidIndex s.socketIds session.id
    · rw [heq, hslot] at hi
      cases hi
    · rw [NetService.setSession_of_ne heq]
      exact hi
  · by_cases heq : i = ffidIndex s.socketIds session.id
    · rw [heq, hslot, Option.some.injEq] at hi
      rw [heq, NetService.setSession_self, hi]
      exact ⟨_, _, rfl⟩
    · rw [NetService.setSession_of_ne heq]
      exact ⟨other.events, other.inQueue, hi⟩

theorem drained_batch (s : NetService) (cnt : Nat) (msgs : List Nat) :
    Drained s (netQueueBatch s cnt msgs).2.2 := by
  induction msgs generalizing s cnt with
  | nil => exact .refl s
  | cons msg msgs ih =>
      cases hslot : s.sessions (ffidIndex s.socketIds msg) with
      | none =>
          simp only [netQueueBatch, hslot]
          exact ih s _
      | some session =>
          simp only [netQueueBatch, hslot]
          split
          · rename_i hid
            subst hid
            have hone := drained_setSession hslot
            exact hone.trans (ih _ _)
          · exact ih s _

theorem drained_loop (s : NetService) (fuel maxevents : Nat) :
    Drained s (netQueueLoop s fuel maxevents).2 := by
  induction fuel generalizing s maxevents with
  | zero => exact .refl s
  | succ fuel ih =>
      rw [netQueueLoop]
      split
      · exact .refl s
      · have hbatch : Drained s (netQueueBatch
            { s with queue := (s.queue.pop (min 128 maxevents)).2 } (min 128 maxevents)
            (s.queue.pop (min 128 maxevents)).1).2.2 := by
          have hpop : Drained s { s with queue := (s.queue.pop (min 128 maxevents)).2 } :=
            ⟨rfl, rfl, rfl, rfl, fun _ hi => hi, fun _ _ hi => ⟨_, _, hi⟩⟩
          exact hpop.trans (drained_batch _ _ _)
        dsimp only
        split
        · exact hbatch
        · exact hbatch.trans (ih _ _)

end Drained

end PostWrite

end RandServer
