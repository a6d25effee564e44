import RandServer.Net.PostWrite
import RandServer.Net.ReadStall

/-!
# No write stall

A configured session, from the call of `net_socket_write` to the socket. `net_wait` takes
edges that the socket raises, and `net_delay` takes the session off the delay queue. Nothing
else looks at the send buffer again, so that bytes in it need an edge, a place in the delay
queue, or a full socket, which raises an edge when the peer takes bytes.

A call of `send` that fails for another reason than a full socket is an exception, since
`post_write` does not look at the result of `post_rest_write`. So is a session that loses its
registration, which it does when it reports an error or the peer has closed.
-/

namespace RandServer

open Framing PostWrite

/-- A session with its service and socket, the messages that have been accepted, and the
bytes that have been sent. -/
structure WriteStall where
  service : NetService
  nd : Nat
  socket : SendSocket
  accepted : List (List UInt8)
  sent : List UInt8
  /-- A call of `send` has failed, or the session has lost its registration. -/
  failed : Bool

namespace WriteStall

/-- The events at the socket during a call are arguments. Between calls, the peer takes
bytes. The results of `recv` may be anything. -/
inductive Action
  | drain (n : Nat)
  | netSocketWrite (buff : List UInt8) (usize : Int) (delay : Bool) (sys : Syscalls)
      (es : List SendEvent)
  | netDelay (sys : Syscalls) (es : List SendEvent)
  | netWait (err inp connected : Bool) (sys : Syscalls) (es : List SendEvent)
  | netQueue (maxevents : Int)
  | netSocketRead (usize : Int) (sys : Syscalls)

namespace Action

def events : Action → List SendEvent
  | .drain n => [.drain n]
  | .netSocketWrite _ _ _ _ es => es
  | .netDelay _ es => es
  | .netWait _ _ _ _ es => es
  | .netQueue _ => []
  | .netSocketRead _ _ => []

def sends (a : Action) : List SendResult := SendEvent.sends a.events

/-- The message to write. -/
def payload : Action → List (List UInt8)
  | .netSocketWrite buff usize _ _ _ => [buff.take usize.toNat]
  | _ => []

end Action

def session (s : WriteStall) : Option NetSession :=
  s.service.sessions (ffidIndex s.service.socketIds s.nd)

def wsession (s : WriteStall) : Option WriteSession := s.session.bind NetSession.wsession

/-- The session is registered for writing. -/
def posted (s : WriteStall) : Bool := s.wsession.any (·.op ≠ opNetNone)

/-- The session is in the delay queue. -/
def delayed (s : WriteStall) : Bool := s.session.any NetSession.inDelayQueue

/-- The write cursor of the send buffer. -/
def cursor (s : WriteStall) : Option Nat := s.wsession.map fun w => w.sbuff.write

/-- The frames of the accepted messages. -/
def written (s : WriteStall) : List UInt8 :=
  s.wsession.elim [] fun w => encode w.sbuff.enByte.toNat s.accepted

/-- What `epoll_wait` reports. -/
def polled (s : WriteStall) (err inp : Bool) : PollEvents where
  err := err
  out := s.posted && s.socket.writable
  inp := inp

/-- The heap and the write session with which `post_rest_write` enters its loop. -/
def looping (s : WriteStall) : Action → Option (Memory UInt8 × WriteSession)
  | .netSocketWrite buff usize delay _ _ =>
      (s.wsession.filter fun w => !delay && w.op ≠ opNetNone).map fun w =>
        let res := sendBuffWrite s.service.mem w.sbuff buff usize
        (res.2.2, { w with sbuff := res.2.1, etflag := false })
  | .netDelay _ _ =>
      (s.wsession.filter fun w =>
        s.service.delayQueue.items.head? = some s.nd && w.op ≠ opNetNone).map fun w =>
          (s.service.mem, { w with etflag := false })
  | .netWait err inp _ _ _ =>
      (s.wsession.filter fun _ => !err && (s.polled err inp).out).map fun w =>
        (s.service.mem, { w with etflag := false })
  | _ => none

/-- The bytes that an action hands to the socket. -/
def handed (s : WriteStall) (a : Action) : List UInt8 :=
  (s.looping a).elim [] fun l => postRestWriteSent l.1 l.2 a.sends

/-- An action makes the calls of `send` that it needs and no others. -/
def uses (s : WriteStall) (a : Action) : Bool :=
  match s.looping a with
  | none => a.sends.isEmpty
  | some l => decide (UsesAll (postRestWriteLoop l.1 l.2) a.sends)

/-- The caller passes at least `usize` bytes, and `epoll_wait` returns for an event. -/
def enabled (s : WriteStall) : Action → Bool
  | .netSocketWrite buff usize _ _ _ => usize < 2 ^ 31 && usize ≤ buff.length
  | .netWait err inp _ _ _ => s.socket.edge || err || inp
  | _ => true

/-- The socket when a call begins. -/
def before (s : WriteStall) : Action → SendSocket
  | .netWait _ _ _ _ _ => s.socket.poll
  | _ => s.socket

def call (s : WriteStall) : Action → Option NetService
  | .drain _ => some s.service
  | .netSocketWrite buff usize delay sys es =>
      (RandServer.netSocketWrite s.service s.nd buff usize delay
        { sys with sends := SendEvent.sends es }).map Prod.snd
  | .netDelay sys es =>
      (netDelayOne s.service { sys with sends := SendEvent.sends es }).map Prod.snd
  | .netWait err inp connected sys es =>
      netWaitEvent s.service s.nd (s.polled err inp) connected
        { sys with sends := SendEvent.sends es }
  | .netQueue maxevents => some (RandServer.netQueue s.service maxevents).2
  | .netSocketRead usize sys =>
      (RandServer.netSocketRead s.service s.nd usize sys).map fun res => res.2.2

/-- The state after a call. The socket is looked at if the session has been registered for
writing. A message counts as accepted if the write cursor has moved. -/
def after (s : WriteStall) (a : Action) (service : NetService) (socket : SendSocket) : WriteStall :=
  let t := { s with service := service }
  { t with
    socket := if t.posted && !s.posted then socket.ctl else socket
    accepted := if t.cursor = s.cursor then s.accepted else s.accepted ++ a.payload
    sent := s.sent ++ s.handed a
    failed := s.failed || a.sends.any SendResult.fails || !t.session.any receives }

def step (s : WriteStall) (a : Action) : Option WriteStall :=
  if s.enabled a && s.uses a then do
    let socket ← (s.before a).serve s.posted a.events
    let service ← s.call a
    some (s.after a service socket)
  else none

/-- A session that has just been configured. -/
inductive Init : WriteStall → Prop
  | mk {s service : NetService} {nd : Nat} {session : NetSession} {config : NetConfig}
      {sys : Syscalls} {socket : SendSocket}
      (hslot : s.sessions (ffidIndex s.socketIds nd) = some session) (hid : session.id = nd)
      (hdelayed : session.inDelayQueue = false) (hqueue : s.delayQueue.items = [])
      (hcapacity : 0 < s.delayQueue.capacity)
      (hconfig : Geometry config.writeBuffCnt (s.mem.pools config.pool).bufferSize)
      (hctl : sys.epollCtl = 0) (hcfg : netSocketCfg s nd (some config) sys = some (1, service))
      (hsize : 0 < socket.size) (hheld : socket.held = 0) (hfull : socket.full = false) :
      Init
        { service := service, nd := nd, socket := socket, accepted := [], sent := [],
          failed := false }

/-- No edge is pending, and the session is not in the delay queue. -/
def Quiescent (s : WriteStall) : Prop := s.socket.edge = false ∧ s.delayed = false

/-- The messages go out in order. If no `send` has failed and the session is still
registered, all of them are out when nothing is pending, unless the socket is full and the
next bytes that the peer takes raise an edge. -/
structure Flows (s : WriteStall) : Prop where
  inOrder : s.sent <+: s.written
  complete : s.failed = false → s.Quiescent → s.sent = s.written ∨
    0 < s.socket.held ∧ s.socket.size ≤ s.socket.held ∧
      ∀ n socket, s.socket.event s.posted (.drain n) = some socket → socket.edge = true

end WriteStall

def writeStall : Machine WriteStall WriteStall.Action where
  Init := WriteStall.Init
  step := WriteStall.step

namespace WriteStall

/-! ## The invariant -/

/-- The written bytes are the sent ones and those in the buffer. If there are any in the
buffer, an edge or the delay queue leads to them. -/
structure At (enByte : EnByteSize) (n bs : Nat) (session : NetSession) (w : WriteSession)
    (r : Nat) (q : List UInt8) (s : WriteStall) : Prop where
  slot : s.session = some session
  id : session.id = s.nd
  nd_pos : 0 < s.nd
  wsession : session.wsession = some w
  rep : SendBuff.Rep enByte n bs w.sbuff r q
  bytes : encode enByte.toNat s.accepted = s.sent ++ q
  listen : session.lsession = none
  connected : session.connectFlag = false
  queue : s.service.delayQueue.items = if session.inDelayQueue then [s.nd] else []
  capacity : 0 < s.service.delayQueue.capacity
  sound : s.socket.Sound
  size : 0 < s.socket.size
  held : s.socket.held ≤ s.sent.length
  goesOn : s.failed = false → q ≠ [] →
    session.inDelayQueue = true ∨ w.op ≠ opNetNone ∧ s.socket.Awaits

/-- What the call of an action leaves. Bytes stay in the buffer behind an error of `send`, or
in a session that has just been registered or delayed, or they are looked after as before. -/
structure Outcome (enByte : EnByteSize) (n bs : Nat) (session : NetSession) (w : WriteSession)
    (q : List UInt8) (s : WriteStall) (a : Action) (service : NetService)
    (session' : NetSession) (w' : WriteSession) (r' : Nat) (q' : List UInt8) : Prop where
  slot : service.sessions (ffidIndex service.socketIds s.nd) = some session'
  id : session'.id = session.id
  wsession : session'.wsession = some w'
  rep : SendBuff.Rep enByte n bs w'.sbuff r' q'
  bytes : w'.sbuff.write = w.sbuff.write ∧ s.handed a ++ q' = q ∨
    w'.sbuff.write ≠ w.sbuff.write ∧ s.handed a ++ q' = q ++ encode enByte.toNat a.payload
  listen : session'.lsession = none
  connected : session'.connectFlag = false
  queue : service.delayQueue.items = if session'.inDelayQueue then [s.nd] else []
  capacity : service.delayQueue.capacity = s.service.delayQueue.capacity
  count : SendResult.count a.sends ≤ (s.handed a).length
  goesOn : (∀ res ∈ a.sends, res.fails = false) → receives session' = true → q' ≠ [] →
    session'.inDelayQueue = true ∨
      w'.op ≠ opNetNone ∧ (w.op ≠ opNetNone → ∃ e, .error e ∈ a.sends) ∨
      q ≠ [] ∧ session'.inDelayQueue = session.inDelayQueue ∧ w'.op = w.op ∧
        (w.op ≠ opNetNone → s.socket.Awaits → (s.before a).Awaits)

namespace At

variable {enByte : EnByteSize} {n bs r : Nat} {session : NetSession} {w : WriteSession}
variable {q : List UInt8} {s t : WriteStall}

theorem wsession_eq (h : s.At enByte n bs session w r q) : s.wsession = some w := by
  rw [WriteStall.wsession, h.slot, Option.bind_some, h.wsession]

theorem posted_eq (h : s.At enByte n bs session w r q) :
    s.posted = decide (w.op ≠ opNetNone) := by
  rw [posted, h.wsession_eq, Option.any_some]

theorem written_eq (h : s.At enByte n bs session w r q) :
    s.written = encode enByte.toNat s.accepted := by
  rw [written, h.wsession_eq, Option.elim_some, h.rep.enByte]

theorem delayed_eq (h : s.At enByte n bs session w r q) : s.delayed = session.inDelayQueue := by
  rw [delayed, h.slot, Option.any_some]

theorem flows (h : s.At enByte n bs session w r q) : s.Flows := by
  refine ⟨⟨q, by rw [h.written_eq, h.bytes]⟩, ?_⟩
  rintro hok ⟨hedge, hdelayed⟩
  rw [h.delayed_eq] at hdelayed
  by_cases hq : q = []
  · left
    rw [h.written_eq, h.bytes, hq, List.append_nil]
  · right
    obtain hyes | ⟨hop, hyes | hfull⟩ := h.goesOn hok hq
    · exact absurd hyes (Bool.eq_false_iff.mp hdelayed)
    · exact absurd hyes (Bool.eq_false_iff.mp hedge)
    · have hle := h.sound.full hfull
      refine ⟨Nat.lt_of_lt_of_le h.size hle, hle, fun k socket hevent => ?_⟩
      simp only [SendSocket.event, Option.ite_none_left_eq_some, Option.some.injEq] at hevent
      obtain ⟨-, rfl⟩ := hevent
      simp only [h.posted_eq, hop, hfull, ne_eq, not_false_eq_true, decide_true, Bool.and_true,
        Bool.or_true]

theorem after_held (s : WriteStall) (a : Action) (service : NetService) (socket : SendSocket) :
    (s.after a service socket).socket.held = socket.held := by
  simp only [WriteStall.after]
  split <;> rfl

/-- The state after a call. -/
theorem after (h : s.At enByte n bs session w r q) {a : Action} {service : NetService}
    {socket : SendSocket} {session' : NetSession} {w' : WriteSession} {r' : Nat}
    {q' : List UInt8} (hbefore : (s.before a).Sound ∧ (s.before a).size = s.socket.size ∧
      (s.before a).held = s.socket.held)
    (hserves : (s.before a).Serves s.posted a.events socket)
    (hout : Outcome enByte n bs session w q s a service session' w' r' q') :
    (s.after a service socket).At enByte n bs session' w' r' q' := by
  obtain ⟨hsound, hsize, hheld⟩ := hbefore
  have hslot : WriteStall.session { s with service := service } = some session' := hout.slot
  have hw' : WriteStall.wsession { s with service := service } = some w' := by
    rw [WriteStall.wsession, hslot, Option.bind_some, hout.wsession]
  have hposted : posted { s with service := service } = decide (w'.op ≠ opNetNone) := by
    rw [posted, hw', Option.any_some]
  have hcursor : cursor { s with service := service } = some w'.sbuff.write ∧
      cursor s = some w.sbuff.write := by
    rw [cursor, hw', cursor, h.wsession_eq]
    exact ⟨rfl, rfl⟩
  refine ⟨hslot, hout.id.trans h.id, h.nd_pos, hout.wsession, hout.rep, ?_, hout.listen,
    hout.connected, hout.queue, ?_, ?_, ?_, ?_, ?_⟩
  · have hbytes := h.bytes
    simp only [WriteStall.after, hcursor.1, hcursor.2, Option.some.injEq]
    obtain ⟨hsame, hq⟩ | ⟨hmoved, hq⟩ := hout.bytes
    · rw [if_pos hsame, hbytes, List.append_assoc, hq]
    · rw [if_neg hmoved, encode_append, hbytes, List.append_assoc, List.append_assoc, hq]
  · exact Nat.lt_of_lt_of_eq h.capacity hout.capacity.symm
  · simp only [WriteStall.after]
    split
    · exact (hserves.sound hsound).ctl
    · exact hserves.sound hsound
  · simp only [WriteStall.after]
    split
    · exact Nat.lt_of_lt_of_eq h.size (hserves.size.trans hsize).symm
    · exact Nat.lt_of_lt_of_eq h.size (hserves.size.trans hsize).symm
  · have hle : socket.held ≤ (s.sent ++ s.handed a).length := by
      have hle := hserves.held
      have hcount := hout.count
      have hold := h.held
      rw [Action.sends] at hcount
      rw [List.length_append]
      omega
    rw [after_held]
    exact hle
  · intro hok hne
    simp only [WriteStall.after, hslot, Option.any_some, Bool.or_eq_false_iff, Bool.not_eq_false',
      List.any_eq_false, Bool.not_eq_true] at hok
    obtain ⟨⟨hold, hsends⟩, hreceives⟩ := hok
    obtain hdelay | ⟨hop, herror⟩ | ⟨hq, hdelay, hop, hkept⟩ := hout.goesOn hsends hreceives hne
    · exact .inl hdelay
    · refine .inr ⟨hop, ?_⟩
      simp only [WriteStall.after, hposted, h.posted_eq]
      by_cases hwas : w.op = opNetNone
      · -- the session has just been registered
        simp only [hop, hwas, ne_eq, not_true_eq_false, not_false_eq_true, decide_true,
          decide_false, Bool.not_false, Bool.and_true, if_true]
        exact SendSocket.awaits_ctl _
      · simp only [hwas, ne_eq, not_false_eq_true, decide_true, Bool.not_true, Bool.and_false,
          Bool.false_eq_true, if_false]
        obtain ⟨e, he⟩ := herror hwas
        have hagain : e = eagain := by
          have hno := hsends _ he
          simp only [SendResult.fails, ne_eq, decide_not, Bool.not_eq_false',
            decide_eq_true_eq] at hno
          exact hno
        subst hagain
        exact hserves.awaits (by rw [h.posted_eq]; exact decide_eq_true hwas) hsound (.inr he)
    · rw [hop, hdelay]
      refine (h.goesOn hold hq).imp_right fun ⟨hwas, hawaits⟩ => ⟨hwas, ?_⟩
      simp only [WriteStall.after, hposted, h.posted_eq, hop, hwas, ne_eq, not_false_eq_true,
        decide_true, Bool.not_true, Bool.and_false, Bool.false_eq_true, if_false]
      exact hserves.awaits (by rw [h.posted_eq]; exact decide_eq_true hwas) hsound
        (.inl (hkept hwas hawaits))

/-! ## Calls -/

/-- A message is appended if the write cursor moves. -/
theorem write_cases {b b' : SendBuff} {m m' : Memory UInt8} {pdata : List UInt8} {size ret : Int}
    (hrep : SendBuff.Rep enByte n bs b r q) (hsize : size < 2 ^ 31) (hdata : size ≤ pdata.length)
    (ht : sendBuffWrite m b pdata size = (ret, b', m')) :
    ∃ q', SendBuff.Rep enByte n bs b' r q' ∧ (b'.write = b.write ∧ q' = q ∨
      b'.write ≠ b.write ∧ q' = q ++ encode enByte.toNat [pdata.take size.toNat]) := by
  by_cases hyes : SendBuff.Rep.Accepts enByte n bs q.length size
  · obtain ⟨-, -, ⟨-, hrep'⟩ | ⟨-, hrep'⟩⟩ := hrep.write_accepted hsize hdata hyes ht
    · refine ⟨_, hrep', .inr ⟨hrep.write_ne hrep' (frame_ne_nil enByte.toNat_pos _), ?_⟩⟩
      rw [encode_cons, encode_nil, List.append_nil]
    · exact ⟨q, hrep', .inl ⟨hrep'.write.trans hrep.write.symm, rfl⟩⟩
  · rw [hrep.write_refused hsize hyes] at ht
    cases ht
    exact ⟨q, hrep, .inl ⟨rfl, rfl⟩⟩

/-- The bytes that the calls of `send` take over have been handed to them. -/
theorem count_le {a : Action} (huses : s.uses a = true)
    (hloop : ∀ m w', s.looping a = some (m, w') → (∃ r q, SendBuff.Rep enByte n bs w'.sbuff r q) ∧
      ∃ res, postRestWriteLoop m w' a.sends = some res) :
    SendResult.count a.sends ≤ (s.handed a).length := by
  rw [uses] at huses
  rw [handed]
  cases hlooping : s.looping a with
  | none =>
      rw [hlooping, List.isEmpty_iff] at huses
      rw [huses]
      exact Nat.le_refl 0
  | some l =>
      obtain ⟨m, w'⟩ := l
      rw [hlooping] at huses
      obtain ⟨⟨r, q, hrep⟩, ⟨ret, w'', m'⟩, hrun⟩ := hloop m w' hlooping
      rw [Option.elim_some, postRestWriteSent_length hrep (of_decide_eq_true huses) hrun]

/-- A call that does not send. -/
theorem reads (h : s.At enByte n bs session w r q) {a : Action} (huses : s.uses a = true)
    (hloop : s.looping a = none) {s₁ service : NetService} {session' : NetSession}
    (hreads : ReadSide s.service session s₁ session')
    (hslot : service.sessions (ffidIndex service.socketIds s.nd) = some session')
    (hqueue : service.delayQueue = s₁.delayQueue)
    (hbefore : receives session' = true → w.op ≠ opNetNone → s.socket.Awaits →
      (s.before a).Awaits) :
    ∃ w' r' q', Outcome enByte n bs session w q s a service session' w' r' q' := by
  have hsbuff := hreads.sbuff
  rw [h.wsession, Option.map_some] at hsbuff
  obtain ⟨w', hw', heq⟩ := Option.map_eq_some_iff.mp hsbuff
  have hhanded : s.handed a = [] := by rw [handed, hloop, Option.elim_none]
  refine ⟨w', r, q, hslot, hreads.id, hw', by rw [heq]; exact h.rep, .inl ?_,
    hreads.listen.trans h.listen, hreads.connected h.connected, ?_, ?_, ?_, ?_⟩
  · rw [heq, hhanded]
    exact ⟨rfl, rfl⟩
  · rw [hqueue, hreads.delayQueue, hreads.delayed]
    exact h.queue
  · rw [hqueue, hreads.delayQueue]
  · refine @count_le enByte n bs _ _ huses fun m w' hsome => ?_
    rw [hloop] at hsome
    cases hsome
  · intro _ hreceives hne
    have hsame := hreads.wsession hreceives
    rw [hw', h.wsession] at hsame
    rw [Option.some.inj hsame]
    exact .inr (.inr ⟨hne, hreads.delayed, rfl, hbefore hreceives⟩)

theorem drain (h : s.At enByte n bs session w r q) {k : Nat} (huses : s.uses (.drain k) = true)
    {service : NetService} (hcall : s.call (.drain k) = some service) :
    ∃ session' w' r' q',
      Outcome enByte n bs session w q s (.drain k) service session' w' r' q' := by
  obtain rfl := Option.some.inj hcall
  exact ⟨session, h.reads huses rfl (.refl _ _) h.slot rfl fun _ _ hawaits => hawaits⟩

theorem netQueue (h : s.At enByte n bs session w r q) {maxevents : Int}
    (huses : s.uses (.netQueue maxevents) = true) {service : NetService}
    (hcall : s.call (.netQueue maxevents) = some service) :
    ∃ session' w' r' q',
      Outcome enByte n bs session w q s (.netQueue maxevents) service session' w' r' q' := by
  obtain rfl := Option.some.inj hcall
  have hdrained : Drained s.service (RandServer.netQueue s.service maxevents).2 :=
    drained_loop _ _ _
  obtain ⟨events, inQueue, hslot⟩ := hdrained.sessions _ session h.slot
  rw [← hdrained.ids] at hslot
  have hreads : ReadSide s.service session s.service
      { session with events := events, inQueue := inQueue } :=
    ⟨⟨⟨rfl, rfl, rfl, rfl, rfl, rfl⟩, rfl, rfl, rfl, fun hno => hno⟩, rfl, fun _ => rfl⟩
  exact ⟨_, h.reads huses rfl hreads hslot hdrained.delayQueue fun _ _ hawaits => hawaits⟩

theorem netSocketRead (h : s.At enByte n bs session w r q) {usize : Int} {sys : Syscalls}
    (huses : s.uses (.netSocketRead usize sys) = true) {service : NetService}
    (hcall : s.call (.netSocketRead usize sys) = some service) :
    ∃ session' w' r' q',
      Outcome enByte n bs session w q s (.netSocketRead usize sys) service session' w' r' q' := by
  obtain ⟨⟨ret, xs, service⟩, hread, rfl⟩ := Option.map_eq_some_iff.mp hcall
  have hslot := h.slot
  rw [WriteStall.session] at hslot
  simp only [RandServer.netSocketRead, hslot] at hread
  split at hread
  · cases hread
    exact ⟨session, h.reads huses rfl (.refl _ _) h.slot rfl fun _ _ hawaits => hawaits⟩
  · obtain ⟨⟨ret', s₁, session₁⟩, hpost, hread⟩ := Option.bind_eq_some_iff.mp hread
    obtain ⟨r', hr', hread⟩ := Option.bind_eq_some_iff.mp hread
    obtain rfl := (Prod.mk.inj (Prod.mk.inj (Option.some.inj hread)).2).2
    have hreads := postRead_reads hpost
    dsimp only at hr' hreads ⊢
    refine ⟨{ session₁ with
        rsession := some { r' with rbuff := (recvBuffRead s₁.mem r'.rbuff usize).2.2.1 } },
      h.reads huses rfl (hreads.setBuffer hr' _) ?_ rfl fun _ _ hawaits => hawaits⟩
    simp only [NetService.setSession_socketIds, hreads.ids, NetService.setSession_self]

/-- A call that sends. -/
theorem sends {a : Action} (huses : s.uses a = true)
    {m : Memory UInt8} {w₁ : WriteSession} {r₁ : Nat} {q₁ : List UInt8}
    (hop : w₁.op = w.op)
    (hloop : s.looping a = if w.op = opNetNone then none else some (m, { w₁ with etflag := false }))
    (hrep : SendBuff.Rep enByte n bs w₁.sbuff r₁ q₁)
    (hrun : w.op ≠ opNetNone →
      ∃ res, postRestWriteLoop m { w₁ with etflag := false } a.sends = some res)
    (hbytes : w₁.sbuff.write = w.sbuff.write ∧ q₁ = q ∨
      w₁.sbuff.write ≠ w.sbuff.write ∧ q₁ = q ++ encode enByte.toNat a.payload)
    {s₁ service : NetService} {session₁ session' : NetSession} {well : Prop}
    (hsends : Sends enByte n bs w₁ q₁ (postWriteSent m w₁ a.sends) a.sends session' well)
    (hwell : (∀ res ∈ a.sends, res.fails = false) → receives session' = true → well)
    (hsame : Same s₁ session₁ service session') (hid : session₁.id = session.id)
    (hlisten : session₁.lsession = none) (hconnected : session₁.connectFlag = false)
    (hids : s₁.socketIds = s.service.socketIds)
    (hqueue : s₁.delayQueue.items = if session₁.inDelayQueue then [s.nd] else [])
    (hcapacity : s₁.delayQueue.capacity = s.service.delayQueue.capacity) :
    ∃ w' r' q', Outcome enByte n bs session w q s a
      (service.setSession (ffidIndex s.service.socketIds s.nd) (some session')) session' w' r'
      q' := by
  obtain ⟨w', r', q', hw', hrep', hsent, hwrite, hgoes⟩ := hsends
  have hhanded : s.handed a = postWriteSent m w₁ a.sends := by
    rw [handed, hloop, postWriteSent, hop]
    split
    · rfl
    · rfl
  refine ⟨w', r', q', ?_, hsame.id.trans hid, hw', hrep', ?_, hsame.listen.trans hlisten,
    hsame.connected hconnected, ?_, ?_, ?_, ?_⟩
  · simp only [NetService.setSession_socketIds, hsame.ids, hids, NetService.setSession_self]
  · rw [hwrite, hhanded, hsent]
    exact hbytes
  · show service.delayQueue.items = _
    rw [hsame.delayQueue, hsame.delayed]
    exact hqueue
  · show service.delayQueue.capacity = _
    rw [hsame.delayQueue]
    exact hcapacity
  · refine @count_le enByte n bs _ _ huses fun m' w'' hsome => ?_
    by_cases hnone : w.op = opNetNone
    · rw [hloop, if_pos hnone] at hsome
      cases hsome
    · rw [hloop, if_neg hnone] at hsome
      cases hsome
      exact ⟨⟨_, _, hrep⟩, hrun hnone⟩
  · intro hno hreceives hne
    rw [← hop]
    exact .inr (.inl (hgoes (hwell hno hreceives) hne))

/-- The delay queue of a service with one session has room for it. -/
theorem pushDelayQueue_one {s : NetService} {session : NetSession} {nd : Nat}
    (hid : session.id = nd)
    (hqueue : s.delayQueue.items = if session.inDelayQueue then [nd] else [])
    (hcapacity : 0 < s.delayQueue.capacity) :
    ∃ ret queue, pushDelayQueue s session =
        (ret, { s with delayQueue := queue }, { session with inDelayQueue := true }) ∧
      queue.items = [nd] ∧ queue.capacity = s.delayQueue.capacity := by
  unfold pushDelayQueue
  cases hflag : session.inDelayQueue with
  | true =>
      rw [hflag, if_pos rfl] at hqueue
      refine ⟨1, s.delayQueue, ?_, hqueue, rfl⟩
      rw [if_pos rfl, ← hflag]
  | false =>
      rw [hflag, if_neg Bool.false_ne_true] at hqueue
      have hroom : s.delayQueue.items.length < s.delayQueue.capacity := by
        rw [hqueue]
        exact hcapacity
      refine ⟨_, (s.delayQueue.push session.id).2, if_neg Bool.false_ne_true, ?_,
        BoundedQueue.push_capacity⟩
      rw [(BoundedQueue.push_room hroom).2, hqueue, hid]
      rfl

theorem netSocketWrite (h : s.At enByte n bs session w r q) {buff : List UInt8} {usize : Int}
    {delay : Bool} {sys : Syscalls} {es : List SendEvent}
    (henabled : s.enabled (.netSocketWrite buff usize delay sys es) = true)
    (huses : s.uses (.netSocketWrite buff usize delay sys es) = true)
    (hvalid : ∀ res ∈ SendEvent.sends es, res.Valid) {service : NetService}
    (hcall : s.call (.netSocketWrite buff usize delay sys es) = some service) :
    ∃ session' w' r' q', Outcome enByte n bs session w q s
      (.netSocketWrite buff usize delay sys es) service session' w' r' q' := by
  simp only [enabled, Bool.and_eq_true, decide_eq_true_eq] at henabled
  obtain ⟨hsize, hdata⟩ := henabled
  obtain ⟨⟨ret, service⟩, hwrite, rfl⟩ := Option.map_eq_some_iff.mp hcall
  obtain ⟨ret', b, m, hput⟩ : ∃ ret' b m,
      sendBuffWrite s.service.mem w.sbuff buff usize = (ret', b, m) := ⟨_, _, _, rfl⟩
  obtain ⟨q₁, hrep₁, hbytes⟩ := write_cases h.rep hsize hdata hput
  have hslot := h.slot
  rw [WriteStall.session] at hslot
  have hhandle : ¬ (s.nd = 0 ∨ session.id ≠ s.nd) :=
    not_or.mpr ⟨Nat.ne_of_gt h.nd_pos, not_not.mpr h.id⟩
  simp only [RandServer.netSocketWrite, hslot, h.wsession, if_neg hhandle, hput] at hwrite
  have hloop : s.looping (.netSocketWrite buff usize delay sys es) =
      if delay = true ∨ w.op = opNetNone then none
      else some (m, { w with sbuff := b, etflag := false }) := by
    rw [looping, h.wsession_eq]
    cases delay <;> by_cases hop : w.op = opNetNone <;> simp [hop, hput]
  cases delay with
  | true =>
      obtain ⟨ret'', queue, hpush, hitems, hcapacity⟩ :=
        @pushDelayQueue_one { s.service with mem := m }
          { session with wsession := some { w with sbuff := b } } s.nd h.id h.queue h.capacity
      simp only [if_true, hpush, Option.bind_eq_bind, Option.bind_some] at hwrite
      cases hwrite
      rw [if_pos (.inl rfl)] at hloop
      have hhanded : s.handed (.netSocketWrite buff usize true sys es) = [] := by
        rw [handed, hloop, Option.elim_none]
      refine ⟨{ session with wsession := some { w with sbuff := b }, inDelayQueue := true },
        { w with sbuff := b }, r, q₁, ?_, rfl, rfl, hrep₁, ?_, h.listen, h.connected, hitems,
        hcapacity, ?_, fun _ _ _ => .inl rfl⟩
      · simp only [NetService.setSession_socketIds, NetService.setSession_self]
      · rw [hhanded]
        exact hbytes
      · refine @count_le enByte n bs _ _ huses fun m w' hsome => ?_
        rw [hloop] at hsome
        cases hsome
  | false =>
      obtain ⟨⟨ret'', s₁, session₁⟩, hpost, heq⟩ := Option.bind_eq_some_iff.mp hwrite
      cases heq
      simp only [Bool.false_eq_true, false_or] at hloop
      have hw : NetSession.wsession { session with wsession := some { w with sbuff := b } } =
        some { w with sbuff := b } := rfl
      have hop : WriteSession.op { w with sbuff := b } = w.op := rfl
      obtain ⟨hsame, hsends⟩ := postWrite_sends hw hrep₁ hvalid hpost
      exact ⟨session₁, sends huses hop hloop hrep₁
        (fun hposted => postRestWriteLoop_of_postWrite hw hposted hpost) hbytes hsends
        (fun _ hreceives => hreceives) hsame rfl h.listen h.connected rfl h.queue rfl⟩

theorem netDelay (h : s.At enByte n bs session w r q) {sys : Syscalls} {es : List SendEvent}
    (huses : s.uses (.netDelay sys es) = true)
    (hvalid : ∀ res ∈ SendEvent.sends es, res.Valid) {service : NetService}
    (hcall : s.call (.netDelay sys es) = some service) :
    ∃ session' w' r' q',
      Outcome enByte n bs session w q s (.netDelay sys es) service session' w' r' q' := by
  obtain ⟨⟨taken, service⟩, hone, rfl⟩ := Option.map_eq_some_iff.mp hcall
  have hqueue := h.queue
  cases hdelayed : session.inDelayQueue with
  | false =>
      rw [hdelayed, if_neg Bool.false_ne_true] at hqueue
      have hloop : s.looping (.netDelay sys es) = none := by
        simp [looping, hqueue]
      have hnil : s.service.delayQueue.pop 1 = ([], (s.service.delayQueue.pop 1).2) := by
        refine Prod.ext ?_ rfl
        show s.service.delayQueue.items.take 1 = []
        rw [hqueue]
        rfl
      rw [netDelayOne, hnil] at hone
      cases hone
      exact ⟨session, h.reads huses hloop (.refl _ _) h.slot rfl fun _ _ hawaits => hawaits⟩
  | true =>
      rw [hdelayed, if_pos rfl] at hqueue
      have hpop : s.service.delayQueue.pop 1 = ([s.nd], (s.service.delayQueue.pop 1).2) := by
        refine Prod.ext ?_ rfl
        show s.service.delayQueue.items.take 1 = [s.nd]
        rw [hqueue]
        rfl
      have hrest : (s.service.delayQueue.pop 1).2.items = [] := by
        show s.service.delayQueue.items.drop 1 = []
        rw [hqueue]
        rfl
      have hslot := h.slot
      rw [WriteStall.session] at hslot
      rw [netDelayOne, hpop] at hone
      simp only [hslot, if_pos h.id] at hone
      obtain ⟨⟨ret, s₁, session₁⟩, hpost, heq⟩ := Option.bind_eq_some_iff.mp hone
      cases heq
      have hw : NetSession.wsession { session with inDelayQueue := false } = some w := h.wsession
      have hloop : s.looping (.netDelay sys es) =
          if w.op = opNetNone then none else some (s.service.mem, { w with etflag := false }) := by
        rw [looping, h.wsession_eq, hqueue]
        by_cases hop : w.op = opNetNone <;> simp [hop]
      obtain ⟨hsame, hsends⟩ := postWrite_sends hw h.rep hvalid hpost
      exact ⟨session₁, sends huses rfl hloop h.rep
        (fun hop => postRestWriteLoop_of_postWrite hw hop hpost) (.inl ⟨rfl, rfl⟩) hsends
        (fun _ hreceives => hreceives) hsame rfl h.listen h.connected rfl hrest rfl⟩

theorem netWait (h : s.At enByte n bs session w r q) {err inp connected : Bool} {sys : Syscalls}
    {es : List SendEvent} (huses : s.uses (.netWait err inp connected sys es) = true)
    (hvalid : ∀ res ∈ SendEvent.sends es, res.Valid) {service : NetService}
    (hcall : s.call (.netWait err inp connected sys es) = some service) :
    ∃ session' w' r' q', Outcome enByte n bs session w q s (.netWait err inp connected sys es)
      service session' w' r' q' := by
  have hslot := h.slot
  rw [WriteStall.session] at hslot
  simp only [call, netWaitEvent, hslot, h.id, ne_eq, not_true_eq_false, if_false] at hcall
  obtain ⟨⟨s₁, session₁⟩, hhandle, heq⟩ := Option.bind_eq_some_iff.mp hcall
  obtain rfl := Option.some.inj heq
  have hloop : s.looping (.netWait err inp connected sys es) =
      if !err && (s.polled err inp).out then some (s.service.mem, { w with etflag := false })
      else none := by
    rw [looping, h.wsession_eq]
    cases !err && (s.polled err inp).out <;> rfl
  cases hout : !err && (s.polled err inp).out with
  | false =>
      rw [hout, if_neg Bool.false_ne_true] at hloop
      have hevents : (s.polled err inp).err = true ∨ (s.polled err inp).out = false := by
        rw [Bool.and_eq_false_iff, Bool.not_eq_false'] at hout
        exact hout
      have hreads := handleSession_reads h.listen h.connected hevents hhandle
      refine ⟨session₁, h.reads huses hloop hreads ?_ rfl fun hreceives hop _ => ?_⟩
      · simp only [NetService.setSession_socketIds, hreads.ids, NetService.setSession_self]
      · cases herr : err with
        | true =>
            rw [handleSession_err h.listen herr hhandle] at hreceives
            cases hreceives
        | false =>
            -- a registered session without room
            have hposted := h.posted_eq
            rw [decide_eq_true hop] at hposted
            rw [herr, Bool.not_false, Bool.true_and, polled, hposted, Bool.true_and] at hout
            exact SendSocket.awaits_poll hout
  | true =>
      rw [hout, if_pos rfl] at hloop
      obtain ⟨herr, hroom⟩ := (Bool.and_eq_true _ _).mp hout
      rw [Bool.not_eq_true'] at herr
      have hop : w.op ≠ opNetNone := by
        have hposted := ((Bool.and_eq_true _ _).mp hroom).1
        rw [h.posted_eq] at hposted
        exact of_decide_eq_true hposted
      have hevents : s.polled err inp = { err := false, out := true, inp := inp } := by
        rw [polled] at hroom ⊢
        rw [herr]
        congr
      rw [hevents] at hhandle
      obtain ⟨hsame, hsends⟩ := handleSession_sends h.listen h.connected h.wsession h.rep hop hvalid
        hhandle
      have hsent : postRestWriteSent s.service.mem { w with etflag := false }
          (SendEvent.sends es) = postWriteSent s.service.mem w (SendEvent.sends es) :=
        (if_neg hop).symm
      rw [hsent] at hsends
      exact ⟨session₁, sends huses rfl (hloop.trans (if_neg hop).symm) h.rep
        (fun _ => postRestWriteLoop_of_handleSession h.listen h.connected h.wsession hhandle)
        (.inl ⟨rfl, rfl⟩) hsends (fun hno hreceives => ⟨hno, hreceives⟩) hsame rfl h.listen
        h.connected rfl h.queue rfl⟩

/-- A step keeps the invariant. It hands over bytes, and `held` grows by at most these. -/
theorem step (h : s.At enByte n bs session w r q) {a : Action} (ht : s.step a = some t) :
    (∃ session' w' r' q', t.At enByte n bs session' w' r' q') ∧
      (t.accepted = s.accepted ∨ t.accepted = s.accepted ++ a.payload) ∧
      ∃ xs, t.sent = s.sent ++ xs ∧ t.socket.held ≤ s.socket.held + xs.length := by
  simp only [WriteStall.step, Option.ite_none_right_eq_some, Bool.and_eq_true] at ht
  obtain ⟨⟨henabled, huses⟩, ht⟩ := ht
  obtain ⟨socket, hserve, ht⟩ := Option.bind_eq_some_iff.mp ht
  obtain ⟨service, hcall, ht⟩ := Option.bind_eq_some_iff.mp ht
  obtain rfl := Option.some.inj ht
  have hserves := SendSocket.serve_spec hserve
  have hvalid := hserves.valid
  have hbefore : (s.before a).Sound ∧ (s.before a).size = s.socket.size ∧
      (s.before a).held = s.socket.held := by
    cases a with
    | netWait err inp connected sys es => exact ⟨h.sound.poll, rfl, rfl⟩
    | _ => exact ⟨h.sound, rfl, rfl⟩
  obtain ⟨session', w', r', q', hout⟩ : ∃ session' w' r' q',
      Outcome enByte n bs session w q s a service session' w' r' q' := by
    cases a with
    | drain k => exact h.drain huses hcall
    | netSocketWrite buff usize delay sys es =>
        exact h.netSocketWrite henabled huses hvalid hcall
    | netDelay sys es => exact h.netDelay huses hvalid hcall
    | netWait err inp connected sys es => exact h.netWait huses hvalid hcall
    | netQueue maxevents => exact h.netQueue huses hcall
    | netSocketRead usize sys => exact h.netSocketRead huses hcall
  refine ⟨⟨session', w', r', q', h.after hbefore hserves hout⟩, ite_eq_or_eq _ _ _, s.handed a, rfl,
    ?_⟩
  rw [after_held, ← hbefore.2.2]
  exact Nat.le_trans hserves.held (Nat.add_le_add_left hout.count _)

end At

theorem Init.at {s : WriteStall} (h : Init s) :
    ∃ enByte n bs session w, s.At enByte n bs session w 0 [] := by
  cases h with
  | @mk s service nd session config sys socket hslot hid hdelayed hqueue hcapacity hconfig hctl hcfg
      hsize hheld hfull =>
      by_cases hnd : nd = 0
      · simp [netSocketCfg, hnd] at hcfg
      simp only [netSocketCfg, if_neg hnd, hslot] at hcfg
      split at hcfg
      · simp at hcfg
      · rename_i hidle
        split at hcfg
        · simp at hcfg
        · split at hcfg
          · simp at hcfg
          · split at hcfg
            · simp at hcfg
            · simp only [postRead, ne_eq, not_true_eq_false, if_false, hctl, epollCtlOp,
                ite_self, Option.bind_eq_bind, Option.bind_some] at hcfg
              obtain rfl : _ = service := (Prod.mk.inj (Option.some.inj hcfg)).2
              simp only [not_or, Bool.not_eq_true, Option.isSome_eq_false_iff,
                Option.isNone_iff_eq_none] at hidle
              obtain ⟨-, -, hconnected, hlisten⟩ := hidle
              refine ⟨config.enByte, _, _, _, _, NetService.setSession_self, hid,
                Nat.pos_of_ne_zero hnd, rfl, sendBuffCreate_rep hconfig, rfl, hlisten, hconnected,
                ?_, hcapacity, ⟨?_, ?_⟩, hsize, ?_, ?_⟩
              · rw [if_neg (Bool.eq_false_iff.mp hdelayed)]
                exact hqueue
              · rw [hheld]
                exact Nat.zero_le _
              · intro hyes
                rw [hfull] at hyes
                cases hyes
              · rw [hheld]
                exact Nat.zero_le _
              · intro _ hne
                exact absurd rfl hne

def Inv (s : WriteStall) : Prop := ∃ enByte n bs session w r q, s.At enByte n bs session w r q

theorem inv_of_reachable {s : WriteStall} (h : writeStall.Reachable s) : s.Inv := by
  apply h.invariant
  · intro s hs
    obtain ⟨enByte, n, bs, session, w, hat⟩ := hs.at
    exact ⟨enByte, n, bs, session, w, 0, [], hat⟩
  · rintro s t a ⟨enByte, n, bs, session, w, r, q, hat⟩ hstep
    obtain ⟨⟨session', w', r', q', hat'⟩, -⟩ := hat.step hstep
    exact ⟨enByte, n, bs, session', w', r', q', hat'⟩

end WriteStall

namespace WriteStall

/-- A session after `net_socket_cfg`, with a socket for two bytes. -/
def configured : WriteStall where
  service := (ReadStall.configured .useBuff).service
  nd := 1
  socket := { size := 2, held := 0, full := false, edge := false }
  accepted := []
  sent := []
  failed := false

theorem init_configured : writeStall.Init configured := by
  obtain ⟨service, hcfg⟩ : ∃ service,
      netSocketCfg ReadStall.idle 1 (some (ReadStall.config .useBuff)) {} = some (1, service) :=
    ⟨_, rfl⟩
  have hconfig : Geometry (ReadStall.config .useBuff).writeBuffCnt
      (ReadStall.idle.mem.pools (ReadStall.config .useBuff).pool).bufferSize :=
    ⟨Nat.one_pos, by decide, (by decide : 0 < 8), (by decide : 8 ≤ 65535)⟩
  rw [configured, ReadStall.configured, hcfg]
  exact .mk rfl rfl rfl rfl (by decide) hconfig rfl hcfg (by decide) rfl rfl

end WriteStall

end RandServer
