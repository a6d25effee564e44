import RandServer.Net.PostRead

/-!
# Reading with edge-triggered input

epoll reports that bytes have arrived once. `post_rest_read` therefore reads until the
socket is empty, or it sets `etflag` because the receive buffer is full, and the next
`net_socket_read` goes on. The application reads on every `Eve_Read` until the result
is 0, and only a chunk that completes a message pushes `Eve_Read`.

`ReadStall` is one configured session with its socket and the application. `NoStall`
says that nothing complete is left behind when no event is pending. A message without
payload breaks it, because its length looks like the end of the messages.
-/

namespace RandServer

open Framing PostRead

/-! ## One session -/

/-- A session and its application. The payloads that reading has removed from the receive
buffer are ghost state. -/
structure ReadStall where
  service : NetService
  nd : Nat
  socket : Socket
  /-- The events that the application is handling. -/
  loops : Nat
  removed : List (List UInt8)

namespace ReadStall

/-- Bytes may also arrive during a call. The outcomes of the other system calls and of
`getsockopt` are arbitrary. -/
inductive Action
  | arrive (xs : List UInt8)
  | netWait (connected : Bool) (sys : Syscalls) (es : List SocketEvent)
  | netQueue (maxevents : Int)
  | netSocketRead (usize : Int) (sys : Syscalls) (es : List SocketEvent)

/-- The bytes that arrive in a step. -/
def Action.arrivals : Action → List UInt8
  | .arrive xs => xs
  | .netWait _ _ es => SocketEvent.arrivals es
  | .netQueue _ => []
  | .netSocketRead _ _ es => SocketEvent.arrivals es

def session (s : ReadStall) : Option NetSession :=
  s.service.sessions (ffidIndex s.service.socketIds s.nd)

def rbuff (s : ReadStall) : Option RecvBuff :=
  s.session.bind fun session => session.rsession.map ReadSession.rbuff

/-- `Eve_Read` is in the queue. -/
def queued (s : ReadStall) : Bool := s.session.any NetSession.inQueue

/-- The payloads of the complete frames that the bytes begin with. -/
def frames (s : ReadStall) (bytes : List UInt8) : List (List UInt8) :=
  s.rbuff.elim [] fun b => (split b.enByte.toNat b.limit bytes).1

/-- The destination is large enough for every message. -/
def sufficient (s : ReadStall) (usize : Int) : Bool :=
  s.rbuff.all fun b => b.version.Sufficient b.limit usize

/-- `net_wait` takes the edge. An application reads as long as it handles an event, which
ends when the result is not positive. A read counts as a removal when it has moved the
read cursor. -/
def step (s : ReadStall) : Action → Option ReadStall
  | .arrive xs => (s.socket.event (.arrive xs)).map fun socket => { s with socket := socket }
  | .netWait connected sys es =>
      let call := fun rs =>
        netWaitEvent s.service s.nd .readable connected { sys with recvs := rs }
      if s.socket.edge = false ∨ ¬ UsesUp call (SocketEvent.recvs es) then none
      else do
        let socket ← { s.socket with edge := false }.serve es
        let service ← call (SocketEvent.recvs es)
        some { s with service := service, socket := socket }
  | .netQueue maxevents =>
      let res := RandServer.netQueue s.service maxevents
      let reads := res.1.filter fun e => e.nd = s.nd ∧ e.events &&& eveRead ≠ 0
      some { s with service := res.2, loops := s.loops + reads.length }
  | .netSocketRead usize sys es =>
      let call := fun rs => RandServer.netSocketRead s.service s.nd usize { sys with recvs := rs }
      if s.loops = 0 ∨ s.sufficient usize = false ∨ ¬ UsesUp call (SocketEvent.recvs es) then none
      else do
        let socket ← s.socket.serve es
        let (ret, xs, service) ← call (SocketEvent.recvs es)
        let t := { s with service := service, socket := socket }
        some { t with
          loops := if ret ≤ 0 then s.loops - 1 else s.loops
          removed := if t.rbuff.map RecvBuff.read = s.rbuff.map RecvBuff.read then s.removed
            else s.removed ++ [xs] }

/-- The buffer slots that a version works with. -/
def Configures (m : Memory UInt8) (config : NetConfig) : Prop :=
  match config.readBuffVersion with
  | .useBuff => Geometry config.readBuffCnt (m.pools config.pool).bufferSize
  | .useQueue => 0 < config.readBuffCnt

/-- A session that has just been configured, before anything arrives. -/
inductive Init : ReadStall → Prop
  | mk {s service : NetService} {nd : Nat} {session : NetSession} {config : NetConfig}
      {sys : Syscalls} (hslot : s.sessions (ffidIndex s.socketIds nd) = some session)
      (hid : session.id = nd) (hqueued : session.inQueue = false) (hqueue : s.queue.items = [])
      (hcapacity : 0 < s.queue.capacity) (hconfig : Configures s.mem config)
      (hctl : sys.epollCtl = 0)
      (hcfg : netSocketCfg s nd (some config) sys = some (1, service)) :
      Init
        { service := service, nd := nd, socket := { unread := [], edge := false, arrived := [] },
          loops := 0, removed := [] }

/-- No edge is pending, no event is queued, and the application is done. -/
def Quiescent (s : ReadStall) : Prop :=
  s.socket.edge = false ∧ s.queued = false ∧ s.loops = 0

/-- In a quiescent state, every complete frame that has arrived has been read. -/
def NoStall (s : ReadStall) : Prop := s.Quiescent → s.removed = s.frames s.socket.arrived

/-- A read does not end the last loop with a message without payload while more messages
are in the buffer, or in a socket that has no edge. -/
def EndsEmpty (s : ReadStall) : Action → Prop
  | .netSocketRead _ _ es => s.queued = true ∨ 1 < s.loops ∨ ∀ k ∈ s.socket.serve es, ∀ ps,
      s.frames (if k.edge then k.taken else k.arrived) = s.removed ++ [] :: ps → ps = []
  | _ => True

/-- The stream consists of valid frames, and memory suffices. -/
structure Served (s : ReadStall) (a : Action) : Prop where
  alloc : s.service.mem.AllocOk
  stream : ∀ b ∈ s.rbuff, ValidPrefix b.enByte.toNat b.limit (s.socket.arrived ++ a.arrivals)

/-- No message without payload is mistaken for an incomplete one or for none. -/
structure Kept (s : ReadStall) (a : Action) : Prop extends Served s a where
  completes : ∀ b ∈ s.rbuff,
    b.version.Completes b.enByte.toNat b.limit (s.socket.arrived ++ a.arrivals)
  ends : s.EndsEmpty a

end ReadStall

def readStall : Machine ReadStall ReadStall.Action where
  Init := ReadStall.Init
  step := ReadStall.step

namespace ReadStall

/-! ## The invariant -/

/-- The arrived bytes are those of the removed messages, those in the buffer and the unread
ones. Unread bytes have an edge or `etflag`, a complete message has an event or a loop, and
so has a full buffer, unless nothing is complete and nothing is lost. -/
structure At (v : RecvVersion) (enByte : EnByteSize) (cap : Nat) (session : NetSession)
    (r : ReadSession) (stored : List UInt8) (s : ReadStall) : Prop where
  slot : s.session = some session
  id : session.id = s.nd
  nd_pos : 0 < s.nd
  rsession : session.rsession = some r
  active : Active v enByte cap stored s.service session r
  arrived : s.socket.arrived = encode enByte.toNat s.removed ++ (stored ++ s.socket.unread)
  valid : ∀ p ∈ s.removed, Valid enByte.toNat cap p
  unread : r.etflag = false → s.socket.unread ≠ [] → s.socket.edge = true
  notified : (split enByte.toNat cap stored).1 ≠ [] → session.inQueue = true ∨ 0 < s.loops
  full : r.etflag = true → session.inQueue = true ∨ 0 < s.loops ∨ s.socket.edge = true ∨
    (split enByte.toNat cap (stored ++ s.socket.unread)).1 = []

namespace At

variable {v : RecvVersion} {enByte : EnByteSize} {cap : Nat} {session : NetSession}
variable {r : ReadSession} {stored : List UInt8} {s t : ReadStall}

theorem rbuff_eq (h : s.At v enByte cap session r stored) : s.rbuff = some r.rbuff := by
  rw [rbuff, h.slot, Option.bind_some, h.rsession, Option.map_some]

theorem frames_eq (h : s.At v enByte cap session r stored) (bytes : List UInt8) :
    s.frames bytes = (split enByte.toNat cap bytes).1 := by
  rw [frames, h.rbuff_eq, Option.elim_some, h.active.stores.enByte_eq, h.active.stores.limit_eq]

theorem queued_eq (h : s.At v enByte cap session r stored) : s.queued = session.inQueue := by
  rw [queued, h.slot, Option.any_some]

/-- The complete frames that have arrived are those removed and those not removed yet. -/
theorem frames_arrived (h : s.At v enByte cap session r stored) :
    s.frames s.socket.arrived =
      s.removed ++ (split enByte.toNat cap (stored ++ s.socket.unread)).1 := by
  rw [h.frames_eq, h.arrived, split_append enByte.toNat_pos h.valid]

theorem noStall (h : s.At v enByte cap session r stored) : s.NoStall := by
  rintro ⟨hedge, hqueued, hloops⟩
  rw [h.queued_eq] at hqueued
  have hstored : (split enByte.toNat cap stored).1 = [] := by
    by_contra hsome
    obtain hyes | hpos := h.notified hsome
    · exact absurd hyes (Bool.eq_false_iff.mp hqueued)
    · exact absurd hpos (by rw [hloops]; exact Nat.lt_irrefl 0)
  have hnone : (split enByte.toNat cap (stored ++ s.socket.unread)).1 = [] := by
    cases het : r.etflag with
    | false =>
        have hempty : s.socket.unread = [] := by
          by_contra hsome
          exact absurd (h.unread het hsome) (Bool.eq_false_iff.mp hedge)
        rw [hempty, List.append_nil]
        exact hstored
    | true =>
        obtain hyes | hpos | hyes | hnone := h.full het
        · exact absurd hyes (Bool.eq_false_iff.mp hqueued)
        · exact absurd hpos (by rw [hloops]; exact Nat.lt_irrefl 0)
        · exact absurd hyes (Bool.eq_false_iff.mp hedge)
        · exact hnone
  rw [h.frames_arrived, hnone, List.append_nil]

/-- What is assumed about a step, for the bytes that are not removed yet. -/
theorem kept (h : s.At v enByte cap session r stored) {a : Action} (hok : s.Kept a) :
    ValidPrefix enByte.toNat cap (stored ++ s.socket.unread ++ a.arrivals) ∧
      v.Completes enByte.toNat cap (stored ++ s.socket.unread ++ a.arrivals) := by
  have hstream := hok.stream r.rbuff h.rbuff_eq
  have hcompletes := hok.completes r.rbuff h.rbuff_eq
  rw [h.active.stores.enByte_eq, h.active.stores.limit_eq, h.arrived, List.append_assoc]
    at hstream hcompletes
  refine ⟨hstream.drop_frames enByte.toNat_pos h.valid, fun hv hmem => ?_⟩
  refine hcompletes (h.active.version.trans hv) ?_
  rw [split_append enByte.toNat_pos h.valid]
  exact List.mem_append_right _ hmem

/-- What is assumed about a step, for the bytes that are not removed after a call. -/
theorem kept_after (h : s.At v enByte cap session r stored) {a : Action} (hok : s.Kept a)
    {es : List SocketEvent} (harrivals : a.arrivals = SocketEvent.arrivals es) {k k' : Socket}
    (hserves : k.Serves es k') (hk : k.unread = s.socket.unread) :
    ValidPrefix enByte.toNat cap
        (stored ++ RecvResult.bytes (SocketEvent.recvs es) ++ k'.unread) ∧
      v.Completes enByte.toNat cap
        (stored ++ RecvResult.bytes (SocketEvent.recvs es) ++ k'.unread) := by
  have hbytes : stored ++ s.socket.unread ++ a.arrivals =
      stored ++ RecvResult.bytes (SocketEvent.recvs es) ++ k'.unread := by
    rw [harrivals, List.append_assoc, ← hk, ← hserves.unread, List.append_assoc]
  rw [← hbytes]
  exact h.kept hok

/-! ## Steps -/

theorem slot_id (h : s.At v enByte cap session r stored) :
    s.service.sessions (ffidIndex s.service.socketIds session.id) = some session := by
  rw [h.id]
  exact h.slot

theorem arrive (h : s.At v enByte cap session r stored) {xs : List UInt8}
    (ht : s.step (.arrive xs) = some t) : t.At v enByte cap session r stored := by
  obtain ⟨socket, hevent, rfl⟩ := Option.map_eq_some_iff.mp ht
  simp only [Socket.event, Option.ite_none_left_eq_some, Option.some.injEq] at hevent
  obtain ⟨-, rfl⟩ := hevent
  refine ⟨h.slot, h.id, h.nd_pos, h.rsession, h.active, ?_, h.valid, fun _ _ => rfl, h.notified,
    fun _ => .inr (.inr (.inl rfl))⟩
  simp only [Socket.arrive, h.arrived, List.append_assoc]

theorem netQueue (h : s.At v enByte cap session r stored) {maxevents : Int}
    (ht : s.step (.netQueue maxevents) = some t) :
    ∃ session', t.At v enByte cap session' r stored := by
  obtain rfl := Option.some.inj ht
  obtain ⟨events, session', hevents, hslot, hids, hr, hid, hactive, hloop⟩ :=
    h.active.netQueue h.slot_id maxevents
  have hloops : session.inQueue = true ∨ 0 < s.loops → session'.inQueue = true ∨
      0 < s.loops + (events.filter fun e => e.nd = s.nd ∧ e.events &&& eveRead ≠ 0).length := by
    rintro (hqueued | hpos)
    · obtain hqueued | ⟨e, he, hnd, hread⟩ := hloop hqueued
      · exact .inl hqueued
      · refine .inr (Nat.add_pos_right _ (List.length_pos_of_mem (a := e) ?_))
        rw [List.mem_filter, decide_eq_true_eq]
        exact ⟨he, hnd.trans h.id, hread⟩
    · exact .inr (Nat.add_pos_left hpos _)
  refine ⟨session', ?_, hid.trans h.id, h.nd_pos, hr.trans h.rsession, hactive, h.arrived,
    h.valid, h.unread, ?_, ?_⟩
  · rw [ReadStall.session, hids, ← h.id]
    exact hslot
  · intro hsome
    simp only [hevents]
    exact hloops (h.notified hsome)
  · intro het
    simp only [hevents]
    obtain hqueued | hpos | hrest := h.full het
    · exact or_assoc.mp (.inl (hloops (.inl hqueued)))
    · exact or_assoc.mp (.inl (hloops (.inr hpos)))
    · exact .inr (.inr hrest)

/-- Receiving within a step. -/
theorem receive (h : s.At v enByte cap session r stored) {a : Action} (hok : s.Kept a)
    {es : List SocketEvent} (harrivals : a.arrivals = SocketEvent.arrivals es) {k k' : Socket}
    (hserves : k.Serves es k') (hk : k.unread = s.socket.unread) {sys : Syscalls}
    (huses : UsesUp (postRestReadLoop sys s.service session { r with etflag := false })
      (SocketEvent.recvs es)) {s' : NetService} {session' : NetSession}
    (hrun : postRestReadLoop sys s.service session { r with etflag := false }
      (SocketEvent.recvs es) = some (s', session')) :
    ∃ r', session'.rsession = some r' ∧ Received v enByte cap stored
        (stored ++ RecvResult.bytes (SocketEvent.recvs es)) s.service session r s' session' r' ∧
      (r'.etflag = false → k'.unread ≠ [] → k'.edge = true) := by
  obtain ⟨hvalid, hcompletes⟩ := h.kept_after hok harrivals hserves hk
  have hactive : Active v enByte cap stored s.service session { r with etflag := false } :=
    ⟨h.active.stores, h.active.version, h.active.posted, h.active.listen, h.active.connected,
      h.active.queue, h.active.capacity, h.active.event⟩
  obtain ⟨r', hr', hreceived, hlast⟩ := hactive.loop rfl hok.alloc hserves.plain huses
    hvalid.of_append (hcompletes.of_append enByte.toNat_pos) hrun
  have hsame := hreceived.same
  exact ⟨r', hr', ⟨hreceived.active, ⟨hsame.id, hsame.slots, hsame.ids, hsame.fate, hsame.cursor,
    hsame.queued⟩, hreceived.full, hreceived.notified⟩, fun het => hserves.emptied (hlast het)⟩

/-- The state after receiving. -/
theorem received (h : s.At v enByte cap session r stored) {es : List SocketEvent} {k k' : Socket}
    (hserves : k.Serves es k') (hunread : k.unread = s.socket.unread)
    (harrived : k.arrived = s.socket.arrived) {s' : NetService} {session' : NetSession}
    {r' : ReadSession} (hr' : session'.rsession = some r')
    (hreceived : Received v enByte cap stored
      (stored ++ RecvResult.bytes (SocketEvent.recvs es)) s.service session r s' session' r')
    (hedge : r'.etflag = false → k'.unread ≠ [] → k'.edge = true) :
    At v enByte cap session' r' (stored ++ RecvResult.bytes (SocketEvent.recvs es))
      { s with
        service := s'.setSession (ffidIndex s.service.socketIds session.id) (some session')
        socket := k' } := by
  have hnotified : (split enByte.toNat cap
      (stored ++ RecvResult.bytes (SocketEvent.recvs es))).1 ≠ [] →
      session'.inQueue = true ∨ 0 < s.loops := by
    intro hsome
    obtain hold | hqueued := hreceived.notified hsome
    · exact (h.notified hold).imp_left hreceived.same.queued
    · exact .inl hqueued
  refine ⟨?_, hreceived.same.id.trans h.id, h.nd_pos, hr', hreceived.active.setSession _ _, ?_,
    h.valid, hedge, hnotified, fun het => or_assoc.mp (.inl (hnotified (hreceived.full het)))⟩
  · simp only [ReadStall.session, NetService.setSession_socketIds, hreceived.same.ids, ← h.id,
      NetService.setSession_self]
  · rw [hserves.arrived, harrived, h.arrived, List.append_assoc, List.append_assoc,
      List.append_assoc, hserves.unread, hunread]

theorem netWait (h : s.At v enByte cap session r stored) {connected : Bool} {sys : Syscalls}
    {es : List SocketEvent} (hok : s.Kept (.netWait connected sys es))
    (ht : s.step (.netWait connected sys es) = some t) :
    ∃ session' r' stored', t.At v enByte cap session' r' stored' := by
  simp only [step] at ht
  split at ht
  · cases ht
  · rename_i hguard
    obtain ⟨-, huses⟩ := not_or.mp hguard
    rw [not_not] at huses
    obtain ⟨socket, hserve, ht⟩ := Option.bind_eq_some_iff.mp ht
    obtain ⟨service, hcall, ht⟩ := Option.bind_eq_some_iff.mp ht
    obtain rfl := Option.some.inj ht
    simp only [← h.id, h.active.netWaitEvent h.slot_id h.rsession] at huses hcall
    obtain ⟨⟨s', session'⟩, hrun, rfl⟩ := Option.map_eq_some_iff.mp hcall
    have hserves := Socket.serve_spec hserve
    have huses' : UsesUp (postRestReadLoop sys s.service session { r with etflag := false })
        (SocketEvent.recvs es) := by
      intro n hn
      have hnone := huses n hn
      rwa [Option.isNone_map] at hnone
    obtain ⟨r', hr', hreceived, hedge⟩ := h.receive hok rfl hserves rfl huses' hrun
    exact ⟨session', r', _, h.received hserves rfl rfl hr' hreceived hedge⟩

/-- Reading without receiving, or after it. -/
theorem resume (h : s.At v enByte cap session r stored) {a : Action} (hok : s.Kept a)
    {es : List SocketEvent} (harrivals : a.arrivals = SocketEvent.arrivals es) {k' : Socket}
    (hserves : s.socket.Serves es k') {sys : Syscalls}
    (huses : UsesUp (fun rs => if r.etflag then
        postRestReadLoop sys s.service session { r with etflag := false } rs
      else some (s.service, session)) (SocketEvent.recvs es))
    {s' : NetService} {session' : NetSession}
    (hrun : (if r.etflag then postRestReadLoop sys s.service session { r with etflag := false }
        (SocketEvent.recvs es) else some (s.service, session)) = some (s', session')) :
    ∃ r', session'.rsession = some r' ∧ Received v enByte cap stored
        (stored ++ RecvResult.bytes (SocketEvent.recvs es)) s.service session r s' session' r' ∧
      (r'.etflag = false → k'.unread ≠ [] → k'.edge = true) := by
  cases het : r.etflag with
  | true =>
      simp only [het, if_true] at huses hrun
      exact h.receive hok harrivals hserves rfl huses hrun
  | false =>
      simp only [het, Bool.false_eq_true, if_false] at huses hrun
      cases hrun
      have hnone : SocketEvent.recvs es = [] := by
        by_contra hsome
        have hcall := huses 0 (List.length_pos_iff.mpr hsome)
        cases hcall
      rw [hnone, RecvResult.bytes, List.append_nil]
      refine ⟨r, h.rsession, ⟨h.active, ⟨rfl, rfl, rfl, rfl, rfl, fun hq => hq⟩,
        fun hyes => ?_, .inl⟩,
        fun _ => hserves.idle hnone (h.unread het)⟩
      rw [het] at hyes
      cases hyes

/-- The state after a read, for what the read leaves in the buffer. -/
theorem read (h : s.At v enByte cap session r stored) {b : RecvBuff} {m : Memory UInt8}
    {service : NetService} {removed : List (List UInt8)} {stored' : List UInt8} (loops : Nat)
    (hservice : service =
      { s.service.setSession (ffidIndex s.service.socketIds session.id)
        (some { session with rsession := some { r with rbuff := b } }) with mem := m })
    (hstores : b.Stores enByte cap stored') (hversion : b.version = r.rbuff.version)
    (harrived : s.socket.arrived = encode enByte.toNat removed ++ (stored' ++ s.socket.unread))
    (hvalid : ∀ p ∈ removed, Valid enByte.toNat cap p)
    (hnotified : (split enByte.toNat cap stored').1 ≠ [] → session.inQueue = true ∨ 0 < loops)
    (hfull : r.etflag = true → session.inQueue = true ∨ 0 < loops ∨ s.socket.edge = true ∨
      (split enByte.toNat cap (stored' ++ s.socket.unread)).1 = []) :
    At v enByte cap { session with rsession := some { r with rbuff := b } }
      { r with rbuff := b } stored'
      { s with service := service, loops := loops, removed := removed } := by
  subst hservice
  refine ⟨?_, h.id, h.nd_pos, rfl, ?_, harrived, hvalid, h.unread, hnotified, hfull⟩
  · simp only [ReadStall.session, NetService.setSession_socketIds, ← h.id,
      NetService.setSession_self]
  · exact ⟨hstores, hversion.trans h.active.version, h.active.posted, h.active.listen,
      h.active.connected, h.active.queue, h.active.capacity, h.active.event⟩

/-- Behind a message that is read, an event or a loop goes on, or nothing is complete
unless an edge says so. -/
theorem goesOn (h : s.At v enByte cap session r stored) (hloops : s.loops ≠ 0) {usize : Int}
    {sys : Syscalls} {es : List SocketEvent} (hends : s.EndsEmpty (.netSocketRead usize sys es))
    {k : Socket} (hserve : s.socket.serve es = some k) {p stored' : List UInt8}
    (hvalid : ∀ q ∈ s.removed ++ [p], Valid enByte.toNat cap q)
    (harrived : k.arrived = encode enByte.toNat (s.removed ++ [p]) ++ (stored' ++ k.unread)) :
    session.inQueue = true ∨ 0 < (if (p.length : Int) ≤ 0 then s.loops - 1 else s.loops) ∨
      (split enByte.toNat cap stored').1 = [] ∧
        (k.edge = true ∨ (split enByte.toNat cap (stored' ++ k.unread)).1 = []) := by
  by_cases hempty : (p.length : Int) ≤ 0
  · obtain rfl : p = [] := List.length_eq_zero_iff.mp (by omega)
    have hframes : ∀ bytes, s.frames (encode enByte.toNat (s.removed ++ [[]]) ++ bytes) =
        s.removed ++ [] :: (split enByte.toNat cap bytes).1 := by
      intro bytes
      rw [h.frames_eq, split_append enByte.toNat_pos hvalid, List.append_assoc,
        List.singleton_append]
    rw [if_pos hempty]
    obtain hqueued | hmore | hlast := hends
    · rw [h.queued_eq] at hqueued
      exact .inl hqueued
    · exact .inr (.inl (by omega))
    · have hnone := hlast k hserve
      refine .inr (.inr ?_)
      cases hedge : k.edge with
      | true =>
          rw [hedge, if_pos rfl, Socket.taken_eq (harrived.trans (List.append_assoc _ _ _).symm)]
            at hnone
          exact ⟨hnone _ (hframes stored'), .inl rfl⟩
      | false =>
          rw [hedge, if_neg Bool.false_ne_true, harrived] at hnone
          have hall := hnone _ (hframes (stored' ++ k.unread))
          have hprefix := @split_isPrefixOf _ cap enByte.toNat_pos stored' k.unread
          rw [hall] at hprefix
          exact ⟨List.prefix_nil.mp hprefix, .inr hall⟩
  · rw [if_neg hempty]
    exact .inr (.inl (Nat.pos_of_ne_zero hloops))

theorem netSocketRead (h : s.At v enByte cap session r stored) {usize : Int} {sys : Syscalls}
    {es : List SocketEvent} (hok : s.Kept (.netSocketRead usize sys es))
    (ht : s.step (.netSocketRead usize sys es) = some t) :
    ∃ session' r' stored', t.At v enByte cap session' r' stored' := by
  have hen := enByte.toNat_pos
  simp only [step] at ht
  split at ht
  · cases ht
  · rename_i hguard
    simp only [not_or, not_not, Bool.not_eq_false] at hguard
    obtain ⟨hloops, hsufficient, huses⟩ := hguard
    obtain ⟨socket, hserve, ht⟩ := Option.bind_eq_some_iff.mp ht
    obtain ⟨⟨ret, xs, service⟩, hcall, ht⟩ := Option.bind_eq_some_iff.mp ht
    obtain rfl := Option.some.inj ht
    have hserves := Socket.serve_spec hserve
    have hpos : 0 < session.id := by
      rw [h.id]
      exact h.nd_pos
    simp only [← h.id, h.active.netSocketRead h.slot_id h.rsession hpos] at huses hcall
    obtain ⟨⟨s', session'⟩, hrun, hread⟩ := Option.bind_eq_some_iff.mp hcall
    have huses' : UsesUp (fun rs => if r.etflag then
          postRestReadLoop sys s.service session { r with etflag := false } rs
        else some (s.service, session)) (SocketEvent.recvs es) := by
      refine huses.of_bind fun rs res hres => ?_
      rw [Option.isSome_map]
      split at hres
      · exact postRestReadLoop_isSome hres
      · cases hres
        rw [h.rsession]
        rfl
    obtain ⟨r', hr', hreceived, hedge⟩ := h.resume hok rfl hserves huses' hrun
    have hat := h.received hserves rfl rfl hr' hreceived hedge
    have hsame := hreceived.same
    simp only [hr', Option.map_some, Option.some.injEq, Prod.mk.injEq] at hread
    obtain ⟨hvalid, hcompletes⟩ := h.kept_after hok rfl hserves rfl
    have harrived := hat.arrived
    generalize stored ++ RecvResult.bytes (SocketEvent.recvs es) = stored₁ at *
    have hservice : ∀ b m, ({ s'.setSession (ffidIndex s.service.socketIds session.id)
        (some { session' with rsession := some { r' with rbuff := b } }) with mem := m } :
          NetService) =
        { (s'.setSession (ffidIndex s.service.socketIds session.id) (some session')).setSession
          (ffidIndex (s'.setSession (ffidIndex s.service.socketIds session.id)
            (some session')).socketIds session'.id)
          (some { session' with rsession := some { r' with rbuff := b } }) with mem := m } := by
      intro b m
      rw [NetService.setSession_socketIds, hsame.ids, hsame.id, NetService.setSession_setSession]
    have hcursor : s.rbuff.map RecvBuff.read = some r'.rbuff.read := by
      rw [h.rbuff_eq, Option.map_some, hsame.cursor]
    rw [sufficient, h.rbuff_eq, Option.all_some, decide_eq_true_eq, h.active.version,
      h.active.stores.limit_eq, ← hreceived.active.version] at hsufficient
    obtain ⟨hnone, hres⟩ | ⟨p, stored', b', m', rfl, hp, hres, hstores, hversion, -, hmoved⟩ :=
      hreceived.active.stores.read hvalid.of_append
        (by rw [hreceived.active.version]; exact hcompletes.of_append hen) hsufficient s'.mem
    · -- without a complete message, the loop ends
      simp only [hres] at hread
      obtain ⟨rfl, rfl, hread⟩ := hread
      have hend := hat.read (s.loops - 1) (hread.symm.trans (hservice _ _))
        hreceived.active.stores rfl harrived h.valid (fun hsome => absurd hnone hsome)
        (fun het => absurd hnone (hreceived.full het))
      have hstill : (ReadStall.rbuff { s with service := service, socket := socket }).map
          RecvBuff.read = s.rbuff.map RecvBuff.read :=
        (congrArg (Option.map RecvBuff.read) hend.rbuff_eq).trans hcursor.symm
      dsimp only
      rw [if_pos (le_refl (0 : Int)), if_pos hstill]
      exact ⟨_, _, _, hend⟩
    · simp only [hres] at hread
      obtain ⟨rfl, rfl, hread⟩ := hread
      have hencode : socket.arrived =
          encode enByte.toNat (s.removed ++ [p]) ++ (stored' ++ socket.unread) := by
        rw [harrived, encode_append, encode_cons, encode_nil, List.append_nil, List.append_assoc,
          List.append_assoc]
      have hall : ∀ q ∈ s.removed ++ [p], Valid enByte.toNat cap q :=
        List.forall_mem_append.mpr ⟨h.valid, List.forall_mem_singleton.mpr hp⟩
      have hgo := (h.goesOn hloops hok.ends hserve hall hencode).imp_left hsame.queued
      have hnotified : (split enByte.toNat cap stored').1 ≠ [] → session'.inQueue = true ∨
          0 < (if (p.length : Int) ≤ 0 then s.loops - 1 else s.loops) := by
        intro hsome
        obtain hqueued | hpos | ⟨hnone, -⟩ := hgo
        · exact .inl hqueued
        · exact .inr hpos
        · exact absurd hnone hsome
      have hend := hat.read _ (hread.symm.trans (hservice _ _)) hstores hversion hencode hall
        hnotified (fun _ => hgo.imp_right (.imp_right And.right))
      have hmove : ¬ (ReadStall.rbuff { s with service := service, socket := socket }).map
          RecvBuff.read = s.rbuff.map RecvBuff.read := by
        intro hstill
        have hnew := congrArg (Option.map RecvBuff.read) hend.rbuff_eq
        exact hmoved (Option.some.inj (hnew.symm.trans (hstill.trans hcursor)))
      dsimp only
      rw [if_neg hmove]
      exact ⟨_, _, _, hend⟩

end At

/-! ## The configured session -/

theorem recvBuffCreate_stores {m : Memory UInt8} {config : NetConfig}
    (hconfig : Configures m config) (lens : Block UInt8) :
    ∃ cap, (recvBuffCreate m lens config).Stores config.enByte cap [] := by
  cases hversion : config.readBuffVersion with
  | useBuff =>
      simp only [Configures, hversion] at hconfig
      simp only [recvBuffCreate, hversion]
      exact ⟨_, .ring rfl rfl (RecvBuff.create_ringRep lens config.enByte hconfig)⟩
  | useQueue =>
      simp only [Configures, hversion] at hconfig
      simp only [recvBuffCreate, hversion]
      have hstores := RecvBuff.Stores.queue rfl rfl
        (RecvBuff.create_queueRep lens config.enByte hconfig 0 (some config.pool))
        fun p hp => absurd hp List.not_mem_nil
      rw [encode_nil, List.append_nil] at hstores
      exact ⟨_, hstores⟩

theorem epollCtlOp_zero (session : NetSession) (op : Nat) : epollCtlOp session op 0 = 0 := by
  simp only [epollCtlOp, ite_self]

theorem Init.at {s : ReadStall} (h : Init s) :
    ∃ v enByte cap session r stored, s.At v enByte cap session r stored := by
  cases h with
  | @mk s service nd session config sys hslot hid hqueued hqueue hcapacity hconfig hctl hcfg =>
      by_cases hnd : nd = 0
      · simp [netSocketCfg, hnd] at hcfg
      simp only [netSocketCfg, if_neg hnd, hslot] at hcfg
      split at hcfg
      · simp at hcfg
      · rename_i hidle
        split at hcfg
        · simp at hcfg
        · split at hcfg
          · simp at hcfg
          · rename_i lens hlens
            split at hcfg
            · simp at hcfg
            · simp only [postRead, ne_eq, not_true_eq_false, if_false, hctl, epollCtlOp_zero,
                Option.bind_eq_bind, Option.bind_some] at hcfg
              obtain rfl : _ = service := (Prod.mk.inj (Option.some.inj hcfg)).2
              simp only [not_or, Bool.not_eq_true, Option.isSome_eq_false_iff,
                Option.isNone_iff_eq_none] at hidle
              obtain ⟨-, -, hconnected, hlisten⟩ := hidle
              obtain ⟨cap, hstores⟩ := recvBuffCreate_stores hconfig lens
              have hnone : (split config.enByte.toNat cap []).1 = [] := rfl
              refine ⟨_, _, cap, _, _, [], NetService.setSession_self, hid,
                Nat.pos_of_ne_zero hnd, rfl, ⟨hstores, rfl, rfl, hlisten, hconnected, ?_,
                  hcapacity, ?_⟩, rfl, ?_, ?_, ?_, ?_⟩
              · rw [if_neg (Bool.eq_false_iff.mp hqueued)]
                exact hqueue
              · intro hyes
                exact absurd hyes (Bool.eq_false_iff.mp hqueued)
              · intro p hp
                cases hp
              · intro _ hsome
                exact absurd rfl hsome
              · intro hsome
                exact absurd hnone hsome
              · intro hyes
                cases hyes

def Inv (s : ReadStall) : Prop :=
  ∃ v enByte cap session r stored, s.At v enByte cap session r stored

theorem inv_of_reachable {s : ReadStall} (h : readStall.ReachableVia Kept s) : s.Inv := by
  apply h.invariant
  · exact fun s hs => hs.at
  · rintro s t a ⟨v, enByte, cap, session, r, stored, hat⟩ hok hstep
    cases a with
    | arrive xs => exact ⟨v, enByte, cap, session, r, stored, hat.arrive hstep⟩
    | netWait connected sys es =>
        obtain ⟨session', r', stored', hat'⟩ := hat.netWait hok hstep
        exact ⟨v, enByte, cap, session', r', stored', hat'⟩
    | netQueue maxevents =>
        obtain ⟨session', hat'⟩ := hat.netQueue hstep
        exact ⟨v, enByte, cap, session', r, stored, hat'⟩
    | netSocketRead usize sys es =>
        obtain ⟨session', r', stored', hat'⟩ := hat.netSocketRead hok hstep
        exact ⟨v, enByte, cap, session', r', stored', hat'⟩

end ReadStall

/-! ## Every run -/

/-- As long as no message without payload is taken for an incomplete one or for none, all
complete messages have been read when nothing is pending. -/
theorem readStall_noStall {s : ReadStall} (h : readStall.ReachableVia ReadStall.Kept s) :
    s.NoStall := by
  obtain ⟨v, enByte, cap, session, r, stored, hat⟩ := ReadStall.inv_of_reachable h
  exact hat.noStall

namespace ReadStall

/-- A service with one session that is not configured yet, on a heap of zeros. -/
def idle : NetService :=
  (addNetSession (netCreate 2
    { brk := 0, fate := fun _ => some (fun _ => 0), freed := [],
      pools := fun _ => buffPoolCreate 8 0 }) createNetSession).2

def config (v : RecvVersion) : NetConfig where
  enByte := .enByte8
  readBuffCnt := 1
  writeBuffCnt := 1
  pool := 0
  readBuffVersion := v

/-- The session after `net_socket_cfg`. -/
def configured (v : RecvVersion) : ReadStall where
  service := ((netSocketCfg idle 1 (some (config v)) {}).map Prod.snd).getD idle
  nd := 1
  socket := { unread := [], edge := false, arrived := [] }
  loops := 0
  removed := []

theorem init_configured (v : RecvVersion) : readStall.Init (configured v) := by
  have hcfg : ∃ service, netSocketCfg idle 1 (some (config v)) {} = some (1, service) := by
    cases v <;> exact ⟨_, rfl⟩
  have hconfig : Configures idle.mem (config v) := by
    cases v with
    | useBuff => exact ⟨Nat.one_pos, by decide, (by decide : 0 < 8), (by decide : 8 ≤ 65535)⟩
    | useQueue => exact Nat.one_pos
  obtain ⟨service, hcfg⟩ := hcfg
  rw [configured, hcfg]
  exact .mk rfl rfl rfl rfl (by decide) hconfig rfl hcfg

section Bytes

variable {s : ReadStall} {a : Action} {en cap : Nat} {bytes : List UInt8}

theorem served_of_bytes (hstream : ValidPrefix en cap bytes) (halloc : s.service.mem.AllocOk)
    (hbuff : s.rbuff.map (fun b => (b.enByte.toNat, b.limit)) = some (en, cap))
    (hbytes : s.socket.arrived ++ a.arrivals = bytes) : s.Served a := by
  subst hbytes
  obtain ⟨b, hb, heq⟩ := Option.map_eq_some_iff.mp hbuff
  cases heq
  refine ⟨halloc, fun b' hb' => ?_⟩
  obtain rfl := Option.some.inj (hb.symm.trans hb')
  exact hstream

/-- A step over bytes without an empty payload. -/
theorem kept_of_nonempty (hstream : ValidPrefix en cap bytes)
    (hnonempty : [] ∉ (split en cap bytes).1) (halloc : s.service.mem.AllocOk)
    (hbuff : s.rbuff.map (fun b => (b.enByte.toNat, b.limit)) = some (en, cap))
    (hbytes : s.socket.arrived ++ a.arrivals = bytes) : s.Kept a := by
  have hserved := served_of_bytes hstream halloc hbuff hbytes
  subst hbytes
  obtain ⟨b, hb, heq⟩ := Option.map_eq_some_iff.mp hbuff
  cases heq
  have hframes : [] ∉ s.frames (s.socket.arrived ++ a.arrivals) := by
    rw [frames, hb, Option.elim_some]
    exact hnonempty
  refine ⟨hserved, fun b' hb' _ => ?_, ?_⟩
  · obtain rfl := Option.some.inj (hb.symm.trans hb')
    exact hnonempty
  · cases a with
    | netSocketRead usize sys es =>
        refine .inr (.inr fun k hserve ps hps => absurd ?_ hframes)
        have hprefix : (if k.edge then k.taken else k.arrived) <+:
            s.socket.arrived ++ SocketEvent.arrivals es := by
          rw [← (Socket.serve_spec hserve).arrived]
          split
          · exact List.take_prefix _ _
          · exact List.prefix_rfl
        obtain ⟨rest, hrest⟩ := hprefix
        have hmem : [] ∈ s.frames (if k.edge then k.taken else k.arrived) := by
          rw [hps]
          exact List.mem_append_right _ List.mem_cons_self
        rw [frames, hb, Option.elim_some] at hmem ⊢
        rw [Action.arrivals, ← hrest]
        exact (split_isPrefixOf b.enByte.toNat_pos _ _).subset hmem
    | _ => trivial

end Bytes

end ReadStall

/-- One message, and the read that returns 0. -/
theorem readStall_noStall_one : ∃ s, readStall.run (ReadStall.configured .useBuff)
    [.arrive [2, 6], .netWait true {} [.recv (.received [2, 6]), .recv (.error eagain)],
      .netQueue 1, .netSocketRead 16 {} [], .netSocketRead 16 {} []] = some s ∧
      s.Quiescent ∧ s.removed = [[6]] ∧ s.NoStall := by
  have hstream : ValidPrefix 1 8 [2, 6] := by
    refine ⟨[[6]], [], fun p hp => ?_, rfl⟩
    rw [List.mem_singleton.mp hp]
    exact ⟨by decide, by decide⟩
  have hnonempty : [] ∉ (split 1 8 [2, 6]).1 := by decide
  have halloc : ReadStall.idle.mem.AllocOk := fun _ => ⟨_, rfl⟩
  refine ⟨_, rfl, ⟨rfl, rfl, rfl⟩, rfl, readStall_noStall ?_⟩
  refine .step (i := .netSocketRead 16 {} []) (.step (i := .netSocketRead 16 {} [])
    (.step (i := .netQueue 1) (.step
      (i := .netWait true {} [.recv (.received [2, 6]), .recv (.error eagain)])
      (.step (i := .arrive [2, 6]) (.init (ReadStall.init_configured .useBuff)) ?_ rfl)
      ?_ rfl) ?_ rfl) ?_ rfl) ?_ rfl
  all_goals exact ReadStall.kept_of_nonempty hstream hnonempty halloc rfl rfl

/-- The read that removes the message without payload returns 0, and the message behind it
stays. -/
theorem readStall_stalls : ¬ ∀ s, readStall.ReachableVia ReadStall.Served s → s.NoStall := by
  intro h
  have hstream : ValidPrefix 1 8 [1, 2, 5] := by
    refine ⟨[[], [5]], [], fun p hp => ?_, rfl⟩
    obtain rfl | hp := List.mem_cons.mp hp
    · exact ⟨by decide, by decide⟩
    · rw [List.mem_singleton.mp hp]
      exact ⟨by decide, by decide⟩
  have halloc : ReadStall.idle.mem.AllocOk := fun _ => ⟨_, rfl⟩
  obtain ⟨s, hreach, hquiescent, hremoved, hframes⟩ : ∃ s,
      readStall.ReachableVia ReadStall.Served s ∧ s.Quiescent ∧ s.removed = [[]] ∧
        s.frames s.socket.arrived = [[], [5]] := by
    refine ⟨_, .step (i := .netSocketRead 16 {} []) (.step (i := .netQueue 1) (.step
      (i := .netWait true {} [.recv (.received [1, 2, 5]), .recv (.error eagain)])
      (.step (i := .arrive [1, 2, 5]) (.init (ReadStall.init_configured .useBuff)) ?_ rfl)
      ?_ rfl) ?_ rfl) ?_ rfl, ⟨rfl, rfl, rfl⟩, rfl, rfl⟩
    all_goals exact ReadStall.served_of_bytes hstream halloc rfl rfl
  have hdone := h s hreach hquiescent
  rw [hremoved, hframes] at hdone
  cases hdone

end RandServer
