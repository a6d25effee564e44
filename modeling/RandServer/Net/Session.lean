import RandServer.Lib.BoundedQueue
import RandServer.Net.RecvBuff
import RandServer.Net.SendBuff
import RandServer.Tool.Ffid
import RandServer.Tool.Sbtree

/-!
# Sessions and the service

The records of `net_service.c` and the functions of `epoll_service.c` that post reads and
writes for one session. They change the session and, through `push_queue`, the service.

`Syscalls` scripts the outcomes of the system calls and allocations of one call. A loop
over `send` or `recv` is undefined if the script ends before the loop does. The two
queues are the bounded queues that `msg_buff` implements (`MsgBuff.Refines`). File
descriptors are numbers; what the kernel does with them is left out.
-/

namespace RandServer

/-! ## Constants -/

def eveAccept : Nat := 1
def eveRead : Nat := 2
def eveConnect : Nat := 4
def eveError : Nat := 1 <<< 30
def handleGetError : Nat := 1 <<< 5
def handleSocketClose : Nat := 1 <<< 6
def writeError : Nat := 1 <<< 8
def handleSocketConsumeError : Nat := 1 <<< 9

def opNetNone : Nat := 0
/-- `EPOLLIN`. -/
def opNetRead : Nat := 1
/-- `EPOLLOUT`. -/
def opNetWrite : Nat := 4

def eagain : Nat := 11
def einprogress : Nat := 115

/-! ## Records -/

structure ListenSession where
  port : Nat
  listenCnt : Nat

structure ReadSession where
  id : Nat
  rbuff : RecvBuff
  op : Nat
  etflag : Bool

structure WriteSession where
  id : Nat
  sbuff : SendBuff
  op : Nat
  sendRest : Bool
  etflag : Bool

structure NetSession where
  id : Nat
  fd : Int
  rsession : Option ReadSession
  wsession : Option WriteSession
  lsession : Option ListenSession
  data : Nat
  events : Nat
  aiFamily : Nat
  errorInfo : Int
  inQueue : Bool
  inDelayQueue : Bool
  connectFlag : Bool

/-- `create_net_session`: all fields are zero. -/
def createNetSession : NetSession where
  id := 0
  fd := 0
  rsession := none
  wsession := none
  lsession := none
  data := 0
  events := 0
  aiFamily := 0
  errorInfo := 0
  inQueue := false
  inDelayQueue := false
  connectFlag := false

structure NetService where
  socketIds : Ffid
  sessions : Nat → Option NetSession
  size : Nat
  queue : BoundedQueue Nat
  delayQueue : BoundedQueue Nat
  closeRoot : SbTree Nat NetSession
  mem : Memory UInt8

/-- `net_create`, on a heap for the buffers of the sessions. -/
def netCreate (size : Nat) (mem : Memory UInt8) : NetService where
  socketIds := ffidCreate (u16 size) true
  sessions := fun _ => none
  size := size
  queue := .empty (4 * size)
  delayQueue := .empty (4 * size)
  closeRoot := .nil
  mem := mem

def NetService.setSession (s : NetService) (index : Nat) (session : Option NetSession) :
    NetService :=
  { s with sessions := Function.update s.sessions index session }

namespace NetService

variable {s : NetService} {i j : Nat} {session : Option NetSession}

@[simp] theorem setSession_self : (s.setSession i session).sessions i = session :=
  Function.update_self ..

theorem setSession_of_ne (h : j ≠ i) : (s.setSession i session).sessions j = s.sessions j :=
  Function.update_of_ne h ..

@[simp] theorem setSession_setSession {session' : Option NetSession} :
    (s.setSession i session).setSession i session' = s.setSession i session' := by
  simp only [setSession, Function.update_idem]

@[simp] theorem setSession_socketIds : (s.setSession i session).socketIds = s.socketIds := rfl

end NetService

/-! ## System calls -/

inductive SendResult
  | sent (n : Nat)
  | error (errno : Nat)

/-- Receiving no bytes means that the peer has closed the connection. -/
inductive RecvResult
  | received (xs : List UInt8)
  | error (errno : Nat)

/-- The outcomes of the calls that an operation makes. The lens block of a receive
buffer comes from `malloc`, with any contents. -/
structure Syscalls where
  epollCtl : Int := 0
  errno : Int := 0
  sends : List SendResult := []
  recvs : List RecvResult := []
  async : Bool := true
  lens : Option (Block UInt8) := some { addr := 0, size := 0, data := fun _ => 0 }
  alloc : Bool := true

/-! ## Queueing -/

/-- `push_delay_queue`. -/
def pushDelayQueue (s : NetService) (session : NetSession) : Int × NetService × NetSession :=
  if session.inDelayQueue then (1, s, session)
  else
    let res := s.delayQueue.push session.id
    (if res.1 then 1 else 0, { s with delayQueue := res.2 }, { session with inDelayQueue := true })

/-- `push_queue`. -/
def pushQueue (s : NetService) (session : NetSession) (event : Nat) (err : Int) :
    Int × NetService × NetSession :=
  let session := { session with
    events := session.events ||| event
    errorInfo := if err ≠ 0 then err else session.errorInfo }
  if session.inQueue then (1, s, session)
  else
    let res := s.queue.push session.id
    (if res.1 then 1 else 0, { s with queue := res.2 },
      { session with inQueue := true, connectFlag := false })

/-! ## Posting reads and writes -/

/-- `epoll_ctl_op`: nothing to do if the operation is already posted. -/
def epollCtlOp (session : NetSession) (op : Nat) (res : Int) : Int :=
  let ev := (session.rsession.elim 0 ReadSession.op) ||| (session.wsession.elim 0 WriteSession.op)
  if ev &&& op ≠ 0 then 0 else res

def cleanEpollOp (session : NetSession) : NetSession :=
  { session with
    wsession := session.wsession.map fun w => { w with op := opNetNone }
    rsession := session.rsession.map fun r => { r with op := opNetNone } }

/-- The loop of `post_rest_write`, which ends when there is nothing left to send. -/
def postRestWriteLoop (m : Memory UInt8) (w : WriteSession) :
    List SendResult → Option (Int × WriteSession × Memory UInt8)
  | [] => if (sendBuffPrepare w.sbuff).1 = 0 then some (0, w, m) else none
  | res :: sends =>
      let size := (sendBuffPrepare w.sbuff).1
      if size = 0 then some (0, w, m)
      else
        match res with
        | .error e => if e = eagain then some (e, { w with etflag := true }, m) else some (-e, w, m)
        | .sent n =>
            if size < n then none
            else
              let res := sendBuffConsume m w.sbuff n
              postRestWriteLoop res.2 { w with sbuff := res.1 } sends

def postRestWrite (s : NetService) (session : NetSession) (sys : Syscalls) :
    Option (Int × NetService × NetSession) :=
  match session.wsession with
  | none => some (-1, s, session)
  | some w => do
      let (ret, w, mem) ← postRestWriteLoop s.mem { w with etflag := false } sys.sends
      some (ret, { s with mem := mem }, { session with wsession := some w })

/-- The loop of `post_rest_read`, which ends when there is no room left, at an error, and
when the peer has closed. -/
def postRestReadLoop (sys : Syscalls) (s : NetService) (session : NetSession) (r : ReadSession) :
    List RecvResult → Option (NetService × NetSession)
  | [] =>
      let (size, _, rbuff, mem) := recvBuffPrepare s.mem r.rbuff
      if size = 0 then
        some ({ s with mem := mem },
          { session with rsession := some { r with rbuff := rbuff, etflag := true } })
      else none
  | res :: recvs =>
      let (size, ptr, rbuff, mem) := recvBuffPrepare s.mem r.rbuff
      if size = 0 then
        some ({ s with mem := mem },
          { session with rsession := some { r with rbuff := rbuff, etflag := true } })
      else
        match ptr, res with
        | none, _ => none
        | some _, .error e =>
            let (_, rbuff, mem) := recvBuffConsume mem rbuff 0
            let s := { s with mem := mem }
            let session := { session with rsession := some { r with rbuff := rbuff } }
            if e = eagain then some (s, session)
            else some (pushQueue s (cleanEpollOp session) (handleGetError ||| eveError) e).2
        | some ptr, .received xs =>
            if size < xs.length then none
            else
              let (msgcnt, rbuff, mem) := recvBuffConsume mem (rbuff.fill ptr xs) xs.length
              let s := { s with mem := mem }
              let r := { r with rbuff := rbuff }
              let session := { session with rsession := some r }
              if xs = [] then
                some (pushQueue s (cleanEpollOp session) (handleSocketClose ||| eveError)
                  sys.errno).2
              else if msgcnt < 0 then
                some (pushQueue s (cleanEpollOp session) (handleSocketConsumeError ||| eveError)
                  sys.errno).2
              else
                let pushed := if msgcnt > 0 then (pushQueue s session eveRead sys.errno).2
                  else (s, session)
                postRestReadLoop sys pushed.1 pushed.2 r recvs

def postRestRead (s : NetService) (session : NetSession) (sys : Syscalls) :
    Option (NetService × NetSession) :=
  match session.rsession with
  | none => some (s, session)
  | some r => postRestReadLoop sys s session { r with etflag := false } sys.recvs

def postRead (s : NetService) (session : NetSession) (sys : Syscalls) :
    Option (Int × NetService × NetSession) :=
  match session.rsession with
  | none => some (-1, s, session)
  | some r =>
      if r.op ≠ opNetNone then do
        let (s, session) ← if r.etflag then postRestRead s session sys else some (s, session)
        some (0, s, session)
      else if epollCtlOp session opNetRead sys.epollCtl ≠ 0 then
        let (_, s, session) := pushQueue s session (eveRead ||| eveError) sys.errno
        some (1, s, cleanEpollOp session)
      else some (1, s, { session with rsession := some { r with op := opNetRead } })

def postWrite (s : NetService) (session : NetSession) (sys : Syscalls) :
    Option (Int × NetService × NetSession) :=
  match session.wsession with
  | none => some (-1, s, session)
  | some w =>
      if w.op ≠ opNetNone then do
        let (_, s, session) ← postRestWrite s session sys
        some (0, s, session)
      else if (sendBuffPrepare w.sbuff).1 = 0 then some (0, s, session)
      else if epollCtlOp session opNetWrite sys.epollCtl ≠ 0 then
        let (_, s, session) := pushQueue s session (writeError ||| eveError) sys.errno
        some (1, s, cleanEpollOp session)
      else some (1, s, { session with wsession := some { w with op := opNetWrite } })

namespace NetService

/-! ## What posting does -/

/-- `queue` can take the id, has it already, or is not asked to. -/
def Takes (queue : BoundedQueue Nat) (flag : Bool) (id : Nat) : Prop :=
  flag = true ∨ queue.items.length < queue.capacity ∨ id ∈ queue.items

instance (queue : BoundedQueue Nat) (flag : Bool) (id : Nat) : Decidable (Takes queue flag id) :=
  inferInstanceAs (Decidable (_ ∨ _ ∨ _))

/-- `post_write` tries to post the operation and the system call fails. -/
def postWriteFails (session : NetSession) (sys : Syscalls) : Bool :=
  match session.wsession with
  | none => false
  | some w => w.op = opNetNone && (sendBuffPrepare w.sbuff).1 ≠ 0 &&
      epollCtlOp session opNetWrite sys.epollCtl ≠ 0

/-- A session whose event flag is set is in the event queue or among the pending ids. -/
def Listed (s : NetService) (pending : List Nat) (session : NetSession) : Prop :=
  session.inQueue = true → session.id ∈ pending ++ s.queue.items

/-- `t` has the sessions, ids and delay queue of `s`, and its event queue has grown. -/
structure Grows (s t : NetService) : Prop where
  sessions : t.sessions = s.sessions
  socketIds : t.socketIds = s.socketIds
  delayQueue : t.delayQueue = s.delayQueue
  queue : ∀ id ∈ s.queue.items, id ∈ t.queue.items

theorem Grows.refl (s : NetService) : Grows s s := ⟨rfl, rfl, rfl, fun _ h => h⟩

theorem Grows.listed {s t : NetService} (h : Grows s t) {pending : List Nat}
    {session : NetSession} (hs : s.Listed pending session) : t.Listed pending session := by
  intro hflag
  rcases List.mem_append.mp (hs hflag) with hin | hin
  · exact List.mem_append_left _ hin
  · exact List.mem_append_right _ (h.queue _ hin)

/-- A pushed id is in the queue if and only if the queue takes it. -/
theorem push_iff (queue : BoundedQueue Nat) (id : Nat) :
    (true = true → id ∈ (queue.push id).2.items) ↔ Takes queue false id := by
  by_cases hroom : queue.items.length < queue.capacity
  · exact ⟨fun _ => .inr (.inl hroom), fun _ _ => BoundedQueue.self_mem_push hroom⟩
  · constructor
    · intro hin
      rw [BoundedQueue.push_full hroom] at hin
      exact .inr (.inr (hin rfl))
    · rintro (hno | hno | hin) _
      · cases hno
      · exact absurd hno hroom
      · exact BoundedQueue.mem_push hin

/-- `push_queue` keeps flag and queue in agreement if and only if the queue takes the id. -/
theorem pushQueue_spec {s t : NetService} {session session' : NetSession} {event : Nat}
    {err ret : Int} (ht : pushQueue s session event err = (ret, t, session')) :
    Grows s t ∧ session'.id = session.id ∧ session'.inDelayQueue = session.inDelayQueue ∧
      (s.Listed [] session →
        (t.Listed [] session' ↔ Takes s.queue session.inQueue session.id)) := by
  unfold pushQueue at ht
  cases hflag : session.inQueue with
  | true =>
      simp only [hflag, if_true, Prod.mk.injEq] at ht
      obtain ⟨-, rfl, rfl⟩ := ht
      exact ⟨.refl _, rfl, rfl, fun h => ⟨fun _ => .inl rfl, fun _ _ => h hflag⟩⟩
  | false =>
      simp only [hflag, Bool.false_eq_true, if_false, Prod.mk.injEq] at ht
      obtain ⟨-, rfl, rfl⟩ := ht
      refine ⟨⟨rfl, rfl, rfl, fun _ hin => BoundedQueue.mem_push hin⟩, rfl, rfl, fun _ => ?_⟩
      exact push_iff s.queue session.id

/-- The same for the delay queue. -/
theorem pushDelayQueue_spec {s t : NetService} {session session' : NetSession} {ret : Int}
    (ht : pushDelayQueue s session = (ret, t, session')) :
    t.sessions = s.sessions ∧ t.socketIds = s.socketIds ∧ t.queue = s.queue ∧
      (∀ id ∈ s.delayQueue.items, id ∈ t.delayQueue.items) ∧
      session'.id = session.id ∧ session'.inQueue = session.inQueue ∧
      ((session.inDelayQueue = true → session.id ∈ s.delayQueue.items) →
        ((session'.inDelayQueue = true → session'.id ∈ t.delayQueue.items) ↔
          Takes s.delayQueue session.inDelayQueue session.id)) := by
  unfold pushDelayQueue at ht
  cases hflag : session.inDelayQueue with
  | true =>
      simp only [hflag, if_true, Prod.mk.injEq] at ht
      obtain ⟨-, rfl, rfl⟩ := ht
      exact ⟨rfl, rfl, rfl, fun _ h => h, rfl, rfl, fun h => ⟨fun _ => .inl rfl, fun _ _ => h rfl⟩⟩
  | false =>
      simp only [hflag, Bool.false_eq_true, if_false, Prod.mk.injEq] at ht
      obtain ⟨-, rfl, rfl⟩ := ht
      refine ⟨rfl, rfl, rfl, fun _ hin => BoundedQueue.mem_push hin, rfl, rfl, fun _ => ?_⟩
      exact push_iff s.delayQueue session.id

theorem postWrite_spec {s t : NetService} {session session' : NetSession} {sys : Syscalls}
    {ret : Int} (ht : postWrite s session sys = some (ret, t, session')) :
    Grows s t ∧ session'.id = session.id ∧ session'.inDelayQueue = session.inDelayQueue ∧
      (s.Listed [] session → (t.Listed [] session' ↔
        (postWriteFails session sys = true → Takes s.queue session.inQueue session.id))) := by
  unfold postWrite at ht
  unfold postWriteFails
  cases hw : session.wsession with
  | none =>
      simp only [hw, Option.some.injEq, Prod.mk.injEq] at ht
      obtain ⟨-, rfl, rfl⟩ := ht
      exact ⟨.refl _, rfl, rfl, fun h => ⟨fun _ hno => (nomatch hno), fun _ => h⟩⟩
  | some w =>
      simp only [hw] at ht
      split_ifs at ht with hop hsize hepoll
      · obtain ⟨⟨ret', s', session''⟩, hrest, heq⟩ := Option.bind_eq_some_iff.mp ht
        cases heq
        rw [postRestWrite, hw] at hrest
        obtain ⟨⟨ret'', w', mem⟩, -, heq⟩ := Option.bind_eq_some_iff.mp hrest
        cases heq
        exact ⟨⟨rfl, rfl, rfl, fun _ h => h⟩, rfl, rfl,
          fun h => ⟨fun _ => by simp [hop], fun _ => h⟩⟩
      · cases ht
        exact ⟨.refl _, rfl, rfl, fun h => ⟨fun _ => by simp [hsize], fun _ => h⟩⟩
      · generalize hpush : pushQueue s session (writeError ||| eveError) sys.errno = res at ht
        obtain ⟨ret', s', session''⟩ := res
        cases ht
        obtain ⟨hgrows, hid, hdelay, hlisted⟩ := pushQueue_spec hpush
        refine ⟨hgrows, hid, hdelay, fun h => (hlisted h).trans ⟨fun htakes _ => htakes,
          fun htakes => ?_⟩⟩
        refine htakes ?_
        simp [not_not.mp hop, hsize, hepoll]
      · cases ht
        exact ⟨.refl _, rfl, rfl, fun h => ⟨fun _ => by simp [hepoll], fun _ => h⟩⟩

end NetService

end RandServer
