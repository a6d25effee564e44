import RandServer.Lib.Machine
import RandServer.Net.Session

/-!
# The service interface

The functions of `net_service.c` and `epoll_service.c` that take a handle, and those that
create sessions and drain the queues. Creation and closing consist of two critical
sections each, under different locks, which are separate definitions here.

Locks are left out: a function is one step, or its critical sections are the steps of an
interleaving. Socket addresses are left out as well.
-/

namespace RandServer

/-! ## Creating sessions -/

/-- The first critical section of `add_net_session`, under `id_lock`: the id and the
index of its slot. -/
def addNetSessionId (s : NetService) : Nat × Nat × NetService :=
  let (id, index, ff) := ffidNewId s.socketIds
  (id, index, { s with socketIds := ff })

/-- The second critical section of `add_net_session`, under `session_lock[index]`. -/
def addNetSessionInstall (s : NetService) (index id : Nat) (session : NetSession) : NetService :=
  s.setSession index (some { session with id := id })

/-- `add_net_session`: the id, or zero without a session. -/
def addNetSession (s : NetService) (session : NetSession) : Nat × NetService :=
  let (id, index, s) := addNetSessionId s
  if id = 0 then (0, s) else (id, addNetSessionInstall s index id session)

/-! ## Releasing sessions -/

/-- `recv_buff_release`: the blocks go back to the pool. -/
def recvBuffRelease (m : Memory UInt8) (b : RecvBuff) : Memory UInt8 :=
  (List.range b.poolCnt).foldl (fun m i =>
    buffPoolDelBuff m b.pool (b.buffers i)
      (match b.version with
        | .useBuff => b.bufferSize
        | .useQueue => (b.lenAt i % 2 ^ 64).toNat)) m

/-- `send_buff_release`. -/
def sendBuffRelease (m : Memory UInt8) (b : SendBuff) : Memory UInt8 :=
  (List.range b.poolCnt).foldl (fun m i => buffPoolDelBuff m b.pool (b.buffers i) b.bufferSize) m

def releaseReadSession (m : Memory UInt8) (r : Option ReadSession) : Memory UInt8 :=
  r.elim m fun r => recvBuffRelease m r.rbuff

def releaseWriteSession (m : Memory UInt8) (w : Option WriteSession) : Memory UInt8 :=
  w.elim m fun w => sendBuffRelease m w.sbuff

/-- `release_net_session`: buffers with a posted operation are kept. -/
def releaseNetSession (m : Memory UInt8) (session : NetSession) : Memory UInt8 :=
  let m := releaseReadSession m (session.rsession.filter (·.op = opNetNone))
  releaseWriteSession m (session.wsession.filter (·.op = opNetNone))

/-- What `net_socket_close` does with a session whose operations are settled: the slot is
cleared, and the session is released or waits in `close_root` until the rest is sent. -/
def netSocketCloseDetach (s : NetService) (index nd : Nat) (sendRest alloc : Bool)
    (session : NetSession) : NetService :=
  let s := { s.setSession index none with mem := releaseReadSession s.mem session.rsession }
  let session := { session with rsession := none }
  match session.wsession with
  | none => { s with mem := releaseNetSession s.mem session }
  | some w =>
      if w.op = opNetWrite then
        let session := { session with
          wsession := some { w with sendRest := sendRest }
          lsession := none }
        let fuel := (s.closeRoot.count + 1) * (s.closeRoot.count + 1) + 1
        { s with closeRoot := (sbTreeInsert fuel alloc nd session s.closeRoot).getD s.closeRoot }
      else { s with mem := releaseNetSession s.mem session }

/-- The first critical section of `net_socket_close`, under `session_lock[index]`, and
whether it goes on to the second one. -/
def netSocketCloseClear (s : NetService) (nd : Nat) (sendRest : Bool) (sys : Syscalls) :
    Option (Bool × NetService) :=
  let index := ffidIndex s.socketIds nd
  match s.sessions index with
  | none => some (false, s)
  | some session =>
      if session.id ≠ nd then some (false, s)
      else
        let session := cleanEpollOp session
        let posted := if sendRest then (postWrite s session sys).map Prod.snd
          else some (s, session)
        posted.map fun res =>
          (true, netSocketCloseDetach res.1 index nd sendRest sys.alloc res.2)

/-- The second critical section of `net_socket_close`, under `id_lock`. -/
def netSocketCloseRelease (s : NetService) (nd : Nat) : NetService :=
  { s with socketIds := ffidDelId s.socketIds nd }

def netSocketClose (s : NetService) (nd : Nat) (sendRest : Bool) (sys : Syscalls) :
    Option NetService :=
  if nd = 0 then some s
  else do
    let (found, s) ← netSocketCloseClear s nd sendRest sys
    some (if found then netSocketCloseRelease s nd else s)

/-- `net_listen`, given the descriptor of a listening socket. Without memory for the session it
dereferences a null pointer. -/
def netListen (s : NetService) (fd : Int) (aiFamily port listenCnt : Nat) (listenAlloc : Bool)
    (sys : Syscalls) : Option (Nat × NetService) :=
  if sys.alloc = false then none
  else if listenAlloc = false then some (0, s)
  else
    let session := { createNetSession with
      fd := fd
      aiFamily := aiFamily
      lsession := some { port := port, listenCnt := listenCnt } }
    let (id, s) := addNetSession s session
    if id = 0 then some (0, s)
    else if sys.epollCtl ≠ 0 then (netSocketClose s id false sys).map fun s => (0, s)
    else some (id, s)

/-- `net_connect`, given the descriptor of a socket and the error of `connect`. -/
def netConnect (s : NetService) (fd : Int) (aiFamily : Nat) (err : Nat) (sys : Syscalls) :
    Option (Nat × NetService) :=
  if sys.alloc = false then some (0, s)
  else
    let session := { createNetSession with fd := fd, aiFamily := aiFamily, connectFlag := true }
    let (id, s) := addNetSession s session
    if id = 0 then some (0, s)
    else if err ≠ 0 ∧ err ≠ einprogress ∨ sys.epollCtl ≠ 0 then
      (netSocketClose s id false sys).map fun s => (0, s)
    else some (id, s)

/-! ## Operations on a handle -/

/-- `push_queue_with_lock`. -/
def pushQueueWithLock (s : NetService) (nd event : Nat) (err : Int) : Int × NetService :=
  let index := ffidIndex s.socketIds nd
  match s.sessions index with
  | none => (0, s)
  | some session =>
      if nd = 0 ∨ session.id ≠ nd then (0, s)
      else
        let (ret, s, session) := pushQueue s session event err
        (ret, s.setSession index (some session))

/-- `struct net_config`. -/
structure NetConfig where
  enByte : EnByteSize
  readBuffCnt : Nat
  writeBuffCnt : Nat
  pool : Nat
  readBuffVersion : RecvVersion

/-- `recv_buff_create`, given the lens block that `malloc` returns. -/
def recvBuffCreate (m : Memory UInt8) (lens : Block UInt8) (config : NetConfig) : RecvBuff :=
  match config.readBuffVersion with
  | .useBuff => recvBuffCreateVA m lens config.enByte config.readBuffCnt config.pool
  | .useQueue => recvBuffCreateVB lens config.enByte config.readBuffCnt 0 (some config.pool)

/-- `net_socket_cfg`. This operation alone does not compare the id of the session. -/
def netSocketCfg (s : NetService) (nd : Nat) (config : Option NetConfig) (sys : Syscalls) :
    Option (Int × NetService) :=
  match config with
  | none => some (-6, s)
  | some config =>
      if nd = 0 then some (-6, s)
      else
        let index := ffidIndex s.socketIds nd
        match s.sessions index with
        | none => some (-2, s)
        | some session =>
            if session.rsession.isSome ∨ session.wsession.isSome ∨ session.connectFlag ∨
                session.lsession.isSome then some (-2, s)
            else if sys.async = false then some (-3, s)
            else
              match sys.lens with
              | none => some (-4, s)
              | some lens =>
                  if sys.alloc = false then some (-5, s)
                  else do
                    let rbuff := recvBuffCreate s.mem lens config
                    let sbuff := sendBuffCreate s.mem config.enByte config.writeBuffCnt config.pool
                    let session := { session with
                      rsession := some { id := nd, rbuff := rbuff, op := opNetNone, etflag := false }
                      wsession := some
                        { id := nd, sbuff := sbuff, op := opNetNone, sendRest := false
                          etflag := false } }
                    let (ret, s, session) ← postRead s session sys
                    some (ret, s.setSession index (some session))

/-- `net_socket_ctl`: the old data. -/
def netSocketCtl (s : NetService) (nd : Nat) (data : Option Nat) : Nat × NetService :=
  let index := ffidIndex s.socketIds nd
  match s.sessions index with
  | none => (0, s)
  | some session =>
      if nd = 0 ∨ session.id ≠ nd then (0, s)
      else (session.data, s.setSession index (some { session with data := data.getD session.data }))

/-- `net_socket_read`: the return value and the bytes read. -/
def netSocketRead (s : NetService) (nd : Nat) (usize : Int) (sys : Syscalls) :
    Option (Int × List UInt8 × NetService) :=
  let index := ffidIndex s.socketIds nd
  match s.sessions index with
  | none => some (-1, [], s)
  | some session =>
      if nd = 0 ∨ session.id ≠ nd ∨ session.rsession.isNone then some (-1, [], s)
      else do
        let (_, s, session) ← postRead s session sys
        let r ← session.rsession
        let (ret, xs, rbuff, mem) := recvBuffRead s.mem r.rbuff usize
        let session := { session with rsession := some { r with rbuff := rbuff } }
        some (ret, xs, { s.setSession index (some session) with mem := mem })

def netSocketWrite (s : NetService) (nd : Nat) (buff : List UInt8) (usize : Int) (delay : Bool)
    (sys : Syscalls) : Option (Int × NetService) :=
  let index := ffidIndex s.socketIds nd
  match s.sessions index with
  | none => some (-1, s)
  | some session =>
      match session.wsession with
      | none => some (-1, s)
      | some w =>
          if nd = 0 ∨ session.id ≠ nd then some (-1, s)
          else do
            let (ret, sbuff, mem) := sendBuffWrite s.mem w.sbuff buff usize
            let s := { s with mem := mem }
            let session := { session with wsession := some { w with sbuff := sbuff } }
            let (_, s, session) ← if delay then some (pushDelayQueue s session)
              else postWrite s session sys
            some (ret, s.setSession index (some session))

/-- `net_accept`, given the descriptor that `accept` returns. -/
def netAccept (s : NetService) (nd : Nat) (fd : Int) (sys : Syscalls) : Nat × NetService :=
  match s.sessions (ffidIndex s.socketIds nd) with
  | none => (0, s)
  | some session =>
      if nd = 0 ∨ session.lsession.isNone ∨ session.id ≠ nd then (0, s)
      else if fd < 0 then (0, s)
      else if sys.alloc = false then (0, s)
      else addNetSession s { createNetSession with fd := fd, aiFamily := session.aiFamily }

/-- `net_socket_error`. -/
def netSocketError (s : NetService) (nd : Nat) : Int :=
  match s.sessions (ffidIndex s.socketIds nd) with
  | none => 0
  | some session => if nd = 0 ∨ session.id ≠ nd then 0 else session.errorInfo

/-! ## Draining the queues -/

/-- `struct net_event`. -/
structure NetEvent where
  events : Nat
  nd : Nat
  data : Nat

/-- The batch loop of `net_queue`: the events, and the index of the last slot looked at. -/
def netQueueBatch (s : NetService) (cnt : Nat) : List Nat → List NetEvent × Nat × NetService
  | [] => ([], cnt, s)
  | msg :: msgs =>
      let index := ffidIndex s.socketIds msg
      match s.sessions index with
      | none => netQueueBatch s index msgs
      | some session =>
          if session.id = msg then
            let res := netQueueBatch
              (s.setSession index (some { session with events := 0, inQueue := false })) index msgs
            ({ events := session.events, nd := session.id, data := session.data } :: res.1, res.2)
          else netQueueBatch s index msgs

/-- `net_queue` for `maxevents` events that are still wanted. The variable `cnt` is used
for the size of the batch and then for the slots, so the test at the end compares the
number of ids with the last slot. Every further batch takes an id off the queue, which
bounds the fuel. -/
def netQueueLoop (s : NetService) : Nat → Nat → List NetEvent × NetService
  | 0, _ => ([], s)
  | fuel + 1, maxevents =>
      if maxevents = 0 then ([], s)
      else
        let cnt := min 128 maxevents
        let msgs := (s.queue.pop cnt).1
        let res := netQueueBatch { s with queue := (s.queue.pop cnt).2 } cnt msgs
        if msgs.length < res.2.1 then (res.1, res.2.2)
        else
          let rest := netQueueLoop res.2.2 fuel (maxevents - res.1.length)
          (res.1 ++ rest.1, rest.2)

def netQueue (s : NetService) (maxevents : Int) : List NetEvent × NetService :=
  netQueueLoop s (s.queue.items.length + 1) maxevents.toNat

/-- One iteration of `net_delay`: whether an id was taken off the queue. -/
def netDelayOne (s : NetService) (sys : Syscalls) : Option (Bool × NetService) :=
  match s.delayQueue.pop 1 with
  | ([], _) => some (false, s)
  | (id :: _, delayQueue) =>
      let s := { s with delayQueue := delayQueue }
      let index := ffidIndex s.socketIds id
      match s.sessions index with
      | none => some (true, s)
      | some session =>
          if session.id = id then do
            let (_, s, session) ← postWrite s { session with inDelayQueue := false } sys
            some (true, s.setSession index (some session))
          else some (true, s)

/-- `net_delay`, given the outcomes of the system calls of each iteration. -/
def netDelay (s : NetService) : List Syscalls → Option (Nat × NetService)
  | [] => some (0, s)
  | sys :: rest => do
      let (taken, s) ← netDelayOne s sys
      if taken then
        let (cnt, s) ← netDelay s rest
        some (cnt + 1, s)
      else some (0, s)

/-! ## What closing does -/

theorem netSocketCloseDetach_grows (s : NetService) (index nd : Nat) (sendRest alloc : Bool)
    (session : NetSession) :
    (s.setSession index none).Grows (netSocketCloseDetach s index nd sendRest alloc session) := by
  unfold netSocketCloseDetach
  cases hw : session.wsession with
  | none => exact ⟨rfl, rfl, rfl, fun _ h => h⟩
  | some w =>
      dsimp only
      split_ifs <;> exact ⟨rfl, rfl, rfl, fun _ h => h⟩

/-- The first critical section of closing empties the slot of the session, if it is there,
and leaves the other slots and all ids alone. -/
theorem netSocketCloseClear_spec {s t : NetService} {nd : Nat} {sendRest found : Bool}
    {sys : Syscalls} (ht : netSocketCloseClear s nd sendRest sys = some (found, t)) :
    found = false ∧ t = s ∨ found = true ∧
      ∃ session u, s.sessions (ffidIndex s.socketIds nd) = some session ∧ session.id = nd ∧
        s.Grows u ∧ (u.setSession (ffidIndex s.socketIds nd) none).Grows t := by
  unfold netSocketCloseClear at ht
  cases hslot : s.sessions (ffidIndex s.socketIds nd) with
  | none =>
      simp only [hslot, Option.some.injEq, Prod.mk.injEq] at ht
      exact .inl ⟨ht.1.symm, ht.2.symm⟩
  | some session =>
      simp only [hslot] at ht
      by_cases hid : session.id = nd
      · rw [if_neg (not_not.mpr hid)] at ht
        obtain ⟨⟨u, session'⟩, hposted, heq⟩ := Option.map_eq_some_iff.mp ht
        cases heq
        refine .inr ⟨rfl, session, u, rfl, hid, ?_, netSocketCloseDetach_grows ..⟩
        cases sendRest with
        | false =>
            cases hposted
            exact .refl s
        | true =>
            obtain ⟨⟨ret, u', session''⟩, hpost, heq⟩ := Option.map_eq_some_iff.mp hposted
            cases heq
            exact (NetService.postWrite_spec hpost).1
      · rw [if_pos hid] at ht
        simp only [Option.some.injEq, Prod.mk.injEq] at ht
        exact .inl ⟨ht.1.symm, ht.2.symm⟩

end RandServer
