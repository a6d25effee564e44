import RandServer.Lib.Custody
import RandServer.Net.PostWrite
import RandServer.Net.SessionRegistry
import RandServer.Net.SocketCfg

/-!
# Socket descriptors

Where the sockets of a service are opened and closed with epoll. `net_listen`, `net_accept`
and `net_connect` open one and hand it to `add_net_session`, and every error behind that
closes it again. `net_socket_close` closes the socket of a session, or leaves it in
`close_root` until an event of `net_wait` releases it. The critical sections of all threads
interleave in any order, as in `Registry`.

A session in `close_root` is behind a pointer. The tree of the model holds the record as it
was at the insertion, and `rests` holds the record as it is. `net_wait` looks for the node of a
session under `close_lock`, but reads the pointer after it has given up that lock. In between
another thread may delete from `close_root`, which may free the node. `net_listen` and
`net_connect` read the id of their session when it has been added, and `net_accept` reads the
address family of its listener without the lock. That these sessions have not been closed by
then is taken for granted.
-/

namespace RandServer

open KeySeq SbTree PostWrite

/-- A node of `close_root` that `net_wait` has found for an event. -/
structure Found where
  id : Nat
  events : PollEvents
  freed : Bool

/-- A service with its threads, and the sockets that are open. A thread that has opened a
socket keeps its session in `opening` until `add_net_session`, and one that has found a node
keeps it in `found`, at the slot whose lock it has. A descriptor that is closed while it is not
open is a stray one. -/
structure Descriptors where
  registry : Registry
  opening : Nat → Option NetSession
  found : Nat → Option Found
  rests : Nat → NetSession
  opened : List Int
  stray : List Int

namespace Descriptors

def service (s : Descriptors) : NetService := s.registry.service

def setService (s : Descriptors) (service : NetService) : Descriptors :=
  { s with registry := { s.registry with service := service } }

/-- `net_close_fd`. -/
def closeFd (s : Descriptors) (fd : Int) : Descriptors :=
  if fd ∈ s.opened then { s with opened := s.opened.erase fd }
  else { s with stray := s.stray ++ [fd] }

/-- The function that opens a socket. `bound` says whether `bind` and `listen` succeed, and
`listenAlloc` whether `create_listen_session` does. -/
inductive Opens
  | netListen (aiFamily port listenCnt : Nat) (bound listenAlloc : Bool)
  | netAccept (nd : Nat)
  | netConnect (aiFamily : Nat)

/-- The session for a new socket. `net_accept` needs a listening session. -/
def Opens.session (s : NetService) (fd : Int) : Opens → Option NetSession
  | .netListen aiFamily port listenCnt _ _ => some { createNetSession with
      fd := fd
      aiFamily := aiFamily
      lsession := some { port := port, listenCnt := listenCnt } }
  | .netAccept nd =>
      if nd = 0 then none
      else
        ((s.sessions (ffidIndex s.socketIds nd)).filter fun listener =>
          listener.lsession.isSome && listener.id = nd).map fun listener =>
            { createNetSession with fd := fd, aiFamily := listener.aiFamily }
  | .netConnect aiFamily => some { createNetSession with
      fd := fd
      aiFamily := aiFamily
      connectFlag := true }

/-- Whether the session is made. Without memory for it `net_listen` dereferences a null
pointer. -/
def Opens.succeeds (alloc : Bool) : Opens → Option Bool
  | .netListen _ _ _ bound listenAlloc =>
      if !bound then some false
      else if !alloc then none
      else some listenAlloc
  | _ => some alloc

/-- The calls that open and close nothing. -/
inductive Call
  | ctl (nd : Nat) (data : Option Nat)
  | read (nd : Nat) (usize : Int) (sys : Syscalls)
  | write (nd : Nat) (buff : List UInt8) (usize : Int) (delay : Bool) (sys : Syscalls)
  | delay (sys : Syscalls)
  | queue (maxevents : Int)

def Call.run (s : NetService) : Call → Option NetService
  | .ctl nd data => some (netSocketCtl s nd data).2
  | .read nd usize sys => (netSocketRead s nd usize sys).map fun res => res.2.2
  | .write nd buff usize d sys => (netSocketWrite s nd buff usize d sys).map Prod.snd
  | .delay sys => (netDelayOne s sys).map Prod.snd
  | .queue maxevents => some (netQueue s maxevents).2

/-- `alloc` says whether `create_net_session` gets its memory. -/
inductive Action
  | socket (t : Nat) (fd : Int) (op : Opens) (alloc : Bool)
  | newId (t : Nat)
  | install (t : Nat)
  | clear (t nd : Nat) (sendRest : Bool) (sys : Syscalls)
  | release (t : Nat)
  | cfg (sizes : StructSizes) (nd : Nat) (config : Option NetConfig) (sys : Syscalls)
  | wait (id : Nat) (events : PollEvents) (connected : Bool) (sys : Syscalls)
  | rest (index : Nat) (sys : Syscalls)
  | call (c : Call)

/-- The session that `net_socket_close` takes out of its slot, with its operations settled. -/
def closing (s : NetService) (nd : Nat) (sendRest : Bool) (sys : Syscalls) : Option NetSession :=
  if nd = 0 then none
  else
    ((s.sessions (ffidIndex s.socketIds nd)).filter (·.id = nd)).bind fun session =>
      if sendRest then (postWrite s (cleanEpollOp session) sys).map fun res => res.2.2
      else some (cleanEpollOp session)

/-- What `net_socket_close` leaves of a session whose write is posted. -/
def rest (sendRest : Bool) (session : NetSession) : NetSession :=
  { session with
    rsession := none
    wsession := session.wsession.map fun w => { w with sendRest := sendRest }
    lsession := none }

/-- The kernel gives out descriptors that are not open. -/
def socket (s : Descriptors) (t : Nat) (fd : Int) (op : Opens) (alloc : Bool) :
    Option Descriptors :=
  if fd < 0 ∨ fd ∈ s.opened ∨ (s.opening t).isSome then none
  else do
    let session ← op.session s.service fd
    let made ← op.succeeds alloc
    let s' := { s with opened := fd :: s.opened }
    some (if made then { s' with opening := Function.update s.opening t (some session) }
      else s'.closeFd fd)

/-- The first critical section of `add_net_session`. -/
def newId (s : Descriptors) (t : Nat) : Option Descriptors := do
  let session ← s.opening t
  let registry ← s.registry.step (.newId t session)
  let s' := { s with registry := registry, opening := Function.update s.opening t none }
  some (if (addNetSessionId s.service).1 = 0 then s'.closeFd session.fd else s')

/-- The first critical section of `net_socket_close`. -/
def clear (s : Descriptors) (t nd : Nat) (sendRest : Bool) (sys : Syscalls) :
    Option Descriptors := do
  let registry ← s.registry.step (.clear t nd sendRest sys)
  let s' := { s with registry := registry }
  match closing s.service nd sendRest sys with
  | none => some s'
  | some session =>
      if EpollClose.posted session then
        some { s' with rests := Function.update s.rests nd (rest sendRest session) }
      else some (s'.closeFd session.fd)

/-- One event of `net_wait`, up to the call of `handle_rest`. The lock of the slot is kept until
then. Of the other calls only `net_wait` is made to wait for it here, which adds runs. -/
def wait (s : Descriptors) (id : Nat) (events : PollEvents) (connected : Bool) (sys : Syscalls) :
    Option Descriptors :=
  if id = 0 then some s
  else
    let index := ffidIndex s.service.socketIds id
    if (s.found index).isSome then none
    else
      match (s.service.sessions index).filter (·.id = id) with
      | some session => do
          let (service, session) ← handleSession s.service session events connected sys
          some (s.setService (service.setSession index (some session)))
      | none =>
          if (sbTreeFind id s.service.closeRoot).isNil then some s
          else
            let node := { id := id, events := events, freed := false }
            some { s with found := Function.update s.found index (some node) }

/-- The key of the node that `sb_tree_delete` frees. -/
def freedKey (id : Nat) (root : SbTree Nat NetSession) : Option Nat :=
  (sbTreeDeleteNode (root.count * root.count + 1) id false root).bind fun res =>
    res.1.map Prod.fst

/-- The node of a key is freed, whoever has found it. -/
def freeNode (s : Descriptors) (key : Option Nat) : Descriptors :=
  { s with found := fun index =>
      (s.found index).map fun node => { node with freed := node.freed || key = some node.id } }

/-- `net_wait` goes on with the node it has found. It reads the node, so the behaviour is
undefined if that is freed. -/
def waitRest (s : Descriptors) (index : Nat) (sys : Syscalls) : Option Descriptors := do
  let node ← s.found index
  if node.freed then none
  else do
    let (released, service, session) ← handleRest s.service (s.rests node.id) node.events sys
    let s' := { s.setService service with
      found := Function.update s.found index none
      rests := Function.update s.rests node.id session }
    some (if released then (s'.closeFd session.fd).freeNode (freedKey node.id s.service.closeRoot)
      else s')

def step (s : Descriptors) : Action → Option Descriptors
  | .socket t fd op alloc => s.socket t fd op alloc
  | .newId t => s.newId t
  | .install t => (s.registry.step (.install t)).map fun registry => { s with registry := registry }
  | .clear t nd sendRest sys => s.clear t nd sendRest sys
  | .release t => (s.registry.step (.release t)).map fun registry => { s with registry := registry }
  | .cfg sizes nd config sys =>
      (netSocketCfgAt sizes .epoll s.service nd config sys).map fun res =>
        res.2.2.foldl closeFd (s.setService res.2.1)
  | .wait id events connected sys => s.wait id events connected sys
  | .rest index sys => s.waitRest index sys
  | .call c => (c.run s.service).map s.setService

/-- A new service of `size` slots. -/
def Init (s : Descriptors) : Prop :=
  ∃ size mem, 1 ≤ size ∧ size ≤ 65535 ∧ s.registry = .ofService (netCreate size mem) ∧
    (∀ t, s.opening t = none) ∧ (∀ index, s.found index = none) ∧ s.opened = [] ∧ s.stray = []

/-- A session with a rest to send gets its own place in `close_root` and can be removed from
there when it is released, and `net_socket_cfg` does not fail halfway. -/
def Kept (s : Descriptors) : Action → Prop
  | .clear _ nd sendRest sys => sendRest = true → sys.alloc = true ∧
      s.service.closeRoot.count + 1 < 2 ^ 32 ∧ keyCount nd s.service.closeRoot.inOrder = 0
  | .cfg sizes nd config sys => ¬ CfgSlips sizes .epoll s.service nd config sys
  | .rest index sys => ∀ node, s.found index = some node →
      (handleRest s.service (s.rests node.id) node.events sys).any (·.1) = true →
        Deletable node.id s.service.closeRoot
  | _ => True

/-- Who is to close a socket: the thread that is about to add its session, the thread that is
about to install it, the session in a slot, or the one in `close_root`. -/
inductive Holder
  | opening (t : Nat)
  | install (t : Nat)
  | slot (i : Nat)
  | rest (id : Nat)

def Holds (s : Descriptors) (fd : Int) : Holder → Prop
  | .opening t => ∃ session, s.opening t = some session ∧ session.fd = fd
  | .install t => ∃ id index session,
      s.registry.threads t = .pendingInstall id index session ∧ session.fd = fd
  | .slot i => ∃ session, s.service.sessions i = some session ∧ session.fd = fd
  | .rest id => HasKey id s.service.closeRoot.inOrder ∧ (s.rests id).fd = fd

/-- Every open socket has one holder, and nothing else has been closed. -/
structure Accounts (s : Descriptors) : Prop where
  custody : Custody s.Holds s.opened
  stray : s.stray = []

end Descriptors

def descriptors : Machine Descriptors Descriptors.Action where
  Init := Descriptors.Init
  step := Descriptors.step

/-! ## What the calls leave alone -/

namespace Descriptors

section Calls

variable {s s' t : NetService} {session session' : NetSession} {sys : Syscalls} {ret : Int}

theorem intact_cleanEpollOp (s : NetService) (session : NetSession) :
    Intact s session s (cleanEpollOp session) := ⟨rfl, rfl, rfl, rfl, rfl, rfl⟩

theorem pushQueue_intact {event : Nat} {err : Int}
    (ht : (pushQueue s session event err).2 = (s', session')) : Intact s session s' session' :=
  (pushQueue_same ht).1.toIntact

/-- An error is reported. -/
theorem error_intact {event : Nat} {err : Int}
    (ht : (pushQueue s (cleanEpollOp session) event err).2 = (s', session')) :
    Intact s session s' session' :=
  (intact_cleanEpollOp s session).trans (pushQueue_intact ht)

theorem postRestWrite_intact (ht : postRestWrite s session sys = some (ret, s', session')) :
    Intact s session s' session' := by
  cases hw : session.wsession with
  | none =>
      simp only [postRestWrite, hw, Option.some.injEq, Prod.mk.injEq] at ht
      obtain ⟨-, rfl, rfl⟩ := ht
      exact .refl _ _
  | some w =>
      simp only [postRestWrite, hw] at ht
      obtain ⟨⟨ret', w', mem⟩, -, heq⟩ := Option.bind_eq_some_iff.mp ht
      cases heq
      exact ⟨rfl, rfl, rfl, rfl, rfl, rfl⟩

theorem postWrite_intact (ht : postWrite s session sys = some (ret, s', session')) :
    Intact s session s' session' := by
  cases hw : session.wsession with
  | none =>
      simp only [postWrite, hw, Option.some.injEq, Prod.mk.injEq] at ht
      obtain ⟨-, rfl, rfl⟩ := ht
      exact .refl _ _
  | some w =>
      simp only [postWrite, hw] at ht
      split at ht
      · obtain ⟨⟨ret', s₁, session₁⟩, hrest, heq⟩ := Option.bind_eq_some_iff.mp ht
        cases heq
        exact postRestWrite_intact hrest
      · split at ht
        · cases ht
          exact .refl _ _
        · split at ht
          · cases ht
            exact (pushQueue_intact rfl).trans (intact_cleanEpollOp _ _)
          · cases ht
            exact ⟨rfl, rfl, rfl, rfl, rfl, rfl⟩

theorem pushDelayQueue_intact (ht : pushDelayQueue s session = (ret, s', session')) :
    Intact s session s' session' := by
  unfold pushDelayQueue at ht
  split at ht
  · cases ht
    exact .refl _ _
  · cases ht
    exact ⟨rfl, rfl, rfl, rfl, rfl, rfl⟩

theorem handleSession_intact {events : PollEvents} {connected : Bool}
    (ht : handleSession s session events connected sys = some (s', session')) :
    Intact s session s' session' := by
  unfold handleSession at ht
  split at ht
  · exact pushQueue_intact (Option.some.inj ht)
  · split at ht
    · exact error_intact (Option.some.inj ht)
    · split at ht
      · split at ht
        · split at ht
          · exact error_intact (Option.some.inj ht)
          · exact error_intact (Option.some.inj ht)
        · cases ht
          exact .refl _ _
      · have hread : ∀ s₁ session₁, Intact s session s₁ session₁ →
            (if events.inp = true then postRestRead s₁ session₁ sys else some (s₁, session₁)) =
              some (s', session') → Intact s session s' session' := by
          intro s₁ session₁ hsame hrest
          split at hrest
          · exact hsame.trans (postRestRead_reads hrest).toIntact
          · cases hrest
            exact hsame
        dsimp only at ht
        split at ht
        · obtain ⟨⟨err, s₂, session₂⟩, hpost, ht⟩ := Option.bind_eq_some_iff.mp ht
          have hpost := postRestWrite_intact hpost
          dsimp only at ht
          split at ht
          · exact hread _ _ (hpost.trans (error_intact rfl)) ht
          · exact hread _ _ hpost ht
        · exact hread _ _ (.refl _ _) ht

/-- The sessions of `t` have the ids and the sockets of those of `s`. -/
structure SameSockets (s t : NetService) : Prop where
  ids : t.socketIds = s.socketIds
  size : t.size = s.size
  sockets : ∀ i, (t.sessions i).map (fun session => (session.id, session.fd)) =
    (s.sessions i).map fun session => (session.id, session.fd)

/-- No session is opened or closed. -/
structure Keeps (s t : NetService) : Prop extends SameSockets s t where
  closeRoot : t.closeRoot = s.closeRoot

theorem Keeps.refl (s : NetService) : Keeps s s := ⟨⟨rfl, rfl, fun _ => rfl⟩, rfl⟩

theorem SameSockets.symm (h : SameSockets s t) : SameSockets t s :=
  ⟨h.ids.symm, h.size.symm, fun i => (h.sockets i).symm⟩

/-- A session keeps its socket. -/
theorem SameSockets.slot (h : SameSockets s t) {i : Nat} (hi : s.sessions i = some session) :
    ∃ session', t.sessions i = some session' ∧ session'.id = session.id ∧
      session'.fd = session.fd := by
  have hsocket := h.sockets i
  rw [hi, Option.map_some] at hsocket
  obtain ⟨session', hslot, heq⟩ := Option.map_eq_some_iff.mp hsocket
  obtain ⟨hid, hfd⟩ := Prod.mk.inj heq
  exact ⟨session', hslot, hid, hfd⟩

theorem Keeps.setMem (h : Keeps s t) (m : Memory UInt8) : Keeps s { t with mem := m } :=
  ⟨⟨h.ids, h.size, h.sockets⟩, h.closeRoot⟩

/-- A session changes, except for its id and its socket. -/
theorem Keeps.of_intact (h : Intact s session s' session') {i : Nat}
    (hi : s.sessions i = some session) {new : NetSession} (hid : new.id = session'.id)
    (hfd : new.fd = session'.fd) : Keeps s (s'.setSession i (some new)) where
  ids := h.ids
  size := h.size
  closeRoot := h.closeRoot
  sockets := by
    intro j
    by_cases hji : j = i
    · rw [hji, NetService.setSession_self, hi, Option.map_some, Option.map_some, hid, hfd, h.id,
        h.fd]
    · rw [NetService.setSession_of_ne hji, h.slots]

theorem Keeps.of_drained (h : Drained s t) : Keeps s t where
  ids := h.ids
  size := h.size
  closeRoot := h.closeRoot
  sockets := by
    intro i
    cases hi : s.sessions i with
    | none => rw [h.empty i hi]
    | some session =>
        obtain ⟨events, inQueue, ht⟩ := h.sessions i session hi
        rw [ht]
        rfl

theorem netSocketCtl_keeps (s : NetService) (nd : Nat) (data : Option Nat) :
    Keeps s (netSocketCtl s nd data).2 := by
  unfold netSocketCtl
  dsimp only
  cases hi : s.sessions (ffidIndex s.socketIds nd) with
  | none => exact .refl s
  | some session =>
      dsimp only
      split
      · exact .refl s
      · exact .of_intact (.refl s session) hi rfl rfl

theorem netSocketRead_keeps {nd : Nat} {usize : Int} {xs : List UInt8}
    (ht : netSocketRead s nd usize sys = some (ret, xs, t)) : Keeps s t := by
  cases hi : s.sessions (ffidIndex s.socketIds nd) with
  | none =>
      simp only [netSocketRead, hi, Option.some.injEq, Prod.mk.injEq] at ht
      rw [← ht.2.2]
      exact .refl s
  | some session =>
      simp only [netSocketRead, hi] at ht
      split at ht
      · cases ht
        exact .refl s
      · obtain ⟨⟨ret', s', session'⟩, hpost, ht⟩ := Option.bind_eq_some_iff.mp ht
        obtain ⟨r, -, ht⟩ := Option.bind_eq_some_iff.mp ht
        obtain rfl := (Prod.mk.inj (Prod.mk.inj (Option.some.inj ht)).2).2
        have hslot : Keeps s (s'.setSession (ffidIndex s.socketIds nd) (some { session' with
            rsession := some { r with rbuff := (recvBuffRead s'.mem r.rbuff usize).2.2.1 } })) :=
          .of_intact (postRead_reads hpost).toIntact hi rfl rfl
        exact hslot.setMem _

theorem netSocketWrite_keeps {nd : Nat} {buff : List UInt8} {usize : Int} {delay : Bool}
    (ht : netSocketWrite s nd buff usize delay sys = some (ret, t)) : Keeps s t := by
  unfold netSocketWrite at ht
  dsimp only at ht
  cases hi : s.sessions (ffidIndex s.socketIds nd) with
  | none =>
      rw [hi] at ht
      cases ht
      exact .refl s
  | some session =>
      rw [hi] at ht
      cases hw : session.wsession with
      | none =>
          simp only [hw, Option.some.injEq, Prod.mk.injEq] at ht
          rw [← ht.2]
          exact .refl s
      | some w =>
          simp only [hw] at ht
          split at ht
          · cases ht
            exact .refl s
          · generalize sendBuffWrite s.mem w.sbuff buff usize = res at ht
            obtain ⟨ret', sbuff, mem⟩ := res
            have hbuffer : Intact s session { s with mem := mem }
                { session with wsession := some { w with sbuff := sbuff } } :=
              ⟨rfl, rfl, rfl, rfl, rfl, rfl⟩
            dsimp only at ht
            split at ht
            · obtain ⟨⟨ret'', s', session'⟩, hpush, ht⟩ := Option.bind_eq_some_iff.mp ht
              cases ht
              have hdelay := pushDelayQueue_intact (Option.some.inj hpush)
              exact .of_intact (hbuffer.trans hdelay) hi rfl rfl
            · obtain ⟨⟨ret'', s', session'⟩, hpost, ht⟩ := Option.bind_eq_some_iff.mp ht
              cases ht
              exact .of_intact (hbuffer.trans (postWrite_intact hpost)) hi rfl rfl

theorem netDelayOne_keeps {taken : Bool} (ht : netDelayOne s sys = some (taken, t)) :
    Keeps s t := by
  unfold netDelayOne at ht
  generalize s.delayQueue.pop 1 = popped at ht
  obtain ⟨_ | ⟨id, rest⟩, delayQueue⟩ := popped
  · cases ht
    exact .refl s
  · dsimp only at ht
    have hpop : Keeps s { s with delayQueue := delayQueue } := ⟨⟨rfl, rfl, fun _ => rfl⟩, rfl⟩
    cases hi : s.sessions (ffidIndex s.socketIds id) with
    | none =>
        rw [hi] at ht
        cases ht
        exact hpop
    | some session =>
        rw [hi] at ht
        dsimp only at ht
        split at ht
        · obtain ⟨⟨ret', s', session'⟩, hpost, ht⟩ := Option.bind_eq_some_iff.mp ht
          cases ht
          have hflag : Intact s session { s with delayQueue := delayQueue }
              { session with inDelayQueue := false } := ⟨rfl, rfl, rfl, rfl, rfl, rfl⟩
          exact .of_intact (hflag.trans (postWrite_intact hpost)) hi rfl rfl
        · cases ht
          exact hpop

theorem Call.keeps {c : Call} (ht : c.run s = some t) : Keeps s t := by
  cases c with
  | ctl nd data =>
      cases ht
      exact netSocketCtl_keeps s nd data
  | read nd usize sys =>
      obtain ⟨⟨ret, xs, t'⟩, hread, rfl⟩ := Option.map_eq_some_iff.mp ht
      exact netSocketRead_keeps hread
  | write nd buff usize delay sys =>
      obtain ⟨⟨ret, t'⟩, hwrite, rfl⟩ := Option.map_eq_some_iff.mp ht
      exact netSocketWrite_keeps hwrite
  | delay sys =>
      obtain ⟨⟨taken, t'⟩, hdelay, rfl⟩ := Option.map_eq_some_iff.mp ht
      exact netDelayOne_keeps hdelay
  | queue maxevents =>
      cases ht
      exact .of_drained (drained_loop ..)

section Cfg

variable {sizes : StructSizes} {nd : Nat} {config : Option NetConfig} {closed : List Int}

theorem netSocketCfgAt_keeps
    (ht : netSocketCfgAt sizes .epoll s nd config sys = some (ret, t, closed)) : Keeps s t := by
  by_cases hstarts : ∃ cfg session, CfgStarts s nd config sys cfg session
  · obtain ⟨cfg, session, hstarts⟩ := hstarts
    rw [netSocketCfgAt_starts hstarts] at ht
    cases hread : createReadSession sizes s.mem cfg with
    | mk rsession mem =>
        simp only [hread] at ht
        cases rsession with
        | none =>
            cases ht
            exact ⟨⟨rfl, rfl, fun _ => rfl⟩, rfl⟩
        | some rsession =>
            cases hwrite : createWriteSession sizes mem cfg with
            | mk wsession res =>
                obtain ⟨closed', mem'⟩ := res
                simp only [hwrite] at ht
                cases wsession with
                | none =>
                    cases ht
                    exact ⟨⟨rfl, rfl, fun _ => rfl⟩, rfl⟩
                | some wsession =>
                    obtain ⟨rbuff, -, ht⟩ := Option.bind_eq_some_iff.mp ht
                    obtain ⟨sbuff, -, ht⟩ := Option.bind_eq_some_iff.mp ht
                    obtain ⟨⟨ret', s', session'⟩, hpost, ht⟩ := Option.bind_eq_some_iff.mp ht
                    cases ht
                    have hconfigured : Intact s session { s with mem := mem' }
                        (session.configured nd rbuff sbuff) := ⟨rfl, rfl, rfl, rfl, rfl, rfl⟩
                    have hpost : postRead { s with mem := mem' }
                      (session.configured nd rbuff sbuff) sys = some (ret', s', session') := hpost
                    exact .of_intact (hconfigured.trans (postRead_reads hpost).toIntact)
                      hstarts.slot rfl rfl
  · obtain ⟨ret', hrun⟩ := @netSocketCfgAt_stops sizes .epoll s nd config sys
      fun cfg session h => hstarts ⟨cfg, session, h⟩
    cases hrun.symm.trans ht
    exact .refl s

/-- A configuration that does not fail halfway closes nothing. -/
theorem netSocketCfgAt_closed (hno : ¬ CfgSlips sizes .epoll s nd config sys)
    (ht : netSocketCfgAt sizes .epoll s nd config sys = some (ret, t, closed)) : closed = [] := by
  by_cases hstarts : ∃ cfg session, CfgStarts s nd config sys cfg session
  · obtain ⟨cfg, session, hstarts⟩ := hstarts
    by_cases hgrants : s.mem.Grants (cfg.allocations + 2)
    · obtain ⟨b, sbuff, -, hrun⟩ :=
        @netSocketCfgAt_granted sizes .epoll s nd config sys cfg session hstarts hgrants
      rw [hrun] at ht
      obtain ⟨res, -, heq⟩ := Option.map_eq_some_iff.mp ht
      cases heq
      rfl
    · obtain ⟨ret', t', closed', hrun, -, -, -, hclosed⟩ :=
        @netSocketCfgAt_refused sizes .epoll s nd config sys cfg session hstarts hgrants
      cases hrun.symm.trans ht
      exact hclosed.mpr fun hall => hno ⟨cfg, session, hstarts, .inl ⟨hall, hgrants⟩⟩
  · obtain ⟨ret', hrun⟩ := @netSocketCfgAt_stops sizes .epoll s nd config sys
      fun cfg session h => hstarts ⟨cfg, session, h⟩
    cases hrun.symm.trans ht
    rfl

end Cfg

/-! ## What closing does -/

/-- What is left of the session in its slot, and the service without it. -/
theorem netSocketCloseClear_closing {nd : Nat} {sendRest found : Bool} (hnd : nd ≠ 0)
    (ht : netSocketCloseClear s nd sendRest sys = some (found, t)) :
    found = false ∧ t = s ∧ closing s nd sendRest sys = none ∨
      found = true ∧ ∃ session u session', s.sessions (ffidIndex s.socketIds nd) = some session ∧
        session.id = nd ∧ Intact s session u session' ∧
        closing s nd sendRest sys = some session' ∧
        t = netSocketCloseDetach u (ffidIndex s.socketIds nd) nd sendRest sys.alloc session' ∧
        (EpollClose.posted session' = true → sendRest = true) := by
  unfold netSocketCloseClear at ht
  cases hslot : s.sessions (ffidIndex s.socketIds nd) with
  | none =>
      simp only [hslot, Option.some.injEq, Prod.mk.injEq] at ht
      refine .inl ⟨ht.1.symm, ht.2.symm, ?_⟩
      simp only [closing, if_neg hnd, hslot, Option.filter_none, Option.bind_none]
  | some session =>
      simp only [hslot] at ht
      by_cases hid : session.id = nd
      · rw [if_neg (not_not.mpr hid)] at ht
        obtain ⟨⟨u, session'⟩, hposted, heq⟩ := Option.map_eq_some_iff.mp ht
        cases heq
        have hfilter : (some session).filter (fun session => decide (session.id = nd)) =
            some session := by
          rw [Option.filter_some, if_pos (decide_eq_true hid)]
        refine .inr ⟨rfl, session, u, session', rfl, hid, ?_⟩
        cases sendRest with
        | false =>
            cases hposted
            refine ⟨intact_cleanEpollOp s session, ?_, rfl, fun hyes => ?_⟩
            · simp only [closing, if_neg hnd, hslot, hfilter, Option.bind_some,
                Bool.false_eq_true, if_false]
            · cases hw : session.wsession with
              | none => simp [EpollClose.posted, cleanEpollOp, hw] at hyes
              | some w => simp [EpollClose.posted, cleanEpollOp, hw, opNetNone, opNetWrite] at hyes
        | true =>
            obtain ⟨⟨ret, u', session''⟩, hpost, heq⟩ := Option.map_eq_some_iff.mp hposted
            cases heq
            refine ⟨(intact_cleanEpollOp s session).trans (postWrite_intact hpost), ?_, rfl,
              fun _ => rfl⟩
            simp only [closing, if_neg hnd, hslot, hfilter, Option.bind_some, if_true, hpost,
              Option.map_some]
      · rw [if_pos hid] at ht
        simp only [Option.some.injEq, Prod.mk.injEq] at ht
        refine .inl ⟨ht.1.symm, ht.2.symm, ?_⟩
        have hfilter : (some session).filter (fun session => decide (session.id = nd)) = none := by
          rw [Option.filter_some, if_neg (by simpa using hid)]
        simp only [closing, if_neg hnd, hslot, hfilter, Option.bind_none]

/-- A session whose write is posted goes into `close_root`. -/
theorem closeRoot_detach (index nd : Nat) (sendRest alloc : Bool) :
    (netSocketCloseDetach s index nd sendRest alloc session).closeRoot =
      if EpollClose.posted session then
        (sbTreeInsert ((s.closeRoot.count + 1) * (s.closeRoot.count + 1) + 1) alloc nd
          (rest sendRest session) s.closeRoot).getD s.closeRoot
      else s.closeRoot := by
  cases hw : session.wsession with
  | none =>
      simp only [netSocketCloseDetach, hw, EpollClose.posted, Option.any_none, Bool.false_eq_true,
        if_false, NetService.setSession]
  | some w =>
      by_cases hop : w.op = opNetWrite
      · simp only [netSocketCloseDetach, hw, hop, if_true, EpollClose.posted, Option.any_some,
          decide_true, rest, Option.map_some, NetService.setSession]
      · simp only [netSocketCloseDetach, hw, hop, if_false, EpollClose.posted, Option.any_some,
          decide_false, Bool.false_eq_true, NetService.setSession]

theorem sessions_detach (index nd : Nat) (sendRest alloc : Bool) :
    (netSocketCloseDetach s index nd sendRest alloc session).sessions =
      Function.update s.sessions index none :=
  (netSocketCloseDetach_grows s index nd sendRest alloc session).sessions

theorem size_detach (index nd : Nat) (sendRest alloc : Bool) :
    (netSocketCloseDetach s index nd sendRest alloc session).size = s.size := by
  unfold netSocketCloseDetach
  cases session.wsession with
  | none => rfl
  | some w =>
      dsimp only
      split <;> rfl

/-- `handle_rest` may send before it releases the session. -/
theorem handleRest_cases {events : PollEvents} {released : Bool}
    (ht : handleRest s session events sys = some (released, t, session')) :
    ∃ u, Intact s session u session' ∧
      (released = false ∧ t = u ∨ released = true ∧ releaseRestSession u session' = some t) := by
  have hrelease : ∀ u session₁, Intact s session u session₁ →
      ((releaseRestSession u session₁).map fun s => (true, s, session₁)) =
        some (released, t, session') →
      ∃ u, Intact s session u session' ∧
        (released = false ∧ t = u ∨ released = true ∧ releaseRestSession u session' = some t) := by
    intro u session₁ hsame hres
    obtain ⟨t', hrel, heq⟩ := Option.map_eq_some_iff.mp hres
    cases heq
    exact ⟨u, hsame, .inr ⟨rfl, hrel⟩⟩
  unfold handleRest at ht
  dsimp only at ht
  split at ht
  · exact hrelease _ _ (.refl _ _) ht
  · split at ht
    · split at ht
      · exact hrelease _ _ (.refl _ _) ht
      · obtain ⟨⟨ret', u, session₁⟩, hpost, ht⟩ := Option.bind_eq_some_iff.mp ht
        have hpost := postRestWrite_intact hpost
        dsimp only at ht
        split at ht
        · exact hrelease _ _ hpost ht
        · cases ht
          exact ⟨_, hpost, .inl ⟨rfl, rfl⟩⟩
    · split at ht
      · cases ht
        exact ⟨_, .refl _ _, .inl ⟨rfl, rfl⟩⟩
      · exact hrelease _ _ (.refl _ _) ht

end Calls

/-! ## `close_root` -/

/-- A sound tree with at most one session for each id. -/
structure Root (root : SbTree Nat NetSession) : Prop where
  tree : root.Inv
  once : ∀ id, keyCount id root.inOrder ≤ 1

theorem hasKey_iff {id : Nat} {root : SbTree Nat NetSession} :
    HasKey id root.inOrder ↔ keyCount id root.inOrder ≠ 0 := by
  rw [ne_eq, keyCount_eq_zero_iff, not_not]

section Root

variable {root root' : SbTree Nat NetSession} {nd : Nat}

theorem Root.insert (h : Root root) (hcount : root.count + 1 < 2 ^ 32)
    (hfresh : keyCount nd root.inOrder = 0) {session : NetSession}
    (hroot : root' = (sbTreeInsert ((root.count + 1) * (root.count + 1) + 1) true nd session
      root).getD root) :
    Root root' ∧ ∀ id, HasKey id root'.inOrder ↔ id = nd ∨ HasKey id root.inOrder := by
  have hfits : (sbTreeInsertNode ((root.count + 1) * (root.count + 1) + 1) nd session
      root).isSome :=
    sbTreeInsertNode_isSome h.tree.sized hcount (Nat.le_refl _) (Nat.lt_succ_self _)
  obtain ⟨root₁, hins⟩ := Option.isSome_iff_exists.mp hfits
  obtain rfl : root' = root₁ := by
    rw [hroot, sbTreeInsert, if_pos rfl, hins, Option.getD_some]
  obtain ⟨htree, hadds⟩ := h.tree.insert hcount hins
  have hkey : ∀ id, keyCount id root'.inOrder =
      keyCount id root.inOrder + if nd = id then 1 else 0 := fun id => hadds.keyCount
  refine ⟨⟨htree, fun id => ?_⟩, fun id => ?_⟩
  · rw [hkey]
    by_cases heq : nd = id
    · rw [← heq, hfresh, if_pos rfl]
    · rw [if_neg heq]
      exact h.once id
  · rw [hasKey_iff, hasKey_iff, hkey]
    by_cases heq : nd = id
    · simp only [heq, if_true, true_or, iff_true]
      omega
    · simp only [heq, Ne.symm heq, if_false, false_or, Nat.add_zero]

theorem Root.delete (h : Root root) (hdel : Deletable nd root) (hin : HasKey nd root.inOrder)
    {fuel ret : Nat} (hroot : sbTreeDelete fuel nd root = some (ret, root')) :
    Root root' ∧ ∀ id, HasKey id root'.inOrder ↔ id ≠ nd ∧ HasKey id root.inOrder := by
  obtain ⟨htree, record, ⟨-, hrem⟩ | ⟨-, hnot, -⟩⟩ := h.tree.delete_result hdel hroot
  · have hkey : ∀ id, keyCount id root.inOrder =
        keyCount id root'.inOrder + if nd = id then 1 else 0 := fun id => hrem.keyCount
    refine ⟨⟨htree, fun id => ?_⟩, fun id => ?_⟩
    · have honce := h.once id
      rw [hkey id] at honce
      omega
    · have honce := h.once id
      rw [hasKey_iff, hasKey_iff, hkey id]
      rw [hkey id] at honce
      by_cases heq : nd = id
      · subst heq
        rw [if_pos rfl] at honce
        simp only [ne_eq, not_true, false_and, iff_false]
        omega
      · rw [if_neg heq, Nat.add_zero]
        exact ⟨fun hyes => ⟨Ne.symm heq, hyes⟩, And.right⟩
  · exact absurd hin hnot

end Root

/-! ## The accounts -/

/-- The sessions that threads have found are in `close_root`, behind the locks of their slots. -/
def Finds (s : Descriptors) : Prop :=
  ∀ index node, s.found index = some node →
    HasKey node.id s.service.closeRoot.inOrder ∧ ffidIndex s.service.socketIds node.id = index

/-- The invariant. -/
structure Inv (s : Descriptors) : Prop where
  registry : ∃ free, Registry.Inv s.service.size free s.registry
  root : Root s.service.closeRoot
  rests : ∀ id, HasKey id s.service.closeRoot.inOrder → (s.rests id).id = id
  finds : s.Finds
  accounts : s.Accounts

section Steps

variable {s s' t : Descriptors}

@[simp] theorem closeFd_registry (s : Descriptors) (fd : Int) :
    (s.closeFd fd).registry = s.registry := by
  unfold closeFd
  split <;> rfl

@[simp] theorem closeFd_service (s : Descriptors) (fd : Int) :
    (s.closeFd fd).service = s.service := by
  rw [service, closeFd_registry, service]

@[simp] theorem closeFd_opening (s : Descriptors) (fd : Int) :
    (s.closeFd fd).opening = s.opening := by
  unfold closeFd
  split <;> rfl

@[simp] theorem closeFd_found (s : Descriptors) (fd : Int) :
    (s.closeFd fd).found = s.found := by
  unfold closeFd
  split <;> rfl

@[simp] theorem closeFd_rests (s : Descriptors) (fd : Int) :
    (s.closeFd fd).rests = s.rests := by
  unfold closeFd
  split <;> rfl

@[simp] theorem freeNode_registry (s : Descriptors) (key : Option Nat) :
    (s.freeNode key).registry = s.registry := rfl

@[simp] theorem freeNode_opening (s : Descriptors) (key : Option Nat) :
    (s.freeNode key).opening = s.opening := rfl

theorem freeNode_found_none {key : Option Nat} {index : Nat} (h : s.found index = none) :
    (s.freeNode key).found index = none := by
  rw [freeNode]
  exact Option.map_eq_none_iff.mpr h

@[simp] theorem closeFd_holds (s : Descriptors) (fd : Int) : (s.closeFd fd).Holds = s.Holds := by
  unfold closeFd
  split <;> rfl

/-- Closing a socket that is open. -/
theorem closeFd_of_mem {fd : Int} (h : fd ∈ s.opened) :
    s.closeFd fd = { s with opened := s.opened.erase fd } := if_pos h

/-- The holder of a socket closes it. -/
theorem Accounts.closeFd (h : s.Accounts) {fd : Int} {a : Holder} (hx : s.Holds fd a)
    (hopened : t.opened = s.opened) (hstray : t.stray = s.stray)
    (heq : ∀ y o, t.Holds y o ↔ o ≠ a ∧ s.Holds y o) : (t.closeFd fd).Accounts := by
  have hmem : fd ∈ t.opened := by
    rw [hopened]
    exact h.custody.mem hx
  rw [closeFd_of_mem hmem]
  refine ⟨?_, hstray.trans h.stray⟩
  show Custody t.Holds (t.opened.erase fd)
  rw [hopened]
  exact h.custody.release hx heq

/-- The registry knows of a session its id only. -/
theorem registry_congr {n : Nat} {free : List Nat} {r : Registry} {service : NetService}
    (h : Registry.Inv n free r) (hsame : SameSockets r.service service) :
    Registry.Inv n free { r with service := service } := by
  have howns : ∀ i id o, ({ r with service := service } : Registry).Owns i id o →
      r.Owns i id o := by
    rintro i id (t' | _ | t') ho
    · exact ho
    · obtain ⟨session, hi, rfl⟩ := ho
      obtain ⟨session', hi', hid, -⟩ := hsame.symm.slot hi
      exact ⟨session', hi', hid⟩
    · obtain ⟨ht, hindex⟩ := ho
      dsimp only at hindex
      rw [hsame.ids] at hindex
      exact ⟨ht, hindex⟩
  refine ⟨?_, ?_, ?_, ?_⟩
  · dsimp only
    rw [hsame.ids]
    exact h.rep
  · intro i id o ho
    dsimp only
    rw [hsame.ids]
    exact h.owned i id o (howns i id o ho)
  · exact fun i id id' o o' ho ho' =>
      h.one_owner i id id' o o' (howns i id o ho) (howns i id' o' ho')
  · intro id hid
    dsimp only
    rw [hsame.ids]
    exact h.counts id hid

theorem SameSockets.holds {s t : NetService} (h : SameSockets s t) (i : Nat) (y : Int) :
    (∃ session, t.sessions i = some session ∧ session.fd = y) ↔
      ∃ session, s.sessions i = some session ∧ session.fd = y := by
  constructor
  · rintro ⟨session, hi, rfl⟩
    obtain ⟨session', hi', -, hfd⟩ := h.symm.slot hi
    exact ⟨session', hi', hfd⟩
  · rintro ⟨session, hi, rfl⟩
    obtain ⟨session', hi', -, hfd⟩ := h.slot hi
    exact ⟨session', hi', hfd⟩

/-- Sessions stay found as long as they are in `close_root`. -/
theorem Finds.of_keys (h : s.Finds) (hs : ∃ free, Registry.Inv s.service.size free s.registry)
    (ht : ∃ free, Registry.Inv t.service.size free t.registry)
    (hsize : t.service.size = s.service.size) (hfound : t.found = s.found)
    (hkeys : ∀ index node, s.found index = some node →
      HasKey node.id t.service.closeRoot.inOrder) : t.Finds := by
  intro index node hnode
  rw [hfound] at hnode
  refine ⟨hkeys index node hnode, ?_⟩
  obtain ⟨free, hs⟩ := hs
  obtain ⟨free', ht⟩ := ht
  have hmax : t.service.socketIds.maxSize = s.service.socketIds.maxSize :=
    ht.rep.maxSize.trans (hsize.trans hs.rep.maxSize.symm)
  rw [← (h index node hnode).2, ffidIndex, ffidIndex, hmax]

/-- Threads give up what they have found, or find out that it is freed. -/
theorem Inv.forget (h : s.Inv) {found : Nat → Option Found}
    (hless : ∀ index node, found index = some node →
      ∃ node', s.found index = some node' ∧ node'.id = node.id) :
    Inv { s with found := found } := by
  refine ⟨h.registry, h.root, h.rests, fun index node hnode => ?_, h.accounts.custody,
    h.accounts.stray⟩
  obtain ⟨node', hnode', hid⟩ := hless index node hnode
  rw [← hid]
  exact h.finds index node' hnode'

theorem Inv.freeNode (h : s.Inv) (key : Option Nat) : (s.freeNode key).Inv := by
  refine h.forget fun index node hnode => ?_
  obtain ⟨node', hnode', rfl⟩ := Option.map_eq_some_iff.mp hnode
  exact ⟨node', hnode', rfl⟩

/-- The service and the records in `close_root` change, and no socket changes hands. -/
theorem Inv.keeps (h : s.Inv) {service : NetService} {rests : Nat → NetSession}
    (hkeeps : Keeps s.service service)
    (hrests : ∀ id, (rests id).id = (s.rests id).id ∧ (rests id).fd = (s.rests id).fd) :
    Inv { s.setService service with rests := rests } := by
  obtain ⟨free, hreg⟩ := h.registry
  have hholds : ∀ y o, Holds { s.setService service with rests := rests } y o ↔ s.Holds y o := by
    rintro y (t' | t' | i | id)
    · exact Iff.rfl
    · exact Iff.rfl
    · exact hkeeps.holds i y
    · show HasKey id service.closeRoot.inOrder ∧ (rests id).fd = y ↔ _
      rw [hkeeps.closeRoot, (hrests id).2]
      exact Iff.rfl
  have hreg' : Registry.Inv service.size free { s.registry with service := service } := by
    rw [hkeeps.size]
    exact registry_congr hreg hkeeps.toSameSockets
  refine ⟨⟨free, hreg'⟩, ?_, ?_, ?_, h.accounts.custody.congr hholds, h.accounts.stray⟩
  · show Root service.closeRoot
    rw [hkeeps.closeRoot]
    exact h.root
  · intro id hid
    rw [(hrests id).1]
    refine h.rests id ?_
    rw [← hkeeps.closeRoot]
    exact hid
  · refine h.finds.of_keys h.registry ⟨free, hreg'⟩ hkeeps.size rfl fun index node hnode => ?_
    show HasKey node.id service.closeRoot.inOrder
    rw [hkeeps.closeRoot]
    exact (h.finds index node hnode).1

theorem Inv.init (h : Init s) : s.Inv := by
  obtain ⟨size, mem, hpos, hle, hreg, hopening, hfound, hopened, hstray⟩ := h
  have hservice : s.service = netCreate size mem := by rw [service, hreg]; rfl
  have hnone : ∀ id, ¬ HasKey id s.service.closeRoot.inOrder := by
    rintro id ⟨value, hmem⟩
    rw [hservice] at hmem
    exact absurd hmem List.not_mem_nil
  refine ⟨⟨List.range size, ?_⟩, ⟨?_, fun id => ?_⟩, fun id hid => absurd hid (hnone id),
    fun index node hnode => ?_, ?_, hstray⟩
  · rw [hservice, hreg]
    exact .init hpos hle
  · rw [hservice]
    exact .of_nil rfl
  · rw [keyCount_eq_zero_iff.mpr (hnone id)]
    exact Nat.zero_le 1
  · rw [hfound] at hnode
    cases hnode
  · rw [hopened]
    refine .nil ?_
    rintro x (t | t | i | id)
    · rintro ⟨session, ht, -⟩
      rw [hopening] at ht
      cases ht
    · rintro ⟨id, index, session, ht, -⟩
      rw [hreg] at ht
      cases ht
    · rintro ⟨session, hi, -⟩
      rw [hservice] at hi
      cases hi
    · exact fun hid => hnone id hid.1

theorem Opens.session_fd {service : NetService} {fd : Int} {op : Opens} {session : NetSession}
    (h : op.session service fd = some session) : session.fd = fd := by
  cases op with
  | netListen aiFamily port listenCnt bound listenAlloc =>
      cases h
      rfl
  | netAccept nd =>
      unfold Opens.session at h
      dsimp only at h
      split at h
      · cases h
      · obtain ⟨listener, -, rfl⟩ := Option.map_eq_some_iff.mp h
        rfl
  | netConnect aiFamily =>
      cases h
      rfl

/-! The sessions of a table, after one of its cells has changed. -/

theorem update_some_iff {f : Nat → Option NetSession} {i j : Nat} {session : NetSession} {y : Int}
    (hempty : f j = none) : (∃ x, Function.update f j (some session) i = some x ∧ x.fd = y) ↔
      y = session.fd ∧ i = j ∨ ∃ x, f i = some x ∧ x.fd = y := by
  by_cases heq : i = j
  · subst heq
    simp only [Function.update_self, Option.some.injEq, exists_eq_left', and_true, hempty,
      reduceCtorEq, false_and, exists_false, or_false, eq_comm]
  · simp only [Function.update_of_ne heq, heq, and_false, false_or]

theorem update_none_iff {f : Nat → Option NetSession} {i j : Nat} {y : Int} :
    (∃ x, Function.update f j none i = some x ∧ x.fd = y) ↔
      i ≠ j ∧ ∃ x, f i = some x ∧ x.fd = y := by
  by_cases heq : i = j
  · subst heq
    simp only [Function.update_self, reduceCtorEq, false_and, exists_false, ne_eq, not_true]
  · simp only [Function.update_of_ne heq, ne_eq, heq, not_false_iff, true_and]

/-- Closing a socket concerns the accounts only. -/
theorem Inv.of_closeFd {fd : Int}
    (hregistry : ∃ free, Registry.Inv s.service.size free s.registry)
    (hroot : Root s.service.closeRoot)
    (hrests : ∀ id, HasKey id s.service.closeRoot.inOrder → (s.rests id).id = id)
    (hfinds : s.Finds) (haccounts : (s.closeFd fd).Accounts) : (s.closeFd fd).Inv :=
  ⟨by rw [closeFd_service, closeFd_registry]; exact hregistry, by rw [closeFd_service]; exact hroot,
    by rw [closeFd_service, closeFd_rests]; exact hrests,
    by rw [Finds, closeFd_service, closeFd_found]; exact hfinds, haccounts⟩

theorem Inv.socket (h : s.Inv) {t₀ : Nat} {fd : Int} {op : Opens} {alloc : Bool}
    (ht : s.socket t₀ fd op alloc = some t) : t.Inv := by
  unfold Descriptors.socket at ht
  split at ht
  · cases ht
  · rename_i hguard
    obtain ⟨-, hnew, hidle⟩ := not_or.mp hguard |>.imp_right not_or.mp
    obtain ⟨session, hsession, ht⟩ := Option.bind_eq_some_iff.mp ht
    obtain ⟨made, -, ht⟩ := Option.bind_eq_some_iff.mp ht
    cases made with
    | false =>
        simp only [Bool.false_eq_true, if_false, Option.some.injEq] at ht
        rw [closeFd_of_mem (List.mem_cons_self ..)] at ht
        simp only [List.erase_cons_head] at ht
        rw [← ht]
        exact h
    | true =>
        simp only [if_true, Option.some.injEq] at ht
        rw [← ht]
        refine ⟨h.registry, h.root, h.rests, h.finds, ?_, h.accounts.stray⟩
        have hempty : s.opening t₀ = none := Option.not_isSome_iff_eq_none.mp hidle
        refine h.accounts.custody.acquire (a := .opening t₀) hnew ?_ ?_
        · rintro y ⟨session', ho, -⟩
          rw [hempty] at ho
          cases ho
        · rintro y (t' | t' | i | id)
          · rw [Holder.opening.injEq]
            rw [← Opens.session_fd hsession]
            exact update_some_iff hempty
          · simp only [Holds, reduceCtorEq, and_false, false_or]
          · simp only [Holds, reduceCtorEq, and_false, false_or]
            exact Iff.rfl
          · simp only [Holds, reduceCtorEq, and_false, false_or]
            exact Iff.rfl

/-- What the first critical section of `add_net_session` does to the threads. -/
theorem registry_newId {r r' : Registry} {t₀ : Nat} {session : NetSession}
    (ht : r.step (.newId t₀ session) = some r') :
    r.threads t₀ = .idle ∧ r'.service = (addNetSessionId r.service).2.2 ∧
      ((addNetSessionId r.service).1 = 0 ∧ r'.threads = r.threads ∨
        (addNetSessionId r.service).1 ≠ 0 ∧ ∃ id index,
          r'.threads = Function.update r.threads t₀ (.pendingInstall id index session)) := by
  unfold Registry.step at ht
  cases hidle : r.threads t₀ with
  | pendingInstall id index session => simp [hidle] at ht
  | pendingRelease nd => simp [hidle] at ht
  | idle =>
      simp only [hidle] at ht
      split at ht
      · rename_i hzero
        cases ht
        exact ⟨rfl, rfl, .inl ⟨hzero, rfl⟩⟩
      · rename_i hzero
        cases ht
        exact ⟨rfl, rfl, .inr ⟨hzero, _, _, rfl⟩⟩

theorem Inv.newId (h : s.Inv) {t₀ : Nat} (ht : s.newId t₀ = some t) : t.Inv := by
  obtain ⟨free, hreg⟩ := h.registry
  obtain ⟨session, hsession, ht⟩ := Option.bind_eq_some_iff.mp ht
  obtain ⟨registry, hstep, ht⟩ := Option.bind_eq_some_iff.mp ht
  obtain ⟨free', hreg'⟩ := hreg.newId hstep
  obtain ⟨hidle, hservice, hthreads⟩ := registry_newId hstep
  have hroot : registry.service.closeRoot = s.service.closeRoot := by rw [hservice]; rfl
  have hsessions : registry.service.sessions = s.service.sessions := by rw [hservice]; rfl
  have hsize : registry.service.size = s.service.size := by rw [hservice]; rfl
  rw [← hsize] at hreg'
  have hopened : s.Holds session.fd (.opening t₀) := ⟨session, hsession, rfl⟩
  have hroot' : Root registry.service.closeRoot := by rw [hroot]; exact h.root
  have hrests : ∀ id, HasKey id registry.service.closeRoot.inOrder → (s.rests id).id = id := by
    rw [hroot]
    exact h.rests
  have hfinds : ∀ opening,
      Finds { s with registry := registry, opening := opening } := by
    intro opening
    refine h.finds.of_keys h.registry ⟨free', hreg'⟩ hsize rfl fun index node hnode => ?_
    show HasKey node.id registry.service.closeRoot.inOrder
    rw [hroot]
    exact (h.finds index node hnode).1
  rcases hthreads with ⟨hzero, hthreads⟩ | ⟨hzero, id, index, hthreads⟩
  · have hzero : (addNetSessionId s.service).1 = 0 := hzero
    dsimp only at ht
    rw [if_pos hzero, Option.some.injEq] at ht
    rw [← ht]
    refine .of_closeFd
      (s := { s with registry := registry, opening := Function.update s.opening t₀ none })
      ⟨free', hreg'⟩ hroot' hrests (hfinds _) (h.accounts.closeFd hopened rfl rfl ?_)
    rintro y (t' | t' | i | id)
    · rw [ne_eq, Holder.opening.injEq]
      exact update_none_iff
    · simp only [Holds, hthreads, ne_eq, reduceCtorEq, not_false_iff, true_and]
    · simp only [Holds, service, hsessions, ne_eq, reduceCtorEq, not_false_iff, true_and]
    · simp only [Holds, service, hroot, ne_eq, reduceCtorEq, not_false_iff, true_and]
  · have hzero : (addNetSessionId s.service).1 ≠ 0 := hzero
    dsimp only at ht
    rw [if_neg hzero, Option.some.injEq] at ht
    rw [← ht]
    refine ⟨⟨free', hreg'⟩, hroot', hrests, hfinds _, ?_, h.accounts.stray⟩
    refine h.accounts.custody.move (b := .install t₀) hopened ?_ ?_
    · rintro y ⟨id', index', session', ho, -⟩
      rw [hidle] at ho
      cases ho
    · rintro y (t' | t' | i | id)
      · simp only [reduceCtorEq, and_false, false_or, ne_eq, Holder.opening.injEq]
        exact update_none_iff
      · simp only [Holds, hthreads]
        by_cases heq : t' = t₀
        · subst heq
          simp only [Function.update_self, RegistryThread.pendingInstall.injEq, hidle, reduceCtorEq,
            false_and, exists_false, and_false, or_false, and_true]
          constructor
          · rintro ⟨_, _, _, ⟨-, -, rfl⟩, hfd⟩
            exact hfd.symm
          · intro hfd
            exact ⟨_, _, _, ⟨rfl, rfl, rfl⟩, hfd.symm⟩
        · simp only [Function.update_of_ne heq, Holder.install.injEq, heq,
            and_false, false_or, ne_eq, reduceCtorEq, not_false_iff, true_and]
      · simp only [Holds, service, hsessions, ne_eq, reduceCtorEq, not_false_iff, true_and,
          and_false, false_or]
      · simp only [Holds, service, hroot, ne_eq, reduceCtorEq, not_false_iff, true_and,
          and_false, false_or]

theorem Inv.install (h : s.Inv) {t₀ : Nat} (ht : s.step (.install t₀) = some t) : t.Inv := by
  obtain ⟨free, hreg⟩ := h.registry
  obtain ⟨registry, hstep, rfl⟩ := Option.map_eq_some_iff.mp ht
  have hreg' := hreg.install hstep
  unfold Registry.step at hstep
  cases hpending : s.registry.threads t₀ with
  | idle => simp [hpending] at hstep
  | pendingRelease nd => simp [hpending] at hstep
  | pendingInstall id₀ index session =>
      simp only [hpending, Option.some.injEq] at hstep
      subst hstep
      refine ⟨⟨free, hreg'⟩, h.root, h.rests, h.finds, ?_, h.accounts.stray⟩
      have hfrom : s.Holds session.fd (.install t₀) := ⟨id₀, index, session, hpending, rfl⟩
      have hempty : s.service.sessions index = none :=
        hreg.safe.install_empty t₀ id₀ index session hpending
      refine h.accounts.custody.move (b := .slot index) hfrom ?_ ?_
      · rintro y ⟨session', hi, -⟩
        rw [hempty] at hi
        cases hi
      · rintro y (t' | t' | i | id)
        · simp only [Holds, reduceCtorEq, and_false, false_or, ne_eq, not_false_iff, true_and]
        · simp only [reduceCtorEq, and_false, false_or, ne_eq, Holder.install.injEq]
          by_cases heq : t' = t₀
          · subst heq
            simp only [Holds, Registry.setThread_self, reduceCtorEq, false_and, exists_false,
              not_true]
          · simp only [Holds, Registry.setThread_of_ne _ _ heq, heq, not_false_iff, true_and]
        · simp only [reduceCtorEq, ne_eq, not_false_iff, true_and, Holder.slot.injEq]
          exact update_some_iff hempty
        · simp only [reduceCtorEq, and_false, false_or, ne_eq, not_false_iff, true_and]
          exact Iff.rfl

theorem Inv.release (h : s.Inv) {t₀ : Nat} (ht : s.step (.release t₀) = some t) : t.Inv := by
  obtain ⟨free, hreg⟩ := h.registry
  obtain ⟨registry, hstep, rfl⟩ := Option.map_eq_some_iff.mp ht
  obtain ⟨free', hreg'⟩ := hreg.release hstep
  unfold Registry.step at hstep
  cases hpending : s.registry.threads t₀ with
  | idle => simp [hpending] at hstep
  | pendingInstall id index session => simp [hpending] at hstep
  | pendingRelease nd =>
      simp only [hpending, Option.some.injEq] at hstep
      subst hstep
      refine ⟨⟨free', hreg'⟩, h.root, h.rests, ?_, ?_, h.accounts.stray⟩
      · exact h.finds.of_keys h.registry ⟨free', hreg'⟩ rfl rfl
          fun index node hnode => (h.finds index node hnode).1
      refine h.accounts.custody.congr ?_
      rintro y (t' | t' | i | id)
      · exact Iff.rfl
      · by_cases heq : t' = t₀
        · subst heq
          simp only [Holds, Registry.setThread_self, hpending, reduceCtorEq]
        · simp only [Holds, Registry.setThread_of_ne _ _ heq]
      · exact Iff.rfl
      · exact Iff.rfl

/-- What the first critical section of `net_socket_close` does to the threads. -/
theorem registry_clear {r r' : Registry} {t₀ nd : Nat} {sendRest : Bool} {sys : Syscalls}
    (ht : r.step (.clear t₀ nd sendRest sys) = some r') :
    r' = r ∧ closing r.service nd sendRest sys = none ∨
      r.threads t₀ = .idle ∧ ∃ session u session',
        r.service.sessions (ffidIndex r.service.socketIds nd) = some session ∧
        session.id = nd ∧ Intact r.service session u session' ∧
        closing r.service nd sendRest sys = some session' ∧
        r' = { r.setThread t₀ (.pendingRelease nd) with
          service := netSocketCloseDetach u (ffidIndex r.service.socketIds nd) nd sendRest
            sys.alloc session' } ∧
        (EpollClose.posted session' = true → sendRest = true) := by
  unfold Registry.step at ht
  cases hidle : r.threads t₀ with
  | pendingInstall id index session => simp [hidle] at ht
  | pendingRelease nd => simp [hidle] at ht
  | idle =>
      simp only [hidle] at ht
      by_cases hnd : nd = 0
      · rw [if_pos hnd, Option.some.injEq] at ht
        exact .inl ⟨ht.symm, by rw [closing, if_pos hnd]⟩
      · rw [if_neg hnd] at ht
        obtain ⟨⟨found, v⟩, hclear, rfl⟩ := Option.map_eq_some_iff.mp ht
        rcases netSocketCloseClear_closing hnd hclear with ⟨rfl, rfl, hnone⟩ |
          ⟨rfl, session, u, session', hslot, hid, hsame, hsome, rfl, hposted⟩
        · refine .inl ⟨?_, hnone⟩
          simp only [Bool.false_eq_true, if_false, Registry.setThread_same hidle]
        · exact .inr ⟨rfl, session, u, session', hslot, hid, hsame, hsome, rfl, hposted⟩

/-- A thread that was idle holds no socket. -/
theorem holds_setThread {r : Registry} {t₀ t' nd : Nat} {y : Int} (hidle : r.threads t₀ = .idle) :
    (∃ id index session, (r.setThread t₀ (.pendingRelease nd)).threads t' =
      .pendingInstall id index session ∧ session.fd = y) ↔
      ∃ id index session, r.threads t' = .pendingInstall id index session ∧ session.fd = y := by
  by_cases heq : t' = t₀
  · subst heq
    simp only [Registry.setThread_self, hidle, reduceCtorEq]
  · simp only [Registry.setThread_of_ne _ _ heq]

/-- A session posted to close is the only new one under `close_root`. -/
theorem holds_insertRest {P : Prop} {session : NetSession}
    {nd id : Nat} {y : Int} (hfresh : ¬HasKey nd s.service.closeRoot.inOrder)
    (hkeys : P ↔ id = nd ∨ HasKey id s.service.closeRoot.inOrder) :
    P ∧ (Function.update s.rests nd session id).fd = y ↔
      y = session.fd ∧ id = nd ∨ s.Holds y (.rest id) := by
  rw [hkeys]
  by_cases heq : id = nd
  · subst heq
    rw [Function.update_self]
    constructor
    · exact fun hin => .inl ⟨hin.2.symm, rfl⟩
    · rintro (⟨hfd, -⟩ | ⟨hin, -⟩)
      · exact ⟨.inl rfl, hfd.symm⟩
      · exact absurd hin hfresh
  · rw [Function.update_of_ne heq]
    simp only [heq, false_or, and_false, Holds]

theorem Inv.clear (h : s.Inv) {t₀ nd : Nat} {sendRest : Bool} {sys : Syscalls}
    (hok : s.Kept (.clear t₀ nd sendRest sys)) (ht : s.clear t₀ nd sendRest sys = some t) :
    t.Inv := by
  obtain ⟨free, hreg⟩ := h.registry
  obtain ⟨registry, hstep, ht⟩ := Option.bind_eq_some_iff.mp ht
  have hreg' := hreg.clear hstep
  rcases registry_clear hstep with ⟨rfl, hnone⟩ |
    ⟨hidle, session, u, session', hslot, hid, hsame, hsome, rfl, hposted⟩
  · have hnone : closing s.service nd sendRest sys = none := hnone
    simp only [hnone, Option.some.injEq] at ht
    rw [← ht]
    exact h
  have hsome : closing s.service nd sendRest sys = some session' := hsome
  simp only [hsome] at ht
  generalize hindex : ffidIndex s.registry.service.socketIds nd = index at *
  generalize hdetach : netSocketCloseDetach u index nd sendRest sys.alloc session' = v at *
  have hsessions := @sessions_detach u session' index nd sendRest sys.alloc
  rw [hdetach, hsame.slots] at hsessions
  have hroot := @closeRoot_detach u session' index nd sendRest sys.alloc
  rw [hdetach, hsame.closeRoot] at hroot
  have hsize := @size_detach u session' index nd sendRest sys.alloc
  rw [hdetach, hsame.size] at hsize
  have hsize : s.service.size = v.size := hsize.symm
  rw [hsize] at hreg'
  have hfrom : s.Holds session'.fd (.slot index) := ⟨session, hslot, hsame.fd.symm⟩
  cases hyes : EpollClose.posted session' with
  | true =>
      rw [hyes, if_pos rfl, Option.some.injEq] at ht
      rw [hyes, if_pos rfl] at hroot
      obtain ⟨halloc, hcount, hfresh⟩ := hok (hposted hyes)
      rw [halloc] at hroot
      obtain ⟨hroot', hkeys⟩ := h.root.insert hcount hfresh hroot
      rw [← ht]
      refine ⟨⟨free, hreg'⟩, hroot', ?_, ?_, ?_, h.accounts.stray⟩
      · intro id hin
        by_cases heq : id = nd
        · subst heq
          simp only [Function.update_self]
          exact hsame.id.trans hid
        · simp only [Function.update_of_ne heq]
          exact h.rests id (((hkeys id).mp hin).resolve_left heq)
      · exact h.finds.of_keys h.registry ⟨free, hreg'⟩ hsize.symm rfl
          fun index node hnode => (hkeys _).mpr (.inr (h.finds index node hnode).1)
      · refine h.accounts.custody.move (b := .rest nd) hfrom ?_ ?_
        · rintro y ⟨hin, -⟩
          exact keyCount_eq_zero_iff.mp hfresh hin
        · rintro y (t' | t' | i | id)
          · simp only [reduceCtorEq, and_false, false_or, ne_eq, not_false_iff, true_and]
            exact Iff.rfl
          · simp only [reduceCtorEq, and_false, false_or, ne_eq, not_false_iff, true_and]
            exact holds_setThread hidle
          · simp only [reduceCtorEq, and_false, false_or, ne_eq, Holder.slot.injEq]
            show (∃ x, v.sessions i = some x ∧ x.fd = y) ↔ _
            rw [hsessions]
            exact update_none_iff
          · simp only [reduceCtorEq, ne_eq, not_false_iff, true_and, Holder.rest.injEq]
            exact holds_insertRest (keyCount_eq_zero_iff.mp hfresh) (hkeys id)
  | false =>
      rw [hyes, if_neg Bool.false_ne_true, Option.some.injEq] at ht
      rw [hyes, if_neg Bool.false_ne_true] at hroot
      have hroot : v.closeRoot = s.service.closeRoot := hroot
      rw [← ht]
      refine .of_closeFd (s := { s with registry := _ }) ⟨free, hreg'⟩ ?_ ?_ ?_
        (h.accounts.closeFd hfrom rfl rfl ?_)
      · show Root v.closeRoot
        rw [hroot]
        exact h.root
      · show ∀ id, HasKey id v.closeRoot.inOrder → _
        rw [hroot]
        exact h.rests
      · refine h.finds.of_keys h.registry ⟨free, hreg'⟩ hsize.symm rfl fun index node hnode => ?_
        show HasKey node.id v.closeRoot.inOrder
        rw [hroot]
        exact (h.finds index node hnode).1
      · rintro y (t' | t' | i | id)
        · simp only [reduceCtorEq, ne_eq, not_false_iff, true_and]
          exact Iff.rfl
        · simp only [reduceCtorEq, ne_eq, not_false_iff, true_and]
          exact holds_setThread hidle
        · simp only [ne_eq, Holder.slot.injEq]
          show (∃ x, v.sessions i = some x ∧ x.fd = y) ↔ _
          rw [hsessions]
          exact update_none_iff
        · simp only [reduceCtorEq, ne_eq, not_false_iff, true_and]
          show HasKey id v.closeRoot.inOrder ∧ _ ↔ _
          rw [hroot]
          exact Iff.rfl

/-- A session whose rest is sent leaves `close_root` and closes its socket. -/
theorem Inv.releaseRest (h : s.Inv) {id : Nat} (hdel : Deletable id s.service.closeRoot)
    (hin : HasKey id s.service.closeRoot.inOrder)
    (hfree : ∀ index node, s.found index = some node → node.id ≠ id)
    {u v : NetService} {session : NetSession}
    (hsame : Intact s.service (s.rests id) u session)
    (ht : releaseRestSession u session = some v) :
    (closeFd { s.setService v with rests := Function.update s.rests id session }
      session.fd).Inv := by
  obtain ⟨free, hreg⟩ := h.registry
  have hid : session.id = id := hsame.id.trans (h.rests id hin)
  obtain ⟨⟨ret, root⟩, hroot, heq⟩ := Option.bind_eq_some_iff.mp ht
  cases heq
  rw [hid, hsame.closeRoot] at hroot
  obtain ⟨hroot', hkeys⟩ := h.root.delete hdel hin hroot
  have hfrom : s.Holds session.fd (.rest id) := ⟨hin, hsame.fd.symm⟩
  have hsockets : SameSockets s.service { u with
      closeRoot := root, mem := releaseNetSession u.mem (cleanEpollOp session) } :=
    ⟨hsame.ids, hsame.size, fun i => by rw [hsame.slots]⟩
  have hreg' := registry_congr hreg hsockets
  rw [← hsockets.size] at hreg'
  refine .of_closeFd ⟨free, hreg'⟩ hroot' ?_ ?_ (h.accounts.closeFd hfrom rfl rfl ?_)
  · intro id' hin'
    obtain ⟨hne, hin'⟩ := (hkeys id').mp hin'
    show (Function.update s.rests id session id').id = id'
    rw [Function.update_of_ne hne]
    exact h.rests id' hin'
  · exact h.finds.of_keys h.registry ⟨free, hreg'⟩ hsame.size rfl fun index node hnode =>
      (hkeys _).mpr ⟨hfree index node hnode, (h.finds index node hnode).1⟩
  · rintro y (t' | t' | i | id')
    · simp only [reduceCtorEq, ne_eq, not_false_iff, true_and]
      exact Iff.rfl
    · simp only [reduceCtorEq, ne_eq, not_false_iff, true_and]
      exact Iff.rfl
    · simp only [reduceCtorEq, ne_eq, not_false_iff, true_and]
      exact hsockets.holds i y
    · simp only [ne_eq, Holder.rest.injEq]
      show HasKey id' root.inOrder ∧ (Function.update s.rests id session id').fd = y ↔ _
      rw [hkeys, and_assoc]
      refine and_congr_right fun hne => ?_
      rw [Function.update_of_ne hne]
      exact Iff.rfl

theorem Inv.wait (h : s.Inv) {id : Nat} {events : PollEvents} {connected : Bool} {sys : Syscalls}
    (ht : s.wait id events connected sys = some t) : t.Inv := by
  unfold Descriptors.wait at ht
  by_cases hzero : id = 0
  · rw [if_pos hzero, Option.some.injEq] at ht
    rw [← ht]
    exact h
  rw [if_neg hzero] at ht
  simp only [Option.ite_none_left_eq_some] at ht
  obtain ⟨-, ht⟩ := ht
  cases hfilter : (s.service.sessions (ffidIndex s.service.socketIds id)).filter (·.id = id) with
  | some session =>
      simp only [hfilter] at ht
      obtain ⟨⟨service, session'⟩, hhandle, ht⟩ := Option.bind_eq_some_iff.mp ht
      cases ht
      obtain ⟨hslot, -⟩ := Option.filter_eq_some_iff.mp hfilter
      exact h.keeps (.of_intact (handleSession_intact hhandle) hslot rfl rfl) fun _ => ⟨rfl, rfl⟩
  | none =>
      simp only [hfilter] at ht
      cases hnil : (sbTreeFind id s.service.closeRoot).isNil with
      | true =>
          rw [hnil, if_pos rfl, Option.some.injEq] at ht
          rw [← ht]
          exact h
      | false =>
          rw [hnil, if_neg Bool.false_ne_true] at ht
          have hin : HasKey id s.service.closeRoot.inOrder := by
            by_contra hno
            rw [(sbTreeFind_eq_nil_iff h.root.tree.ordered).mpr hno] at hnil
            cases hnil
          rw [Option.some.injEq] at ht
          rw [← ht]
          refine ⟨h.registry, h.root, h.rests, fun index node hnode => ?_, h.accounts.custody,
            h.accounts.stray⟩
          dsimp only at hnode
          by_cases heq : index = ffidIndex s.service.socketIds id
          · rw [heq, Function.update_self, Option.some.injEq] at hnode
            rw [← hnode]
            exact ⟨hin, heq.symm⟩
          · rw [Function.update_of_ne heq] at hnode
            exact h.finds index node hnode

theorem Inv.waitRest (h : s.Inv) {index : Nat} {sys : Syscalls} (hok : s.Kept (.rest index sys))
    (ht : s.waitRest index sys = some t) : t.Inv := by
  obtain ⟨node, hnode, ht⟩ := Option.bind_eq_some_iff.mp ht
  simp only [Option.ite_none_left_eq_some] at ht
  obtain ⟨-, ht⟩ := ht
  obtain ⟨⟨released, service, session⟩, hrest, ht⟩ := Option.bind_eq_some_iff.mp ht
  obtain ⟨hin, hindex⟩ := h.finds index node hnode
  -- what the other threads have found is behind other locks
  have hothers : ∀ index' node', Function.update s.found index none index' = some node' →
      index' ≠ index ∧ s.found index' = some node' := by
    intro index' node' hnode'
    have hne : index' ≠ index := by
      rintro rfl
      rw [Function.update_self] at hnode'
      cases hnode'
    rw [Function.update_of_ne hne] at hnode'
    exact ⟨hne, hnode'⟩
  have h' : Inv { s with found := Function.update s.found index none } :=
    h.forget fun index' node' hnode' => ⟨node', (hothers index' node' hnode').2, rfl⟩
  obtain ⟨u, hsame, ⟨rfl, rfl⟩ | ⟨rfl, hrelease⟩⟩ := handleRest_cases hrest
  · simp only [Bool.false_eq_true, if_false, Option.some.injEq] at ht
    rw [← ht]
    refine h'.keeps ⟨⟨hsame.ids, hsame.size,
      fun i => by rw [hsame.slots]; rfl⟩, hsame.closeRoot⟩ fun id' => ?_
    by_cases heq : id' = node.id
    · rw [heq, Function.update_self]
      exact ⟨hsame.id, hsame.fd⟩
    · rw [Function.update_of_ne heq]
      exact ⟨rfl, rfl⟩
  · simp only [if_true, Option.some.injEq] at ht
    rw [← ht]
    have hdel : Deletable node.id s.service.closeRoot := hok node hnode (by rw [hrest]; rfl)
    refine (h'.releaseRest hdel hin (fun index' node' hnode' heq => ?_) hsame hrelease).freeNode _
    obtain ⟨hne, hnode'⟩ := hothers index' node' hnode'
    have hindex' := (h.finds index' node' hnode').2
    rw [heq, hindex] at hindex'
    exact hne hindex'.symm

theorem Inv.step {a : Action} (h : s.Inv) (hok : s.Kept a) (ht : s.step a = some t) : t.Inv := by
  cases a with
  | socket t₀ fd op alloc => exact h.socket ht
  | newId t₀ => exact h.newId ht
  | install t₀ => exact h.install ht
  | clear t₀ nd sendRest sys => exact h.clear hok ht
  | release t₀ => exact h.release ht
  | cfg sizes nd config sys =>
      obtain ⟨⟨ret, service, closed⟩, hcfg, rfl⟩ := Option.map_eq_some_iff.mp ht
      cases netSocketCfgAt_closed hok hcfg
      exact h.keeps (netSocketCfgAt_keeps hcfg) fun _ => ⟨rfl, rfl⟩
  | wait id events connected sys => exact h.wait ht
  | rest index sys => exact h.waitRest hok ht
  | call c =>
      obtain ⟨service, hrun, rfl⟩ := Option.map_eq_some_iff.mp ht
      exact h.keeps (Call.keeps hrun) fun _ => ⟨rfl, rfl⟩

end Steps

theorem inv_of_reachable {s : Descriptors} (h : descriptors.ReachableVia Kept s) : s.Inv :=
  h.invariant (fun _ hs => Inv.init hs) (fun _ _ _ hs hok ht => Inv.step hs hok ht)

end Descriptors

/-- With epoll every open socket of a service has one holder that is to close it, and no
other descriptor is closed: none is leaked and none is closed twice. -/
theorem descriptors_accounted {s : Descriptors} (h : descriptors.ReachableVia Descriptors.Kept s) :
    s.Accounts := (Descriptors.inv_of_reachable h).accounts

namespace Descriptors

/-- A new service of two slots. -/
def idle : Descriptors where
  registry := .ofService (netCreate 2
    { brk := 0
      fate := fun _ => some fun _ => 0
      freed := []
      pools := fun _ => buffPoolCreate 4 0 })
  opening := fun _ => none
  found := fun _ => none
  rests := fun _ => createNetSession
  opened := []
  stray := []

def idleConfig : NetConfig where
  enByte := .enByte8
  readBuffCnt := 2
  writeBuffCnt := 2
  pool := 0
  readBuffVersion := .useBuff

end Descriptors

/-- A listener accepts a connection, which is closed with a rest to send. -/
theorem descriptors_accounted_rest : ∃ s : Descriptors, s.opened = [3] ∧ s.Accounts := by
  obtain ⟨s, hreach, hopened⟩ : ∃ s,
      descriptors.ReachableVia Descriptors.Kept s ∧ s.opened = [3] := by
    have hinit : descriptors.Init Descriptors.idle :=
      ⟨2, _, by decide, by decide, rfl, fun _ => rfl, fun _ => rfl, rfl, rfl⟩
    refine ⟨_, .step (i := .rest 1 { sends := [.sent 2] })
      (.step (i := .wait 2 ⟨false, true, false⟩ false {})
      (.step (i := .release 0)
      (.step (i := .clear 0 2 true {})
      (.step (i := .call (.write 2 [6] 1 false {}))
      (.step (i := .cfg ⟨88, 40, 24, 32⟩ 2 (some Descriptors.idleConfig) {})
      (.step (i := .install 1)
      (.step (i := .newId 1)
      (.step (i := .socket 1 4 (.netAccept 1) true)
      (.step (i := .install 0)
      (.step (i := .newId 0)
      (.step (i := .socket 0 3 (.netListen 2 80 5 true true) true)
      (.init hinit) trivial rfl) trivial rfl) trivial rfl) trivial rfl) trivial rfl) trivial rfl)
      ?_ rfl) trivial rfl) ?_ rfl) trivial rfl) trivial rfl) ?_ rfl, ?_⟩
    · rintro ⟨cfg, session, -, ⟨-, hno⟩ | ⟨hback, -⟩⟩
      · exact hno fun _ _ => rfl
      · cases hback
    · exact fun _ => ⟨rfl, by decide +kernel, by decide +kernel⟩
    · intro node hnode hyes
      cases hnode
      decide +kernel
    · rfl
  exact ⟨s, hopened, descriptors_accounted hreach⟩

end RandServer
