import RandServer.Net.CloseEpoll

/-!
# One event of `net_wait`

`handle_session` for one event of epoll, and the socket behind it. epoll reports arrived
bytes once, so `Socket` has an edge beside its unread bytes. A call of `net_wait` or
`net_socket_read` makes some calls of `recv`, and bytes may arrive between them.
-/

namespace RandServer

/-! ## Events of `net_wait` -/

def handleEpollout : Nat := 1 <<< 4
/-- `EPOLLERR_EPOLLHUP`. -/
def epollerrEpollhup : Nat := 1 <<< 7

/-- `handle_session`. `connected` is what `getsockopt` says about a new connection. -/
def handleSession (s : NetService) (session : NetSession) (events : PollEvents) (connected : Bool)
    (sys : Syscalls) : Option (NetService × NetSession) :=
  if session.lsession.isSome then some (pushQueue s session eveAccept 0).2
  else if events.err then
    let event := if session.connectFlag then eveConnect else 0
    some (pushQueue s (cleanEpollOp session) (event ||| epollerrEpollhup ||| eveError) sys.errno).2
  else if session.connectFlag then
    if events.out then
      if connected then some (pushQueue s (cleanEpollOp session) eveConnect 0).2
      else some (pushQueue s (cleanEpollOp session) (eveConnect ||| eveError) sys.errno).2
    else some (s, session)
  else do
    let (s, session) ←
      if events.out then do
        let (err, s, session) ← postRestWrite s session sys
        if err < 0 then
          some (pushQueue s (cleanEpollOp session) (handleEpollout ||| eveError) err).2
        else some (s, session)
      else some (s, session)
    if events.inp then postRestRead s session sys else some (s, session)

/-- What `net_wait` does with one event of a session in its slot. -/
def netWaitEvent (s : NetService) (id : Nat) (events : PollEvents) (connected : Bool)
    (sys : Syscalls) : Option NetService :=
  let index := ffidIndex s.socketIds id
  match s.sessions index with
  | none => none
  | some session =>
      if session.id ≠ id then none
      else do
        let (s, session) ← handleSession s session events connected sys
        some (s.setSession index (some session))

/-- The events of epoll for arrived bytes. -/
def PollEvents.readable : PollEvents where
  err := false
  out := false
  inp := true

/-! ## The socket -/

/-- The unread bytes, a pending edge, and all the bytes that have arrived. -/
structure Socket where
  unread : List UInt8
  edge : Bool
  arrived : List UInt8

/-- What happens at the socket during a call. -/
inductive SocketEvent
  | arrive (xs : List UInt8)
  | recv (res : RecvResult)

namespace SocketEvent

/-- The outcomes of the calls of `recv`. -/
def recvs : List SocketEvent → List RecvResult
  | [] => []
  | .arrive _ :: es => recvs es
  | .recv res :: es => res :: recvs es

def arrivals : List SocketEvent → List UInt8
  | [] => []
  | .arrive xs :: es => xs ++ arrivals es
  | .recv _ :: es => arrivals es

end SocketEvent

/-- The bytes that `recv` returns. -/
def RecvResult.bytes : List RecvResult → List UInt8
  | [] => []
  | .received xs :: rs => xs ++ bytes rs
  | .error _ :: rs => bytes rs

namespace Socket

def arrive (k : Socket) (xs : List UInt8) : Socket where
  unread := k.unread ++ xs
  edge := true
  arrived := k.arrived ++ xs

/-- `recv` returns some of the unread bytes, and it fails with `EAGAIN` if there are none. -/
def event (k : Socket) : SocketEvent → Option Socket
  | .arrive xs => if xs = [] then none else some (k.arrive xs)
  | .recv (.received xs) =>
      if xs ≠ [] ∧ k.unread.take xs.length = xs then
        some { k with unread := k.unread.drop xs.length }
      else none
  | .recv (.error e) => if e = eagain ∧ k.unread = [] then some k else none

def serve (k : Socket) : List SocketEvent → Option Socket
  | [] => some k
  | e :: es => (k.event e).bind fun k => k.serve es

/-- The bytes that `recv` has returned. -/
def taken (k : Socket) : List UInt8 := k.arrived.take (k.arrived.length - k.unread.length)

end Socket

/-- The call makes all these calls of `recv`, since fewer are not enough for it. -/
def UsesUp {α : Type} (call : List RecvResult → Option α) (rs : List RecvResult) : Prop :=
  ∀ n < rs.length, (call (rs.take n)).isNone

instance {α : Type} (call : List RecvResult → Option α) (rs : List RecvResult) :
    Decidable (UsesUp call rs) := Nat.decidableBallLT _ _

/-! ## What happens at the socket -/

/-- The results of `recv` on a socket that stays open. -/
def RecvResult.Plain : RecvResult → Prop
  | .received xs => xs ≠ []
  | .error e => e = eagain

/-- The effect of a call on the socket. Bytes that arrive after the socket was found empty
leave an edge. -/
structure Socket.Serves (k : Socket) (es : List SocketEvent) (k' : Socket) : Prop where
  arrived : k'.arrived = k.arrived ++ SocketEvent.arrivals es
  unread : RecvResult.bytes (SocketEvent.recvs es) ++ k'.unread =
    k.unread ++ SocketEvent.arrivals es
  edge : k.edge = true → k'.edge = true
  plain : ∀ res ∈ SocketEvent.recvs es, res.Plain
  idle : SocketEvent.recvs es = [] → (k.unread ≠ [] → k.edge = true) →
    k'.unread ≠ [] → k'.edge = true
  emptied : (∃ e, (SocketEvent.recvs es).getLast? = some (.error e)) →
    k'.unread ≠ [] → k'.edge = true

namespace Socket

variable {k k₁ k' : Socket} {es : List SocketEvent}

theorem Serves.nil (k : Socket) : k.Serves [] k where
  arrived := (List.append_nil _).symm
  unread := (List.append_nil _).symm
  edge := id
  plain := fun res hres => absurd hres List.not_mem_nil
  idle := fun _ hk => hk
  emptied := by
    rintro ⟨e, hlast⟩
    cases hlast

theorem Serves.arrive {xs : List UInt8} (h : k₁.Serves es k')
    (hevent : k.event (.arrive xs) = some k₁) : k.Serves (.arrive xs :: es) k' := by
  simp only [event, Option.ite_none_left_eq_some, Option.some.injEq] at hevent
  obtain ⟨-, rfl⟩ := hevent
  refine ⟨?_, ?_, fun _ => h.edge rfl, h.plain, fun _ _ _ => h.edge rfl, h.emptied⟩
  · rw [h.arrived, Socket.arrive, SocketEvent.arrivals, List.append_assoc]
  · rw [SocketEvent.recvs, h.unread, Socket.arrive, SocketEvent.arrivals, List.append_assoc]

/-- Whether the socket was found empty is up to the last call of `recv`. -/
theorem Serves.emptied_cons {res : RecvResult} (h : k₁.Serves es k')
    (hlast : SocketEvent.recvs es = [] → (∃ e, res = .error e) →
      k'.unread ≠ [] → k'.edge = true) :
    (∃ e, (res :: SocketEvent.recvs es).getLast? = some (.error e)) → k'.unread ≠ [] →
      k'.edge = true := by
  rintro ⟨e, herror⟩
  cases hrecvs : SocketEvent.recvs es with
  | nil =>
      rw [hrecvs, List.getLast?_singleton] at herror
      exact hlast hrecvs ⟨e, Option.some.inj herror⟩
  | cons res' rs =>
      rw [hrecvs, List.getLast?_cons_cons, ← hrecvs] at herror
      exact h.emptied ⟨e, herror⟩

theorem Serves.received {xs : List UInt8} (h : k₁.Serves es k')
    (hevent : k.event (.recv (.received xs)) = some k₁) :
    k.Serves (.recv (.received xs) :: es) k' := by
  simp only [event, Option.ite_none_right_eq_some, Option.some.injEq] at hevent
  obtain ⟨⟨hxs, htake⟩, rfl⟩ := hevent
  have hfront : xs ++ k.unread.drop xs.length = k.unread := by
    rw [← congrArg (· ++ k.unread.drop xs.length) htake]
    exact List.take_append_drop _ _
  refine ⟨h.arrived, ?_, h.edge, ?_, ?_, h.emptied_cons ?_⟩
  · rw [SocketEvent.recvs, RecvResult.bytes, List.append_assoc, h.unread, ← List.append_assoc,
      hfront, SocketEvent.arrivals]
  · intro res hres
    obtain rfl | hres := List.mem_cons.mp hres
    · exact hxs
    · exact h.plain res hres
  · intro hnil
    cases hnil
  · rintro - ⟨e, herror⟩
    cases herror

theorem Serves.error {e : Nat} (h : k₁.Serves es k')
    (hevent : k.event (.recv (.error e)) = some k₁) : k.Serves (.recv (.error e) :: es) k' := by
  simp only [event, Option.ite_none_right_eq_some, Option.some.injEq] at hevent
  obtain ⟨⟨he, hempty⟩, rfl⟩ := hevent
  refine ⟨h.arrived, h.unread, h.edge, ?_, ?_, h.emptied_cons ?_⟩
  · intro res hres
    obtain rfl | hres := List.mem_cons.mp hres
    · exact he
    · exact h.plain res hres
  · intro hnil
    cases hnil
  · intro hrecvs _
    exact h.idle hrecvs fun hne => absurd hempty hne

theorem serve_spec (h : k.serve es = some k') : k.Serves es k' := by
  induction es generalizing k with
  | nil =>
      cases h
      exact .nil _
  | cons e es ih =>
      obtain ⟨k₁, hevent, hrest⟩ := Option.bind_eq_some_iff.mp h
      cases e with
      | arrive xs => exact (ih hrest).arrive hevent
      | recv res =>
          cases res with
          | received xs => exact (ih hrest).received hevent
          | error e => exact (ih hrest).error hevent

/-- What is not unread has been taken. -/
theorem taken_eq {bytes : List UInt8} (h : k.arrived = bytes ++ k.unread) : k.taken = bytes := by
  rw [taken, h, List.length_append, Nat.add_sub_cancel, List.take_left]

end Socket

/-- The calls of `recv` belong to the first part, if the rest always has a result. -/
theorem UsesUp.of_bind {α β : Type} {call : List RecvResult → Option α} {rest : α → Option β}
    {rs : List RecvResult} (h : UsesUp (fun rs => (call rs).bind rest) rs)
    (hrest : ∀ rs res, call rs = some res → (rest res).isSome = true) : UsesUp call rs := by
  intro n hn
  cases hres : call (rs.take n) with
  | none => rfl
  | some res =>
      have hnone := h n hn
      have hsome := hrest _ res hres
      simp only [hres, Option.bind_some, Option.isNone_iff_eq_none] at hnone
      rw [hnone] at hsome
      cases hsome

end RandServer
