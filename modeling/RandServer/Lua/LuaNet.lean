import RandServer.Lua.TwoPart
import RandServer.Net.EndToEnd

/-!
# Values over the network

`net.socket_write` and `net.socket_read` of `lua_net.c`, behind `service:pack` on one side
and in front of `service:unpack` on the other. Messages are written with a delay, and they
are read as pointers to their bytes.
-/

namespace RandServer

open Framing

/-- A link, what was packed for the accepted messages, and the results of unpacking. -/
structure LuaNet where
  link : EndToEnd
  written : List Part
  received : List (EStateM.Result Stop Deser (List LuaValue))

/-- A message in front of other memory. -/
def receivedMessage (xs behind : List UInt8) : Input where
  mem := xs ++ behind
  size := xs.length
  size_le := by
    rw [List.length_append]
    exact Nat.le_add_right _ _

namespace LuaNet

/-- A message is unpacked into a Lua state of any contents. -/
inductive Action
  | socketWrite (p : Part) (sys : Syscalls) (es : List SendEvent)
  | socketRead (sys : Syscalls) (es : List SocketEvent) (behind : List UInt8) (L : LuaState)
  | sender (a : WriteStall.Action)
  | receiver (a : ReadStall.Action)

namespace Action

/-- The size of the message is cast to an `int`, and the destination is a pointer. -/
def link : Action → EndToEnd.Action
  | .socketWrite p sys es => .sender
      (.netSocketWrite p.message.data (int32 p.message.data.length) true sys es)
  | .socketRead sys es _ _ => .receiver (.netSocketRead 8 sys es)
  | .sender a => .sender a
  | .receiver a => .receiver a

/-- Scripts write and read messages by the first two actions only. -/
def allowed : Action → Bool
  | .sender (.netSocketWrite _ _ _ _ _) => false
  | .receiver (.netSocketRead _ _ _) => false
  | _ => true

end Action

/-- The values of the message that has been accepted in a step. -/
def Action.writes (s t : EndToEnd) : Action → List Part
  | .socketWrite p _ _ => if t.sender.accepted = s.sender.accepted then [] else [p]
  | _ => []

/-- The message that has been read in a step is unpacked. -/
def Action.reads (s t : EndToEnd) :
    Action → List (EStateM.Result Stop Deser (List LuaValue))
  | .socketRead _ _ behind L =>
      (t.receiver.removed.drop s.receiver.removed.length).map fun xs =>
        deserializeUnpack (receivedMessage xs behind) (-1) L
  | _ => []

def step (s : LuaNet) (a : Action) : Option LuaNet :=
  if a.allowed then
    (s.link.step a.link).map fun link =>
      { link := link
        written := s.written ++ a.writes s.link link
        received := s.received ++ a.reads s.link link }
  else none

/-- `net.socket_cfg` always chooses the queue version of the receive buffer. -/
structure Init (s : LuaNet) : Prop where
  link : EndToEnd.Init s.link
  version : s.link.receiver.rbuff.map RecvBuff.version = some .useQueue
  written : s.written = []
  received : s.received = []

/-- At least one value is sent, and the receiver accepts the message. Its memory suffices. -/
def Kept (s : LuaNet) : Action → Prop
  | .socketWrite p _ _ => p.args ≠ [] ∧ p.message.data.length < 2 ^ 31 ∧
      ∀ b ∈ s.link.receiver.rbuff, Valid b.enByte.toNat b.limit p.message.data
  | .sender _ => True
  | _ => s.link.receiver.service.mem.AllocOk

end LuaNet

def luaNet : Machine LuaNet LuaNet.Action where
  Init := LuaNet.Init
  step := LuaNet.step

/-- Unpacking has returned a copy of the values. -/
def Part.Arrives (p : Part) (res : EStateM.Result Stop Deser (List LuaValue)) : Prop :=
  ∃ values d f, res = .ok values d ∧ p.lua.Isomorphic d.lua p.args values f

/-- The values arrive in order. If no `send` has failed and the sender is still registered,
all of them have arrived when there is nothing left to do. -/
structure LuaNet.Delivers (s : LuaNet) : Prop where
  inOrder : List.Forall₂ Part.Arrives (s.written.take s.received.length) s.received
  complete : s.link.sender.failed = false → s.link.Quiescent →
    s.received.length = s.written.length

namespace Part

variable (p : Part)

/-- Wherever a message lies, it is unpacked. -/
theorem arrives (behind : List UInt8) (L : LuaState) :
    p.Arrives (deserializeUnpack (receivedMessage p.message.data behind) (-1) L) := by
  obtain ⟨linked, depth, hpacked⟩ := p.form
  have hcarries : (receivedMessage p.message.data behind).Carries p.message.data :=
    List.take_left
  have hasks : Asks (-1) p.args.length := fun hpos => absurd hpos (by decide)
  obtain ⟨values, d, f, hrun, hcopies⟩ := hpacked.unpack
    (fun v hv htable _ => p.scalars v hv htable) p.keysSupported hcarries hasks L
  exact ⟨values, d, f, hrun, hcopies.isomorphic fun v => p.supported⟩

theorem data_ne_nil (h : p.args ≠ []) : p.message.data ≠ [] := by
  obtain ⟨linked, depth, hpacked⟩ := p.form
  have hle : p.args.length ≤ p.message.data.length := hpacked.length_le
  have hpos := List.length_pos_of_ne_nil h
  exact List.ne_nil_of_length_pos (by omega)

end Part

/-! ## The two sides -/

theorem WriteStall.step_accepted {s t : WriteStall} {a : Action} (ht : s.step a = some t) :
    t.accepted = s.accepted ∨ t.accepted = s.accepted ++ a.payload := by
  simp only [WriteStall.step, Option.ite_none_right_eq_some] at ht
  obtain ⟨-, ht⟩ := ht
  obtain ⟨socket, -, ht⟩ := Option.bind_eq_some_iff.mp ht
  obtain ⟨service, -, ht⟩ := Option.bind_eq_some_iff.mp ht
  obtain rfl := Option.some.inj ht
  exact ite_eq_or_eq _ _ _

theorem ReadStall.Init.removed {s : ReadStall} (h : s.Init) : s.removed = [] := by
  cases h
  rfl

/-- A read removes at most one message, and nothing else removes any. -/
theorem ReadStall.step_removed {s t : ReadStall} {a : Action} (ht : s.step a = some t) :
    t.removed = s.removed ∨
      (∃ usize sys es, a = .netSocketRead usize sys es) ∧ ∃ xs, t.removed = s.removed ++ [xs] := by
  cases a with
  | arrive xs =>
      obtain ⟨socket, -, rfl⟩ := Option.map_eq_some_iff.mp ht
      exact .inl rfl
  | netWait connected sys es =>
      simp only [step, Option.ite_none_left_eq_some] at ht
      obtain ⟨-, ht⟩ := ht
      obtain ⟨socket, -, ht⟩ := Option.bind_eq_some_iff.mp ht
      obtain ⟨service, -, ht⟩ := Option.bind_eq_some_iff.mp ht
      cases ht
      exact .inl rfl
  | netQueue maxevents =>
      cases ht
      exact .inl rfl
  | netSocketRead usize sys es =>
      simp only [step, Option.ite_none_left_eq_some] at ht
      obtain ⟨-, ht⟩ := ht
      obtain ⟨socket, -, ht⟩ := Option.bind_eq_some_iff.mp ht
      obtain ⟨⟨ret, xs, service⟩, -, ht⟩ := Option.bind_eq_some_iff.mp ht
      obtain rfl := Option.some.inj ht
      exact (ite_eq_or_eq _ _ _).imp_right fun hmore => ⟨⟨usize, sys, es, rfl⟩, xs, hmore⟩

namespace EndToEnd

variable {s t : EndToEnd}

theorem step_sender_spec {a : WriteStall.Action} (ht : s.step (.sender a) = some t) :
    s.sender.step a = some t.sender ∧ t.receiver = s.receiver := by
  obtain ⟨sender, hstep, rfl⟩ := Option.map_eq_some_iff.mp ht
  exact ⟨hstep, rfl⟩

theorem step_receiver_spec {a : ReadStall.Action} (ht : s.step (.receiver a) = some t) :
    s.receiver.step a = some t.receiver ∧ t.sender = s.sender := by
  simp only [step, Option.ite_none_right_eq_some] at ht
  obtain ⟨-, ht⟩ := ht
  obtain ⟨receiver, hstep, rfl⟩ := Option.map_eq_some_iff.mp ht
  exact ⟨hstep, rfl⟩

end EndToEnd

namespace LuaNet

/-- The results belong to the messages that have been removed. -/
structure Inv (s : LuaNet) : Prop where
  link : endToEnd.ReachableVia EndToEnd.Kept s.link
  written : s.link.sender.accepted = s.written.map fun p => p.message.data
  received : List.Forall₂
    (fun xs res => ∃ behind L, res = deserializeUnpack (receivedMessage xs behind) (-1) L)
    s.link.receiver.removed s.received

variable {s t : LuaNet} {a : Action}

theorem Kept.link (hallowed : a.allowed = true) (h : s.Kept a) : s.link.Kept a.link := by
  cases a with
  | socketWrite p sys es =>
      obtain ⟨hargs, hint, hvalid⟩ := h
      intro xs hxs
      obtain rfl : p.message.data = xs := by
        rw [List.mem_singleton.mp hxs, int32_of_lt hint, Int.toNat_natCast, List.take_length]
      exact ⟨p.data_ne_nil hargs, hvalid⟩
  | socketRead sys es behind L => exact h
  | sender a =>
      cases a with
      | netSocketWrite buff usize delay sys es => cases hallowed
      | _ => exact fun xs hxs => absurd hxs List.not_mem_nil
  | receiver a => exact h

theorem step_spec (ht : s.step a = some t) :
    a.allowed = true ∧ s.link.step a.link = some t.link ∧
      t.written = s.written ++ a.writes s.link t.link ∧
      t.received = s.received ++ a.reads s.link t.link := by
  simp only [step, Option.ite_none_right_eq_some] at ht
  obtain ⟨hallowed, ht⟩ := ht
  obtain ⟨link, hlink, rfl⟩ := Option.map_eq_some_iff.mp ht
  exact ⟨hallowed, hlink, rfl, rfl⟩

/-- The packed values of a message are recorded if and only if it is accepted. -/
theorem writes_spec {l u : EndToEnd} (hok : s.Kept a) (hallowed : a.allowed = true)
    (hu : l.step a.link = some u) :
    u.sender.accepted =
      l.sender.accepted ++ (a.writes l u).map fun p => p.message.data := by
  cases a with
  | socketWrite p sys es =>
      obtain ⟨hstep, -⟩ := EndToEnd.step_sender_spec hu
      have hpayload : (WriteStall.Action.netSocketWrite p.message.data
          (int32 p.message.data.length) true sys es).payload = [p.message.data] := by
        rw [WriteStall.Action.payload, int32_of_lt hok.2.1, Int.toNat_natCast, List.take_length]
      obtain hsame | hmore := WriteStall.step_accepted hstep
      · rw [Action.writes, if_pos hsame, List.map_nil, List.append_nil, hsame]
      · have hne : u.sender.accepted ≠ l.sender.accepted := by
          rw [hmore, hpayload]
          exact fun heq => absurd (List.append_right_eq_self.mp heq) (List.cons_ne_nil _ _)
        rw [Action.writes, if_neg hne, hmore, hpayload]
        rfl
  | socketRead sys es behind L =>
      rw [(EndToEnd.step_receiver_spec hu).2]
      exact (List.append_nil _).symm
  | sender b =>
      obtain ⟨hstep, -⟩ := EndToEnd.step_sender_spec hu
      have hnone : b.payload = [] := by
        cases b with
        | netSocketWrite buff usize delay sys es => cases hallowed
        | _ => rfl
      obtain hsame | hmore := WriteStall.step_accepted hstep
      · rw [hsame]
        exact (List.append_nil _).symm
      · rw [hmore, hnone]
        rfl
  | receiver b =>
      rw [(EndToEnd.step_receiver_spec hu).2]
      exact (List.append_nil _).symm

/-- What a step unpacks are the messages that it removes. -/
theorem reads_spec {l u : EndToEnd} (hallowed : a.allowed = true) (hu : l.step a.link = some u) :
    ∃ xs, u.receiver.removed = l.receiver.removed ++ xs ∧
      List.Forall₂ (fun x res =>
        ∃ behind L, res = deserializeUnpack (receivedMessage x behind) (-1) L)
        xs (a.reads l u) := by
  cases a with
  | socketWrite p sys es =>
      rw [(EndToEnd.step_sender_spec hu).2]
      exact ⟨[], (List.append_nil _).symm, .nil⟩
  | socketRead sys es behind L =>
      obtain hsame | ⟨-, x, hmore⟩ := ReadStall.step_removed (EndToEnd.step_receiver_spec hu).1
      · refine ⟨[], hsame.trans (List.append_nil _).symm, ?_⟩
        rw [Action.reads, hsame, List.drop_length]
        exact .nil
      · refine ⟨[x], hmore, ?_⟩
        rw [Action.reads, hmore, List.drop_left]
        exact .cons ⟨behind, L, rfl⟩ .nil
  | sender b =>
      rw [(EndToEnd.step_sender_spec hu).2]
      exact ⟨[], (List.append_nil _).symm, .nil⟩
  | receiver b =>
      obtain hsame | ⟨⟨usize, sys, es, hb⟩, -⟩ :=
        ReadStall.step_removed (EndToEnd.step_receiver_spec hu).1
      · exact ⟨[], hsame.trans (List.append_nil _).symm, .nil⟩
      · subst hb
        cases hallowed

namespace Inv

theorem init (h : Init s) : s.Inv := by
  refine ⟨.init h.link, ?_, ?_⟩
  · rw [h.written, h.link.sender.accepted]
    rfl
  · rw [h.received, h.link.receiver.removed]
    exact .nil

theorem step (h : s.Inv) (hok : s.Kept a) (ht : s.step a = some t) : t.Inv := by
  obtain ⟨hallowed, hlink, hwritten, hreceived⟩ := step_spec ht
  obtain ⟨xs, hremoved, hreads⟩ := reads_spec hallowed hlink
  refine ⟨h.link.step (hok.link hallowed) hlink, ?_, ?_⟩
  · rw [writes_spec hok hallowed hlink, h.written, hwritten, List.map_append]
  · rw [hremoved, hreceived]
    exact List.rel_append h.received hreads

theorem delivers (h : s.Inv) : s.Delivers := by
  obtain ⟨enByte, cap, hlinked⟩ := EndToEnd.linked_of_reachable h.link
  have hdelivers := hlinked.delivers
  have hlen := h.received.length_eq
  constructor
  · have hremoved : s.link.receiver.removed =
        (s.written.take s.received.length).map fun p => p.message.data := by
      rw [List.map_take, ← h.written, ← hlen]
      exact List.prefix_iff_eq_take.mp hdelivers.inOrder
    have hreads := h.received
    rw [hremoved, List.forall₂_map_left_iff] at hreads
    refine hreads.imp ?_
    rintro p res ⟨behind, L, rfl⟩
    exact p.arrives behind L
  · intro hok hquiescent
    rw [← hlen, hdelivers.complete hok hquiescent, h.written, List.length_map]

end Inv

end LuaNet

namespace LuaNet

/-- Two sessions after `net.socket_cfg`. -/
def configured : LuaNet where
  link := { sender := .configured, receiver := .configured .useQueue }
  written := []
  received := []

theorem init_configured : luaNet.Init configured :=
  ⟨⟨WriteStall.init_configured, ReadStall.init_configured .useQueue, rfl⟩, rfl, rfl, rfl⟩

/-- A run leads to this state of the link. -/
def Reaches (link : EndToEnd) : Prop :=
  ∃ written received, luaNet.ReachableVia Kept ⟨link, written, received⟩

theorem Reaches.step {l u : EndToEnd} (h : Reaches l) (a : Action) (hallowed : a.allowed = true)
    (hok : ∀ written received, Kept ⟨l, written, received⟩ a) (hu : l.step a.link = some u) :
    Reaches u := by
  obtain ⟨written, received, hreach⟩ := h
  have ht : luaNet.step ⟨l, written, received⟩ a =
      some ⟨u, written ++ a.writes l u, received ++ a.reads l u⟩ := by
    simp only [luaNet, LuaNet.step, hallowed, if_true, hu, Option.map_some]
  exact ⟨_, _, hreach.step (hok written received) ht⟩

theorem Reaches.receiver {l : EndToEnd} {receiver : ReadStall} (h : Reaches l) (a : Action)
    {b : ReadStall.Action} (hlink : a.link = .receiver b) (hallowed : a.allowed = true)
    (hok : ∀ written received, Kept ⟨l, written, received⟩ a)
    (harrived : l.receiver.socket.arrived ++ b.arrivals <+: EndToEnd.taken l.sender)
    (hu : l.receiver.step b = some receiver) : Reaches { l with receiver := receiver } := by
  refine h.step a hallowed hok ?_
  rw [hlink]
  exact EndToEnd.step_receiver harrived hu

/-- The message of the value nil. -/
def nilPart : Part := emptyPart [.nil] _ rfl (by decide)

end LuaNet

end RandServer
