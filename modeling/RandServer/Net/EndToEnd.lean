import RandServer.Net.WriteStall

/-!
# From one application to the other

A session that sends and the session at the other end of the connection. The bytes that the
peer takes off the sending socket arrive at the receiving one in order, with any delay and in
pieces of any size. `WriteStall` and `ReadStall` say when each side has done its part.
-/

namespace RandServer

open Framing

structure EndToEnd where
  sender : WriteStall
  receiver : ReadStall

namespace EndToEnd

inductive Action
  | sender (a : WriteStall.Action)
  | receiver (a : ReadStall.Action)

/-- The bytes that have left the sending socket. -/
def taken (s : WriteStall) : List UInt8 := s.sent.take (s.sent.length - s.socket.held)

/-- What arrives are the next of these. -/
def step (s : EndToEnd) : Action → Option EndToEnd
  | .sender a => (s.sender.step a).map fun sender => { s with sender := sender }
  | .receiver a =>
      if s.receiver.socket.arrived ++ a.arrivals <+: taken s.sender then
        (s.receiver.step a).map fun receiver => { s with receiver := receiver }
      else none

/-- Both sides are configured for the same header. -/
structure Init (s : EndToEnd) : Prop where
  sender : writeStall.Init s.sender
  receiver : readStall.Init s.receiver
  enByte : s.sender.wsession.map (fun w => w.sbuff.enByte) = s.receiver.rbuff.map RecvBuff.enByte

/-- The messages have a payload, and the receiver accepts them. Its memory suffices. -/
def Kept (s : EndToEnd) : Action → Prop
  | .sender a => ∀ p ∈ a.payload, p ≠ [] ∧
      ∀ b ∈ s.receiver.rbuff, Valid b.enByte.toNat b.limit p
  | .receiver _ => s.receiver.service.mem.AllocOk

/-- All that has been sent has arrived, and neither side has anything to do. -/
structure Quiescent (s : EndToEnd) : Prop where
  sender : s.sender.Quiescent
  receiver : s.receiver.Quiescent
  arrived : s.receiver.socket.arrived = s.sender.sent

/-- The messages that are read are those that were accepted, in order. If no `send` has
failed and the sender is still registered, all of them have been read when there is nothing
left to do. -/
structure Delivers (s : EndToEnd) : Prop where
  inOrder : s.receiver.removed <+: s.sender.accepted
  complete : s.sender.failed = false → s.Quiescent → s.receiver.removed = s.sender.accepted

end EndToEnd

def endToEnd : Machine EndToEnd EndToEnd.Action where
  Init := EndToEnd.Init
  step := EndToEnd.step

theorem WriteStall.Init.accepted {s : WriteStall} (h : s.Init) : s.accepted = [] := by
  cases h
  rfl

theorem ReadStall.Init.arrived {s : ReadStall} (h : s.Init) : s.socket.arrived = [] := by
  cases h
  rfl

/-- A step of the receiver keeps its configuration. -/
theorem ReadStall.At.step {v : RecvVersion} {enByte : EnByteSize} {cap : Nat}
    {session : NetSession} {r : ReadSession} {stored : List UInt8} {s t : ReadStall}
    (h : s.At v enByte cap session r stored) {a : Action} (hok : s.Kept a)
    (ht : s.step a = some t) : ∃ session' r' stored', t.At v enByte cap session' r' stored' := by
  cases a with
  | arrive xs => exact ⟨session, r, stored, h.arrive ht⟩
  | netWait connected sys es => exact h.netWait hok ht
  | netQueue maxevents =>
      obtain ⟨session', hat⟩ := h.netQueue ht
      exact ⟨session', r, stored, hat⟩
  | netSocketRead usize sys es => exact h.netSocketRead hok ht

/-- The arrived bytes after a step. -/
theorem ReadStall.step_arrived {s t : ReadStall} {a : Action} (ht : s.step a = some t) :
    t.socket.arrived = s.socket.arrived ++ a.arrivals := by
  cases a with
  | arrive xs =>
      obtain ⟨socket, hevent, rfl⟩ := Option.map_eq_some_iff.mp ht
      simp only [Socket.event, Option.ite_none_left_eq_some, Option.some.injEq] at hevent
      obtain ⟨-, rfl⟩ := hevent
      rfl
  | netWait connected sys es =>
      simp only [step, Option.ite_none_left_eq_some] at ht
      obtain ⟨-, ht⟩ := ht
      obtain ⟨socket, hserve, ht⟩ := Option.bind_eq_some_iff.mp ht
      obtain ⟨service, -, ht⟩ := Option.bind_eq_some_iff.mp ht
      cases ht
      exact (Socket.serve_spec hserve).arrived
  | netQueue maxevents =>
      cases ht
      exact (List.append_nil _).symm
  | netSocketRead usize sys es =>
      simp only [step, Option.ite_none_left_eq_some] at ht
      obtain ⟨-, ht⟩ := ht
      obtain ⟨socket, hserve, ht⟩ := Option.bind_eq_some_iff.mp ht
      obtain ⟨⟨ret, xs, service⟩, -, ht⟩ := Option.bind_eq_some_iff.mp ht
      cases ht
      exact (Socket.serve_spec hserve).arrived

namespace EndToEnd

/-! ## The invariant -/

/-- Both sides keep their invariants, and the accepted messages suit the receiver. -/
structure Linked (enByte : EnByteSize) (cap : Nat) (s : EndToEnd) : Prop where
  sender : ∃ n bs session w r q, s.sender.At enByte n bs session w r q
  receiver : ∃ v session r stored, s.receiver.At v enByte cap session r stored
  accepted : ∀ p ∈ s.sender.accepted, p ≠ [] ∧ Valid enByte.toNat cap p
  arrived : s.receiver.socket.arrived <+: taken s.sender

namespace Linked

variable {enByte : EnByteSize} {cap : Nat} {s t : EndToEnd}

theorem taken_isPrefix (h : s.Linked enByte cap) :
    taken s.sender <+: encode enByte.toNat s.sender.accepted := by
  obtain ⟨n, bs, session, w, r, q, hat⟩ := h.sender
  rw [hat.bytes]
  exact (List.take_prefix _ _).trans (List.prefix_append _ _)

/-- The accepted messages are those that their frames split into. -/
theorem split_accepted (h : s.Linked enByte cap) :
    (split enByte.toNat cap (encode enByte.toNat s.sender.accepted)).1 = s.sender.accepted := by
  have hsplit := @split_append _ cap enByte.toNat_pos _ (fun p hp => (h.accepted p hp).2) []
  rw [List.append_nil] at hsplit
  rw [hsplit]
  exact List.append_nil _

theorem delivers (h : s.Linked enByte cap) : s.Delivers := by
  obtain ⟨v, session, r, stored, hat⟩ := h.receiver
  have hframes := hat.frames_arrived
  rw [hat.frames_eq] at hframes
  refine ⟨?_, fun hok hq => ?_⟩
  · obtain ⟨rest, hrest⟩ := h.arrived.trans h.taken_isPrefix
    have hprefix := @split_isPrefixOf _ cap enByte.toNat_pos s.receiver.socket.arrived rest
    rw [hrest, h.split_accepted, hframes] at hprefix
    exact (List.prefix_append _ _).trans hprefix
  · obtain ⟨n, bs, session', w, r', q, hsender⟩ := h.sender
    have hdone := hat.noStall hq.receiver
    rw [hat.frames_eq, hq.arrived] at hdone
    obtain hall | ⟨hheld, -⟩ := hsender.flows.complete hok hq.sender
    · rw [hdone, hall, hsender.written_eq, h.split_accepted]
    · -- what is in the socket has not arrived
      have hle := h.arrived.length_le
      rw [hq.arrived, taken, List.length_take] at hle
      have hfits := hsender.held
      omega

theorem step (h : s.Linked enByte cap) {a : Action} (hok : s.Kept a) (ht : s.step a = some t) :
    t.Linked enByte cap := by
  cases a with
  | sender a =>
      obtain ⟨sender, hstep, rfl⟩ := Option.map_eq_some_iff.mp ht
      obtain ⟨n, bs, session, w, r, q, hat⟩ := h.sender
      obtain ⟨v, session', r', stored, hreceiver⟩ := h.receiver
      obtain ⟨⟨session₁, w₁, r₁, q₁, hat₁⟩, haccepted, xs, hsent, hheld⟩ := hat.step hstep
      refine ⟨⟨n, bs, session₁, w₁, r₁, q₁, hat₁⟩, h.receiver, ?_, ?_⟩
      · obtain hsame | hmore := haccepted
        · rw [hsame]
          exact h.accepted
        · rw [hmore]
          refine List.forall_mem_append.mpr ⟨h.accepted, fun p hp => ?_⟩
          obtain ⟨hne, hvalid⟩ := hok p hp
          have hp := hvalid r'.rbuff hreceiver.rbuff_eq
          rw [hreceiver.active.stores.enByte_eq, hreceiver.active.stores.limit_eq] at hp
          exact ⟨hne, hp⟩
      · -- more bytes have left the socket
        refine h.arrived.trans ?_
        have hle : s.sender.sent.length - s.sender.socket.held ≤
            sender.sent.length - sender.socket.held := by
          rw [hsent, List.length_append]
          omega
        have hfits : s.sender.sent.length - s.sender.socket.held ≤ s.sender.sent.length :=
          Nat.sub_le _ _
        rw [taken, taken, ← List.take_append_of_le_length hfits, ← hsent]
        exact List.take_prefix_take_left hle
  | receiver a =>
      simp only [EndToEnd.step, Option.ite_none_right_eq_some] at ht
      obtain ⟨harrived, ht⟩ := ht
      obtain ⟨receiver, hstep, rfl⟩ := Option.map_eq_some_iff.mp ht
      obtain ⟨v, session, r, stored, hat⟩ := h.receiver
      obtain ⟨rest, hrest⟩ := harrived.trans h.taken_isPrefix
      have hstream : ValidPrefix enByte.toNat cap
          (s.receiver.socket.arrived ++ a.arrivals) :=
        ⟨s.sender.accepted, rest, fun p hp => (h.accepted p hp).2, hrest.symm⟩
      have hnonempty :
          [] ∉ (split enByte.toNat cap (s.receiver.socket.arrived ++ a.arrivals)).1 := by
        have hbegin := @split_isPrefixOf _ cap enByte.toNat_pos
          (s.receiver.socket.arrived ++ a.arrivals) rest
        rw [hrest, h.split_accepted] at hbegin
        exact fun hmem => (h.accepted [] (hbegin.subset hmem)).1 rfl
      have hbuff : s.receiver.rbuff.map (fun b => (b.enByte.toNat, b.limit)) =
          some (enByte.toNat, cap) := by
        rw [hat.rbuff_eq, Option.map_some, hat.active.stores.enByte_eq,
          hat.active.stores.limit_eq]
      obtain ⟨session', r', stored', hat'⟩ :=
        hat.step (ReadStall.kept_of_nonempty hstream hnonempty hok hbuff rfl) hstep
      refine ⟨h.sender, ⟨v, session', r', stored', hat'⟩, h.accepted, ?_⟩
      rw [ReadStall.step_arrived hstep]
      exact harrived

end Linked

theorem Init.linked {s : EndToEnd} (h : Init s) : ∃ enByte cap, s.Linked enByte cap := by
  obtain ⟨enByte, n, bs, session, w, hsender⟩ := h.sender.at
  obtain ⟨v, enByte', cap, session', r, stored, hreceiver⟩ := h.receiver.at
  have henByte := h.enByte
  rw [hsender.wsession_eq, hreceiver.rbuff_eq, Option.map_some, Option.map_some,
    hsender.rep.enByte, hreceiver.active.stores.enByte_eq, Option.some.injEq] at henByte
  subst henByte
  refine ⟨enByte, cap, ⟨n, bs, session, w, 0, [], hsender⟩, ⟨v, session', r, stored, hreceiver⟩, ?_,
    ?_⟩
  · rw [h.sender.accepted]
    exact fun p hp => absurd hp List.not_mem_nil
  · rw [h.receiver.arrived]
    exact List.nil_prefix

end EndToEnd

theorem EndToEnd.linked_of_reachable {s : EndToEnd} (h : endToEnd.ReachableVia EndToEnd.Kept s) :
    ∃ enByte cap, s.Linked enByte cap := by
  apply h.invariant
  · exact fun s hs => hs.linked
  · rintro s t a ⟨enByte, cap, hlinked⟩ hok hstep
    exact ⟨enByte, cap, hlinked.step hok hstep⟩

namespace EndToEnd

/-- Two sessions after `net_socket_cfg`. -/
def configured : EndToEnd where
  sender := .configured
  receiver := .configured .useBuff

theorem init_configured : endToEnd.Init configured :=
  ⟨WriteStall.init_configured, ReadStall.init_configured .useBuff, rfl⟩

theorem step_receiver {s : EndToEnd} {a : ReadStall.Action} {receiver : ReadStall}
    (harrived : s.receiver.socket.arrived ++ a.arrivals <+: taken s.sender)
    (ht : s.receiver.step a = some receiver) :
    endToEnd.step s (.receiver a) = some { s with receiver := receiver } := by
  simp only [endToEnd, step, if_pos harrived, ht, Option.map_some]

end EndToEnd

end RandServer
