import RandServer.Net.NetService
import RandServer.Tool.SbtreeDelete

/-!
# Closing with a rest to send, with epoll

`net_socket_close` with `send_rest` registers the socket for writing and puts the session
into `close_root`. Later events find it there, and `handle_rest` sends on until nothing is
left. `Flushes` says what is promised about the bytes of the send buffer, for both back
ends, and `EpollClose` is the life of one session from the call on.

The session in `close_root` is behind a pointer. The tree of the model holds the record
as it was at the insertion, and the state holds the record as it is.
-/

namespace RandServer

open KeySeq SbTree

/-! ## The rest of a closed session -/

/-- The flags of an event. `err` stands for `EPOLLERR` and `EPOLLHUP`. -/
structure PollEvents where
  err : Bool
  out : Bool
  inp : Bool

/-- `release_rest_session`. -/
def releaseRestSession (s : NetService) (session : NetSession) : Option NetService := do
  let fuel := s.closeRoot.count * s.closeRoot.count + 1
  let (_, closeRoot) ← sbTreeDelete fuel session.id s.closeRoot
  some { s with closeRoot := closeRoot, mem := releaseNetSession s.mem (cleanEpollOp session) }

/-- `handle_rest`: whether the session is released, and the service and the session. -/
def handleRest (s : NetService) (session : NetSession) (events : PollEvents) (sys : Syscalls) :
    Option (Bool × NetService × NetSession) :=
  let release := fun (s : NetService) (session : NetSession) =>
    (releaseRestSession s session).map fun s => (true, s, session)
  if events.err then release s session
  else if events.out then
    if session.wsession.all (fun w => !w.sendRest) then release s session
    else do
      let (ret, s, session) ← postRestWrite s session sys
      if ret ≤ 0 then release s session else some (false, s, session)
  else if events.inp then some (false, s, session)
  else release s session

/-- The bytes that the loop of `post_rest_write` hands to the socket. -/
def postRestWriteSent (m : Memory UInt8) (w : WriteSession) : List SendResult → List UInt8
  | [] => []
  | res :: sends =>
      let (size, ptr) := sendBuffPrepare w.sbuff
      if size = 0 then []
      else
        match res with
        | .error _ => []
        | .sent n =>
            let res := sendBuffConsume m w.sbuff n
            w.sbuff.peek ptr n ++ postRestWriteSent res.2 { w with sbuff := res.1 } sends

/-- A failing call reports an error. -/
def SendResult.Valid : SendResult → Prop
  | .sent _ => True
  | .error e => e ≠ 0

instance : (res : SendResult) → Decidable res.Valid
  | .sent _ => inferInstanceAs (Decidable True)
  | .error e => inferInstanceAs (Decidable (e ≠ 0))

/-! ## The promise -/

/-- The bytes of the send buffer go out in order, and without errors the session is
released once, as soon as they are out. Until then something is waiting to go on. -/
structure Flushes (content sent : List UInt8) (released : Nat) (failed : Bool) (waiting : Prop) :
    Prop where
  inOrder : sent <+: content
  once : released ≤ 1
  complete : failed = false → (released = 1 ↔ sent = content)
  goesOn : released = 0 → waiting

/-! ## One session -/

/-- A session, the service that closes it, and what has become of it. -/
structure EpollClose where
  service : NetService
  session : NetSession
  /-- The bytes of the send buffer when the session is closed. -/
  content : List UInt8
  sent : List UInt8
  closed : Bool
  released : Nat
  failed : Bool

namespace EpollClose

/-- The outcomes of the system calls and allocations are arguments. Other sessions use
`close_root` at any time. -/
inductive Action
  | close (sys : Syscalls)
  | event (events : PollEvents) (sends : List SendResult)
  | others (a : SbTree.Action Nat NetSession)

/-- What the call leaves of the session. -/
def rest (session : NetSession) : NetSession :=
  { session with
    rsession := none
    wsession := session.wsession.map fun w => { w with sendRest := true }
    lsession := none }

/-- The session waits for the socket. -/
def posted (session : NetSession) : Bool := session.wsession.any fun w => w.op = opNetWrite

/-- The bytes that an event hands to the socket. -/
def handed (s : EpollClose) (events : PollEvents) (sends : List SendResult) : List UInt8 :=
  if !events.err && events.out then
    s.session.wsession.elim [] fun w =>
      postRestWriteSent s.service.mem { w with etflag := false } sends
  else []

/-- An event reports an error, or sending does. -/
def fails (s : EpollClose) (events : PollEvents) (sends : List SendResult) : Bool :=
  events.err || events.out && s.session.wsession.any fun w =>
    (postRestWriteLoop s.service.mem { w with etflag := false } sends).any fun res => res.1 < 0

def step (s : EpollClose) : Action → Option EpollClose
  | .close sys =>
      if s.closed then none
      else do
        let service ← netSocketClose s.service s.session.id true sys
        let (_, _, session) ← postWrite s.service (cleanEpollOp s.session) sys
        some { s with
          service := service
          session := rest session
          closed := true
          released := if posted session then 0 else 1
          failed := NetService.postWriteFails (cleanEpollOp s.session) sys }
  | .event events sends =>
      if s.closed = false ∨ ¬ (events.err || events.out || events.inp) then none
      else if ¬ ∀ res ∈ sends, res.Valid then none
      else if (sbTreeFind s.session.id s.service.closeRoot).isNil then some s
      else do
        let (done, service, session) ← handleRest s.service s.session events { sends := sends }
        some { s with
          service := service
          session := session
          sent := s.sent ++ s.handed events sends
          released := s.released + if done then 1 else 0
          failed := s.failed || s.fails events sends }
  | .others a =>
      (s.service.closeRoot.step a).map fun closeRoot =>
        { s with service := { s.service with closeRoot := closeRoot } }

/-- A session is in its slot with any contents of its send buffer. The tree has a history
without defective deletions. -/
structure Init (s : EpollClose) : Prop where
  slot : s.service.sessions (ffidIndex s.service.socketIds s.session.id) = some s.session
  id_pos : 0 < s.session.id
  stores : ∃ w enByte n bs r, s.session.wsession = some w ∧
    SendBuff.Rep enByte n bs w.sbuff r s.content
  history : (sbTree Nat NetSession).ReachableVia SbTree.Safe s.service.closeRoot
  sent : s.sent = []
  closed : s.closed = false
  released : s.released = 0
  failed : s.failed = false

/-- The event ends the session: it reports an error, or the socket takes all that is left. -/
def Ends (s : EpollClose) (events : PollEvents) (sends : List SendResult) : Prop :=
  s.fails events sends = true ∨ s.sent ++ s.handed events sends = s.content

instance (s : EpollClose) (events : PollEvents) (sends : List SendResult) :
    Decidable (s.Ends events sends) := inferInstanceAs (Decidable (_ ∨ _))

/-- The session gets its place in `close_root` and can be removed from there in the end, and
other sessions use the tree for other ids, without defective deletions. -/
def Kept (s : EpollClose) : Action → Prop
  | .close sys => sys.alloc = true ∧ s.service.closeRoot.count + 1 < 2 ^ 32 ∧
      keyCount s.session.id s.service.closeRoot.inOrder = 0
  | .event events sends => s.Ends events sends → Deletable s.session.id s.service.closeRoot
  | .others a => s.service.closeRoot.Safe a ∧ a.key ≠ s.session.id

instance (s : EpollClose) : (a : Action) → Decidable (s.Kept a)
  | .close _ => inferInstanceAs (Decidable (_ ∧ _ ∧ _))
  | .event events sends =>
      inferInstanceAs (Decidable (s.Ends events sends → Deletable s.session.id s.service.closeRoot))
  | .others _ => inferInstanceAs (Decidable (_ ∧ _))

end EpollClose

def epollClose : Machine EpollClose EpollClose.Action where
  Init := EpollClose.Init
  step := EpollClose.step

/-! ## Sending on -/

section Sending

variable {enByte : EnByteSize} {n bs r : Nat} {q : List UInt8} {m m' : Memory UInt8}
variable {w w' : WriteSession} {sends : List SendResult} {ret : Int}

/-- The loop hands over a part of the stored bytes and keeps the rest. It returns zero
when there is no rest, and a positive number only if there is one. -/
theorem postRestWriteLoop_spec (h : SendBuff.Rep enByte n bs w.sbuff r q)
    (hvalid : ∀ res ∈ sends, res.Valid)
    (ht : postRestWriteLoop m w sends = some (ret, w', m')) :
    ∃ r' q', SendBuff.Rep enByte n bs w'.sbuff r' q' ∧ w'.sendRest = w.sendRest ∧
      postRestWriteSent m w sends ++ q' = q ∧ (ret = 0 → q' = []) ∧ (0 < ret → q' ≠ []) := by
  induction sends generalizing m w r q with
  | nil =>
      rw [postRestWriteLoop] at ht
      split_ifs at ht with hzero
      cases ht
      exact ⟨r, q, h, rfl, rfl, fun _ => h.prepare_eq_zero.mp hzero,
        fun hpos => absurd hpos (lt_irrefl 0)⟩
  | cons res sends ih =>
      cases res with
      | error e =>
          have he : e ≠ 0 := hvalid _ List.mem_cons_self
          simp only [postRestWriteLoop, postRestWriteSent] at ht ⊢
          split_ifs at ht ⊢ with hzero hagain
          · cases ht
            exact ⟨r, q, h, rfl, rfl, fun _ => h.prepare_eq_zero.mp hzero,
              fun hpos => absurd hpos (lt_irrefl 0)⟩
          · cases ht
            exact ⟨r, q, h, rfl, rfl, fun hret => absurd hret (by omega),
              fun _ hnil => hzero (h.prepare_eq_zero.mpr hnil)⟩
          · cases ht
            exact ⟨r, q, h, rfl, rfl, fun hret => absurd hret (by omega),
              fun hpos => absurd hpos (by omega)⟩
      | sent k =>
          simp only [postRestWriteLoop, postRestWriteSent] at ht ⊢
          split_ifs at ht ⊢ with hzero hlt
          · cases ht
            exact ⟨r, q, h, rfl, rfl, fun _ => h.prepare_eq_zero.mp hzero,
              fun hpos => absurd hpos (lt_irrefl 0)⟩
          · have hle : k ≤ (sendBuffPrepare w.sbuff).1 := Nat.le_of_not_lt hlt
            obtain ⟨hrep, -⟩ := h.consume (Nat.le_trans hle h.prepare_le) (m := m)
            obtain ⟨r', q', hrep', hrest, hsplit, hret⟩ :=
              ih hrep (fun res hres => hvalid res (List.mem_cons_of_mem _ hres)) ht
            refine ⟨r', q', hrep', hrest, ?_, hret⟩
            rw [h.peek_eq hle, List.append_assoc, hsplit, List.take_append_drop]

end Sending

/-! ## What the steps do -/

namespace EpollClose

variable {s t : NetService} {session session' : NetSession} {w : WriteSession} {sys : Syscalls}

/-- Posting the write of a session without posted operations: it is posted, or there is
nothing to write or an error. -/
theorem postWrite_clean (hw : session.wsession = some w) :
    ∃ ret t session', postWrite s (cleanEpollOp session) sys = some (ret, t, session') ∧
      t.closeRoot = s.closeRoot ∧ session'.id = session.id ∧
      (session'.wsession = some { w with op := opNetWrite } ∧ (sendBuffPrepare w.sbuff).1 ≠ 0 ∧
          NetService.postWriteFails (cleanEpollOp session) sys = false ∨
        posted session' = false ∧
          (NetService.postWriteFails (cleanEpollOp session) sys = false →
            (sendBuffPrepare w.sbuff).1 = 0)) := by
  have hclean : (cleanEpollOp session).wsession = some { w with op := opNetNone } := by
    rw [cleanEpollOp, hw]
    rfl
  have hnone : decide (opNetNone = opNetWrite) = false := rfl
  by_cases hzero : (sendBuffPrepare w.sbuff).1 = 0
  · refine ⟨0, s, cleanEpollOp session, ?_, rfl, rfl, .inr ⟨?_, fun _ => hzero⟩⟩
    · simp only [postWrite, hclean, hzero, ne_eq, not_true, if_false, if_true]
    · rw [posted, hclean, Option.any_some, hnone]
  · by_cases hctl : epollCtlOp (cleanEpollOp session) opNetWrite sys.epollCtl = 0
    · refine ⟨1, s, { cleanEpollOp session with wsession := some { w with op := opNetWrite } },
        ?_, rfl, rfl, .inl ⟨rfl, hzero, ?_⟩⟩
      · simp only [postWrite, hclean, hzero, hctl, ne_eq, not_true, if_false]
      · simp [NetService.postWriteFails, hctl, hclean]
    · generalize hpush : pushQueue s (cleanEpollOp session) (writeError ||| eveError) sys.errno =
        res
      obtain ⟨ret, t, session'⟩ := res
      have hkeep : t.closeRoot = s.closeRoot ∧ session'.id = session.id ∧
          session'.wsession = some { w with op := opNetNone } := by
        unfold pushQueue at hpush
        dsimp only at hpush
        split at hpush
        · cases hpush
          exact ⟨rfl, rfl, hclean⟩
        · cases hpush
          exact ⟨rfl, rfl, hclean⟩
      refine ⟨1, t, cleanEpollOp session', ?_, hkeep.1, hkeep.2.1, .inr ⟨?_, fun hno => ?_⟩⟩
      · simp only [postWrite, hclean, hzero, hctl, ne_eq, not_true, not_false_iff, if_false,
          if_true, hpush]
      · rw [posted, cleanEpollOp, hkeep.2.2, Option.map_some, Option.any_some, hnone]
      · simp [NetService.postWriteFails, hctl, hclean, hzero] at hno

/-- A session whose write is posted is inserted into `close_root`. -/
theorem netSocketCloseDetach_closeRoot (index nd : Nat) (alloc : Bool) :
    (netSocketCloseDetach s index nd true alloc session).closeRoot =
      if posted session then
        (sbTreeInsert ((s.closeRoot.count + 1) * (s.closeRoot.count + 1) + 1) alloc nd
          (rest session) s.closeRoot).getD s.closeRoot
      else s.closeRoot := by
  cases hw : session.wsession with
  | none =>
      simp only [netSocketCloseDetach, hw, posted, Option.any_none, Bool.false_eq_true, if_false,
        NetService.setSession]
  | some w =>
      by_cases hop : w.op = opNetWrite
      · simp only [netSocketCloseDetach, hw, hop, if_true, posted, Option.any_some, decide_true,
          rest, Option.map_some, NetService.setSession]
      · simp only [netSocketCloseDetach, hw, hop, if_false, posted, Option.any_some, decide_false,
          Bool.false_eq_true, NetService.setSession]

/-- Sending on from a session. -/
theorem postRestWrite_spec {enByte : EnByteSize} {n bs r : Nat} {q : List UInt8} {ret : Int}
    (hw : session.wsession = some w) (hrep : SendBuff.Rep enByte n bs w.sbuff r q)
    (hvalid : ∀ res ∈ sys.sends, res.Valid)
    (ht : postRestWrite s session sys = some (ret, t, session')) :
    t.closeRoot = s.closeRoot ∧ session'.id = session.id ∧
      (postRestWriteLoop s.mem { w with etflag := false } sys.sends).any (·.1 < 0) =
        decide (ret < 0) ∧
      ∃ w' r' q', session'.wsession = some w' ∧ w'.sendRest = w.sendRest ∧
        SendBuff.Rep enByte n bs w'.sbuff r' q' ∧
        postRestWriteSent s.mem { w with etflag := false } sys.sends ++ q' = q ∧
        (ret = 0 → q' = []) ∧ (0 < ret → q' ≠ []) := by
  simp only [postRestWrite, hw] at ht
  obtain ⟨⟨ret', w', mem⟩, hloop, heq⟩ := Option.bind_eq_some_iff.mp ht
  cases heq
  obtain ⟨r', q', hrep', hrest, hsent, hret⟩ :=
    postRestWriteLoop_spec (w := { w with etflag := false }) hrep hvalid hloop
  exact ⟨rfl, rfl, by rw [hloop, Option.any_some], w', r', q', rfl, hrest, hrep', hsent, hret⟩

/-- The entry of a session leaves `close_root` with the session. -/
theorem releaseRestSession_spec (htree : s.closeRoot.Inv)
    (hdel : Deletable session.id s.closeRoot)
    (hone : keyCount session.id s.closeRoot.inOrder = 1)
    (ht : releaseRestSession s session = some t) :
    t.closeRoot.Inv ∧ keyCount session.id t.closeRoot.inOrder = 0 := by
  obtain ⟨⟨ret, root⟩, hroot, heq⟩ := Option.bind_eq_some_iff.mp ht
  cases heq
  obtain ⟨hinv, record, hdone⟩ := htree.delete_result hdel hroot
  refine ⟨hinv, ?_⟩
  rcases hdone with ⟨-, hrem⟩ | ⟨-, hnot, -⟩
  · have hcount : keyCount session.id s.closeRoot.inOrder =
        keyCount session.id root.inOrder + if session.id = session.id then 1 else 0 :=
      hrem.keyCount
    rw [if_pos rfl] at hcount
    dsimp only
    omega
  · have hzero := keyCount_eq_zero_iff.mpr hnot
    omega

/-! ## The invariant -/

/-- Before the call. -/
structure Open (s : EpollClose) : Prop where
  slot : s.service.sessions (ffidIndex s.service.socketIds s.session.id) = some s.session
  id_pos : 0 < s.session.id
  stores : ∃ w enByte n bs r, s.session.wsession = some w ∧
    SendBuff.Rep enByte n bs w.sbuff r s.content
  sent : s.sent = []
  closed : s.closed = false
  released : s.released = 0
  failed : s.failed = false

/-- The session is in `close_root`, with the bytes that are not sent yet. -/
structure Waiting (s : EpollClose) : Prop where
  listed : keyCount s.session.id s.service.closeRoot.inOrder = 1
  stores : ∃ w enByte n bs r q, s.session.wsession = some w ∧ w.sendRest = true ∧
    SendBuff.Rep enByte n bs w.sbuff r q ∧ q ≠ [] ∧ s.sent ++ q = s.content
  closed : s.closed = true
  released : s.released = 0
  failed : s.failed = false

/-- The session is gone. -/
structure Done (s : EpollClose) : Prop where
  gone : keyCount s.session.id s.service.closeRoot.inOrder = 0
  inOrder : s.sent <+: s.content
  complete : s.failed = false → s.sent = s.content
  closed : s.closed = true
  released : s.released = 1

def Inv (s : EpollClose) : Prop :=
  s.service.closeRoot.Inv ∧ (s.Open ∨ s.Waiting ∨ s.Done)

theorem Init.inv {s : EpollClose} (h : Init s) : s.Inv :=
  ⟨SbTree.Inv.of_history h.history,
    .inl ⟨h.slot, h.id_pos, h.stores, h.sent, h.closed, h.released, h.failed⟩⟩

section Step

variable {s t : EpollClose}

theorem Waiting.event {events : PollEvents} {sends : List SendResult} {done : Bool}
    {service : NetService} {session : NetSession} (h : s.Waiting) (htree : s.service.closeRoot.Inv)
    (hdel : s.Ends events sends → Deletable s.session.id s.service.closeRoot)
    (hsome : (events.err || events.out || events.inp) = true) (hvalid : ∀ res ∈ sends, res.Valid)
    (ht : handleRest s.service s.session events { sends := sends } =
      some (done, service, session)) :
    Inv { s with
      service := service
      session := session
      sent := s.sent ++ s.handed events sends
      released := s.released + if done then 1 else 0
      failed := s.failed || s.fails events sends } := by
  obtain ⟨w, enByte, n, bs, r, q, hw, hrest, hrep, hne, hsplit⟩ := h.stores
  have hrel := h.released
  obtain ⟨err, out, inp⟩ := events
  cases err with
  | true =>
      obtain ⟨service', hrelease, heq⟩ := Option.map_eq_some_iff.mp ht
      cases heq
      obtain ⟨htree', hgone⟩ :=
        releaseRestSession_spec htree (hdel (.inl (by simp [fails]))) h.listed hrelease
      refine ⟨htree', .inr (.inr ⟨hgone, ?_, ?_, h.closed, ?_⟩)⟩
      · exact ⟨q, by simpa [handed] using hsplit⟩
      · simp [fails]
      · simp [hrel]
  | false =>
    cases out with
    | false =>
        cases inp with
        | false => cases hsome
        | true =>
            cases ht
            refine ⟨htree, .inr (.inl ⟨h.listed, ?_, h.closed, ?_, ?_⟩)⟩
            · exact ⟨w, enByte, n, bs, r, q, hw, hrest, hrep, hne, by simpa [handed] using hsplit⟩
            · simp [hrel]
            · simp [fails, h.failed]
    | true =>
        have hall : s.session.wsession.all (fun w => !w.sendRest) = false := by
          rw [hw, Option.all_some, hrest, Bool.not_true]
        simp only [handleRest, hall, Bool.false_eq_true, if_false, if_true] at ht
        obtain ⟨⟨ret, service', session'⟩, hpost, ht⟩ := Option.bind_eq_some_iff.mp ht
        obtain ⟨hroot, hid, hneg, w', r', q', hw', hrest', hrep', hsent, hzero, hpos⟩ :=
          postRestWrite_spec hw hrep hvalid hpost
        have hhanded : s.handed ⟨false, true, inp⟩ sends =
            postRestWriteSent s.service.mem { w with etflag := false } sends := by
          rw [handed, hw]
          rfl
        have hfails : s.fails ⟨false, true, inp⟩ sends = decide (ret < 0) := by
          rw [fails, hw]
          exact hneg
        have hall : (s.sent ++ s.handed ⟨false, true, inp⟩ sends) ++ q' = s.content := by
          rw [hhanded, List.append_assoc, hsent, hsplit]
        rw [← hroot] at htree
        have hlisted := h.listed
        rw [← hroot, ← hid] at hlisted
        dsimp only at ht
        split_ifs at ht with hret
        · obtain ⟨service'', hrelease, heq⟩ := Option.map_eq_some_iff.mp ht
          cases heq
          have hends : s.Ends ⟨false, true, inp⟩ sends := by
            rcases Int.lt_or_eq_of_le hret with hneg | hnone
            · exact .inl (by rw [hfails]; exact decide_eq_true hneg)
            · rw [hzero hnone, List.append_nil] at hall
              exact .inr hall
          have hdel := hdel hends
          rw [← hroot, ← hid] at hdel
          obtain ⟨htree', hgone⟩ := releaseRestSession_spec htree hdel hlisted hrelease
          refine ⟨htree', .inr (.inr ⟨hgone, ⟨q', hall⟩, fun hfailed => ?_, h.closed, ?_⟩)⟩
          · simp only [hfails, Bool.or_eq_false_iff, decide_eq_false_iff_not, not_lt] at hfailed
            rw [hzero (le_antisymm hret hfailed.2), List.append_nil] at hall
            exact hall
          · simp only [hrel, if_true]
        · cases ht
          refine ⟨htree, .inr (.inl ⟨hlisted, ?_, h.closed, ?_, ?_⟩)⟩
          · exact ⟨w', enByte, n, bs, r', q', hw', hrest'.trans hrest, hrep',
              hpos (not_le.mp hret), hall⟩
          · simp only [hrel, Bool.false_eq_true, if_false]
          · simp only [hfails, h.failed, Bool.false_or, decide_eq_false_iff_not]
            omega

theorem Open.close {sys : Syscalls} (h : s.Open) (htree : s.service.closeRoot.Inv)
    (halloc : sys.alloc = true) (hcount : s.service.closeRoot.count + 1 < 2 ^ 32)
    (hfresh : keyCount s.session.id s.service.closeRoot.inOrder = 0)
    (ht : s.step (.close sys) = some t) : t.Inv := by
  obtain ⟨w, enByte, n, bs, r, hw, hrep⟩ := h.stores
  obtain ⟨ret, service, session, hpost, hroot, hid, hcase⟩ :=
    @postWrite_clean s.service s.session w sys hw
  have hidpos := h.id_pos
  have hclear : netSocketClose s.service s.session.id true sys = some (netSocketCloseRelease
      (netSocketCloseDetach service (ffidIndex s.service.socketIds s.session.id) s.session.id true
        sys.alloc session) s.session.id) := by
    simp only [netSocketClose, netSocketCloseClear, h.slot, hpost, Nat.ne_of_gt hidpos, if_false,
      if_true, ne_eq, not_true, Option.map_some, Option.bind_eq_bind, Option.bind_some]
  simp only [step, h.closed, Bool.false_eq_true, if_false, hclear, hpost, Option.bind_eq_bind,
    Option.bind_some, Option.some.injEq] at ht
  subst ht
  rcases hcase with ⟨hposted, hsize, hok⟩ | ⟨hposted, hok⟩
  · have hyes : posted session = true := by
      rw [posted, hposted, Option.any_some]
      exact decide_eq_true rfl
    have hfits : (sbTreeInsertNode _ s.session.id (rest session)
        s.service.closeRoot).isSome :=
      sbTreeInsertNode_isSome htree.sized hcount (Nat.le_refl _) (Nat.lt_succ_self _)
    obtain ⟨root, hins⟩ := Option.isSome_iff_exists.mp hfits
    obtain ⟨htree', hadds⟩ := htree.insert hcount hins
    have hroot' : (netSocketCloseDetach service (ffidIndex s.service.socketIds s.session.id)
        s.session.id true sys.alloc session).closeRoot = root := by
      rw [netSocketCloseDetach_closeRoot, if_pos hyes, hroot, halloc]
      simp only [sbTreeInsert, if_true, hins, Option.getD_some]
    refine ⟨by rw [← hroot'] at htree'; exact htree', .inr (.inl ⟨?_, ?_, rfl, ?_, hok⟩)⟩
    · simp only [rest, netSocketCloseRelease, hroot', hid]
      rw [hadds.keyCount, hfresh, if_pos rfl]
    · refine ⟨{ w with op := opNetWrite, sendRest := true }, enByte, n, bs, r, s.content, ?_, rfl,
        hrep, ?_, ?_⟩
      · rw [rest, hposted]
        rfl
      · exact fun hnil => hsize (hrep.prepare_eq_zero.mpr hnil)
      · rw [h.sent, List.nil_append]
    · simp only [hyes, if_true]
  · have hroot' : (netSocketCloseDetach service (ffidIndex s.service.socketIds s.session.id)
        s.session.id true sys.alloc session).closeRoot = s.service.closeRoot := by
      rw [netSocketCloseDetach_closeRoot, hposted, if_neg Bool.false_ne_true, hroot]
    refine ⟨by rw [← hroot'] at htree; exact htree, .inr (.inr ⟨?_, ?_, fun hno => ?_, rfl, ?_⟩)⟩
    · simp only [rest, netSocketCloseRelease, hroot', hid]
      exact hfresh
    · rw [h.sent]
      exact List.nil_prefix
    · rw [h.sent, hrep.prepare_eq_zero.mp (hok hno)]
    · simp only [hposted, Bool.false_eq_true, if_false]

theorem Inv.step {a : Action} (h : s.Inv) (hok : s.Kept a) (ht : s.step a = some t) : t.Inv := by
  obtain ⟨htree, hphase⟩ := h
  cases a with
  | close sys =>
      obtain ⟨halloc, hcount, hfresh⟩ := hok
      rcases hphase with hopen | hwait | hdone
      · exact hopen.close htree halloc hcount hfresh ht
      · simp [EpollClose.step, hwait.closed] at ht
      · simp [EpollClose.step, hdone.closed] at ht
  | event events sends =>
      simp only [EpollClose.step] at ht
      split_ifs at ht with hallowed hvalid hnil
      · cases ht
        exact ⟨htree, hphase⟩
      · obtain ⟨⟨done, service, session⟩, hrest, heq⟩ := Option.bind_eq_some_iff.mp ht
        cases heq
        obtain ⟨hclosed, hsome⟩ := not_or.mp hallowed
        rcases hphase with hopen | hwait | hdone
        · exact absurd hopen.closed hclosed
        · exact hwait.event htree hok (not_not.mp hsome) hvalid hrest
        · refine absurd ?_ hnil
          have hfind := (sbTreeFind_eq_nil_iff htree.ordered).mpr
            (keyCount_eq_zero_iff.mp hdone.gone)
          rw [hfind]
          rfl
  | others a =>
      obtain ⟨hsafe, hne⟩ := hok
      obtain ⟨root, hroot, rfl⟩ := Option.map_eq_some_iff.mp ht
      have hcount := htree.step_keyCount hsafe hne hroot
      refine ⟨htree.step hsafe hroot, ?_⟩
      rcases hphase with hopen | hwait | hdone
      · exact .inl ⟨hopen.slot, hopen.id_pos, hopen.stores, hopen.sent, hopen.closed,
          hopen.released, hopen.failed⟩
      · exact .inr (.inl ⟨hcount.trans hwait.listed, hwait.stores, hwait.closed, hwait.released,
          hwait.failed⟩)
      · exact .inr (.inr ⟨hcount.trans hdone.gone, hdone.inOrder, hdone.complete, hdone.closed,
          hdone.released⟩)

theorem Inv.flushes (h : s.Inv) (hclosed : s.closed = true) :
    Flushes s.content s.sent s.released s.failed
      (HasKey s.session.id s.service.closeRoot.inOrder) := by
  obtain ⟨-, hopen | hwait | hdone⟩ := h
  · cases hopen.closed.symm.trans hclosed
  · obtain ⟨w, enByte, n, bs, r, q, hw, hrest, hrep, hne, hsplit⟩ := hwait.stores
    have hrel := hwait.released
    refine ⟨⟨q, hsplit⟩, by omega, fun _ => ⟨fun hone => by omega, fun heq => ?_⟩, fun _ => ?_⟩
    · rw [heq] at hsplit
      exact absurd (List.append_right_eq_self.mp hsplit) hne
    · by_contra hnot
      have hzero := keyCount_eq_zero_iff.mpr hnot
      rw [hwait.listed] at hzero
      cases hzero
  · have hrel := hdone.released
    exact ⟨hdone.inOrder, by omega, fun hok => ⟨fun _ => hdone.complete hok, fun _ => hrel⟩,
      fun hzero => by omega⟩

end Step

end EpollClose

/-- With epoll the rest is flushed in every run that uses `close_root` for other ids only
and meets no defective node there. -/
theorem epollClose_run {s : EpollClose} (h : epollClose.ReachableVia EpollClose.Kept s)
    (hclosed : s.closed = true) :
    Flushes s.content s.sent s.released s.failed
      (HasKey s.session.id s.service.closeRoot.inOrder) :=
  have hinv : s.Inv := h.invariant (fun _ hs => EpollClose.Init.inv hs)
    (fun _ _ _ hs hok ht => EpollClose.Inv.step hs hok ht)
  hinv.flushes hclosed

end RandServer
