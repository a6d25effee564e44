import RandServer.Net.CloseEpoll

/-!
# Closing with a rest to send, with completion ports

Writes are overlapped: `post_write` passes the exposed piece of the send buffer to the
system, and `handle_write` consumes what a completion reports. After `net_socket_close`
only the pending operation refers to the write session, and `handle_write` posts the rest
with `post_rest_write`. The guard of that function refuses every write session, so the
session is released at the first completion. `closeRest_flushes` says when that does no
harm.
-/

namespace RandServer

open KeySeq

/-- `struct write_session` with its `iocp_data`: the piece passed to the system. -/
structure IocpWrite where
  id : Nat
  sbuff : SendBuff
  op : Nat
  sendRest : Bool
  fd : Int
  dataBuf : Nat × Option (Nat × Nat)

/-- The outcome of `WSASend`. An operation that is pending is posted. -/
inductive WsaSend
  | posted
  | error

namespace IocpWrite

/-- `post_write`. -/
def postWrite (w : IocpWrite) (res : WsaSend) : Int × IocpWrite :=
  if w.op = opNetWrite then (0, w)
  else
    let piece := sendBuffPrepare w.sbuff
    if piece.1 = 0 then (0, w)
    else
      match res with
      | .posted => (1, { w with op := opNetWrite, dataBuf := piece })
      | .error => (-1, { w with op := opNetNone, dataBuf := (0, none) })

/-- `post_rest_write`. Without the guard the write session is dereferenced. -/
def postRestWrite (service : Bool) (wsession : Option IocpWrite) (res : WsaSend) :
    Option (Int × Option IocpWrite) :=
  if !service || wsession.isSome then some (-1, wsession)
  else
    wsession.map fun w =>
      let piece := sendBuffPrepare w.sbuff
      if piece.1 = 0 then (0, some w)
      else if w.op = opNetWrite then (0, some w)
      else
        let w := { w with op := opNetWrite, dataBuf := piece }
        match res with
        | .posted => (1, some w)
        | .error => (-1, some w)

/-- What becomes of the write session in `handle_write`. A session that is still open goes
on with the result of `post_write`. -/
inductive Fate
  | released
  | rest (w : IocpWrite)
  | live (ret : Int) (w : IocpWrite)

/-- `handle_write`, given the id of the session in the slot. -/
def handleWrite (slot : Option Nat) (m : Memory UInt8) (w : IocpWrite) (ret : Bool) (bytes : Nat)
    (res : WsaSend) : Option (Fate × Memory UInt8) :=
  if w.id = 0 then some (.released, m)
  else
    let consumed := if ret then sendBuffConsume m w.sbuff bytes else (w.sbuff, m)
    let w := { w with op := opNetNone, sbuff := consumed.1 }
    if slot ≠ some w.id then
      if ret && w.sendRest then
        (postRestWrite true (some w) res).map fun posted =>
          (if posted.1 > 0 then posted.2.elim .released .rest else .released, consumed.2)
      else some (.released, consumed.2)
    else
      let posted := postWrite w res
      some (.live posted.1 posted.2, consumed.2)

end IocpWrite

/-! ## One session -/

/-- A write session that is being closed. An operation that the system has not completed
is pending. -/
structure IocpClose where
  mem : Memory UInt8
  slot : Option Nat
  w : IocpWrite
  pending : Bool
  /-- The bytes of the send buffer when the session is closed. -/
  content : List UInt8
  sent : List UInt8
  closed : Bool
  released : Nat
  failed : Bool

namespace IocpClose

/-- A completion reports success and a number of bytes. The slot can be taken by another
session. -/
inductive Action
  | close (res : WsaSend)
  | complete (ret : Bool) (bytes : Nat) (res : WsaSend)
  | others (slot : Option Nat)

/-- `net_socket_close` with `send_rest`. -/
def close (s : IocpClose) (res : WsaSend) : IocpClose :=
  let posted := s.w.postWrite res
  let waits := decide (posted.2.op = opNetWrite)
  { s with
    slot := none
    w := { posted.2 with sendRest := posted.2.sendRest || waits }
    pending := waits
    closed := true
    released := if waits then 0 else 1
    failed := posted.1 < 0 }

def step (s : IocpClose) : Action → Option IocpClose
  | .close res => if s.closed then none else some (s.close res)
  | .complete ret bytes res =>
      if s.closed = false ∨ s.pending = false ∨ s.w.dataBuf.1 < bytes then none
      else do
        let (fate, mem) ← s.w.handleWrite s.slot s.mem ret bytes res
        let s := { s with
          mem := mem
          sent := s.sent ++ if ret then s.w.sbuff.peek s.w.dataBuf.2 bytes else []
          failed := s.failed || !ret }
        match fate with
        | .released => some { s with pending := false, released := s.released + 1 }
        | .rest w => some { s with w := w, pending := true }
        | .live _ w => some { s with w := w, pending := w.op = opNetWrite }
  | .others slot => if s.closed then some { s with slot := slot } else none

/-- A session with any contents of its send buffer, on which a front piece may be
posted. -/
structure Init (s : IocpClose) : Prop where
  slot : s.slot = some s.w.id
  id_pos : 0 < s.w.id
  stores : ∃ enByte n bs r, SendBuff.Rep enByte n bs s.w.sbuff r s.content
  posted : s.w.op = opNetWrite → s.pending = true ∧ 0 < s.w.dataBuf.1 ∧
    s.w.dataBuf.1 ≤ (sendBuffPrepare s.w.sbuff).1 ∧
    s.w.dataBuf.2 = (sendBuffPrepare s.w.sbuff).2
  sent : s.sent = []
  closed : s.closed = false
  released : s.released = 0
  failed : s.failed = false

/-- A successful completion covers all that is left, and no other session gets the id. -/
def Whole (s : IocpClose) : Action → Prop
  | .close _ => True
  | .complete ret bytes _ => ret = true → s.sent.length + bytes = s.content.length
  | .others slot => slot ≠ some s.w.id

instance (s : IocpClose) : (a : Action) → Decidable (s.Whole a)
  | .close _ => inferInstanceAs (Decidable True)
  | .complete _ _ _ => inferInstanceAs (Decidable (_ → _))
  | .others _ => inferInstanceAs (Decidable (_ ≠ _))

end IocpClose

def iocpClose : Machine IocpClose IocpClose.Action where
  Init := IocpClose.Init
  step := IocpClose.step

namespace IocpWrite

variable {m m' : Memory UInt8} {w : IocpWrite} {res : WsaSend} {fate : Fate}

/-- The guard refuses every write session. -/
theorem postRestWrite_refuses (w : IocpWrite) (res : WsaSend) :
    postRestWrite true (some w) res = some (-1, some w) := rfl

/-- So a write session whose session is closed never outlives a completion. -/
theorem handleWrite_closed {slot : Option Nat} {ret : Bool} {bytes : Nat}
    (hslot : slot ≠ some w.id) (ht : handleWrite slot m w ret bytes res = some (fate, m')) :
    fate = .released := by
  unfold handleWrite at ht
  by_cases hid : w.id = 0
  · rw [if_pos hid] at ht
    cases ht
    rfl
  · simp only [if_neg hid, if_pos hslot] at ht
    cases hgo : (ret && w.sendRest) with
    | false =>
        simp only [hgo, Bool.false_eq_true, if_false, Option.some.injEq, Prod.mk.injEq] at ht
        exact ht.1.symm
    | true =>
        simp only [hgo, if_true] at ht
        obtain ⟨posted, hposted, heq⟩ := Option.map_eq_some_iff.mp ht
        rw [postRestWrite_refuses] at hposted
        cases hposted
        cases heq
        rfl

end IocpWrite

/-! ## The invariant -/

namespace IocpClose

/-- The front piece of what is left is posted. -/
structure Waiting (s : IocpClose) : Prop where
  slot : s.slot ≠ some s.w.id
  stores : ∃ enByte n bs r q, SendBuff.Rep enByte n bs s.w.sbuff r q ∧ q ≠ [] ∧
    s.sent ++ q = s.content
  piece_le : s.w.dataBuf.1 ≤ (sendBuffPrepare s.w.sbuff).1
  piece : s.w.dataBuf.2 = (sendBuffPrepare s.w.sbuff).2
  pending : s.pending = true
  closed : s.closed = true
  released : s.released = 0
  failed : s.failed = false

/-- The write session is gone. -/
structure Done (s : IocpClose) : Prop where
  inOrder : s.sent <+: s.content
  complete : s.failed = false → s.sent = s.content
  pending : s.pending = false
  closed : s.closed = true
  released : s.released = 1

def Inv (s : IocpClose) : Prop := s.Init ∨ s.Waiting ∨ s.Done

section Step

variable {s t : IocpClose}

theorem Init.close {res : WsaSend} (h : s.Init) : (s.close res).Inv := by
  obtain ⟨enByte, n, bs, r, hrep⟩ := h.stores
  have hsplit : s.sent ++ s.content = s.content := by rw [h.sent, List.nil_append]
  have hslot : (s.close res).slot ≠ some (s.close res).w.id := nofun
  by_cases hop : s.w.op = opNetWrite
  · obtain ⟨-, hpos, hle, hpiece⟩ := h.posted hop
    have hpost : s.w.postWrite res = (0, s.w) := by rw [IocpWrite.postWrite, if_pos hop]
    have hne : s.content ≠ [] := hrep.prepare_pos.mp (by omega)
    refine .inr (.inl ⟨hslot, ⟨enByte, n, bs, r, s.content, ?_, hne, hsplit⟩, ?_, ?_, ?_, rfl, ?_, ?_⟩)
    · simpa [IocpClose.close, hpost] using hrep
    · simpa [IocpClose.close, hpost] using hle
    · simpa [IocpClose.close, hpost] using hpiece
    all_goals simp [IocpClose.close, hpost, hop]
  · by_cases hzero : (sendBuffPrepare s.w.sbuff).1 = 0
    · have hpost : s.w.postWrite res = (0, s.w) := by
        simp only [IocpWrite.postWrite, if_neg hop, if_pos hzero]
      have hnil := hrep.prepare_eq_zero.mp hzero
      refine .inr (.inr ⟨⟨s.content, hsplit⟩, fun _ => ?_, ?_, rfl, ?_⟩)
      · exact h.sent.trans hnil.symm
      all_goals simp [IocpClose.close, hpost, hop]
    · cases res with
      | posted =>
          have hpost : s.w.postWrite .posted = (1, { s.w with
              op := opNetWrite, dataBuf := sendBuffPrepare s.w.sbuff }) := by
            simp only [IocpWrite.postWrite, if_neg hop, if_neg hzero]
          have hne : s.content ≠ [] := fun hnil => hzero (hrep.prepare_eq_zero.mpr hnil)
          refine .inr (.inl ⟨hslot, ⟨enByte, n, bs, r, s.content, ?_, hne, hsplit⟩, ?_, ?_, ?_,
            rfl, ?_, ?_⟩)
          · simpa [IocpClose.close, hpost] using hrep
          all_goals simp [IocpClose.close, hpost]
      | error =>
          have hpost : s.w.postWrite .error = (-1, { s.w with
              op := opNetNone, dataBuf := (0, none) }) := by
            simp only [IocpWrite.postWrite, if_neg hop, if_neg hzero]
          have hnone : opNetNone ≠ opNetWrite := by decide
          refine .inr (.inr ⟨⟨s.content, hsplit⟩, fun hok => ?_, ?_, rfl, ?_⟩)
          · simp [IocpClose.close, hpost] at hok
          all_goals simp [IocpClose.close, hpost, hnone]

/-- A completion releases the write session. -/
theorem Waiting.complete {ret : Bool} {bytes : Nat} {res : WsaSend} (h : s.Waiting)
    (hall : ret = true → s.sent.length + bytes = s.content.length)
    (ht : s.step (.complete ret bytes res) = some t) : t.Done := by
  obtain ⟨enByte, n, bs, r, q, hrep, hne, hsplit⟩ := h.stores
  have hrel := h.released
  have hlen := congrArg List.length hsplit
  rw [List.length_append] at hlen
  rw [step] at ht
  by_cases hallowed : s.closed = false ∨ s.pending = false ∨ s.w.dataBuf.1 < bytes
  · rw [if_pos hallowed] at ht
    cases ht
  rw [if_neg hallowed] at ht
  simp only [not_or, not_lt] at hallowed
  obtain ⟨⟨fate, mem⟩, hhandle, ht⟩ := Option.bind_eq_some_iff.mp ht
  obtain rfl := IocpWrite.handleWrite_closed h.slot hhandle
  cases ht
  cases ret with
  | false =>
      refine ⟨⟨q, ?_⟩, fun hok => ?_, rfl, h.closed, ?_⟩
      · simpa using hsplit
      · simp at hok
      · simp [hrel]
  | true =>
      have hbytes : bytes = q.length := by
        have := hall rfl
        omega
      have hpeek : s.w.sbuff.peek s.w.dataBuf.2 bytes = q := by
        rw [h.piece, hrep.peek_eq (Nat.le_trans hallowed.2.2 h.piece_le), hbytes,
          List.take_length]
      have hsent : s.sent ++ s.w.sbuff.peek s.w.dataBuf.2 bytes = s.content := by
        rw [hpeek, hsplit]
      refine ⟨?_, fun _ => ?_, rfl, h.closed, ?_⟩
      · simp only [if_true, hsent]
        exact List.prefix_refl _
      · simpa using hsent
      · simp [hrel]

theorem Inv.step {a : Action} (h : s.Inv) (hok : s.Whole a) (ht : s.step a = some t) : t.Inv := by
  rcases h with hinit | hwait | hdone
  · cases a with
    | close res =>
        simp only [IocpClose.step, hinit.closed, Bool.false_eq_true, if_false,
          Option.some.injEq] at ht
        rw [← ht]
        exact hinit.close
    | complete ret bytes res => simp [IocpClose.step, hinit.closed] at ht
    | others slot => simp [IocpClose.step, hinit.closed] at ht
  · cases a with
    | close res => simp [IocpClose.step, hwait.closed] at ht
    | complete ret bytes res => exact .inr (.inr (hwait.complete hok ht))
    | others slot =>
        simp only [IocpClose.step, hwait.closed, if_true, Option.some.injEq] at ht
        subst ht
        exact .inr (.inl ⟨hok, hwait.stores, hwait.piece_le, hwait.piece, hwait.pending,
          rfl, hwait.released, hwait.failed⟩)
  · cases a with
    | close res => simp [IocpClose.step, hdone.closed] at ht
    | complete ret bytes res => simp [IocpClose.step, hdone.pending] at ht
    | others slot =>
        simp only [IocpClose.step, hdone.closed, if_true, Option.some.injEq] at ht
        subst ht
        exact .inr (.inr ⟨hdone.inOrder, hdone.complete, hdone.pending, rfl, hdone.released⟩)

theorem Inv.flushes (h : s.Inv) (hclosed : s.closed = true) :
    Flushes s.content s.sent s.released s.failed (s.pending = true) := by
  rcases h with hinit | hwait | hdone
  · cases hinit.closed.symm.trans hclosed
  · obtain ⟨enByte, n, bs, r, q, hrep, hne, hsplit⟩ := hwait.stores
    have hrel := hwait.released
    refine ⟨⟨q, hsplit⟩, by omega, fun _ => ⟨fun hone => by omega, fun heq => ?_⟩,
      fun _ => hwait.pending⟩
    rw [heq] at hsplit
    exact absurd (List.append_right_eq_self.mp hsplit) hne
  · have hrel := hdone.released
    exact ⟨hdone.inOrder, by omega, fun hok => ⟨fun _ => hdone.complete hok, fun _ => hrel⟩,
      fun hzero => by omega⟩

end Step

end IocpClose

theorem iocpClose_run {s : IocpClose} (h : iocpClose.ReachableVia IocpClose.Whole s)
    (hclosed : s.closed = true) :
    Flushes s.content s.sent s.released s.failed (s.pending = true) :=
  have hinv : s.Inv := h.invariant (fun _ hs => .inl hs)
    (fun _ _ _ hs hok ht => IocpClose.Inv.step hs hok ht)
  hinv.flushes hclosed

/-- Closing flushes with epoll while the session can be found in `close_root` and removed
from it, and with completion ports while every completion covers all that is left. -/
theorem closeRest_flushes (s : EpollClose) (t : IocpClose) :
    (epollClose.ReachableVia EpollClose.Kept s → s.closed = true →
      Flushes s.content s.sent s.released s.failed
        (HasKey s.session.id s.service.closeRoot.inOrder)) ∧
    (iocpClose.ReachableVia IocpClose.Whole t → t.closed = true →
      Flushes t.content t.sent t.released t.failed (t.pending = true)) :=
  ⟨fun h hclosed => epollClose_run h hclosed, fun h hclosed => iocpClose_run h hclosed⟩

/-! ## Concrete runs -/

/-- A heap of zeros with blocks of two bytes. -/
def closeHeap : Memory UInt8 where
  brk := 0
  fate := fun _ => some fun _ => 0
  freed := []
  pools := fun _ => buffPoolCreate 2 0

/-- A send buffer of two blocks with one frame. -/
def closeBuff (payload : List UInt8) : SendBuff :=
  (sendBuffWrite closeHeap (sendBuffCreate closeHeap .enByte8 2 0) payload payload.length).2.1

theorem closeBuff_rep (payload : List UInt8) (hlen : payload.length < 4) :
    SendBuff.Rep .enByte8 2 2 (closeBuff payload) 0
      (Framing.frame EnByteSize.enByte8.toNat payload) := by
  have hrep : SendBuff.Rep .enByte8 2 2 (sendBuffCreate closeHeap .enByte8 2 0) 0 [] :=
    @sendBuffCreate_rep_u16 closeHeap .enByte8 2 0
      ⟨by decide, by decide, by decide, by decide⟩
  have hyes : SendBuff.Rep.Accepts .enByte8 2 2 0 payload.length := by
    refine ⟨Int.natCast_nonneg _, ?_, ?_⟩
    · simp only [Int.toNat_natCast, EnByteSize.toNat]
      omega
    · simp only [Int.toNat_natCast, EnByteSize.toNat]
      omega
  have halloc : closeHeap.AllocOk := fun _ => ⟨_, rfl⟩
  rw [closeBuff]
  generalize hwrite : sendBuffWrite closeHeap (sendBuffCreate closeHeap .enByte8 2 0) payload
    payload.length = res
  obtain ⟨ret, b, m⟩ := res
  obtain ⟨-, hret, ⟨-, hstored⟩ | ⟨hno, -⟩⟩ :=
    hrep.write_accepted (by omega) (Int.le_refl _) hyes hwrite
  · simpa using hstored
  · rw [hret halloc, enErrNoMemory] at hno
    omega

/-- A session with one frame in its send buffer, on epoll. -/
def EpollClose.fresh (payload : List UInt8) : EpollClose :=
  let session := { createNetSession with
    id := 1
    wsession := some { id := 1, sbuff := closeBuff payload, op := opNetNone, sendRest := false
                       etflag := false } }
  let service := netCreate 4 closeHeap
  { service := service.setSession (ffidIndex service.socketIds 1) (some session)
    session := session
    content := Framing.frame EnByteSize.enByte8.toNat payload
    sent := []
    closed := false
    released := 0
    failed := false }

theorem EpollClose.init_fresh (payload : List UInt8) (hlen : payload.length < 4) :
    epollClose.Init (EpollClose.fresh payload) where
  slot := NetService.setSession_self
  id_pos := Nat.one_pos
  stores := ⟨_, _, _, _, _, rfl, closeBuff_rep payload hlen⟩
  history := .init rfl
  sent := rfl
  closed := rfl
  released := rfl
  failed := rfl

/-- The same with a completion port. -/
def IocpClose.fresh (payload : List UInt8) : IocpClose where
  mem := closeHeap
  slot := some 1
  w := { id := 1, sbuff := closeBuff payload, op := opNetNone, sendRest := false, fd := 0
         dataBuf := (0, none) }
  pending := false
  content := Framing.frame EnByteSize.enByte8.toNat payload
  sent := []
  closed := false
  released := 0
  failed := false

theorem IocpClose.init_fresh (payload : List UInt8) (hlen : payload.length < 4) :
    iocpClose.Init (IocpClose.fresh payload) where
  slot := rfl
  id_pos := Nat.one_pos
  stores := ⟨_, _, _, _, closeBuff_rep payload hlen⟩
  posted := nofun
  sent := rfl
  closed := rfl
  released := rfl
  failed := rfl

/-- Four bytes in two blocks go out in three pieces with epoll, and two bytes in one block
with a completion port. -/
theorem closeRest_flushes_small :
    (∃ s, epollClose.runVia EpollClose.Kept (EpollClose.fresh [1, 2, 3])
        [.close {}, .event ⟨false, true, false⟩ [.sent 2, .error eagain],
          .event ⟨false, true, true⟩ [.sent 1, .sent 1], .event ⟨false, true, false⟩ []] = some s ∧
      s.sent = [4, 1, 2, 3] ∧ s.released = 1 ∧
      Flushes s.content s.sent s.released s.failed
        (HasKey s.session.id s.service.closeRoot.inOrder)) ∧
    ∃ s, iocpClose.runVia IocpClose.Whole (IocpClose.fresh [7])
        [.close .posted, .complete true 2 .posted] = some s ∧
      s.sent = [2, 7] ∧ s.released = 1 ∧
      Flushes s.content s.sent s.released s.failed (s.pending = true) := by
  obtain ⟨s, hrun, hsent, hrel, hclosed⟩ : ∃ s, epollClose.runVia EpollClose.Kept
      (EpollClose.fresh [1, 2, 3])
      [.close {}, .event ⟨false, true, false⟩ [.sent 2, .error eagain],
        .event ⟨false, true, true⟩ [.sent 1, .sent 1], .event ⟨false, true, false⟩ []] = some s ∧
      s.sent = [4, 1, 2, 3] ∧ s.released = 1 ∧ s.closed = true := ⟨_, rfl, rfl, rfl, rfl⟩
  obtain ⟨t, htrun, htsent, htrel, htclosed⟩ : ∃ t, iocpClose.runVia IocpClose.Whole
      (IocpClose.fresh [7]) [.close .posted, .complete true 2 .posted] = some t ∧
      t.sent = [2, 7] ∧ t.released = 1 ∧ t.closed = true := ⟨_, rfl, rfl, rfl, rfl⟩
  obtain ⟨hepoll, hiocp⟩ := closeRest_flushes s t
  exact ⟨⟨s, hrun, hsent, hrel,
      hepoll (.runVia (.init (EpollClose.init_fresh _ (by decide))) hrun) hclosed⟩,
    t, htrun, htsent, htrel,
      hiocp (.runVia (.init (IocpClose.init_fresh _ (by decide))) htrun) htclosed⟩

/-- With a completion port and four bytes in two blocks, the first completion covers two
bytes, and the write session is released with the others. -/
theorem closeRest_loses : ¬ (
    (∀ s, epollClose.Reachable s → s.closed = true →
      Flushes s.content s.sent s.released s.failed
        (HasKey s.session.id s.service.closeRoot.inOrder)) ∧
    (∀ s, iocpClose.Reachable s → s.closed = true →
      Flushes s.content s.sent s.released s.failed (s.pending = true))) := by
  rintro ⟨-, hall⟩
  obtain ⟨s, hrun, hclosed, hfailed, hrel, hne⟩ : ∃ s, iocpClose.run (IocpClose.fresh [1, 2, 3])
      [.close .posted, .complete true 2 .posted] = some s ∧ s.closed = true ∧ s.failed = false ∧
      s.released = 1 ∧ s.sent ≠ s.content := ⟨_, rfl, rfl, rfl, rfl, by decide⟩
  have hflush := hall s (Machine.Reachable.run (.init (IocpClose.init_fresh _ (by decide))) hrun)
    hclosed
  exact hne ((hflush.complete hfailed).mp hrel)

end RandServer
