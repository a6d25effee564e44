import RandServer.Net.RingCursors

/-!
# The free space of the rings

`buff_get_space` and the assertions around it. A call gets four numbers out of a read and a
write cursor, or out of a check cursor on its way over a stream, and every one of these
pairs belongs to two positions at most one capacity apart. So the result is exact and the
assertions of `buff_get_space`, of its callers and of `send_buff_prepare` hold, in every
state of the three rings (`freeSpace_exact`).
-/

universe u

namespace RandServer

open LapRing Framing

/-- The arguments of one call of `buff_get_space`. -/
structure SpaceCall where
  uHRead : Nat
  uLRead : Nat
  uHWrite : Nat
  uLWrite : Nat

namespace SpaceCall

/-- The call with two decoded cursors. -/
def ofCursors (uRead uWrite : Nat) : SpaceCall :=
  ⟨cursorH uRead, cursorL uRead, cursorH uWrite, cursorL uWrite⟩

def space (n bs : Nat) (c : SpaceCall) : Nat :=
  buffGetSpace n bs c.uHRead c.uLRead c.uHWrite c.uLWrite

/-- The call returns the capacity without the stored units, and neither its assertion nor
the one of its callers fails. -/
structure Exact (n bs stored : Nat) (c : SpaceCall) : Prop where
  stored_le : stored ≤ n * bs
  space : c.space n bs = n * bs - stored
  asserts : buffGetSpaceAssert c.uHRead c.uLRead c.uHWrite c.uLWrite
  bounded : c.space n bs ≤ u32 (n * bs)

variable {n bs : Nat}

/-- A call for the units from position `r` up to position `w`. -/
theorem Exact.of_position (g : Geometry n bs) {r w : Nat} (hrw : r ≤ w) (hwr : w ≤ r + n * bs) :
    (SpaceCall.mk (block n bs (r + n * bs)) (offset bs (r + n * bs)) (block n bs w)
      (offset bs w)).Exact n bs (w - r) := by
  obtain ⟨hspace, hassert⟩ := buffGetSpace_position g (show w ≤ r + n * bs from hwr) (by omega)
  have hcap := g.capacity_lt
  have hexact : (SpaceCall.mk (block n bs (r + n * bs)) (offset bs (r + n * bs)) (block n bs w)
      (offset bs w)).space n bs = n * bs - (w - r) := hspace.trans (by omega)
  have hword : u32 (n * bs) = n * bs := u32_of_lt (by omega)
  exact ⟨by omega, hexact, hassert, by rw [hexact, hword]; exact Nat.sub_le ..⟩

/-- A call with the cursors of a ring that stores `stored` units from position `r` on. -/
theorem Exact.of_cursors (g : Geometry n bs) {r stored uRead uWrite : Nat}
    (hread : uRead = positionCursor n bs (r + n * bs))
    (hwrite : uWrite = positionCursor n bs (r + stored)) (hfits : stored ≤ n * bs) :
    (ofCursors uRead uWrite).Exact n bs stored := by
  have hcall := Exact.of_position g (Nat.le_add_right r stored) (Nat.add_le_add_left hfits r)
  rw [Nat.add_sub_cancel_left] at hcall
  rw [ofCursors, hread, hwrite, cursorH_position g, cursorL_position g, cursorH_position g,
    cursorL_position g]
  exact hcall

end SpaceCall

/-! ## The send ring -/

/-- The free space is that of the bytes written and not sent, as `send_buff_write` asks for
it, and the assertions of `send_buff_prepare` hold. -/
structure SendRing.SpaceOk (n bs : Nat) (s : SendRing) : Prop where
  poolCnt : s.sbuff.poolCnt = n
  bufferSize : s.sbuff.bufferSize = bs
  sent_le : s.sent.length ≤ s.written.length
  space : (SpaceCall.ofCursors s.sbuff.read s.sbuff.write).Exact n bs
    (s.written.length - s.sent.length)
  prepare_offset : cursorH s.sbuff.read ≠ cursorH s.sbuff.write →
    cursorH s.sbuff.write % n = cursorH s.sbuff.read % n →
    cursorL s.sbuff.read ≤ cursorL s.sbuff.write
  prepare_space : (sendBuffPrepare s.sbuff).1 ≤ bs

namespace SendRing

variable {n bs : Nat} {s : SendRing}

theorem Counted.spaceOk (h : s.Counted n bs) : s.SpaceOk n bs := by
  obtain ⟨enByte, q, h⟩ := h
  have g := h.rep.geometry
  have hlen : s.written.length = s.sent.length + q.length := by
    rw [h.bytes, List.length_append]
  refine ⟨h.rep.poolCnt, h.rep.bufferSize, by omega, ?_, ?_, ?_⟩
  · rw [hlen, Nat.add_sub_cancel_left]
    exact .of_cursors g h.rep.read h.rep.write h.rep.fits
  · rw [h.rep.read, h.rep.write, cursorH_position g, cursorH_position g, cursorL_position g,
      cursorL_position g, block_mod, block_mod, slot_add_capacity g.bs_pos, offset_add_capacity]
    intro hlap hslot
    exact offset_le_of_div_eq (h.rep.same_block_iff.mp ⟨hlap, hslot⟩)
  · rw [h.rep.prepare_eq]
    split_ifs
    · exact Nat.zero_le _
    · exact (Nat.min_le_right ..).trans (Nat.sub_le ..)

end SendRing

/-! ## The ring receive buffer -/

/-- The calls of `buff_get_space` in the loop of `recv_buff_check_new_msg`. -/
def recvBuffCheckCalls (b : RecvBuff) (uHWrite uLWrite : Nat) : Nat → Nat → Nat → List SpaceCall
  | 0, _, _ => []
  | fuel + 1, uHRead, uLRead =>
      let err := buffGainMsgSize b.buffers b.enByte b.poolCnt b.bufferSize uHRead uLRead
        uHWrite uLWrite
      ⟨uHRead, uLRead, uHWrite, uLWrite⟩ ::
        if err ≤ 0 then []
        else
          let uLRead := uLRead + err.toNat
          let uHRead := (uHRead + uLRead / b.bufferSize) % (2 * b.poolCnt)
          let uLRead := uLRead % b.bufferSize
          recvBuffCheckCalls b uHWrite uLWrite fuel uHRead uLRead

/-- The calls of `buff_get_space` in `recv_buff_consume_vA`. -/
def recvBuffConsumeCalls (b : RecvBuff) (usize : Nat) : List SpaceCall :=
  if usize = 0 then []
  else
    let uLWrite := cursorL b.write + u32 usize
    let uHWrite := (cursorH b.write + uLWrite / b.bufferSize) % (2 * b.poolCnt)
    let uLWrite := uLWrite % b.bufferSize
    let uWrite := packCursor uHWrite uLWrite
    recvBuffCheckCalls b (cursorH uWrite) (cursorL uWrite) (b.poolCnt * b.bufferSize + 1)
      (cursorH b.check) (cursorL b.check)

/-- The calls that consuming `xs` makes, where it is allowed. -/
def Receiver.consumeCalls (s : Receiver) (xs : List UInt8) : List SpaceCall :=
  match s.prepared with
  | none => []
  | some (room, ptr) =>
      if xs.length ≤ room then
        recvBuffConsumeCalls ((ptr.map fun p => s.rbuff.fill p xs).getD s.rbuff) xs.length
      else []

/-- The free space is that of the bytes that arrived and were not removed, as
`recv_buff_prepare_vA` and `recv_buff_read_vA` ask for it. The calls of
`recv_buff_consume_vA` are exact for the bytes behind the check cursor. -/
structure Receiver.SpaceOk (n bs : Nat) (s : Receiver) : Prop where
  poolCnt : s.rbuff.poolCnt = n
  bufferSize : s.rbuff.bufferSize = bs
  removed_le : (encode s.rbuff.enByte.toNat s.removed).length ≤ s.input.length
  space : (SpaceCall.ofCursors s.rbuff.read s.rbuff.write).Exact n bs
    (s.input.length - (encode s.rbuff.enByte.toNat s.removed).length)
  consume : ∀ xs, ∀ c ∈ s.consumeCalls xs, ∃ rest, c.Exact n bs rest

section Check

variable {n bs p : Nat} {enByte : EnByteSize} {xs : List UInt8}

/-- Each turn of the loop looks at the bytes behind a frame. -/
theorem recvBuffCheckCalls_exact (g : Geometry n bs) {b : RecvBuff} (henByte : b.enByte = enByte)
    (hpoolCnt : b.poolCnt = n) (hbufferSize : b.bufferSize = bs)
    (h : Holds b.buffers n bs p xs) (hxs : xs.length ≤ n * bs) (fuel : Nat) :
    ∀ c ∈ recvBuffCheckCalls b (block n bs (p + xs.length)) (offset bs (p + xs.length)) fuel
        (block n bs (p + n * bs)) (offset bs (p + n * bs)), ∃ rest, c.Exact n bs rest := by
  induction fuel generalizing p xs with
  | zero => exact fun _ hc => absurd hc List.not_mem_nil
  | succ fuel ih =>
      intro c hc
      simp only [recvBuffCheckCalls, henByte, hpoolCnt, hbufferSize, buffGainMsgSize_eq g h hxs]
        at hc
      obtain rfl | hc := List.mem_cons.mp hc
      · exact ⟨_, .of_position g (Nat.le_add_right ..) (Nat.add_le_add_left hxs p)⟩
      · by_cases hwhole : ∃ size, head enByte.toNat (n * bs) xs = .whole size
        · obtain ⟨size, hwhole⟩ := hwhole
          obtain ⟨-, -, hlo, -, hle⟩ := head_whole_iff.mp hwhole
          have hen := enByte.toNat_pos
          have hnext : p + size + (xs.drop size).length = p + xs.length := by
            rw [List.length_drop]
            omega
          have hrest := ih (h.drop size) (by rw [List.length_drop]; omega)
          rw [hnext, Nat.add_right_comm p size] at hrest
          simp only [hwhole, gained_whole, Int.toNat_natCast] at hc
          rw [if_neg (by omega), block_advance g.bs_pos, offset_advance] at hc
          exact hrest c hc
        · have hnot := gained_nonpos (fun size heq => hwhole ⟨size, heq⟩)
          rw [if_pos hnot] at hc
          exact absurd hc List.not_mem_nil

end Check

namespace Receiver

variable {n bs : Nat} {s : Receiver}

theorem RingAt.consumeCalls_exact {enByte : EnByteSize} {r : Nat} {stored : List UInt8}
    (h : s.RingAt enByte n bs r stored) (xs : List UInt8) :
    ∀ c ∈ s.consumeCalls xs, ∃ rest, c.Exact n bs rest := by
  obtain rfl := h.rep.poolCnt
  obtain rfl := h.rep.bufferSize
  have g := h.rep.geometry
  have hcap := g.capacity_lt
  intro c hc
  simp only [consumeCalls] at hc
  split at hc
  · exact absurd hc List.not_mem_nil
  · rename_i room ptr hprep
    split_ifs at hc with hfit
    · by_cases hxs : xs.length = 0
      · rw [recvBuffConsumeCalls, if_pos hxs] at hc
        exact absurd hc List.not_mem_nil
      · obtain ⟨rfl, hspace⟩ := h.piece room ptr hprep (by omega)
        have hring := hspace.in_ring
        obtain ⟨buffers, hfill, hholds⟩ := h.rep.fill_eq hspace hfit
        have hwrite := @RecvBuff.RingRep.write_advance _ _ _ _ _ _ h.rep xs.length (by omega)
        rw [Nat.add_assoc, ← List.length_append] at hwrite
        generalize hframed :
          framed enByte.toNat (s.rbuff.poolCnt * s.rbuff.bufferSize) stored = k
        have hk : k ≤ stored.length := hframed ▸ framed_le _ enByte.toNat_pos stored
        have hlen : ((stored ++ xs).drop k).length = stored.length + xs.length - k := by
          rw [List.length_drop, List.length_append]
        have hend : r + k + ((stored ++ xs).drop k).length = r + (stored ++ xs).length := by
          rw [hlen, List.length_append]
          omega
        have hrest := recvBuffCheckCalls_exact g (b := { s.rbuff with buffers := buffers })
          h.rep.enByte rfl rfl (hholds.drop k) (by omega)
          (s.rbuff.poolCnt * s.rbuff.bufferSize + 1)
        rw [hend] at hrest
        have hcheck : s.rbuff.check = positionCursor s.rbuff.poolCnt s.rbuff.bufferSize
            (r + k + s.rbuff.poolCnt * s.rbuff.bufferSize) := hframed ▸ h.rep.check
        have hcheckH := congrArg cursorH hcheck
        have hcheckL := congrArg cursorL hcheck
        simp only [cursorH_position g, cursorL_position g] at hcheckH hcheckL
        simp only [Option.map_some, Option.getD_some, hfill, recvBuffConsumeCalls, if_neg hxs,
          hwrite, hcheckH, hcheckL, cursorH_position g, cursorL_position g] at hc
        exact hrest c hc
    · exact absurd hc List.not_mem_nil

theorem Counted.spaceOk (h : s.Counted n bs) : s.SpaceOk n bs := by
  obtain ⟨enByte, stored, h⟩ := h
  have g := h.rep.geometry
  have hlen : s.input.length =
      (encode s.rbuff.enByte.toNat s.removed).length + stored.length := by
    rw [h.input, List.length_append, h.rep.enByte]
  refine ⟨h.rep.poolCnt, h.rep.bufferSize, by omega, ?_, h.consumeCalls_exact⟩
  rw [hlen, Nat.add_sub_cancel_left]
  exact .of_cursors g h.rep.read h.rep.write h.rep.fits

end Receiver

/-! ## The message queue -/

/-- The free space is that of the messages that have not come out, as `msg_buff_read` and
`msg_buff_size` ask for it. -/
structure MsgRing.SpaceOk {α : Type u} (n bs : Nat) (s : MsgRing α) : Prop where
  poolCnt : s.mbuff.poolCnt = n
  bufferSize : s.mbuff.bufferSize = bs
  space : (SpaceCall.ofCursors s.mbuff.read s.mbuff.write).Exact n bs s.stored.length

theorem MsgRing.Counted.spaceOk {α : Type u} {n bs : Nat} {s : MsgRing α}
    (h : s.Counted n bs) : s.SpaceOk n bs :=
  ⟨h.rep.poolCnt, h.rep.bufferSize,
    .of_cursors h.rep.geometry h.rep.read h.rep.write h.rep.fits⟩

/-! ## Every run -/

/-- In every state the free space of the rings is exact and the assertions hold. -/
def FreeSpaceExact (α : Type u) (n bs : Nat) : Prop :=
  (∀ s, (sendCursors n bs).Reachable s → s.SpaceOk n bs) ∧
    (∀ s, (recvCursors n bs).Reachable s → s.SpaceOk n bs) ∧
    ∀ s, (msgCursors α n bs).Reachable s → s.SpaceOk n bs

/-- For every size of the rings, in every run, `buff_get_space` returns the capacity without
the stored units, and no assertion about it fails. -/
theorem freeSpace_exact {α : Type u} {n bs : Nat} (hn : 1 ≤ n) (hn' : n ≤ 32768) (hbs : 1 ≤ bs)
    (hbs' : bs ≤ 65535) : FreeSpaceExact α n bs := by
  have g : Geometry n bs := ⟨hn, hn', hbs, hbs'⟩
  refine ⟨fun s hs => ?_, fun s hs => ?_, fun s hs => ?_⟩
  · exact (sendCursors_counted g hs).spaceOk
  · exact (recvCursors_counted g hs).spaceOk
  · exact (msgCursors_counted g hs).spaceOk

theorem freeSpace_exact_largest : FreeSpaceExact Nat 32768 65535 :=
  freeSpace_exact (by decide) (by decide) (by decide) (by decide)

end RandServer
