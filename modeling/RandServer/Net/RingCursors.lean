import RandServer.Net.MsgBuff
import RandServer.Net.Receiver
import RandServer.Net.SendRing

/-!
# The packed cursors of the rings

The send buffer, the ring receive buffer and the message queue keep a block index below
`2 * pool_cnt` and an offset in one 32-bit word, and the free index in a 16-bit one. The
assertion at creation admits up to `0xefff` blocks.

The machines count the bytes (or messages) that went in and came out, so the block
index and the offset that an operation computes are those of a position. `Exact` says of
one state that the words decode to them and that the ring stores what has not come out.
-/

universe u

namespace RandServer

open LapRing Framing

/-- The word holds the block index and the offset of a position. -/
structure Decodes (n bs cursor p : Nat) : Prop where
  block : cursorH cursor = block n bs p
  offset : cursorL cursor = offset bs p

theorem Decodes.position {n bs : Nat} (g : Geometry n bs) (p : Nat) :
    Decodes n bs (positionCursor n bs p) p :=
  ⟨cursorH_position g p, cursorL_position g p⟩

/-- A block index that is read out of a word has 16 bits. -/
theorem cursorH_packCursor_lt (h : Nat) {l : Nat} (hl : l < 2 ^ 16) :
    cursorH (packCursor h l) < 2 ^ 16 := by
  have hword : packCursor h l < 2 ^ 32 := by
    apply Nat.or_lt_two_pow
    · exact Nat.mod_lt _ (by decide)
    · exact hl.trans (by decide)
  rw [cursorH, Nat.shiftRight_eq_div_pow]
  omega

/-! ## The send ring -/

namespace SendRing

structure Exact (n bs : Nat) (s : SendRing) : Prop where
  write : Decodes n bs s.sbuff.write s.written.length
  read : Decodes n bs s.sbuff.read (s.sent.length + n * bs)
  freeH : s.sbuff.freeH = block n bs (s.sent.length + n * bs)
  sent : s.sent <+: s.written
  holds : Holds s.sbuff.buffers n bs s.sent.length (s.written.drop s.sent.length)

/-- A new send buffer of `n` blocks of `bs` bytes, on any heap. -/
inductive Created (n bs : Nat) : SendRing → Prop
  | mk (mem : Memory UInt8) (pool : Nat) (enByte : EnByteSize)
      (hsize : (mem.pools pool).bufferSize = bs) :
      Created n bs { sbuff := sendBuffCreate mem enByte n pool, mem := mem,
                     prepared := (0, none), enqueued := [], sent := [] }

/-- The stored bytes, with the number of dropped bytes as read position. -/
def Counted (n bs : Nat) (s : SendRing) : Prop :=
  ∃ enByte q, s.Holding enByte n bs s.sent.length q

variable {n bs : Nat} {s t : SendRing}

theorem Created.counted (g : Geometry n bs) (h : Created n bs s) : s.Counted n bs := by
  cases h with
  | mk mem pool enByte hsize =>
      subst hsize
      exact ⟨enByte, [], sendBuffCreate_rep g, rfl, nofun⟩

theorem Counted.step (h : s.Counted n bs) {a : Action} (ht : s.step a = some t) :
    t.Counted n bs := by
  obtain ⟨enByte, q, h⟩ := h
  cases a with
  | write pdata size =>
      obtain ⟨-, hsent, -, ⟨-, -, -, h'⟩ | ⟨-, -, -, -, h'⟩ | ⟨-, -, rfl⟩⟩ := h.write ht
      · exact ⟨enByte, _, hsent ▸ h'⟩
      · exact ⟨enByte, _, hsent ▸ h'⟩
      · exact ⟨enByte, q, h⟩
  | prepare =>
      have hsent : t.sent = s.sent := by
        obtain rfl := Option.some.inj ht
        rfl
      exact ⟨enByte, q, hsent ▸ h.prepare ht⟩
  | consume k =>
      obtain ⟨h', hsent, hk, -⟩ := h.consume ht
      refine ⟨enByte, q.drop k, ?_⟩
      rw [hsent, List.length_append, List.length_take, Nat.min_eq_left hk]
      exact h'

theorem Counted.exact (h : s.Counted n bs) : s.Exact n bs := by
  obtain ⟨enByte, q, h⟩ := h
  have g := h.rep.geometry
  have hlen : s.written.length = s.sent.length + q.length := by
    rw [h.bytes, List.length_append]
  refine ⟨?_, ?_, h.rep.freeH, ⟨q, h.bytes.symm⟩, ?_⟩
  · rw [h.rep.write, hlen]
    exact .position g _
  · rw [h.rep.read]
    exact .position g _
  · rw [h.bytes, List.drop_left]
    exact h.rep.holds

end SendRing

def sendCursors (n bs : Nat) : Machine SendRing SendRing.Action where
  Init := SendRing.Created n bs
  step := SendRing.step

theorem sendCursors_counted {n bs : Nat} (g : Geometry n bs) {s : SendRing}
    (h : (sendCursors n bs).Reachable s) : s.Counted n bs :=
  h.invariant (fun _ hs => SendRing.Created.counted g hs)
    (fun _ _ _ hs ht => SendRing.Counted.step hs ht)

theorem sendCursors_exact {n bs : Nat} (g : Geometry n bs) {s : SendRing}
    (h : (sendCursors n bs).Reachable s) : s.Exact n bs := (sendCursors_counted g h).exact

/-! ## The ring receive buffer -/

namespace Receiver

/-- The check cursor stands behind the complete frames of the input. -/
structure Exact (n bs : Nat) (s : Receiver) : Prop where
  write : Decodes n bs s.rbuff.write s.input.length
  read : Decodes n bs s.rbuff.read
    ((encode s.rbuff.enByte.toNat s.removed).length + n * bs)
  check : Decodes n bs s.rbuff.check (framed s.rbuff.enByte.toNat (n * bs) s.input + n * bs)
  freeH : s.rbuff.freeH = block n bs ((encode s.rbuff.enByte.toNat s.removed).length + n * bs)
  removed : encode s.rbuff.enByte.toNat s.removed <+: s.input
  holds : Holds s.rbuff.buffers n bs (encode s.rbuff.enByte.toNat s.removed).length
    (s.input.drop (encode s.rbuff.enByte.toNat s.removed).length)

/-- A new receive buffer of `n` blocks of `bs` bytes, on any heap. -/
inductive Created (n bs : Nat) : Receiver → Prop
  | mk (mem : Memory UInt8) (pool : Nat) (lens : Block UInt8) (enByte : EnByteSize)
      (hsize : (mem.pools pool).bufferSize = bs) :
      Created n bs { rbuff := recvBuffCreateVA mem lens enByte n pool, mem := mem,
                     prepared := none, input := [], removed := [] }

/-- The stored bytes, with the length of the removed frames as read position. -/
def Counted (n bs : Nat) (s : Receiver) : Prop :=
  ∃ enByte stored, s.RingAt enByte n bs (encode enByte.toNat s.removed).length stored

variable {n bs : Nat} {s t : Receiver}

theorem Created.counted (g : Geometry n bs) (h : Created n bs s) : s.Counted n bs := by
  cases h with
  | mk mem pool lens enByte hsize =>
      subst hsize
      exact ⟨enByte, [], ringAt_create g lens enByte⟩

theorem Counted.step (h : s.Counted n bs) {a : Action} (ht : s.step a = some t) :
    t.Counted n bs := by
  obtain ⟨enByte, stored, h⟩ := h
  cases a with
  | prepare =>
      obtain ⟨h', hremoved, -⟩ := h.prepare ht
      exact ⟨enByte, stored, hremoved ▸ h'⟩
  | consume xs =>
      obtain ⟨h', hremoved, -⟩ := h.consume ht
      exact ⟨enByte, stored ++ xs, hremoved ▸ h'⟩
  | read usize =>
      obtain ⟨rfl, -⟩ | ⟨size, hwhole, -, h', hremoved, -⟩ := h.read ht
      · exact ⟨enByte, stored, h⟩
      · refine ⟨enByte, stored.drop size, ?_⟩
        rw [hremoved, encode_append, List.length_append, encode_cons, encode_nil,
          List.append_nil, frame_length, (frame_of_head hwhole).2.2]
        exact h'

theorem Counted.exact (h : s.Counted n bs) : s.Exact n bs := by
  obtain ⟨enByte, stored, h⟩ := h
  have g := h.rep.geometry
  have hen := enByte.toNat_pos
  have hlen : s.input.length = (encode enByte.toNat s.removed).length + stored.length := by
    rw [h.input, List.length_append]
  have hframed : framed enByte.toNat (n * bs) s.input =
      (encode enByte.toNat s.removed).length + framed enByte.toNat (n * bs) stored := by
    rw [h.input, framed, split_append hen h.valid, encode_append, List.length_append, framed]
  refine ⟨?_, ?_, ?_, ?_, ?_, ?_⟩
  · rw [h.rep.write, hlen]
    exact .position g _
  · rw [h.rep.read, h.rep.enByte]
    exact .position g _
  · rw [h.rep.check, h.rep.enByte, hframed]
    exact .position g _
  · rw [h.rep.freeH, h.rep.enByte]
  · rw [h.rep.enByte]
    exact ⟨stored, h.input.symm⟩
  · rw [h.rep.enByte, h.input, List.drop_left]
    exact h.rep.holds

end Receiver

def recvCursors (n bs : Nat) : Machine Receiver Receiver.Action where
  Init := Receiver.Created n bs
  step := Receiver.step

theorem recvCursors_counted {n bs : Nat} (g : Geometry n bs) {s : Receiver}
    (h : (recvCursors n bs).Reachable s) : s.Counted n bs :=
  h.invariant (fun _ hs => Receiver.Created.counted g hs)
    (fun _ _ _ hs ht => Receiver.Counted.step hs ht)

theorem recvCursors_exact {n bs : Nat} (g : Geometry n bs) {s : Receiver}
    (h : (recvCursors n bs).Reachable s) : s.Exact n bs := (recvCursors_counted g h).exact

/-! ## The message queue -/

/-- A queue with the messages that were accepted and those that came out. -/
structure MsgRing (α : Type u) where
  mbuff : MsgBuff α
  mem : Memory α
  accepted : List α
  returned : List (Option α)

namespace MsgRing

variable {α : Type u}

inductive Action (α : Type u)
  | write (msg : α)
  | read (cnt : Nat)

def step (s : MsgRing α) : Action α → Option (MsgRing α)
  | .write msg =>
      let res := msgBuffWrite s.mem s.mbuff msg
      some { s with
        mbuff := res.2.1
        mem := res.2.2
        accepted := if res.1 = 1 then s.accepted ++ [msg] else s.accepted }
  | .read cnt =>
      let res := msgBuffRead s.mem s.mbuff cnt
      some { s with mbuff := res.2.1, mem := res.2.2, returned := s.returned ++ res.1 }

/-- The messages that have not come out. -/
def stored (s : MsgRing α) : List α := s.accepted.drop s.returned.length

/-- A write is accepted while there is room, and a read returns the oldest messages. -/
structure Exact (n bs : Nat) (s : MsgRing α) : Prop where
  write : Decodes n bs s.mbuff.write s.accepted.length
  read : Decodes n bs s.mbuff.read (s.returned.length + n * bs)
  freeH : s.mbuff.freeH = block n bs (s.returned.length + n * bs)
  returned : s.returned = (s.accepted.take s.returned.length).map some
  holds : Holds s.mbuff.buffers n bs s.returned.length s.stored
  accepts : s.mem.AllocOk → s.stored.length < n * bs → ∀ msg, (msgBuffWrite s.mem s.mbuff msg).1 = 1
  yields : ∀ cnt, (msgBuffRead s.mem s.mbuff cnt).1 = (s.stored.take cnt).map some

/-- A new queue of `n` blocks of `bs` messages, on any heap. The size of a block is a number of
32 bits. -/
inductive Created (n bs : Nat) : MsgRing α → Prop
  | mk (mem : Memory α) {msgTypeSize : Nat} (hsize : msgTypeSize * bs < 2 ^ 32)
      (pool : Option Nat) :
      Created n bs { mbuff := msgBuffCreate msgTypeSize bs n pool, mem := mem, accepted := [],
                     returned := [] }

structure Counted (n bs : Nat) (s : MsgRing α) : Prop where
  returned : s.returned = (s.accepted.take s.returned.length).map some
  rep : MsgBuff.Rep n bs s.mbuff s.returned.length s.stored

variable {n bs : Nat} {s t : MsgRing α}

theorem Created.counted (g : Geometry n bs) (h : Created n bs s) : s.Counted n bs := by
  cases h with
  | mk mem hsize pool => exact ⟨rfl, MsgBuff.create_rep g _ pool⟩

theorem Counted.returned_le (h : s.Counted n bs) : s.returned.length ≤ s.accepted.length := by
  have hlen := congrArg List.length h.returned
  rw [List.length_map, List.length_take] at hlen
  omega

theorem Counted.write (h : s.Counted n bs) {msg : α} (ht : s.step (.write msg) = some t) :
    t.Counted n bs := by
  have hle := h.returned_le
  simp only [step] at ht
  generalize hres : msgBuffWrite s.mem s.mbuff msg = res at ht
  obtain ⟨ret, b', m'⟩ := res
  obtain rfl := Option.some.inj ht
  rcases Nat.lt_or_ge s.stored.length (n * bs) with hroom | hfull
  · obtain ⟨-, -, -, hcases⟩ := h.rep.write_room hroom hres
    obtain ⟨rfl, hrep⟩ | ⟨rfl, hrep⟩ := hcases
    · refine ⟨?_, ?_⟩
      · simp only [if_true, List.take_append_of_le_length hle]
        exact h.returned
      · simp only [stored, if_true, List.drop_append_of_le_length hle]
        exact hrep
    · exact ⟨h.returned, hrep⟩
  · rw [h.rep.write_full (Nat.le_antisymm h.rep.fits hfull)] at hres
    cases hres
    exact ⟨h.returned, h.rep⟩

theorem Counted.read (h : s.Counted n bs) {cnt : Nat} (ht : s.step (.read cnt) = some t) :
    t.Counted n bs := by
  simp only [step] at ht
  generalize hres : msgBuffRead s.mem s.mbuff cnt = res at ht
  obtain ⟨msgs, b', m'⟩ := res
  obtain rfl := Option.some.inj ht
  obtain ⟨rfl, -, hrep⟩ := h.rep.read_eq hres
  have hlen : (s.stored.take cnt).length = min s.stored.length cnt := by
    rw [List.length_take, Nat.min_comm]
  have htake : s.stored.take cnt = s.stored.take (min s.stored.length cnt) := by
    rw [Nat.min_comm, ← List.take_eq_take_min]
  have hdrop : s.stored.drop (min s.stored.length cnt) = s.stored.drop cnt := by
    rcases Nat.le_total s.stored.length cnt with hall | hsome
    · rw [Nat.min_eq_left hall, List.drop_length, List.drop_eq_nil_of_le hall]
    · rw [Nat.min_eq_right hsome]
  refine ⟨?_, ?_⟩
  · rw [List.length_append, List.length_map, hlen, List.take_add, List.map_append,
      ← h.returned, htake]
    rfl
  · have hout : (s.returned ++ (s.stored.take cnt).map some).length =
        s.returned.length + min s.stored.length cnt := by
      rw [List.length_append, List.length_map, hlen]
    have hsame : s.accepted.drop (s.returned.length + min s.stored.length cnt) =
        s.stored.drop cnt := by
      rw [← List.drop_drop, ← hdrop]
      rfl
    change MsgBuff.Rep n bs b' (s.returned ++ (s.stored.take cnt).map some).length
      (s.accepted.drop (s.returned ++ (s.stored.take cnt).map some).length)
    rw [hout, hsame]
    exact hrep

theorem Counted.exact (h : s.Counted n bs) : s.Exact n bs := by
  have g := h.rep.geometry
  have hle := h.returned_le
  have hend : s.returned.length + s.stored.length = s.accepted.length := by
    rw [stored, List.length_drop, Nat.add_sub_cancel' hle]
  refine ⟨?_, ?_, h.rep.freeH, h.returned, h.rep.holds, fun halloc hroom msg => ?_,
    fun cnt => ?_⟩
  · rw [h.rep.write, hend]
    exact .position g _
  · rw [h.rep.read]
    exact .position g _
  · exact (h.rep.write_room hroom rfl).2.2.1 halloc
  · exact (h.rep.read_eq (m := s.mem) rfl).1

end MsgRing

def msgCursors (α : Type u) (n bs : Nat) : Machine (MsgRing α) (MsgRing.Action α) where
  Init := MsgRing.Created n bs
  step := MsgRing.step

theorem msgCursors_counted {α : Type u} {n bs : Nat} (g : Geometry n bs) {s : MsgRing α}
    (h : (msgCursors α n bs).Reachable s) : s.Counted n bs := by
  apply h.invariant
  · exact fun _ hs => MsgRing.Created.counted g hs
  · intro _ _ a hs ht
    cases a with
    | write msg => exact hs.write ht
    | read cnt => exact hs.read ht

theorem msgCursors_exact {α : Type u} {n bs : Nat} (g : Geometry n bs) {s : MsgRing α}
    (h : (msgCursors α n bs).Reachable s) : s.Exact n bs := (msgCursors_counted g h).exact

/-! ## Too many blocks -/

/-- The heap of blank blocks. -/
def Memory.blank (α : Type u) [Inhabited α] : Memory α where
  brk := 0
  fate := fun _ => some fun _ => default
  freed := []
  pools := fun _ => buffPoolCreate 0 0

theorem msgBuffWrite_fate {α : Type u} (m : Memory α) (b : MsgBuff α) (msg : α) :
    (msgBuffWrite m b msg).2.2.fate = m.fate := by
  have hfate := Arena.copyIn_fate { buffers := b.buffers, mem := m } b.pool
    (u32 (b.msgTypeSize * b.bufferSize)) (cursorH b.write % b.poolCnt) (cursorL b.write) [msg]
  simp only [msgBuffWrite]
  split
  · rfl
  · split
    · rename_i a hcopy
      rw [hcopy] at hfate
      exact hfate
    · rename_i a hcopy
      rw [hcopy] at hfate
      exact hfate

theorem msgBuffWrite_bufferSize {α : Type u} (m : Memory α) (b : MsgBuff α) (msg : α) :
    (msgBuffWrite m b msg).2.1.bufferSize = b.bufferSize := by
  simp only [msgBuffWrite]
  split
  · rfl
  · split <;> rfl

theorem msgBuffCopyLoop_offset_lt {α : Type u} {buffers : Nat → Option (Block α)}
    {poolCnt bufferSize : Nat} (hpos : 0 < bufferSize) (hle : bufferSize ≤ 65535) (k : Nat)
    {uH uL : Nat} (hL : uL < 2 ^ 16) :
    (msgBuffCopyLoop buffers poolCnt bufferSize k uH uL).2.2 < 2 ^ 16 := by
  induction k generalizing uH uL with
  | zero => exact hL
  | succ k ih =>
      have hmod : (uL + 1) % bufferSize < bufferSize := Nat.mod_lt _ hpos
      exact ih (by omega)

/-- The read cursor that a read stores has a block index of 16 bits. -/
theorem msgBuffRead_cursorH_lt {α : Type u} {m : Memory α} {b : MsgBuff α} {cnt : Nat}
    (hpos : 0 < b.bufferSize) (hle : b.bufferSize ≤ 65535) :
    cursorH (msgBuffRead m b cnt).2.1.read < 2 ^ 16 := by
  apply cursorH_packCursor_lt
  apply msgBuffCopyLoop_offset_lt hpos hle
  rw [cursorL, Nat.shiftRight_eq_div_pow, Nat.div_lt_iff_lt_mul (by decide)]
  exact Nat.mod_lt _ (by decide)

namespace MsgRing

variable {α : Type u} [Inhabited α] {n bs : Nat}

/-- A new queue that is exact in every state takes any number of messages up to its
capacity. -/
theorem fill (hbs : bs ≤ 65535) (h : ∀ s, (msgCursors α n bs).Reachable s → s.Exact n bs) (k : Nat)
    (hk : k ≤ n * bs) :
    ∃ s, (msgCursors α n bs).Reachable s ∧ s.accepted.length = k ∧ s.returned = [] ∧
      s.mbuff.bufferSize = bs ∧ s.mem.AllocOk := by
  induction k with
  | zero =>
      have hsize : 1 * bs < 2 ^ 32 := by omega
      exact ⟨_, .init (.mk (.blank α) hsize none), rfl, rfl, rfl, fun _ => ⟨_, rfl⟩⟩
  | succ k ih =>
      obtain ⟨s, hs, hlen, hret, hsize, halloc⟩ := ih (by omega)
      have hstored : s.stored.length = k := by
        rw [stored, hret, List.length_nil, List.drop_zero, hlen]
      have hone := (h s hs).accepts halloc (by omega) default
      refine ⟨_, Machine.ReachableVia.step (i := .write default) hs trivial rfl, ?_, hret, ?_,
        halloc.of_fate_eq (msgBuffWrite_fate ..)⟩
      · simp only [hone, if_true, List.length_append, hlen, List.length_singleton]
      · rw [← hsize]
        exact msgBuffWrite_bufferSize ..

/-- With more than `2 ^ 15` blocks the reader gets to block `2 ^ 16`, whose index does not
fit in the word. -/
theorem le_of_exact (hn : n ≤ 0xefff) (hbs : 0 < bs) (hbs' : bs ≤ 65535)
    (h : ∀ s, (msgCursors α n bs).Reachable s → s.Exact n bs) : n ≤ 32768 := by
  by_contra hbig
  obtain ⟨k, hk⟩ : ∃ k, k + n = 2 ^ 16 := ⟨2 ^ 16 - n, by omega⟩
  have hroom : k * bs ≤ n * bs := Nat.mul_le_mul_right bs (by omega)
  obtain ⟨s, hs, hlen, hret, hsize, -⟩ := fill hbs' h (k * bs) hroom
  have hstored : s.stored.length = k * bs := by
    rw [stored, hret, List.length_nil, List.drop_zero, hlen]
  have hread : (msgCursors α n bs).step s (.read (k * bs)) =
      some { s with
        mbuff := (msgBuffRead s.mem s.mbuff (k * bs)).2.1
        mem := (msgBuffRead s.mem s.mbuff (k * bs)).2.2
        returned := s.returned ++ (msgBuffRead s.mem s.mbuff (k * bs)).1 } := rfl
  have hnext := (h _ (Machine.ReachableVia.step hs trivial hread)).read.block
  have hout : (s.returned ++ (msgBuffRead s.mem s.mbuff (k * bs)).1).length = k * bs := by
    rw [hret, List.nil_append, (h s hs).yields, List.length_map, List.length_take, hstored,
      Nat.min_self]
  have hblock : block n bs (k * bs + n * bs) = 2 ^ 16 := by
    rw [block, ← Nat.add_mul, hk, Nat.mul_div_cancel _ hbs, Nat.mod_eq_of_lt (by omega)]
  rw [hout, hblock] at hnext
  have hlt : cursorH (msgBuffRead s.mem s.mbuff (k * bs)).2.1.read < 2 ^ 16 :=
    msgBuffRead_cursorH_lt (by rw [hsize]; exact hbs) (by rw [hsize]; exact hbs')
  exact absurd hnext (Nat.ne_of_lt hlt)

end MsgRing

/-- In every run the words of all three rings decode to the block indices and offsets of
their positions. -/
def CursorsExact (α : Type u) (n bs : Nat) : Prop :=
  (∀ s, (sendCursors n bs).Reachable s → s.Exact n bs) ∧
    (∀ s, (recvCursors n bs).Reachable s → s.Exact n bs) ∧
    ∀ s, (msgCursors α n bs).Reachable s → s.Exact n bs

/-- Of the pool counts that the assertion admits, those up to `2 ^ 15` keep the cursors
exact. -/
theorem cursorsExact_iff {α : Type u} [Inhabited α] {n bs : Nat} (hn : 1 ≤ n) (hn' : n ≤ 0xefff)
    (hbs : 1 ≤ bs) (hbs' : bs ≤ 65535) : CursorsExact α n bs ↔ n ≤ 32768 := by
  constructor
  · rintro ⟨-, -, hmsg⟩
    exact MsgRing.le_of_exact hn' hbs hbs' hmsg
  · intro hle
    have g : Geometry n bs := ⟨hn, hle, hbs, hbs'⟩
    exact ⟨fun _ => sendCursors_exact g, fun _ => recvCursors_exact g,
      fun _ => msgCursors_exact g⟩

theorem cursorsExact_largest : CursorsExact Nat 32768 65535 :=
  (cursorsExact_iff (by decide) (by decide) (by decide) (by decide)).mpr (by decide)

/-- One block more, and the cursor of a reader that has emptied 32767 blocks is 0. -/
theorem cursorsExact_overflow : ¬ CursorsExact Nat 32769 1 := by
  rintro ⟨-, -, hmsg⟩
  exact absurd (MsgRing.le_of_exact (by decide) (by decide) (by decide) hmsg) (by decide)

end RandServer
