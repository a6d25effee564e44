import RandServer.Lib.Machine
import RandServer.Net.MsgBuff
import RandServer.Net.Ownership

/-!
# The message queue as a bounded queue

`msg_buff` asks its pool for blocks of `(unsigned int)(msg_type_size * buffer_size)`
bytes and copies message `i` of a block from byte `i * msg_type_size` on. The functions
here are those of the queue with the bounds of the blocks taken into account: they are
undefined where a copy leaves its block.

The machine runs a queue and a `BoundedQueue` side by side. They answer alike in every
run exactly if the number of bytes of a block fits in 32 bits.
-/

universe u

namespace RandServer

open LapRing

variable {α : Type u}

/-- The message copied at the cursor `(uH, uL)` lies inside an allocated block. -/
def messageFits (buffers : Nat → Option (Block α)) (poolCnt msgTypeSize uH uL : Nat) : Bool :=
  match buffers (uH % poolCnt) with
  | some bf => decide ((uL + 1) * msgTypeSize ≤ bf.size)
  | none => false

def msgBuffWriteWithin (m : Memory α) (b : MsgBuff α) (msg : α) :
    Option (Int × MsgBuff α × Memory α) :=
  let res := msgBuffWrite m b msg
  if res.1 = 1 → messageFits res.2.1.buffers b.poolCnt b.msgTypeSize (cursorH b.write)
      (cursorL b.write) = true then some res
  else none

/-- Every message of the copy loop of `msg_buff_read` lies inside its block. -/
def msgBuffCopyFits (buffers : Nat → Option (Block α)) (poolCnt bufferSize msgTypeSize : Nat) :
    Nat → Nat → Nat → Bool
  | 0, _, _ => true
  | k + 1, uHRead, uLRead =>
      messageFits buffers poolCnt msgTypeSize uHRead uLRead &&
        msgBuffCopyFits buffers poolCnt bufferSize msgTypeSize k
          ((uHRead + (uLRead + 1) / bufferSize) % (2 * poolCnt)) ((uLRead + 1) % bufferSize)

def msgBuffReadWithin (m : Memory α) (b : MsgBuff α) (n : Nat) :
    Option (List (Option α) × MsgBuff α × Memory α) :=
  if msgBuffCopyFits b.buffers b.poolCnt b.bufferSize b.msgTypeSize
      (min (msgBuffCount b b.write b.read) n) (cursorH b.read) (cursorL b.read) = true then
    some (msgBuffRead m b n)
  else none

/-- The bytes of one block, as `msg_buff_write` and `msg_buff_read` compute them. -/
def poolBufferSize (msgTypeSize bufferSize : Nat) : Nat := u32 (msgTypeSize * bufferSize)

/-- The queue next to its specification. -/
structure MsgQueue (α : Type u) where
  mbuff : MsgBuff α
  mem : Memory α
  queue : BoundedQueue α

namespace MsgQueue

inductive Action (α : Type u)
  | write (msg : α)
  | read (n : Nat)

def step (s : MsgQueue α) : Action α → Option (MsgQueue α)
  | .write msg =>
      (msgBuffWriteWithin s.mem s.mbuff msg).map fun res =>
        { mbuff := res.2.1, mem := res.2.2, queue := (s.queue.push msg).2 }
  | .read n =>
      (msgBuffReadWithin s.mem s.mbuff n).map fun res =>
        { mbuff := res.2.1, mem := res.2.2, queue := (s.queue.pop n).2 }

/-- A new queue of `n` blocks of `bs` messages of `size` bytes, on a heap where no
allocation fails and the idle blocks of the pool have the size of the pool. -/
inductive Init (n bs size : Nat) : MsgQueue α → Prop
  | mk (mem : Memory α) (pool : Option Nat) (held : List Nat) (halloc : mem.AllocOk)
      (hmem : mem.Accounted pool held) :
      Init n bs size { mbuff := msgBuffCreate size bs n pool, mem := mem, queue := .empty (n * bs) }

/-- The next call, whichever it is, answers as the bounded queue does. -/
structure Answers (s : MsgQueue α) : Prop where
  write : ∀ msg, ∃ b' m', msgBuffWriteWithin s.mem s.mbuff msg =
      some (if (s.queue.push msg).1 then 1 else 0, b', m') ∧
    ((s.queue.push msg).1 = false → b' = s.mbuff ∧ m' = s.mem)
  read : ∀ n, ∃ b' m', msgBuffReadWithin s.mem s.mbuff n =
    some ((s.queue.pop n).1.map some, b', m')
  size : msgBuffSize s.mbuff = s.queue.items.length

end MsgQueue

def msgQueue (α : Type u) (n bs size : Nat) : Machine (MsgQueue α) (MsgQueue.Action α) where
  Init := MsgQueue.Init n bs size
  step := MsgQueue.step

/-! ## One call -/

section Write

variable {m m' : Memory α} {b b' : MsgBuff α} {msg : α} {ret : Int}

/-- A write keeps the parameters of the queue and accounts for a block it allocates. -/
theorem msgBuffWrite_blocks (hn : 0 < b.poolCnt) {held : List Nat}
    (h : (⟨b.buffers, m⟩ : Arena α).Accounted b.pool b.poolCnt
      (poolBufferSize b.msgTypeSize b.bufferSize) held)
    (ht : msgBuffWrite m b msg = (ret, b', m')) :
    (⟨b'.buffers, m'⟩ : Arena α).Accounted b.pool b.poolCnt
        (poolBufferSize b.msgTypeSize b.bufferSize) held ∧
      b'.pool = b.pool ∧ b'.msgTypeSize = b.msgTypeSize := by
  simp only [msgBuffWrite] at ht
  split at ht
  · cases ht
    exact ⟨h, rfl, rfl⟩
  · have hcopied := h.copyIn (i := cursorH b.write % b.poolCnt) (Nat.mod_lt _ hn)
      (cursorL b.write) [msg]
    split at ht
    · rename_i a hcopy
      cases ht
      exact ⟨by simpa only [poolBufferSize, hcopy] using hcopied, rfl, rfl⟩
    · rename_i a hcopy
      cases ht
      exact ⟨by simpa only [poolBufferSize, hcopy] using hcopied, rfl, rfl⟩

end Write

theorem le_of_messageFits {buffers : Nat → Option (Block α)} {poolCnt msgTypeSize uH uL t : Nat}
    (hsized : Sized buffers t) (h : messageFits buffers poolCnt msgTypeSize uH uL = true) :
    (uL + 1) * msgTypeSize ≤ t := by
  simp only [messageFits] at h
  split at h
  · rename_i bf hbf
    rw [← hsized _ _ hbf]
    exact of_decide_eq_true h
  · cases h

/-- In blocks that have room for `bs` messages each of them fits. -/
theorem messageFits_offset {n bs size p : Nat} (hbs : 0 < bs)
    {buffers : Nat → Option (Block α)} {uH : Nat} (hsized : Sized buffers (size * bs))
    {bf : Block α} (hbf : buffers (uH % n) = some bf) :
    messageFits buffers n size uH (offset bs p) = true := by
  have hroom : (offset bs p + 1) * size ≤ size * bs := by
    rw [Nat.mul_comm size]
    exact Nat.mul_le_mul_right size (offset_lt hbs p)
  simp only [messageFits, hbf, decide_eq_true_iff, hsized _ _ hbf]
  exact hroom

theorem copyFits_of_holds {n bs size p : Nat} (g : Geometry n bs)
    {buffers : Nat → Option (Block α)} (hsized : Sized buffers (size * bs)) {xs : List α}
    (h : Holds buffers n bs p xs) :
    msgBuffCopyFits buffers n bs size xs.length (block n bs (p + n * bs))
      (offset bs (p + n * bs)) = true := by
  induction xs generalizing p with
  | nil => rfl
  | cons x xs ih =>
      obtain ⟨bf, hbf⟩ := h.head_present (List.cons_ne_nil x xs)
      have hbf' : buffers (block n bs (p + n * bs) % n) = some bf := by
        rw [block_mod, slot_add_capacity g.bs_pos]
        exact hbf
      have hrest := ih (h.drop 1)
      rw [Nat.add_right_comm p 1] at hrest
      rw [List.length_cons, msgBuffCopyFits, block_advance g.bs_pos, offset_advance, hrest,
        Bool.and_true]
      exact messageFits_offset g.bs_pos hsized hbf'

namespace MsgQueue

variable {n bs size : Nat} {s t : MsgQueue α}

/-- The queue refines the bounded queue, and its blocks have the size it asks for. -/
structure Inv (n bs size : Nat) (s : MsgQueue α) : Prop where
  rep : ∃ r, MsgBuff.Rep n bs s.mbuff r s.queue.items
  capacity : s.queue.capacity = n * bs
  msgTypeSize : s.mbuff.msgTypeSize = size
  alloc : s.mem.AllocOk
  blocks : ∃ held, (⟨s.mbuff.buffers, s.mem⟩ : Arena α).Accounted s.mbuff.pool n
    (poolBufferSize size bs) held

theorem Init.inv (g : Geometry n bs) (h : Init n bs size s) : Inv n bs size s := by
  cases h with
  | mk mem pool held halloc hmem =>
      refine ⟨⟨0, MsgBuff.create_rep g size pool⟩, rfl, rfl, halloc, held, ⟨?_, nofun⟩⟩
      have hnone : slotAddrs (fun _ => (none : Option (Block α))) n = [] := by
        simp [slotAddrs]
      simpa only [msgBuffCreate, hnone, List.nil_append] using hmem

section Inv

variable {b' : MsgBuff α} {m' : Memory α}

/-- Bounds of blocks apart, a write is `push`. -/
theorem Inv.push (h : Inv n bs size s) {msg : α} {ret : Int}
    (ht : msgBuffWrite s.mem s.mbuff msg = (ret, b', m')) :
    ret = (if (s.queue.push msg).1 then 1 else 0) ∧
      ((s.queue.push msg).1 = false → b' = s.mbuff ∧ m' = s.mem) ∧
      Inv n bs size { mbuff := b', mem := m', queue := (s.queue.push msg).2 } := by
  obtain ⟨r, hrep⟩ := h.rep
  obtain ⟨held, hheld⟩ := h.blocks
  have hblocks := msgBuffWrite_blocks (by rw [hrep.poolCnt]; exact hrep.geometry.n_pos)
    (by rw [hrep.poolCnt, hrep.bufferSize, h.msgTypeSize]; exact hheld) ht
  obtain ⟨hblocks, hpool, htype⟩ := hblocks
  rw [hrep.poolCnt, hrep.bufferSize, h.msgTypeSize, ← hpool] at hblocks
  by_cases hroom : s.queue.items.length < s.queue.capacity
  · obtain ⟨hpushed, hitems⟩ := BoundedQueue.push_room (x := msg) hroom
    obtain ⟨hfate, -, hret, hcases⟩ := hrep.write_room (h.capacity ▸ hroom) ht
    obtain rfl := hret h.alloc
    rcases hcases with ⟨-, hrep'⟩ | ⟨hno, -⟩
    · rw [hpushed]
      refine ⟨rfl, nofun, ⟨r, ?_⟩, BoundedQueue.push_capacity.trans h.capacity,
        htype.trans h.msgTypeSize, h.alloc.of_fate_eq hfate, held, hblocks⟩
      rw [hitems]
      exact hrep'
    · exact absurd hno (by decide)
  · have hfull : s.queue.items.length = n * bs :=
      Nat.le_antisymm hrep.fits (h.capacity ▸ Nat.le_of_not_lt hroom)
    rw [hrep.write_full hfull] at ht
    cases ht
    rw [BoundedQueue.push_full hroom]
    exact ⟨rfl, fun _ => ⟨rfl, rfl⟩, h⟩

/-- Bounds of blocks apart, a read is `pop`. -/
theorem Inv.pop (h : Inv n bs size s) {cnt : Nat} {msgs : List (Option α)}
    (ht : msgBuffRead s.mem s.mbuff cnt = (msgs, b', m')) :
    msgs = (s.queue.pop cnt).1.map some ∧
      Inv n bs size { mbuff := b', mem := m', queue := (s.queue.pop cnt).2 } := by
  obtain ⟨r, hrep⟩ := h.rep
  obtain ⟨held, hheld⟩ := h.blocks
  obtain ⟨hmsgs, hfate, hrep'⟩ := hrep.read_eq ht
  simp only [msgBuffRead, msgBuffFinish] at ht
  cases ht
  refine ⟨hmsgs, ⟨_, hrep'⟩, h.capacity, h.msgTypeSize, h.alloc.of_fate_eq hfate, held, ?_⟩
  have hreleased := @buffGcHelp_accounted _ n _ s.mbuff.freeH
    (msgBuffCopyLoop s.mbuff.buffers n bs
      (min (msgBuffCount s.mbuff s.mbuff.write s.mbuff.read) cnt) (cursorH s.mbuff.read)
      (cursorL s.mbuff.read)).2.1 (cursorH s.mbuff.write) _ held _ _ hrep.geometry.n_pos hheld
  simpa only [poolBufferSize, msgBuffLoad, hrep.poolCnt, hrep.bufferSize, h.msgTypeSize]
    using hreleased

theorem Inv.step (h : Inv n bs size s) {i : Action α} (ht : s.step i = some t) :
    Inv n bs size t := by
  cases i with
  | write msg =>
      obtain ⟨res, hres, rfl⟩ := Option.map_eq_some_iff.mp ht
      simp only [msgBuffWriteWithin] at hres
      split at hres
      · obtain rfl := Option.some.inj hres
        exact (h.push rfl).2.2
      · cases hres
  | read cnt =>
      obtain ⟨res, hres, rfl⟩ := Option.map_eq_some_iff.mp ht
      simp only [msgBuffReadWithin] at hres
      split at hres
      · obtain rfl := Option.some.inj hres
        exact (h.pop rfl).2
      · cases hres

theorem reachable_inv (g : Geometry n bs) (hs : (msgQueue α n bs size).Reachable s) :
    Inv n bs size s :=
  hs.invariant (fun _ hinit => MsgQueue.Init.inv g hinit) (fun _ _ _ hs' ht => hs'.step ht)

/-! ## Blocks that are large enough -/

/-- Every message that a write stores lies inside its block. -/
theorem Inv.write_fits (h : Inv n bs size s) (hfit : size * bs < 2 ^ 32) {msg : α}
    (ht : msgBuffWrite s.mem s.mbuff msg = (1, b', m')) :
    messageFits b'.buffers s.mbuff.poolCnt s.mbuff.msgTypeSize (cursorH s.mbuff.write)
      (cursorL s.mbuff.write) = true := by
  obtain ⟨r, hrep⟩ := h.rep
  obtain ⟨held, hheld⟩ := (h.push ht).2.2.blocks
  have g := hrep.geometry
  have hsized : Sized b'.buffers (size * bs) := by
    simpa only [poolBufferSize, u32_of_lt hfit] using hheld.sized
  have hroom : s.queue.items.length < n * bs := by
    apply Nat.lt_of_le_of_ne hrep.fits
    intro hfull
    rw [hrep.write_full hfull] at ht
    cases ht
  obtain ⟨-, -, -, hcases⟩ := hrep.write_room hroom ht
  rcases hcases with ⟨-, hrep'⟩ | ⟨hno, -⟩
  · have hlast : Holds b'.buffers n bs (r + s.queue.items.length) [msg] :=
      (Holds.append_iff.mp hrep'.holds).2
    obtain ⟨bf, hbf⟩ := hlast.head_present (List.cons_ne_nil _ _)
    rw [hrep.write, cursorH_position g, cursorL_position g, hrep.poolCnt, h.msgTypeSize]
    apply messageFits_offset g.bs_pos hsized
    rw [block_mod]
    exact hbf
  · exact absurd hno (by decide)

theorem Inv.read_fits (h : Inv n bs size s) (hfit : size * bs < 2 ^ 32) (cnt : Nat) :
    msgBuffCopyFits s.mbuff.buffers s.mbuff.poolCnt s.mbuff.bufferSize s.mbuff.msgTypeSize
      (min (msgBuffCount s.mbuff s.mbuff.write s.mbuff.read) cnt) (cursorH s.mbuff.read)
      (cursorL s.mbuff.read) = true := by
  obtain ⟨r, hrep⟩ := h.rep
  obtain ⟨held, hheld⟩ := h.blocks
  have g := hrep.geometry
  have hsized : Sized s.mbuff.buffers (size * bs) := by
    simpa only [poolBufferSize, u32_of_lt hfit] using hheld.sized
  have hcount : msgBuffCount s.mbuff s.mbuff.write s.mbuff.read = s.queue.items.length :=
    hrep.size_eq
  have hlen : (s.queue.items.take cnt).length = min s.queue.items.length cnt := by
    rw [List.length_take, Nat.min_comm]
  rw [hcount, ← hlen, hrep.poolCnt, hrep.bufferSize, h.msgTypeSize, hrep.read,
    cursorH_position g, cursorL_position g]
  exact copyFits_of_holds g hsized (hrep.holds.take cnt)

theorem Inv.answers (h : Inv n bs size s) (hfit : size * bs < 2 ^ 32) : s.Answers where
  write msg := by
    generalize hres : msgBuffWrite s.mem s.mbuff msg = res
    obtain ⟨ret, b', m'⟩ := res
    obtain ⟨hret, hsame, -⟩ := h.push hres
    refine ⟨b', m', ?_, hsame⟩
    rw [← hret]
    simp only [msgBuffWriteWithin, hres]
    apply if_pos
    rintro rfl
    exact h.write_fits hfit hres
  read cnt := by
    generalize hres : msgBuffRead s.mem s.mbuff cnt = res
    obtain ⟨msgs, b', m'⟩ := res
    obtain ⟨hmsgs, -⟩ := h.pop hres
    refine ⟨b', m', ?_⟩
    rw [← hmsgs]
    simp only [msgBuffReadWithin, hres]
    exact if_pos (h.read_fits hfit cnt)
  size := by
    obtain ⟨r, hrep⟩ := h.rep
    exact hrep.size_eq

/-! ## Blocks that are too small -/

/-- A new queue on a heap of blank blocks. -/
def fresh (α : Type u) [Inhabited α] (n bs size : Nat) : MsgQueue α where
  mbuff := msgBuffCreate size bs n none
  mem :=
    { brk := 0, fate := fun _ => some (fun _ => default), freed := [],
      pools := fun _ => buffPoolCreate 0 0 }
  queue := .empty (n * bs)

theorem fresh_init [Inhabited α] : Init n bs size (fresh α n bs size) :=
  .mk _ none [] (fun _ => ⟨_, rfl⟩) ⟨List.Perm.refl _, nofun⟩

/-- The first block of a new queue is filled, one answered write at a time. -/
theorem fill_block [Inhabited α] (g : Geometry n bs)
    (h : ∀ s, (msgQueue α n bs size).Reachable s → s.Answers) (k : Nat) (hk : k < bs) :
    ∃ s, (msgQueue α n bs size).Reachable s ∧ s.queue.items.length = k ∧
      MsgBuff.Rep n bs s.mbuff 0 s.queue.items := by
  induction k with
  | zero => exact ⟨fresh α n bs size, .init fresh_init, rfl, MsgBuff.create_rep g size none⟩
  | succ k ih =>
      obtain ⟨s, hs, hlen, hrep⟩ := ih (by omega)
      have hinv := reachable_inv g hs
      have hblock : bs ≤ n * bs := Nat.le_mul_of_pos_left bs g.n_pos
      have hroom : s.queue.items.length < s.queue.capacity := by
        rw [hinv.capacity]
        omega
      obtain ⟨hpushed, hitems⟩ := BoundedQueue.push_room (x := default) hroom
      obtain ⟨b', m', hwrite, -⟩ := (h s hs).write default
      rw [hpushed] at hwrite
      have ht : (msgQueue α n bs size).step s (.write default) =
          some { mbuff := b', mem := m', queue := (s.queue.push default).2 } := by
        simp only [msgQueue, MsgQueue.step, hwrite, Option.map_some]
      refine ⟨_, hs.step trivial ht, ?_, ?_⟩
      · rw [hitems, List.length_append, hlen, List.length_singleton]
      · simp only [msgBuffWriteWithin] at hwrite
        split at hwrite
        · obtain ⟨-, -, -, hcases⟩ := hrep.write_room (hinv.capacity ▸ hroom)
            (Option.some.inj hwrite)
          rcases hcases with ⟨-, hrep'⟩ | ⟨hno, -⟩
          · rw [hitems]
            exact hrep'
          · exact absurd hno (by decide)
        · cases hwrite

/-- The last message of the first block does not fit if the size of the block was cut to
32 bits. -/
theorem bytes_lt_of_answers [Inhabited α] (g : Geometry n bs)
    (h : ∀ s, (msgQueue α n bs size).Reachable s → s.Answers) : size * bs < 2 ^ 32 := by
  have hbs := g.bs_pos
  obtain ⟨s, hs, hlen, hrep⟩ := fill_block g h (bs - 1) (by omega)
  have hinv := reachable_inv g hs
  have hroom : s.queue.items.length < s.queue.capacity := by
    rw [hinv.capacity, hlen]
    have hblock : bs ≤ n * bs := Nat.le_mul_of_pos_left bs g.n_pos
    omega
  obtain ⟨b', m', hwrite, -⟩ := (h s hs).write default
  rw [(BoundedQueue.push_room hroom).1] at hwrite
  simp only [msgBuffWriteWithin] at hwrite
  split at hwrite
  · rename_i hfits
    have hres := Option.some.inj hwrite
    obtain ⟨held, hheld⟩ := (hinv.push hres).2.2.blocks
    simp only [hres, if_true, true_implies] at hfits
    have hle := le_of_messageFits hheld.sized hfits
    have hoff : cursorL s.mbuff.write = bs - 1 := by
      rw [hrep.write, cursorL_position g, hlen, Nat.zero_add]
      exact Nat.mod_eq_of_lt (by omega)
    rw [hoff, hinv.msgTypeSize, Nat.sub_add_cancel hbs, Nat.mul_comm] at hle
    exact Nat.lt_of_le_of_lt hle (Nat.mod_lt _ (by decide))
  · cases hwrite

end Inv

end MsgQueue

/-- `msg_buff` answers as a bounded queue of `n * bs` messages in every run exactly if a
block of `bs` messages has less than `2 ^ 32` bytes. -/
theorem msgBuff_bounded_queue_iff [Inhabited α] {n bs size : Nat} (g : Geometry n bs) :
    (∀ s, (msgQueue α n bs size).Reachable s → s.Answers) ↔ size * bs < 2 ^ 32 := by
  constructor
  · exact MsgQueue.bytes_lt_of_answers g
  · intro hfit s hs
    exact (MsgQueue.reachable_inv g hs).answers hfit

/-- Two blocks of three messages of eight bytes. -/
theorem msgBuff_bounded_queue_small :
    Geometry 2 3 ∧ ∀ s, (msgQueue Nat 2 3 8).Reachable s → s.Answers := by
  have g : Geometry 2 3 := ⟨by decide, by decide, by decide, by decide⟩
  exact ⟨g, (msgBuff_bounded_queue_iff g).mpr (by decide)⟩

/-- A block of 65535 messages of 65538 bytes gets 65534 bytes, and the first write leaves
it. -/
theorem msgBuff_leaves_block :
    ¬ ∀ s, (msgQueue Nat 1 65535 65538).Reachable s → s.Answers := by
  intro h
  have g : Geometry 1 65535 := ⟨by decide, by decide, by decide, by decide⟩
  exact absurd (MsgQueue.bytes_lt_of_answers g h) (by decide)

end RandServer
