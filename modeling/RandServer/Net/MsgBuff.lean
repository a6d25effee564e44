import RandServer.Lib.BoundedQueue
import RandServer.Net.Buff

/-!
# The message queue

`struct msg_buff` of `buff.c`, a ring of blocks of fixed-size messages. A read loads the
two cursors first (`msgBuffLoad`) and then copies, releases blocks and publishes the new
read cursor (`msgBuffFinish`); writes may come in between. `MsgBuff.Rep b r q` says that
the messages `q` are stored from position `r` on.

Reading a message from a missing block is undefined behaviour in the program, so copied
messages are optional here.
-/

universe u

namespace RandServer

open LapRing

variable {α : Type u}

structure MsgBuff (α : Type u) where
  buffers : Nat → Option (Block α)
  write : Nat
  read : Nat
  msgTypeSize : Nat
  bufferSize : Nat
  poolCnt : Nat
  freeH : Nat
  pool : Option Nat

def msgBuffCreate (msgTypeSize bufferSize poolCnt : Nat) (pool : Option Nat) : MsgBuff α where
  buffers := fun _ => none
  write := 0
  read := u32 (poolCnt <<< 16)
  msgTypeSize := msgTypeSize
  bufferSize := bufferSize
  poolCnt := poolCnt
  freeH := poolCnt
  pool := pool

/-- `msg_buff_write`. -/
def msgBuffWrite (m : Memory α) (b : MsgBuff α) (msg : α) : Int × MsgBuff α × Memory α :=
  let uHWrite := cursorH b.write
  let uLWrite := cursorL b.write
  let poolBufferSize := u32 (b.msgTypeSize * b.bufferSize)
  if b.write = b.read then (0, b, m)
  else
    match Arena.copyIn { buffers := b.buffers, mem := m } b.pool poolBufferSize
      (uHWrite % b.poolCnt) uLWrite [msg] with
    | (false, a) => (enErrNoMemory, { b with buffers := a.buffers }, a.mem)
    | (true, a) =>
        (1, { b with
              buffers := a.buffers
              write := packCursor
                ((uHWrite + (uLWrite + 1) / b.bufferSize) % (2 * b.poolCnt))
                ((uLWrite + 1) % b.bufferSize) }, a.mem)

/-- The first step of `msg_buff_read`: the write and the read cursor. -/
def msgBuffLoad (b : MsgBuff α) : Nat × Nat := (b.write, b.read)

/-- The copy loop of `msg_buff_read`: the messages and the cursor behind them. -/
def msgBuffCopyLoop (buffers : Nat → Option (Block α)) (poolCnt bufferSize : Nat) :
    Nat → Nat → Nat → List (Option α) × Nat × Nat
  | 0, uHRead, uLRead => ([], uHRead, uLRead)
  | k + 1, uHRead, uLRead =>
      let rest := msgBuffCopyLoop buffers poolCnt bufferSize k
        ((uHRead + (uLRead + 1) / bufferSize) % (2 * poolCnt)) ((uLRead + 1) % bufferSize)
      ((buffers (uHRead % poolCnt)).map (fun bf => bf.data uLRead) :: rest.1, rest.2)

/-- The messages counted by two cursors, as in `msg_buff_read` and `msg_buff_size`. -/
def msgBuffCount (b : MsgBuff α) (uWrite uRead : Nat) : Nat :=
  sub32 (u32 (b.poolCnt * b.bufferSize))
    (buffGetSpace b.poolCnt b.bufferSize (cursorH uRead) (cursorL uRead) (cursorH uWrite)
      (cursorL uWrite))

/-- The second step of `msg_buff_read`, with the cursors loaded in the first one. -/
def msgBuffFinish (m : Memory α) (b : MsgBuff α) (uWrite uRead n : Nat) :
    List (Option α) × MsgBuff α × Memory α :=
  let commandCnt := min (msgBuffCount b uWrite uRead) n
  let copied := msgBuffCopyLoop b.buffers b.poolCnt b.bufferSize commandCnt (cursorH uRead)
    (cursorL uRead)
  let gc := buffGcHelp b.buffers b.poolCnt (u32 (b.msgTypeSize * b.bufferSize)) b.freeH copied.2.1
    (cursorH uWrite) b.pool m
  (copied.1,
    { b with
      buffers := gc.buffers
      freeH := gc.uHFree
      read := packCursor copied.2.1 copied.2.2 }, gc.mem)

/-- `msg_buff_read` without writes in between. -/
def msgBuffRead (m : Memory α) (b : MsgBuff α) (n : Nat) :
    List (Option α) × MsgBuff α × Memory α :=
  msgBuffFinish m b (msgBuffLoad b).1 (msgBuffLoad b).2 n

def msgBuffSize (b : MsgBuff α) : Nat := msgBuffCount b b.write b.read

/-- The ring of `n` blocks of `bs` messages stores `q` from position `r` on. -/
structure MsgBuff.Rep (n bs : Nat) (b : MsgBuff α) (r : Nat) (q : List α) : Prop where
  geometry : Geometry n bs
  poolCnt : b.poolCnt = n
  bufferSize : b.bufferSize = bs
  fits : q.length ≤ n * bs
  write : b.write = positionCursor n bs (r + q.length)
  read : b.read = positionCursor n bs (r + n * bs)
  freeH : b.freeH = block n bs (r + n * bs)
  holds : Holds b.buffers n bs r q

namespace MsgBuff

theorem create_rep {n bs : Nat} (g : Geometry n bs) (msgTypeSize : Nat) (pool : Option Nat) :
    Rep (α := α) n bs (msgBuffCreate msgTypeSize bs n pool) 0 [] := by
  obtain ⟨hcur, hblock⟩ := positionCursor_capacity g
  exact ⟨g, rfl, rfl, Nat.zero_le _, positionCursor_zero.symm, hcur.symm, hblock.symm,
    Holds.nil _ _ _ _⟩

namespace Rep

variable {n bs r : Nat} {b b' : MsgBuff α} {q : List α}

theorem full_iff (h : Rep n bs b r q) : b.write = b.read ↔ q.length = n * bs := by
  have hfits := h.fits
  rw [h.write, h.read, positionCursor_inj h.geometry (by omega) (by omega)]
  omega

theorem write_full (h : Rep n bs b r q) (hfull : q.length = n * bs) (m : Memory α) (msg : α) :
    msgBuffWrite m b msg = (0, b, m) := by
  simp only [msgBuffWrite, if_pos (h.full_iff.mpr hfull)]

/-- A message is appended unless an allocation fails, which changes nothing stored. -/
theorem write_room (h : Rep n bs b r q) (hroom : q.length < n * bs) {m m' : Memory α} {msg : α}
    {ret : Int} (ht : msgBuffWrite m b msg = (ret, b', m')) :
    m'.fate = m.fate ∧ b'.read = b.read ∧ (m.AllocOk → ret = 1) ∧
      (ret = 1 ∧ Rep n bs b' r (q ++ [msg]) ∨ ret = enErrNoMemory ∧ Rep n bs b' r q) := by
  obtain rfl := h.poolCnt
  obtain rfl := h.bufferSize
  have g := h.geometry
  have hoff := offset_lt g.bs_pos (r + q.length)
  have hH : cursorH b.write = block b.poolCnt b.bufferSize (r + q.length) := by
    rw [h.write, cursorH_position g]
  have hL : cursorL b.write = offset b.bufferSize (r + q.length) := by
    rw [h.write, cursorL_position g]
  have hnot : ¬ b.write = b.read := fun heq => Nat.ne_of_lt hroom (h.full_iff.mp heq)
  simp only [msgBuffWrite, if_neg hnot, hH, hL, block_mod] at ht
  split at ht
  · rename_i a hcopy
    have hone := Arena.copyIn_filled g h.holds rfl rfl (by rw [List.length_singleton]; omega)
      (by rw [List.length_singleton]; omega) hcopy
    simp only [Prod.mk.injEq] at ht
    obtain ⟨rfl, rfl, rfl⟩ := ht
    exact ⟨hone.fate, rfl, fun ha => (Bool.false_ne_true (hone.success ha)).elim,
      .inr ⟨rfl, g, rfl, rfl, h.fits, h.write, h.read, h.freeH, hone.keeps⟩⟩
  · rename_i a hcopy
    have hone := Arena.copyIn_filled g h.holds rfl rfl (by rw [List.length_singleton]; omega)
      (by rw [List.length_singleton]; omega) hcopy
    simp only [Prod.mk.injEq] at ht
    obtain ⟨rfl, rfl, rfl⟩ := ht
    refine ⟨hone.fate, rfl, fun _ => rfl,
      .inl ⟨rfl, g, rfl, rfl, ?_, ?_, h.read, h.freeH, hone.appends rfl⟩⟩
    · rw [List.length_append, List.length_singleton]
      exact hroom
    · rw [block_advance g.bs_pos, offset_advance, List.length_append, List.length_singleton,
        ← Nat.add_assoc]
      rfl

/-! ## Reading with loaded cursors -/

theorem copyLoop_eq (g : Geometry n bs) {buffers : Nat → Option (Block α)} {p : Nat} {s : List α}
    (h : Holds buffers n bs p s) :
    msgBuffCopyLoop buffers n bs s.length (block n bs (p + n * bs)) (offset bs (p + n * bs)) =
      (s.map some, block n bs (p + s.length + n * bs), offset bs (p + s.length + n * bs)) := by
  induction s generalizing p with
  | nil => rfl
  | cons x s ih =>
      have hcell := h 0 x rfl
      have hrest : Holds buffers n bs (p + 1) s := h.drop 1
      have hstep := ih hrest
      rw [Nat.add_right_comm p 1] at hstep
      rw [List.length_cons, msgBuffCopyLoop, block_advance g.bs_pos, offset_advance, hstep]
      simp only [block_mod, slot_add_capacity g.bs_pos, offset_add_capacity, List.map_cons,
        Prod.mk.injEq, List.cons.injEq, and_true]
      refine ⟨hcell, ?_, ?_⟩
      · rw [Nat.add_assoc p 1, Nat.add_comm 1]
      · rw [Nat.add_assoc p 1, Nat.add_comm 1]

theorem count_eq (h : Rep n bs b r q) {ws : Nat} (hlo : r ≤ ws) (hhi : ws ≤ r + n * bs) :
    msgBuffCount b (positionCursor n bs ws) b.read = ws - r := by
  have g := h.geometry
  have hcap := g.capacity_lt
  rw [msgBuffCount, h.poolCnt, h.bufferSize, h.read, cursorH_position g, cursorL_position g,
    cursorH_position g, cursorL_position g, (buffGetSpace_position g hhi (by omega)).1,
    u32_of_lt (by omega), sub32_of_le (by omega) (by omega)]
  omega

theorem size_eq (h : Rep n bs b r q) : msgBuffSize b = q.length := by
  have hfits := h.fits
  rw [msgBuffSize, h.write, h.count_eq (Nat.le_add_right _ _) (by omega)]
  omega

end Rep

/-- Releasing the blocks behind a reader that loaded the write position `ws` and copied
`k` messages keeps everything up to `w`: the writer has not come round into the block
the reader started in, or it was there when the cursors were loaded, or the reader
stays in that block. -/
def Spares (n bs r ws w k : Nat) : Prop :=
  w ≤ (r / bs + n) * bs ∨ (r / bs + n) * bs ≤ ws ∨ r + k < (r / bs + 1) * bs

instance (n bs r ws w k : Nat) : Decidable (Spares n bs r ws w k) := by
  unfold Spares
  infer_instance

theorem Spares.ne_slot {n bs r ws w k p i : Nat} (g : Geometry n bs) (h : Spares n bs r ws w k)
    (hws : ws ≤ w) (hw : w ≤ r + n * bs) (hp : r + k ≤ p) (hpw : p < w)
    (hrel : Released n (ws / bs) (r / bs) ((r + k) / bs - r / bs) i) : slot n bs p ≠ i := by
  obtain ⟨hne, j, hj, rfl⟩ := hrel
  intro hslot
  have hp1 : (r + k) / bs ≤ p / bs := Nat.div_le_div_right hp
  have hlap : w / bs ≤ r / bs + n := by
    rw [← div_add_capacity g.bs_pos]
    exact Nat.div_le_div_right hw
  have hp2 : p / bs ≤ w / bs := Nat.div_le_div_right (Nat.le_of_lt hpw)
  -- Only a position a whole lap ahead can share a released slot: the first block.
  have hfar : r / bs + j + n ≤ p / bs := by
    by_contra hnear
    have := block_index_unique hslot (by omega) (by omega)
    omega
  obtain rfl : j = 0 := by omega
  have hpos : (r / bs + n) * bs ≤ p :=
    Nat.le_trans (Nat.mul_le_mul_right bs (by omega)) (Nat.div_mul_le_self p bs)
  rcases h with hw' | hws' | hstay
  · omega
  · have hsame : ws / bs = r / bs + n := by
      have hle : r / bs + n ≤ ws / bs := (Nat.le_div_iff_mul_le g.bs_pos).mpr hws'
      have := Nat.div_le_div_right (c := bs) hws
      omega
    exact hne (by rw [hsame, Nat.add_zero, Nat.add_mod_right])
  · have : (r + k) / bs < r / bs + 1 := (Nat.div_lt_iff_lt_mul g.bs_pos).mpr hstay
    omega

/-- Otherwise the block the reader started in is released, although the writer is in it. -/
theorem Spares.released {n bs r ws w k : Nat} (g : Geometry n bs) (h : ¬ Spares n bs r ws w k)
    (hk : r + k ≤ ws) :
    (r / bs + n) * bs < w ∧
      Released n (ws / bs) (r / bs) ((r + k) / bs - r / bs) (slot n bs ((r / bs + n) * bs)) := by
  simp only [Spares, not_or, Nat.not_le, Nat.not_lt] at h
  obtain ⟨hw, hws, hleft⟩ := h
  have hmoved : r / bs + 1 ≤ (r + k) / bs := (Nat.le_div_iff_mul_le g.bs_pos).mpr hleft
  have hseen : (r + k) / bs ≤ ws / bs := Nat.div_le_div_right hk
  have hlap : ws / bs < r / bs + n := (Nat.div_lt_iff_lt_mul g.bs_pos).mpr hws
  have hslot : slot n bs ((r / bs + n) * bs) = r / bs % n := by
    rw [slot, Nat.mul_div_cancel _ g.bs_pos, Nat.add_mod_right]
  refine ⟨hw, ?_, 0, by omega, by rw [hslot, Nat.add_zero]⟩
  intro heq
  have := block_index_unique (heq.symm.trans hslot) (by omega) (by omega)
  omega

namespace Rep

variable {n bs r : Nat} {b b' : MsgBuff α} {q : List α}

/-- The second step of a read returns the messages that were there at the first step,
and keeps the others exactly if `Spares` holds. -/
theorem finish (h : Rep n bs b r q) {ws cnt : Nat} (hlo : r ≤ ws) (hhi : ws ≤ r + q.length)
    {m m' : Memory α} {msgs : List (Option α)}
    (ht : msgBuffFinish m b (positionCursor n bs ws) b.read cnt = (msgs, b', m')) :
    msgs = (q.take (min (ws - r) cnt)).map some ∧ m'.fate = m.fate ∧
      (Spares n bs r ws (r + q.length) (min (ws - r) cnt) →
        Rep n bs b' (r + min (ws - r) cnt) (q.drop (min (ws - r) cnt))) ∧
      (¬ Spares n bs r ws (r + q.length) (min (ws - r) cnt) →
        (r / bs + n) * bs < r + q.length ∧
          cell b'.buffers b'.poolCnt b'.bufferSize ((r / bs + n) * bs) = none) := by
  obtain rfl := h.poolCnt
  obtain rfl := h.bufferSize
  have g := h.geometry
  have hfits := h.fits
  have hcount := h.count_eq hlo (by omega)
  simp only [msgBuffFinish, hcount] at ht
  generalize hk : min (ws - r) cnt = k at ht ⊢
  have hlen : (q.take k).length = k := by
    rw [List.length_take]
    omega
  have hcopy := copyLoop_eq g (h.holds.take k)
  rw [hlen] at hcopy
  have hH : cursorH b.read = block b.poolCnt b.bufferSize (r + b.poolCnt * b.bufferSize) := by
    rw [h.read, cursorH_position g]
  have hL : cursorL b.read = offset b.bufferSize (r + b.poolCnt * b.bufferSize) := by
    rw [h.read, cursorL_position g]
  simp only [hH, hL, hcopy, cursorH_position g, h.freeH] at ht
  generalize hgc : buffGcHelp b.buffers b.poolCnt (u32 (b.msgTypeSize * b.bufferSize))
    (block b.poolCnt b.bufferSize (r + b.poolCnt * b.bufferSize))
    (block b.poolCnt b.bufferSize (r + k + b.poolCnt * b.bufferSize))
    (block b.poolCnt b.bufferSize ws) b.pool m = gc at ht
  obtain ⟨hfree, hfate, hbuf⟩ := buffGcHelp_spec g (Nat.le_add_right r k) (by omega) hgc
  simp only [Prod.mk.injEq] at ht
  obtain ⟨rfl, rfl, rfl⟩ := ht
  refine ⟨rfl, hfate, fun hspares => ⟨g, rfl, rfl, ?_, ?_, rfl, hfree, ?_⟩, fun hspares => ?_⟩
  · rw [List.length_drop]
    omega
  · have hend : r + k + (q.drop k).length = r + q.length := by
      rw [List.length_drop]
      omega
    rw [hend]
    exact h.write
  · refine (h.holds.drop k).congr_slots fun i hi => (hbuf _).2 fun hrel => ?_
    rw [List.length_drop] at hi
    exact hspares.ne_slot g (by omega) (by omega) (by omega) (by omega) hrel rfl
  · obtain ⟨hin, hrel⟩ := Spares.released g hspares (by omega)
    refine ⟨hin, ?_⟩
    simp only [cell, (hbuf _).1 hrel, Option.map_none]

/-- Without writes in between, a read removes a front part of the queue. -/
theorem read_eq (h : Rep n bs b r q) {cnt : Nat} {m m' : Memory α} {msgs : List (Option α)}
    (ht : msgBuffRead m b cnt = (msgs, b', m')) :
    msgs = (q.take cnt).map some ∧ m'.fate = m.fate ∧
      Rep n bs b' (r + min q.length cnt) (q.drop cnt) := by
  rw [msgBuffRead, msgBuffLoad, h.write] at ht
  obtain ⟨hmsgs, hfate, hrep, -⟩ := h.finish (Nat.le_add_right _ _) (Nat.le_refl _) ht
  rw [Nat.add_sub_cancel_left] at hmsgs hrep
  have hspares : Spares n bs r (r + q.length) (r + q.length) (min q.length cnt) := by
    rcases Nat.le_total (r + q.length) ((r / bs + n) * bs) with hle | hle
    · exact .inl hle
    · exact .inr (.inl hle)
  refine ⟨?_, hfate, ?_⟩
  · rw [hmsgs, Nat.min_comm, ← List.take_eq_take_min]
  · have hdrop : q.drop (min q.length cnt) = q.drop cnt := by
      rcases Nat.le_total q.length cnt with hall | hsome
      · rw [Nat.min_eq_left hall, List.drop_length, List.drop_eq_nil_of_le hall]
      · rw [Nat.min_eq_right hsome]
    rw [← hdrop]
    exact hrep hspares

end Rep

/-! ## The bounded queue -/

/-- The buffer stores the items of the queue, somewhere on its ring. -/
def Refines (b : MsgBuff α) (q : BoundedQueue α) : Prop :=
  ∃ n bs r, Rep n bs b r q.items ∧ q.capacity = n * bs

namespace Refines

variable {b b' : MsgBuff α} {q : BoundedQueue α}

theorem create {n bs : Nat} (g : Geometry n bs) (msgTypeSize : Nat) (pool : Option Nat) :
    Refines (α := α) (msgBuffCreate msgTypeSize bs n pool) (.empty (n * bs)) :=
  ⟨n, bs, 0, create_rep g msgTypeSize pool, rfl⟩

/-- With successful allocation `msg_buff_write` is `push`. -/
theorem write (h : Refines b q) {m m' : Memory α} (halloc : m.AllocOk) {msg : α} {ret : Int}
    (ht : msgBuffWrite m b msg = (ret, b', m')) :
    ret = (if (q.push msg).1 then 1 else 0) ∧ Refines b' (q.push msg).2 := by
  obtain ⟨n, bs, r, hrep, hcap⟩ := h
  by_cases hroom : q.items.length < q.capacity
  · obtain ⟨hpushed, hitems⟩ := BoundedQueue.push_room (x := msg) hroom
    obtain ⟨-, -, hret, hcases⟩ := hrep.write_room (hcap ▸ hroom) ht
    obtain rfl := hret halloc
    rcases hcases with ⟨-, hrep'⟩ | ⟨hno, -⟩
    · rw [hpushed]
      exact ⟨rfl, n, bs, r, hitems ▸ hrep', BoundedQueue.push_capacity.trans hcap⟩
    · exact absurd hno (by decide)
  · have hfull : q.items.length = n * bs :=
      Nat.le_antisymm hrep.fits (hcap ▸ Nat.le_of_not_lt hroom)
    rw [hrep.write_full hfull] at ht
    cases ht
    rw [BoundedQueue.push_full hroom]
    exact ⟨rfl, n, bs, r, hrep, hcap⟩

/-- `msg_buff_read` is `pop`. -/
theorem read (h : Refines b q) {cnt : Nat} {m m' : Memory α} {msgs : List (Option α)}
    (ht : msgBuffRead m b cnt = (msgs, b', m')) :
    msgs = (q.pop cnt).1.map some ∧ Refines b' (q.pop cnt).2 := by
  obtain ⟨n, bs, r, hrep, hcap⟩ := h
  obtain ⟨hmsgs, -, hrep'⟩ := hrep.read_eq ht
  exact ⟨hmsgs, n, bs, _, hrep', hcap⟩

end Refines

end MsgBuff

end RandServer
