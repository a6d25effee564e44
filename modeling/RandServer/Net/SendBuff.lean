import RandServer.Lib.Framing
import RandServer.Net.Buff

/-!
# The send buffer

`struct send_buff` of `buff.c`. `SendBuff.Rep b r q` says that the ring stores the
bytes `q` from position `r` on, with consistent cursors. Under it the buffer is a
byte queue: `sendBuffWrite_spec` appends a frame, `sendBuffPrepare_eq` exposes a
nonempty prefix, and `sendBuffConsume_spec` drops one.
-/

namespace RandServer

open LapRing Framing

structure SendBuff where
  buffers : Nat → Option (Block UInt8)
  write : Nat
  read : Nat
  bufferSize : Nat
  poolCnt : Nat
  freeH : Nat
  enByte : EnByteSize
  pool : Option Nat

def sendBuffCreate (m : Memory UInt8) (enByte : EnByteSize) (poolCnt pool : Nat) : SendBuff where
  buffers := fun _ => none
  write := 0
  read := u32 (poolCnt <<< 16)
  bufferSize := u16 (m.pools pool).bufferSize
  poolCnt := poolCnt
  freeH := poolCnt
  enByte := enByte
  pool := some pool

/-- `send_buff_prepare`: the size of the exposed piece, and the slot and offset it
starts at. -/
def sendBuffPrepare (b : SendBuff) : Nat × Option (Nat × Nat) :=
  let uHWrite := cursorH b.write
  let uLWrite := cursorL b.write
  let uHRead := cursorH b.read
  let uLRead := cursorL b.read
  let uHW := uHWrite % b.poolCnt
  let uHR := uHRead % b.poolCnt
  let uSpace := if uHRead ≠ uHWrite ∧ uHW = uHR then sub32 uLWrite uLRead
    else sub32 b.bufferSize uLRead
  if uSpace = 0 then (0, none) else (uSpace, some (uHR, uLRead))

def sendBuffConsume (m : Memory UInt8) (b : SendBuff) (usize : Nat) : SendBuff × Memory UInt8 :=
  if usize = 0 then (b, m)
  else
    let uHWrite := cursorH b.write
    let uLRead := cursorL b.read + u32 usize
    let uHRead := (cursorH b.read + uLRead / b.bufferSize) % (2 * b.poolCnt)
    let uLRead := uLRead % b.bufferSize
    let gc := buffGcHelp b.buffers b.poolCnt b.bufferSize b.freeH uHRead uHWrite b.pool m
    ({ b with buffers := gc.buffers, freeH := gc.uHFree, read := packCursor uHRead uLRead },
      gc.mem)

/-- The bytes that the caller finds behind a pointer into slot `i`. -/
def SendBuff.peek (b : SendBuff) (ptr : Option (Nat × Nat)) (usize : Nat) : List UInt8 :=
  match ptr with
  | none => []
  | some (i, off) =>
      match b.buffers i with
      | none => []
      | some bf => bf.read off usize

@[simp] theorem SendBuff.peek_zero (b : SendBuff) (ptr : Option (Nat × Nat)) :
    b.peek ptr 0 = [] := by
  simp only [peek]
  split
  · rfl
  · split <;> rfl

/-- Header byte `i` of a message size: the byte is shifted to the top of the word and
back down. -/
def sizeByte (msgSize i : Nat) : UInt8 :=
  UInt8.ofNat (u32 (msgSize <<< (8 * (3 - i))) >>> 24)

/-- The header loop of `send_buff_write`: `k` bytes from index `i` on. -/
def sendBuffPutHeader (poolCnt bufferSize : Nat) (pool : Option Nat) (msgSize : Nat) :
    Nat → Nat → Arena UInt8 → Nat → Nat → Bool × Arena UInt8 × Nat × Nat
  | 0, _, a, uHWrite, uLWrite => (true, a, uHWrite, uLWrite)
  | k + 1, i, a, uHWrite, uLWrite =>
      match a.copyIn pool bufferSize (uHWrite % poolCnt) uLWrite [sizeByte msgSize i] with
      | (false, a) => (false, a, uHWrite, uLWrite)
      | (true, a) =>
          sendBuffPutHeader poolCnt bufferSize pool msgSize k (i + 1) a
            ((uHWrite + (uLWrite + 1) / bufferSize) % (2 * poolCnt))
            ((uLWrite + 1) % bufferSize)

/-- The loop over full blocks of `send_buff_write`: `k` blocks from index `i` on. -/
def sendBuffPutBlocks (poolCnt bufferSize : Nat) (pool : Option Nat) (uHWrite : Nat) :
    Nat → Nat → Arena UInt8 → List UInt8 → Bool × Arena UInt8
  | 0, _, a, _ => (true, a)
  | k + 1, i, a, pdata =>
      match a.copyIn pool bufferSize ((uHWrite + 1 + i) % poolCnt) 0 (pdata.take bufferSize) with
      | (false, a) => (false, a)
      | (true, a) =>
          sendBuffPutBlocks poolCnt bufferSize pool uHWrite k (i + 1) a (pdata.drop bufferSize)

/-- The full blocks and the start of a last block, once the rest of the current block
is filled. -/
def sendBuffPutTail (poolCnt bufferSize : Nat) (pool : Option Nat) (a : Arena UInt8)
    (uHWrite : Nat) (rest : List UInt8) : Bool × Arena UInt8 × Nat × Nat :=
  let uH := rest.length / bufferSize
  let uL := rest.length % bufferSize
  match sendBuffPutBlocks poolCnt bufferSize pool uHWrite uH 0 a rest with
  | (false, a) => (false, a, uHWrite, 0)
  | (true, a) =>
      match a.copyIn pool bufferSize ((uHWrite + 1 + uH) % poolCnt) 0
        ((rest.drop (uH * bufferSize)).take uL) with
      | (false, a) => (false, a, uHWrite, 0)
      | (true, a) => (true, a, (uHWrite + 1 + uH) % (2 * poolCnt), uL)

/-- Copy the payload behind the header: inside one block, or over the rest of this
block and the following ones. -/
def sendBuffPutPayload (poolCnt bufferSize : Nat) (pool : Option Nat) (a : Arena UInt8)
    (uHWrite uLWrite : Nat) (pdata : List UInt8) : Bool × Arena UInt8 × Nat × Nat :=
  let usize := pdata.length
  let uCurRestSize := bufferSize - uLWrite
  if uCurRestSize ≥ usize then
    match a.copyIn pool bufferSize (uHWrite % poolCnt) uLWrite pdata with
    | (false, a) => (false, a, uHWrite, uLWrite)
    | (true, a) =>
        (true, a, (uHWrite + (uLWrite + usize) / bufferSize) % (2 * poolCnt),
          (uLWrite + usize) % bufferSize)
  else
    match a.copyIn pool bufferSize (uHWrite % poolCnt) uLWrite (pdata.take uCurRestSize) with
    | (false, a) => (false, a, uHWrite, uLWrite)
    | (true, a) => sendBuffPutTail poolCnt bufferSize pool a uHWrite (pdata.drop uCurRestSize)

/-- The size check of `send_buff_write`: what is left of the payload size after
shifting out one byte for each header byte. -/
def sizeRest (enByte : EnByteSize) (usize : Nat) : Nat := (· >>> 8)^[enByte.toNat] usize

/-- `send_buff_write`: the return value, and the buffer and heap afterwards. The
caller passes at least `size` bytes in `pdata`, and `sendBuffWriteAssert` holds. -/
def sendBuffWrite (m : Memory UInt8) (b : SendBuff) (pdata : List UInt8) (size : Int) :
    Int × SendBuff × Memory UInt8 :=
  if size < 0 then (0, b, m)
  else
    let usize := size.toNat
    if sizeRest b.enByte usize > 0 then (0, b, m)
    else
      let uHWrite := cursorH b.write
      let uLWrite := cursorL b.write
      let msgSize := u32 (usize + b.enByte.toNat)
      let uSpace := buffGetSpace b.poolCnt b.bufferSize (cursorH b.read) (cursorL b.read)
        uHWrite uLWrite
      if uSpace < msgSize then (0, b, m)
      else
        match sendBuffPutHeader b.poolCnt b.bufferSize b.pool msgSize b.enByte.toNat 0
          { buffers := b.buffers, mem := m } uHWrite uLWrite with
        | (false, a, _, _) => (enErrNoMemory, { b with buffers := a.buffers }, a.mem)
        | (true, a, uHWrite, uLWrite) =>
            match sendBuffPutPayload b.poolCnt b.bufferSize b.pool a uHWrite uLWrite
              (pdata.take usize) with
            | (false, a, _, _) => (enErrNoMemory, { b with buffers := a.buffers }, a.mem)
            | (true, a, uHWrite, uLWrite) =>
                (size, { b with buffers := a.buffers, write := packCursor uHWrite uLWrite },
                  a.mem)

/-! ## The assertions

The source is built with its assertions, so a call for which one of them fails ends the
program. -/

/-- The assertions of `send_buff_write`, with the one in `buff_get_space`. They are reached by
sizes that pass the checks before them. -/
def sendBuffWriteAssert (b : SendBuff) (size : Int) : Prop :=
  0 ≤ size → sizeRest b.enByte size.toNat = 0 →
    buffGetSpaceAssert (cursorH b.read) (cursorL b.read) (cursorH b.write) (cursorL b.write) ∧
      buffGetSpace b.poolCnt b.bufferSize (cursorH b.read) (cursorL b.read) (cursorH b.write)
        (cursorL b.write) ≤ u32 (b.poolCnt * b.bufferSize)

def sendBuffPrepareAssert (b : SendBuff) : Prop :=
  (cursorH b.read ≠ cursorH b.write ∧ cursorH b.write % b.poolCnt = cursorH b.read % b.poolCnt →
    cursorL b.read ≤ cursorL b.write) ∧ (sendBuffPrepare b).1 ≤ b.bufferSize

def sendBuffConsumeAssert (b : SendBuff) (usize : Nat) : Prop :=
  usize ≤ u32 (b.bufferSize * b.poolCnt)

instance (b : SendBuff) (size : Int) : Decidable (sendBuffWriteAssert b size) := by
  unfold sendBuffWriteAssert buffGetSpaceAssert
  infer_instance

instance (b : SendBuff) : Decidable (sendBuffPrepareAssert b) := by
  unfold sendBuffPrepareAssert
  infer_instance

instance (b : SendBuff) (usize : Nat) : Decidable (sendBuffConsumeAssert b usize) := by
  unfold sendBuffConsumeAssert
  infer_instance

/-! ## Copying a frame into the ring -/

section Fill

variable {n bs lo : Nat} (g : Geometry n bs)

theorem sizeByte_eq {msgSize i : Nat} (hi : i < 4) :
    sizeByte msgSize i = UInt8.ofNat (msgSize / 256 ^ i) := by
  apply UInt8.toNat_inj.mp
  rw [sizeByte, UInt8.toNat_ofNat', UInt8.toNat_ofNat', u32, Nat.shiftLeft_eq,
    Nat.shiftRight_eq_div_pow]
  obtain rfl | rfl | rfl | rfl : i = 0 ∨ i = 1 ∨ i = 2 ∨ i = 3 := by omega
  all_goals
    norm_num
    omega

theorem sizeBytes_eq {enByte : EnByteSize} (msgSize : Nat) :
    (List.range' 0 enByte.toNat).map (sizeByte msgSize) = leBytes enByte.toNat msgSize := by
  apply List.ext_getElem?
  intro i
  by_cases hi : i < enByte.toNat
  · rw [leBytes_getElem? hi, List.getElem?_map, List.getElem?_range' hi]
    simp [sizeByte_eq (Nat.lt_of_lt_of_le hi enByte.toNat_le)]
  · rw [List.getElem?_eq_none (by simpa using hi), List.getElem?_eq_none (by simpa using hi)]

include g

theorem sendBuffPutHeader_filled {pool : Option Nat} {msgSize k i : Nat}
    {a a' : Arena UInt8} {done : Bool} {xs : List UInt8} {h l h' l' : Nat}
    (hold : Holds a.buffers n bs lo xs) (hh : h = block n bs (lo + xs.length))
    (hl : l = offset bs (lo + xs.length)) (hcap : xs.length + k ≤ n * bs)
    (ht : sendBuffPutHeader n bs pool msgSize k i a h l = (done, a', h', l')) :
    Filled n bs lo xs ((List.range' i k).map (sizeByte msgSize)) a a' done ∧
      (done = true → h' = block n bs (lo + xs.length + k) ∧
        l' = offset bs (lo + xs.length + k)) := by
  induction k generalizing i a xs h l with
  | zero =>
      simp only [sendBuffPutHeader, Prod.mk.injEq] at ht
      obtain ⟨rfl, rfl, rfl, rfl⟩ := ht
      exact ⟨⟨rfl, fun _ => rfl, hold, fun _ => by simpa using hold⟩, fun _ => ⟨hh, hl⟩⟩
  | succ k ih =>
      have hoff := offset_lt g.bs_pos (lo + xs.length)
      have hslot : h % n = slot n bs (lo + xs.length) := by rw [hh, block_mod]
      rw [sendBuffPutHeader] at ht
      split at ht
      · rename_i a₁ hcopy
        simp only [Prod.mk.injEq] at ht
        obtain ⟨rfl, rfl, rfl, rfl⟩ := ht
        have hone := Arena.copyIn_filled g hold hslot hl (by simp; omega) (by simp; omega) hcopy
        exact ⟨⟨hone.fate, hone.success, hone.keeps, nofun⟩, nofun⟩
      · rename_i a₁ hcopy
        have hone := Arena.copyIn_filled g hold hslot hl (by simp; omega) (by simp; omega) hcopy
        have hpos : lo + xs.length + 1 = lo + (xs ++ [sizeByte msgSize i]).length := by
          simp [Nat.add_assoc]
        obtain ⟨hrest, hcur⟩ := ih (hone.appends rfl)
          (by rw [hh, hl, block_advance g.bs_pos, hpos]) (by rw [hl, offset_advance, hpos])
          (by simp; omega) ht
        have hend : lo + (xs ++ [sizeByte msgSize i]).length + k = lo + xs.length + (k + 1) := by
          rw [← hpos]
          omega
        rw [hend] at hcur
        exact ⟨hone.trans hrest, hcur⟩

/-- Full blocks are copied from a block boundary `p` on. -/
theorem sendBuffPutBlocks_filled {pool : Option Nat} {uHWrite k i p : Nat}
    {a a' : Arena UInt8} {done : Bool} {xs pdata : List UInt8}
    (hold : Holds a.buffers n bs lo xs) (hh : (uHWrite + 1) % (2 * n) = block n bs p)
    (hp : offset bs p = 0) (hpos : lo + xs.length = p + i * bs) (hdata : k * bs ≤ pdata.length)
    (hcap : xs.length + k * bs ≤ n * bs)
    (ht : sendBuffPutBlocks n bs pool uHWrite k i a pdata = (done, a')) :
    Filled n bs lo xs (pdata.take (k * bs)) a a' done := by
  induction k generalizing i a xs pdata with
  | zero =>
      simp only [sendBuffPutBlocks, Prod.mk.injEq] at ht
      obtain ⟨rfl, rfl⟩ := ht
      exact ⟨rfl, fun _ => rfl, hold, fun _ => by simpa using hold⟩
  | succ k ih =>
      rw [Nat.succ_mul] at hdata hcap
      have htake : (pdata.take bs).length = bs := by
        rw [List.length_take]
        omega
      have hslot := slot_boundary (n := n) g.bs_pos hh i
      have hoff := offset_boundary hp i
      rw [← hpos] at hslot hoff
      rw [sendBuffPutBlocks] at ht
      split at ht
      · rename_i a₁ hcopy
        simp only [Prod.mk.injEq] at ht
        obtain ⟨rfl, rfl⟩ := ht
        have hone := Arena.copyIn_filled g hold hslot hoff.symm (by omega) (by omega) hcopy
        exact ⟨hone.fate, hone.success, hone.keeps, nofun⟩
      · rename_i a₁ hcopy
        have hone := Arena.copyIn_filled g hold hslot hoff.symm (by omega) (by omega) hcopy
        have hrest := ih (hone.appends rfl)
          (by rw [List.length_append, htake, Nat.succ_mul]; omega)
          (by rw [List.length_drop]; omega) (by rw [List.length_append, htake]; omega) ht
        rw [Nat.succ_mul, Nat.add_comm (k * bs), List.take_add]
        exact hone.trans hrest

theorem sendBuffPutTail_filled {pool : Option Nat} {a a' : Arena UInt8} {done : Bool}
    {xs rest : List UInt8} {h h' l' : Nat} (hold : Holds a.buffers n bs lo xs)
    (hh : (h + 1) % (2 * n) = block n bs (lo + xs.length)) (hoff : offset bs (lo + xs.length) = 0)
    (hcap : xs.length + rest.length ≤ n * bs)
    (ht : sendBuffPutTail n bs pool a h rest = (done, a', h', l')) :
    Filled n bs lo xs rest a a' done ∧
      (done = true → h' = block n bs (lo + xs.length + rest.length) ∧
        l' = offset bs (lo + xs.length + rest.length)) := by
  have hsize : rest.length / bs * bs + rest.length % bs = rest.length := by
    rw [Nat.mul_comm]
    exact Nat.div_add_mod _ _
  have hlast : rest.length % bs < bs := Nat.mod_lt _ g.bs_pos
  rw [sendBuffPutTail] at ht
  split at ht
  · rename_i a₁ hput
    simp only [Prod.mk.injEq] at ht
    obtain ⟨rfl, rfl, rfl, rfl⟩ := ht
    have hone := sendBuffPutBlocks_filled g hold hh hoff (by omega) (by omega) (by omega) hput
    exact ⟨⟨hone.fate, hone.success, hone.keeps, nofun⟩, nofun⟩
  · rename_i a₁ hput
    have hone := sendBuffPutBlocks_filled g hold hh hoff (by omega) (by omega) (by omega) hput
    have htake : (rest.take (rest.length / bs * bs)).length = rest.length / bs * bs := by
      rw [List.length_take]
      omega
    have hdrop : (rest.drop (rest.length / bs * bs)).take (rest.length % bs) =
        rest.drop (rest.length / bs * bs) := by
      apply List.take_of_length_le
      rw [List.length_drop]
      omega
    have hpos : lo + (xs ++ rest.take (rest.length / bs * bs)).length =
        lo + xs.length + rest.length / bs * bs := by
      rw [List.length_append, htake, Nat.add_assoc]
    have hstep : ∀ {done a₂}, a₁.copyIn pool bs ((h + 1 + rest.length / bs) % n) 0
        ((rest.drop (rest.length / bs * bs)).take (rest.length % bs)) = (done, a₂) →
        Filled n bs lo xs rest a a₂ done := by
      intro done a₂ hcopy
      rw [hdrop] at hcopy
      have htwo := Arena.copyIn_filled g (hone.appends rfl)
        (by rw [hpos]; exact slot_boundary g.bs_pos hh _)
        (by rw [hpos]; exact (offset_boundary hoff _).symm)
        (by rw [List.length_drop]; omega)
        (by rw [List.length_append, htake, List.length_drop]; omega) hcopy
      have hboth := hone.trans htwo
      rwa [List.take_append_drop] at hboth
    split at ht
    · rename_i a₂ hcopy
      simp only [Prod.mk.injEq] at ht
      obtain ⟨rfl, rfl, rfl, rfl⟩ := ht
      exact ⟨hstep hcopy, nofun⟩
    · rename_i a₂ hcopy
      simp only [Prod.mk.injEq] at ht
      obtain ⟨rfl, rfl, rfl, rfl⟩ := ht
      have hend : lo + xs.length + rest.length =
          lo + xs.length + rest.length / bs * bs + rest.length % bs := by omega
      have hlow := offset_boundary (p := lo + xs.length) hoff (rest.length / bs)
      refine ⟨hstep hcopy, fun _ => ⟨?_, ?_⟩⟩
      · rw [hend, block_add_of_lt g.bs_pos (by omega), block_boundary g.bs_pos hh]
      · rw [hend, offset_add_of_lt (by omega), hlow, Nat.zero_add]

theorem sendBuffPutPayload_filled {pool : Option Nat} {a a' : Arena UInt8} {done : Bool}
    {xs pdata : List UInt8} {h l h' l' : Nat} (hold : Holds a.buffers n bs lo xs)
    (hh : h = block n bs (lo + xs.length)) (hl : l = offset bs (lo + xs.length))
    (hcap : xs.length + pdata.length ≤ n * bs)
    (ht : sendBuffPutPayload n bs pool a h l pdata = (done, a', h', l')) :
    Filled n bs lo xs pdata a a' done ∧
      (done = true → h' = block n bs (lo + xs.length + pdata.length) ∧
        l' = offset bs (lo + xs.length + pdata.length)) := by
  have hslot : h % n = slot n bs (lo + xs.length) := by rw [hh, block_mod]
  have hoff := offset_lt g.bs_pos (lo + xs.length)
  rw [sendBuffPutPayload] at ht
  split at ht
  · -- The payload ends in the block of the header.
    split at ht
    · rename_i a₁ hcopy
      simp only [Prod.mk.injEq] at ht
      obtain ⟨rfl, rfl, rfl, rfl⟩ := ht
      exact ⟨Arena.copyIn_filled g hold hslot hl (by omega) hcap hcopy, nofun⟩
    · rename_i a₁ hcopy
      simp only [Prod.mk.injEq] at ht
      obtain ⟨rfl, rfl, rfl, rfl⟩ := ht
      refine ⟨Arena.copyIn_filled g hold hslot hl (by omega) hcap hcopy, fun _ => ⟨?_, ?_⟩⟩
      · rw [hh, hl, block_advance g.bs_pos]
      · rw [hl, offset_advance]
  · have htake : (pdata.take (bs - l)).length = bs - l := by
      rw [List.length_take]
      omega
    split at ht
    · rename_i a₁ hcopy
      simp only [Prod.mk.injEq] at ht
      obtain ⟨rfl, rfl, rfl, rfl⟩ := ht
      have hone := Arena.copyIn_filled g hold hslot hl (by omega) (by omega) hcopy
      exact ⟨⟨hone.fate, hone.success, hone.keeps, nofun⟩, nofun⟩
    · rename_i a₁ hcopy
      have hone := Arena.copyIn_filled g hold hslot hl (by omega) (by omega) hcopy
      -- After the first piece the ring stands on the boundary of the next block.
      have hpos : lo + (xs ++ pdata.take (bs - l)).length = lo + xs.length + (bs - l) := by
        rw [List.length_append, htake, Nat.add_assoc]
      have hfull : offset bs (lo + xs.length) + (bs - l) = bs := by omega
      have hblock : (h + 1) % (2 * n) = block n bs (lo + xs.length + (bs - l)) := by
        rw [← block_advance g.bs_pos, hfull, Nat.div_self g.bs_pos, hh]
      have hbound : offset bs (lo + xs.length + (bs - l)) = 0 := by
        rw [← offset_advance, hfull, Nat.mod_self]
      obtain ⟨htwo, hcur⟩ := sendBuffPutTail_filled g (hone.appends rfl) (by rw [hpos]; exact hblock)
        (by rw [hpos]; exact hbound)
        (by rw [List.length_append, htake, List.length_drop]; omega) ht
      have hboth := hone.trans htwo
      rw [List.take_append_drop] at hboth
      have hend : lo + (xs ++ pdata.take (bs - l)).length + (pdata.drop (bs - l)).length =
          lo + xs.length + pdata.length := by
        rw [hpos, List.length_drop]
        omega
      rw [hend] at hcur
      exact ⟨hboth, hcur⟩

end Fill

/-! ## The buffer as a byte queue -/

/-- The ring of `n` blocks of `bs` bytes stores the bytes `q` from position `r` on. -/
structure SendBuff.Rep (enByte : EnByteSize) (n bs : Nat) (b : SendBuff) (r : Nat)
    (q : List UInt8) : Prop where
  geometry : Geometry n bs
  enByte : b.enByte = enByte
  poolCnt : b.poolCnt = n
  bufferSize : b.bufferSize = bs
  fits : q.length ≤ n * bs
  write : b.write = positionCursor n bs (r + q.length)
  read : b.read = positionCursor n bs (r + n * bs)
  freeH : b.freeH = block n bs (r + n * bs)
  holds : Holds b.buffers n bs r q

theorem sendBuffCreate_rep_u16 {m : Memory UInt8} {enByte : EnByteSize} {poolCnt pool : Nat}
    (g : Geometry poolCnt (u16 (m.pools pool).bufferSize)) :
    SendBuff.Rep enByte poolCnt (u16 (m.pools pool).bufferSize)
      (sendBuffCreate m enByte poolCnt pool) 0 [] := by
  obtain ⟨hcur, hblock⟩ := positionCursor_capacity g
  exact ⟨g, rfl, rfl, rfl, Nat.zero_le _, positionCursor_zero.symm, hcur.symm, hblock.symm,
    Holds.nil _ _ _ _⟩

theorem sendBuffCreate_rep {m : Memory UInt8} {enByte : EnByteSize} {poolCnt pool : Nat}
    (g : Geometry poolCnt (m.pools pool).bufferSize) :
    SendBuff.Rep enByte poolCnt (m.pools pool).bufferSize
      (sendBuffCreate m enByte poolCnt pool) 0 [] := by
  have hle := g.bs_le
  have hsize : u16 (m.pools pool).bufferSize = (m.pools pool).bufferSize := u16_of_lt (by omega)
  have hrep := @sendBuffCreate_rep_u16 m enByte poolCnt pool (by rwa [hsize])
  rwa [hsize] at hrep

namespace SendBuff.Rep

variable {enByte : EnByteSize} {n bs : Nat} {b : SendBuff} {r : Nat} {q : List UInt8}

section Prepare

variable (h : SendBuff.Rep enByte n bs b r q)

include h

/-- The reader's and the writer's block coincide, with different laps, exactly when the whole
queue lies in the reader's block. -/
theorem same_block_iff : (block n bs (r + n * bs) ≠ block n bs (r + q.length) ∧
    slot n bs (r + q.length) = slot n bs r) ↔ (r + q.length) / bs = r / bs := by
  have g := h.geometry
  have hfits := h.fits
  have hn := g.n_pos
  have hle : r / bs ≤ (r + q.length) / bs :=
    Nat.div_le_div_right (Nat.le_add_right _ _)
  have hlap : (r + q.length) / bs ≤ r / bs + n := by
    rw [← div_add_capacity g.bs_pos]
    exact Nat.div_le_div_right (by omega)
  rw [block, block, slot, slot, div_add_capacity g.bs_pos]
  constructor
  · rintro ⟨hne, hslot⟩
    by_contra hdiff
    have hfull : (r + q.length) / bs = r / bs + n := by
      by_contra hnot
      exact hdiff (block_index_unique hslot (by omega) (by omega))
    exact hne (by rw [hfull])
  · intro heq
    refine ⟨fun hmod => ?_, by rw [heq]⟩
    rw [heq] at hmod
    have hdvd := (Nat.modEq_iff_dvd' (Nat.le_add_right _ n)).mp hmod.symm
    rw [Nat.add_sub_cancel_left] at hdvd
    have := Nat.le_of_dvd hn hdvd
    omega

/-- The exposed piece is the part of the queue in the reader's block. -/
theorem prepare_eq : sendBuffPrepare b =
    if q = [] then (0, none)
    else (min q.length (bs - offset bs r),
      some (slot n bs r, offset bs r)) := by
  have g := h.geometry
  have hbs := g.bs_le
  have hoffr := offset_lt g.bs_pos r
  have hoffw := offset_lt g.bs_pos (r + q.length)
  have hposr := position_eq bs r
  have hposw := position_eq bs (r + q.length)
  have hle : r / bs ≤ (r + q.length) / bs :=
    Nat.div_le_div_right (Nat.le_add_right _ _)
  have hspace : (if cursorH b.read ≠ cursorH b.write ∧
      cursorH b.write % n = cursorH b.read % n
      then sub32 (cursorL b.write) (cursorL b.read) else sub32 bs (cursorL b.read)) =
      min q.length (bs - offset bs r) := by
    simp only [h.read, h.write, cursorH_position g, cursorL_position g, block_mod,
      offset_add_capacity, slot_add_capacity g.bs_pos, h.same_block_iff]
    split
    · rename_i heq
      have hoff := offset_le_of_div_eq heq
      rw [heq] at hposw
      rw [sub32_of_le hoff (by omega)]
      omega
    · rename_i hne
      have hnext : bs * (r / bs + 1) ≤
          bs * ((r + q.length) / bs) := Nat.mul_le_mul_left _ (by omega)
      rw [Nat.mul_succ] at hnext
      rw [sub32_of_le (by omega) (by omega)]
      omega
  have hempty : min q.length (bs - offset bs r) = 0 ↔ q = [] := by
    rw [← List.length_eq_zero_iff]
    omega
  simp only [sendBuffPrepare, h.poolCnt, h.bufferSize, hspace, hempty]
  simp only [h.read, cursorH_position g, cursorL_position g, block_mod,
    offset_add_capacity, slot_add_capacity g.bs_pos]

theorem prepare_le : (sendBuffPrepare b).1 ≤ q.length := by
  rw [h.prepare_eq]
  split
  · exact Nat.zero_le _
  · exact Nat.min_le_left _ _

theorem prepare_pos : 0 < (sendBuffPrepare b).1 ↔ q ≠ [] := by
  have hoff := offset_lt h.geometry.bs_pos r
  rw [h.prepare_eq]
  split
  · rename_i hnil
    simp [hnil]
  · rename_i hne
    have hlen : q.length ≠ 0 := fun hz => hne (List.length_eq_zero_iff.mp hz)
    exact ⟨fun _ => hne, fun _ => by simp only; omega⟩

theorem prepare_eq_zero : (sendBuffPrepare b).1 = 0 ↔ q = [] := by
  have hpos := h.prepare_pos
  constructor
  · intro hzero
    by_contra hne
    exact absurd (hpos.mpr hne) (by omega)
  · intro hnil
    by_contra hzero
    exact hpos.mp (Nat.pos_of_ne_zero hzero) hnil

/-- Copying from the exposed pointer yields the front of the queue. -/
theorem peek_eq {k : Nat} (hk : k ≤ (sendBuffPrepare b).1) :
    b.peek (sendBuffPrepare b).2 k = q.take k := by
  rw [h.prepare_eq] at hk ⊢
  split at hk
  · rename_i hnil
    simp [hnil, SendBuff.peek]
  · rename_i hne
    simp only at hk
    have hoff := offset_lt h.geometry.bs_pos r
    obtain ⟨bf, hbf⟩ := h.holds.head_present hne
    have hlen : (q.take k).length = k := by
      rw [List.length_take]
      omega
    have hread := (h.holds.take k).read_eq h.geometry.bs_pos (by omega) hbf
    rw [hlen] at hread
    simp only [if_neg hne, SendBuff.peek, hbf, hread]

/-- Consuming moves the reader and releases the blocks it leaves. -/
theorem consume_eq {m : Memory UInt8} {k : Nat} {gc : BuffGc UInt8} (hpos : k ≠ 0)
    (hk : k ≤ q.length)
    (hgc : buffGcHelp b.buffers n bs (block n bs (r + n * bs)) (block n bs (r + k + n * bs))
      (block n bs (r + q.length)) b.pool m = gc) :
    sendBuffConsume m b k =
      ({ b with
          buffers := gc.buffers
          freeH := gc.uHFree
          read := positionCursor n bs (r + k + n * bs) }, gc.mem) := by
  have g := h.geometry
  have hcap := g.capacity_lt
  have hfits := h.fits
  have hlow : u32 k = k := u32_of_lt (by omega)
  have hH : (cursorH b.read + (cursorL b.read + u32 k) / bs) % (2 * n) =
      block n bs (r + k + n * bs) := by
    rw [h.read, cursorH_position g, cursorL_position g, hlow, block_advance g.bs_pos,
      Nat.add_right_comm]
  have hL : (cursorL b.read + u32 k) % bs = offset bs (r + k + n * bs) := by
    rw [h.read, cursorL_position g, hlow, offset_advance, Nat.add_right_comm]
  have hW : cursorH b.write = block n bs (r + q.length) := by
    rw [h.write, cursorH_position g]
  simp only [sendBuffConsume, if_neg hpos, h.poolCnt, h.bufferSize, hH, hL, hW, h.freeH, hgc]
  rfl

theorem consume {m : Memory UInt8} {k : Nat} (hk : k ≤ q.length) :
    SendBuff.Rep enByte n bs (sendBuffConsume m b k).1 (r + k) (q.drop k) ∧
      (sendBuffConsume m b k).2.fate = m.fate := by
  have g := h.geometry
  have hfits := h.fits
  by_cases hzero : k = 0
  · subst hzero
    simpa [sendBuffConsume] using h
  · obtain ⟨gc, hgc⟩ : ∃ gc, buffGcHelp b.buffers n bs (block n bs (r + n * bs))
        (block n bs (r + k + n * bs)) (block n bs (r + q.length)) b.pool m = gc := ⟨_, rfl⟩
    obtain ⟨hfree, hfate, hholds, -⟩ := buffGcHelp_holds g (Nat.le_add_right r k) (by omega)
      (by omega) (h.holds.drop k) (by rw [List.length_drop]; omega) hgc
    rw [h.consume_eq hzero hk hgc]
    refine ⟨⟨g, h.enByte, h.poolCnt, h.bufferSize, ?_, ?_, rfl, hfree, hholds⟩, hfate⟩
    · rw [List.length_drop]
      exact Nat.le_trans (Nat.sub_le _ _) hfits
    · have hend : r + k + (q.length - k) = r + q.length := by omega
      rw [List.length_drop, hend]
      exact h.write

end Prepare

theorem sizeRest_eq (enByte : EnByteSize) (usize : Nat) :
    sizeRest enByte usize = usize / 256 ^ enByte.toNat := by
  cases enByte
  all_goals
    simp only [sizeRest, EnByteSize.toNat, Function.iterate_succ, Function.iterate_zero,
      Function.comp_apply, id, Nat.shiftRight_eq_div_pow]
    omega

/-- The size check passes exactly when the payload size, without the header, fits in
the header bytes. -/
theorem sizeRest_pos_iff (enByte : EnByteSize) (usize : Nat) :
    sizeRest enByte usize > 0 ↔ 256 ^ enByte.toNat ≤ usize := by
  rw [sizeRest_eq, gt_iff_lt, Nat.div_pos_iff]
  exact and_iff_right (Nat.pow_pos (by decide))

/-- The payload sizes that `send_buff_write` enqueues when `used` bytes are stored. -/
def Accepts (enByte : EnByteSize) (n bs used : Nat) (size : Int) : Prop :=
  0 ≤ size ∧ size.toNat < 256 ^ enByte.toNat ∧ used + (size.toNat + enByte.toNat) ≤ n * bs

instance (enByte : EnByteSize) (n bs used : Nat) (size : Int) :
    Decidable (Accepts enByte n bs used size) := by
  unfold Accepts
  infer_instance

theorem space (h : SendBuff.Rep enByte n bs b r q) :
    buffGetSpace b.poolCnt b.bufferSize (cursorH b.read) (cursorL b.read) (cursorH b.write)
      (cursorL b.write) = n * bs - q.length := by
  have g := h.geometry
  have hfits := h.fits
  rw [h.poolCnt, h.bufferSize, h.read, h.write, cursorH_position g, cursorL_position g,
    cursorH_position g, cursorL_position g,
    (buffGetSpace_position g (by omega) (by omega)).1]
  omega

/-- A refused payload changes nothing. -/
theorem write_refused (h : SendBuff.Rep enByte n bs b r q) {m : Memory UInt8}
    {pdata : List UInt8} {size : Int} (hsize : size < 2 ^ 31)
    (hno : ¬ Accepts enByte n bs q.length size) : sendBuffWrite m b pdata size = (0, b, m) := by
  have hen := enByte.toNat_le
  have hfits := h.fits
  rw [sendBuffWrite]
  split
  · rfl
  · simp only [sizeRest_pos_iff, h.enByte]
    split
    · rfl
    · rw [h.space, u32_of_lt (by omega), if_pos]
      by_contra hroom
      exact hno ⟨by omega, by omega, by omega⟩

/-- Appending bytes moves the write cursor. -/
theorem write_ne (h : SendBuff.Rep enByte n bs b r q) {b' : SendBuff} {xs : List UInt8}
    (h' : SendBuff.Rep enByte n bs b' r (q ++ xs)) (hne : xs ≠ []) : b'.write ≠ b.write := by
  have hlen : xs.length ≠ 0 := fun hz => hne (List.length_eq_zero_iff.mp hz)
  have hfits := h'.fits
  rw [List.length_append] at hfits
  rw [h'.write, h.write, List.length_append]
  intro heq
  have := (positionCursor_inj h.geometry (by omega) (by omega)).mp heq.symm
  omega

/-- An accepted payload is appended as a frame, unless an allocation fails. Then the
stored bytes and the cursors are as before. -/
theorem write_accepted (h : SendBuff.Rep enByte n bs b r q) {m m' : Memory UInt8}
    {b' : SendBuff} {pdata : List UInt8} {size ret : Int} (hsize : size < 2 ^ 31)
    (hdata : size ≤ pdata.length) (hyes : Accepts enByte n bs q.length size)
    (ht : sendBuffWrite m b pdata size = (ret, b', m')) :
    m'.fate = m.fate ∧ (m.AllocOk → ret = size) ∧
      (ret = size ∧
          SendBuff.Rep enByte n bs b' r (q ++ frame enByte.toNat (pdata.take size.toNat)) ∨
        ret = enErrNoMemory ∧ SendBuff.Rep enByte n bs b' r q) := by
  obtain ⟨hpos, hlow, hroom⟩ := hyes
  have g := h.geometry
  have hen := enByte.toNat_le
  have hfits := h.fits
  have hlen : (pdata.take size.toNat).length = size.toNat := by
    rw [List.length_take]
    omega
  have hcheck : ¬ sizeRest b.enByte size.toNat > 0 := by
    rw [sizeRest_pos_iff, h.enByte]
    omega
  have hspace : ¬ n * bs - q.length < u32 (size.toNat + b.enByte.toNat) := by
    rw [u32_of_lt (by rw [h.enByte]; omega), h.enByte]
    omega
  have hmsg : u32 (size.toNat + enByte.toNat) = (pdata.take size.toNat).length + enByte.toNat := by
    rw [hlen, u32_of_lt (by omega)]
  simp only [sendBuffWrite, if_neg (Int.not_lt.mpr hpos), if_neg hcheck, h.space,
    if_neg hspace] at ht
  simp only [h.write, cursorH_position g, cursorL_position g, h.poolCnt, h.bufferSize,
    h.enByte, hmsg] at ht
  split at ht
  · rename_i a₁ _ _ hput
    obtain ⟨hone, -⟩ := sendBuffPutHeader_filled g h.holds rfl rfl (by omega) hput
    simp only [Prod.mk.injEq] at ht
    obtain ⟨rfl, rfl, rfl⟩ := ht
    exact ⟨hone.fate, fun ha => (Bool.false_ne_true (hone.success ha)).elim,
      .inr ⟨rfl, g, rfl, rfl, rfl, hfits, rfl, h.read, h.freeH, hone.keeps⟩⟩
  · rename_i a₁ h₁ l₁ hput
    obtain ⟨hone, hcur⟩ := sendBuffPutHeader_filled g h.holds rfl rfl (by omega) hput
    rw [sizeBytes_eq] at hone
    obtain ⟨rfl, rfl⟩ := hcur rfl
    have hmid : r + (q ++ leBytes enByte.toNat
        ((pdata.take size.toNat).length + enByte.toNat)).length = r + q.length + enByte.toNat := by
      rw [List.length_append, leBytes_length, Nat.add_assoc]
    generalize hput₂ : sendBuffPutPayload n bs b.pool a₁ _ _ _ = res at ht
    obtain ⟨done, a₂, h₂, l₂⟩ := res
    obtain ⟨htwo, hcur⟩ := sendBuffPutPayload_filled g (hone.appends rfl) (by rw [hmid])
      (by rw [hmid]) (by rw [List.length_append, leBytes_length, hlen]; omega) hput₂
    have hboth := hone.trans htwo
    cases done with
    | false =>
      simp only [Prod.mk.injEq] at ht
      obtain ⟨rfl, rfl, rfl⟩ := ht
      exact ⟨hboth.fate, fun ha => (Bool.false_ne_true (hboth.success ha)).elim,
        .inr ⟨rfl, g, rfl, rfl, rfl, hfits, rfl, h.read, h.freeH, hboth.keeps⟩⟩
    | true =>
      obtain ⟨rfl, rfl⟩ := hcur rfl
      simp only [Prod.mk.injEq] at ht
      obtain ⟨rfl, rfl, rfl⟩ := ht
      have hend : r + (q ++ leBytes enByte.toNat
          ((pdata.take size.toNat).length + enByte.toNat)).length +
            (pdata.take size.toNat).length =
          r + (q ++ frame enByte.toNat (pdata.take size.toNat)).length := by
        rw [hmid, List.length_append, frame_length]
        omega
      refine ⟨hboth.fate, fun _ => rfl,
        .inl ⟨rfl, g, rfl, rfl, rfl, ?_, ?_, h.read, h.freeH, hboth.appends rfl⟩⟩
      · rw [List.length_append, frame_length, hlen]
        omega
      · rw [hend]
        rfl

end SendBuff.Rep

end RandServer
