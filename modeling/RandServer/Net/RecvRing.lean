import RandServer.Lib.Framing
import RandServer.Net.RecvBuff

/-!
# The ring version of the receive buffer

`RecvBuff.RingRep b r stored` says that a vA buffer stores the bytes `stored` of the
stream from position `r` on, and that its check cursor stands behind their complete
frames. The size of the message at a cursor is then `Framing.head` of the bytes
behind it, whatever blocks the header lies in.
-/

namespace RandServer

open LapRing Framing

/-- The return value of `buff_gain_msg_size` for the front of a stream. -/
def gained : Head → Int
  | .short => 0
  | .small => enErrRecvMsgSmall
  | .big => enErrRecvMsgBig
  | .cut => 0
  | .whole size => size

theorem gained_whole (size : Nat) : gained (.whole size) = size := rfl

theorem gained_nonpos {front : Head} (h : ∀ size, front ≠ .whole size) : gained front ≤ 0 := by
  cases front with
  | whole size => exact absurd rfl (h size)
  | short => exact Int.le_refl 0
  | cut => exact Int.le_refl 0
  | small => decide
  | big => decide

/-- The bytes that complete the leading frames of a stream. -/
def framed (en cap : Nat) (s : List UInt8) : Nat := (encode en (split en cap s).1).length

structure RecvBuff.RingRep (en : EnByteSize) (n bs : Nat) (b : RecvBuff) (r : Nat)
    (stored : List UInt8) : Prop where
  geometry : Geometry n bs
  enByte : b.enByte = en
  poolCnt : b.poolCnt = n
  bufferSize : b.bufferSize = bs
  fits : stored.length ≤ n * bs
  write : b.write = positionCursor n bs (r + stored.length)
  read : b.read = positionCursor n bs (r + n * bs)
  freeH : b.freeH = block n bs (r + n * bs)
  check : b.check = positionCursor n bs (r + framed en.toNat (n * bs) stored + n * bs)
  holds : Holds b.buffers n bs r stored

section Ring

variable {n bs p : Nat} (g : Geometry n bs) {buffers : Nat → Option (Block UInt8)}
  {s : List UInt8}

include g

/-! ## Reading out of the ring -/

theorem readSlot_piece (h : Holds buffers n bs p s) (hfit : offset bs p + s.length ≤ bs) :
    readSlot buffers (slot n bs p) (offset bs p) s.length = s := by
  by_cases hs : s = []
  · subst hs
    unfold readSlot
    split <;> rfl
  · obtain ⟨bf, hbf⟩ := h.head_present hs
    rw [readSlot, hbf]
    exact h.read_eq g.bs_pos hfit hbf

theorem readSlot_byte (h : Holds buffers n bs p s) {i : Nat} (hi : i < s.length) :
    readSlot buffers (slot n bs (p + i)) (offset bs (p + i)) 1 = [s[i]] := by
  have hone : Holds buffers n bs (p + i) [s[i]] := by
    intro j x hx
    cases j with
    | zero => exact h i x (by rw [List.getElem?_eq_getElem hi, ← hx]; rfl)
    | succ j => cases hx
  have hoff := offset_lt g.bs_pos (p + i)
  exact readSlot_piece g hone (by rw [List.length_singleton]; omega)

/-- The header bytes are collected across blocks. -/
theorem header_bytes (h : Holds buffers n bs p s) {k : Nat} (hk : k ≤ s.length) :
    ((List.range k).flatMap fun i => readSlot buffers
      ((block n bs (p + n * bs) + (offset bs (p + n * bs) + i) / bs) % n)
      ((offset bs (p + n * bs) + i) % bs) 1) = s.take k := by
  induction k with
  | zero => simp
  | succ k ih =>
      rw [List.range_succ, List.flatMap_append, ih (by omega), List.flatMap_singleton,
        slot_advance g.bs_pos, offset_advance, Nat.add_right_comm, slot_add_capacity g.bs_pos,
        offset_add_capacity, readSlot_byte g h (by omega), List.take_add_one,
        List.getElem?_eq_getElem (by omega), Option.toList_some]

theorem buffGainMsgSize_eq (h : Holds buffers n bs p s) (hs : s.length ≤ n * bs)
    (enByte : EnByteSize) :
    buffGainMsgSize buffers enByte n bs (block n bs (p + n * bs)) (offset bs (p + n * bs))
      (block n bs (p + s.length)) (offset bs (p + s.length)) =
      gained (head enByte.toNat (n * bs) s) := by
  have hcap := g.capacity_lt
  have hword : u32 (n * bs) = n * bs := u32_of_lt (by omega)
  have hsize : sub32 (n * bs) (buffGetSpace n bs (block n bs (p + n * bs))
      (offset bs (p + n * bs)) (block n bs (p + s.length)) (offset bs (p + s.length))) =
      s.length := by
    rw [(buffGetSpace_position g (by omega) (by omega)).1, sub32_of_le (by omega) (by omega)]
    omega
  simp only [buffGainMsgSize, hword, hsize, head]
  by_cases hshort : s.length < enByte.toNat
  · simp only [if_pos hshort, gained]
  · rw [header_bytes g h (by omega), orBytes_zero, if_neg hshort, if_neg hshort]
    split_ifs
    · rfl
    · rfl
    · rfl
    · exact int32_of_lt (by omega)

/-! ## The check cursor -/

omit g in
theorem framed_of_whole {en cap size : Nat} (hen : 0 < en) {s : List UInt8}
    (h : head en cap s = .whole size) :
    framed en cap s = size + framed en cap (s.drop size) := by
  rw [framed, split_of_whole hen h, encode_cons, List.length_append, frame_length,
    (frame_of_head h).2.2, framed]

omit g in
/-- The cut of a longer stream goes on behind the frames that were complete. -/
theorem split_drop_framed {en cap : Nat} (hen : 0 < en) (s t : List UInt8) :
    split en cap (s ++ t) =
      ((split en cap s).1 ++ (split en cap ((s ++ t).drop (framed en cap s))).1,
        (split en cap ((s ++ t).drop (framed en cap s))).2) := by
  obtain ⟨hs, hps, -⟩ := encode_split cap hen s
  have hst : s ++ t = encode en (split en cap s).1 ++ ((split en cap s).2 ++ t) := by
    rw [← List.append_assoc, hs]
  have hdrop : (s ++ t).drop (framed en cap s) = (split en cap s).2 ++ t := by
    rw [hst, framed, List.drop_left]
  rw [hdrop, hst]
  exact split_append hen hps _

omit g in
/-- Frames that are already complete stay complete when bytes are added. -/
theorem framed_append {en cap : Nat} (hen : 0 < en) (s t : List UInt8) :
    framed en cap (s ++ t) =
      framed en cap s + framed en cap ((s ++ t).drop (framed en cap s)) := by
  rw [framed, split_drop_framed hen, encode_append, List.length_append]
  rfl

omit g in
theorem framed_le {en : Nat} (cap : Nat) (hen : 0 < en) (s : List UInt8) :
    framed en cap s ≤ s.length := by
  have hs := congrArg List.length (encode_split cap hen s).1
  rw [List.length_append] at hs
  rw [framed]
  omega

/-- The check loop moves its cursor behind the complete frames and counts them, or
reports the error of the header it stops at. -/
theorem recvBuffCheckLoop_eq {b : RecvBuff} {enByte : EnByteSize} (henByte : b.enByte = enByte)
    (hpoolCnt : b.poolCnt = n) (hbufferSize : b.bufferSize = bs) {c fuel : Nat}
    (h : Holds b.buffers n bs c s) (hs : s.length ≤ n * bs) (hfuel : s.length < fuel)
    (count : Int) :
    recvBuffCheckLoop b (block n bs (c + s.length)) (offset bs (c + s.length)) fuel count
        (positionCursor n bs (c + n * bs)) (block n bs (c + n * bs)) (offset bs (c + n * bs)) =
      (if gained (head enByte.toNat (n * bs) (split enByte.toNat (n * bs) s).2) < 0 then
          gained (head enByte.toNat (n * bs) (split enByte.toNat (n * bs) s).2)
        else count + (split enByte.toNat (n * bs) s).1.length,
        positionCursor n bs (c + framed enByte.toNat (n * bs) s + n * bs)) := by
  have hen := enByte.toNat_pos
  induction fuel generalizing c s count with
  | zero => omega
  | succ fuel ih =>
      rw [recvBuffCheckLoop]
      simp only [henByte, hpoolCnt, hbufferSize, buffGainMsgSize_eq g h hs]
      by_cases hwhole : ∃ size, head enByte.toNat (n * bs) s = .whole size
      · obtain ⟨size, hwhole⟩ := hwhole
        obtain ⟨-, -, hlo, -, hle⟩ := head_whole_iff.mp hwhole
        have hnext : c + size + (s.drop size).length = c + s.length := by
          rw [List.length_drop]
          omega
        have hstep := ih (h.drop size) (by rw [List.length_drop]; omega)
          (by rw [List.length_drop]; omega) (count + 1)
        rw [hnext, Nat.add_right_comm c size] at hstep
        simp only [hwhole, gained_whole, Int.toNat_natCast]
        rw [if_neg (by omega), if_neg (by omega), block_advance g.bs_pos, offset_advance]
        refine hstep.trans (Prod.ext ?_ ?_)
        · simp only [split_of_whole hen hwhole, List.length_cons, Nat.cast_succ]
          split_ifs
          · rfl
          · omega
        · simp only [framed_of_whole hen hwhole, Nat.add_assoc, Nat.add_comm, Nat.add_left_comm]
      · have hnot : ∀ size, head enByte.toNat (n * bs) s ≠ .whole size :=
          fun size heq => hwhole ⟨size, heq⟩
        rw [framed, split_of_not_whole hnot]
        cases hhead : head enByte.toNat (n * bs) s with
        | whole size => exact absurd hhead (hnot size)
        | short => simp [gained]
        | cut => simp [gained]
        | small => simp [gained, enErrRecvMsgSmall]
        | big => simp [gained, enErrRecvMsgBig]

/-- Checking from a cursor `k` bytes behind the reader. -/
theorem recvBuffCheckNewMsg_eq {b : RecvBuff} {enByte : EnByteSize} (henByte : b.enByte = enByte)
    (hpoolCnt : b.poolCnt = n) (hbufferSize : b.bufferSize = bs) {k : Nat}
    (h : Holds b.buffers n bs p s) (hs : s.length ≤ n * bs) (hk : k ≤ s.length)
    (hcheck : b.check = positionCursor n bs (p + k + n * bs)) :
    recvBuffCheckNewMsg b (positionCursor n bs (p + s.length)) =
      (if gained (head enByte.toNat (n * bs) (split enByte.toNat (n * bs) (s.drop k)).2) < 0 then
          gained (head enByte.toNat (n * bs) (split enByte.toNat (n * bs) (s.drop k)).2)
        else (0 : Int) + (split enByte.toNat (n * bs) (s.drop k)).1.length,
        { b with
          check := positionCursor n bs
            (p + k + framed enByte.toNat (n * bs) (s.drop k) + n * bs) }) := by
  have hdrop : (s.drop k).length = s.length - k := List.length_drop
  have hpos : p + k + (s.drop k).length = p + s.length := by omega
  have hloop := recvBuffCheckLoop_eq g henByte hpoolCnt hbufferSize (h.drop k) (by omega)
    (show (s.drop k).length < b.poolCnt * b.bufferSize + 1 by rw [hpoolCnt, hbufferSize]; omega) 0
  rw [hpos] at hloop
  simp only [recvBuffCheckNewMsg, hcheck, cursorH_position g, cursorL_position g, hloop]

/-! ## The payload copy -/

/-- Full blocks read from a block boundary `p` on. -/
theorem readSlot_blocks {uH k : Nat} (hh : ∀ j, (uH + j + 1) % n = slot n bs (p + j * bs))
    (hp : offset bs p = 0) (h : Holds buffers n bs p s) (hk : k * bs ≤ s.length) :
    ((List.range k).flatMap fun i => readSlot buffers ((uH + i + 1) % n) 0 bs) =
      s.take (k * bs) := by
  induction k with
  | zero => simp
  | succ k ih =>
      rw [Nat.succ_mul] at hk ⊢
      have hpiece : Holds buffers n bs (p + k * bs) ((s.drop (k * bs)).take bs) :=
        (h.drop _).take _
      have hlen : ((s.drop (k * bs)).take bs).length = bs := by
        rw [List.length_take, List.length_drop]
        omega
      have hoff := offset_boundary hp k
      have hread := readSlot_piece g hpiece (by rw [hoff, hlen]; omega)
      rw [hoff, hlen, ← hh] at hread
      rw [List.range_succ, List.flatMap_append, ih (by omega), List.flatMap_singleton, hread,
        List.take_add]

/-- The copy assembles a stored payload from its pieces. -/
theorem recvBuffCopyOut_eq (h : Holds buffers n bs p s) :
    recvBuffCopyOut buffers n bs (block n bs (p + n * bs)) (offset bs (p + n * bs)) s.length =
      (s, block n bs (p + s.length + n * bs), offset bs (p + s.length + n * bs)) := by
  have hoff := offset_lt g.bs_pos p
  rw [recvBuffCopyOut]
  simp only [offset_add_capacity, block_mod, slot_add_capacity g.bs_pos]
  split
  · rename_i hfit
    rw [readSlot_piece g h (by omega), ← offset_add_capacity n bs p, block_advance g.bs_pos,
      offset_advance, Nat.add_right_comm, offset_add_capacity]
  · rename_i hfit
    obtain ⟨cur, hcur⟩ : ∃ cur, cur = bs - offset bs p := ⟨_, rfl⟩
    rw [← hcur] at hfit ⊢
    have hfront : (s.take cur).length = cur := by
      rw [List.length_take]
      omega
    have hrest : (s.drop cur).length = s.length - cur := List.length_drop
    have hbound : offset bs (p + cur) = 0 := by
      rw [← offset_advance, hcur, Nat.add_sub_cancel' (Nat.le_of_lt hoff), Nat.mod_self]
    have hnext : (block n bs (p + n * bs) + 1) % (2 * n) = block n bs (p + cur + n * bs) := by
      have hadv := block_advance (n := n) g.bs_pos (p + n * bs) cur
      rwa [offset_add_capacity, hcur, Nat.add_sub_cancel' (Nat.le_of_lt hoff),
        Nat.div_self g.bs_pos, ← hcur, Nat.add_right_comm] at hadv
    have hslots : ∀ j, (block n bs (p + n * bs) + j + 1) % n = slot n bs (p + cur + j * bs) := by
      intro j
      rw [Nat.add_right_comm, slot_boundary g.bs_pos hnext, Nat.add_right_comm,
        slot_add_capacity g.bs_pos]
    have hdiv := Nat.div_add_mod (s.length - cur) bs
    have hmod := Nat.mod_lt (s.length - cur) g.bs_pos
    rw [Nat.mul_comm] at hdiv
    have hone := readSlot_piece g (h.take cur) (by omega)
    have htwo := readSlot_blocks g hslots hbound (h.drop cur) (k := (s.length - cur) / bs)
      (by omega)
    have hthree := readSlot_piece g ((h.drop cur).drop ((s.length - cur) / bs * bs))
      (by rw [offset_boundary hbound, List.length_drop]; omega)
    rw [hfront] at hone
    rw [offset_boundary hbound, List.length_drop, hrest, ← hslots,
      show s.length - cur - (s.length - cur) / bs * bs = (s.length - cur) % bs by omega] at hthree
    have hbound' := offset_boundary (j := (s.length - cur) / bs)
      ((offset_add_capacity n bs (p + cur)).trans hbound)
    have hlast : offset bs (p + cur + n * bs + (s.length - cur) / bs * bs) +
        (s.length - cur) % bs < bs := by omega
    have hend : p + s.length + n * bs =
        p + cur + n * bs + (s.length - cur) / bs * bs + (s.length - cur) % bs := by omega
    rw [hone, htwo, hthree, List.append_assoc, List.take_append_drop, List.take_append_drop,
      ← offset_add_capacity n bs (p + s.length), hend, block_add_of_lt g.bs_pos hlast,
      offset_add_of_lt hlast, hbound', Nat.zero_add, Nat.add_right_comm (block n bs (p + n * bs)),
      block_boundary g.bs_pos hnext]

end Ring

/-! ## The operations -/

namespace RecvBuff

/-- A piece of the ring that can be filled behind the `used` bytes up to position `w`. -/
structure RingSpace (n bs : Nat) (b : RecvBuff) (w used room : Nat) : Prop where
  present : ∃ bf, b.buffers (slot n bs w) = some bf
  in_block : offset bs w + room ≤ bs
  in_ring : used + room ≤ n * bs

theorem create_ringRep_u16 {m : Memory UInt8} (lens : Block UInt8) (enByte : EnByteSize)
    {poolCnt pool : Nat} (g : Geometry poolCnt (u16 (m.pools pool).bufferSize)) :
    RingRep enByte poolCnt (u16 (m.pools pool).bufferSize)
      (recvBuffCreateVA m lens enByte poolCnt pool) 0 [] := by
  obtain ⟨hcur, hblock⟩ := positionCursor_capacity g
  exact ⟨g, rfl, rfl, rfl, Nat.zero_le _, positionCursor_zero.symm, hcur.symm, hblock.symm,
    hcur.symm, Holds.nil _ _ _ _⟩

theorem create_ringRep {m : Memory UInt8} (lens : Block UInt8) (enByte : EnByteSize)
    {poolCnt pool : Nat} (g : Geometry poolCnt (m.pools pool).bufferSize) :
    RingRep enByte poolCnt (m.pools pool).bufferSize
      (recvBuffCreateVA m lens enByte poolCnt pool) 0 [] := by
  have hle := g.bs_le
  have hsize : u16 (m.pools pool).bufferSize = (m.pools pool).bufferSize := u16_of_lt (by omega)
  have hrep := @create_ringRep_u16 m lens enByte poolCnt pool (by rwa [hsize])
  rwa [hsize] at hrep

namespace RingRep

variable {enByte : EnByteSize} {n bs : Nat} {b b' : RecvBuff} {r : Nat} {stored : List UInt8}

section Cursors

variable (h : RingRep enByte n bs b r stored)

include h

theorem cursorH_write : cursorH b.write = block n bs (r + stored.length) := by
  rw [h.write, cursorH_position h.geometry]

theorem cursorL_write : cursorL b.write = offset bs (r + stored.length) := by
  rw [h.write, cursorL_position h.geometry]

theorem cursorH_read : cursorH b.read = block n bs (r + n * bs) := by
  rw [h.read, cursorH_position h.geometry]

theorem cursorL_read : cursorL b.read = offset bs (r + n * bs) := by
  rw [h.read, cursorL_position h.geometry]

end Cursors

/-- The reader and the writer are in one block, a lap apart, exactly when the rest of the
ring is the rest of that block up to the reader. -/
theorem same_block_iff (h : RingRep enByte n bs b r stored) :
    block n bs (r + n * bs) = block n bs (r + stored.length) ↔
      (r + stored.length) / bs = r / bs + n := by
  have g := h.geometry
  have hfits := h.fits
  have hlap : (r + stored.length) / bs ≤ r / bs + n := by
    rw [← div_add_capacity g.bs_pos]
    exact Nat.div_le_div_right (by omega)
  have hle : r / bs ≤ (r + stored.length) / bs := Nat.div_le_div_right (Nat.le_add_right _ _)
  rw [block, block, div_add_capacity g.bs_pos, eq_comm, lap_inj g.n_pos hlap (by omega)]

theorem space (h : RingRep enByte n bs b r stored) :
    buffGetSpace n bs (block n bs (r + n * bs)) (offset bs (r + n * bs))
      (block n bs (r + stored.length)) (offset bs (r + stored.length)) =
      n * bs - stored.length := by
  have hfits := h.fits
  rw [(buffGetSpace_position h.geometry (by omega) (by omega)).1]
  omega

/-- The piece that `recv_buff_prepare_vA` offers stays in its block and in the ring. -/
theorem piece_fits (h : RingRep enByte n bs b r stored) :
    offset bs (r + stored.length) + (if block n bs (r + n * bs) = block n bs (r + stored.length)
        then n * bs - stored.length else bs - offset bs (r + stored.length)) ≤ bs ∧
      stored.length + (if block n bs (r + n * bs) = block n bs (r + stored.length)
        then n * bs - stored.length else bs - offset bs (r + stored.length)) ≤ n * bs := by
  have g := h.geometry
  have hfits := h.fits
  have hoffr := offset_lt g.bs_pos r
  have hoffw := offset_lt g.bs_pos (r + stored.length)
  have hposr := position_eq bs r
  have hposw := position_eq bs (r + stored.length)
  have hlap : (r + stored.length) / bs ≤ r / bs + n := by
    rw [← div_add_capacity g.bs_pos]
    exact Nat.div_le_div_right (by omega)
  simp only [h.same_block_iff]
  split
  · rename_i hsame
    rw [hsame, Nat.mul_add, Nat.mul_comm bs n] at hposw
    omega
  · rename_i hdiff
    have hnext : bs * ((r + stored.length) / bs + 1) ≤ bs * (r / bs + n) :=
      Nat.mul_le_mul_left _ (by omega)
    rw [Nat.mul_add, Nat.mul_add, Nat.mul_comm bs n] at hnext
    omega

theorem prepare (h : RingRep enByte n bs b r stored) {m m' : Memory UInt8} {room : Nat}
    {ptr : Option RecvPtr} (ht : recvBuffPrepareVA m b = (room, ptr, b', m')) :
    m'.fate = m.fate ∧ RingRep enByte n bs b' r stored ∧
      (0 < room → ptr = some (.buffer (slot n bs (r + stored.length))
          (offset bs (r + stored.length))) ∧
        RingSpace n bs b' (r + stored.length) stored.length room) ∧
      (m.AllocOk → (room = 0 ↔ stored.length = n * bs)) := by
  obtain rfl := h.poolCnt
  obtain rfl := h.bufferSize
  have g := h.geometry
  have hfits := h.fits
  have hoffw := offset_lt g.bs_pos (r + stored.length)
  simp only [recvBuffPrepareVA, h.cursorH_write, h.cursorL_write, h.cursorH_read,
    h.cursorL_read, h.space, block_mod] at ht
  split at ht
  · rename_i hfull
    simp only [Prod.mk.injEq] at ht
    obtain ⟨rfl, rfl, rfl, rfl⟩ := ht
    refine ⟨rfl, h, fun hpos => absurd hpos (Nat.lt_irrefl 0), fun _ => ?_⟩
    constructor
    · omega
    · exact fun _ => rfl
  · rename_i hroom
    obtain ⟨hblock, hring⟩ := h.piece_fits
    have hfetch := (Arena.mk b.buffers m).fetch_holds b.pool b.bufferSize
      (slot b.poolCnt b.bufferSize (r + stored.length)) h.holds
    have hfate := (Arena.mk b.buffers m).fetch_fate b.pool b.bufferSize
      (slot b.poolCnt b.bufferSize (r + stored.length))
    obtain ⟨found, a, hres⟩ : ∃ found a, (Arena.mk b.buffers m).fetch b.pool b.bufferSize
        (slot b.poolCnt b.bufferSize (r + stored.length)) = (found, a) := ⟨_, _, rfl⟩
    rw [hres] at ht hfetch hfate
    have hrep : ∀ flag, RingRep enByte b.poolCnt b.bufferSize
        { b with buffers := a.buffers, prepFlag := flag } r stored :=
      fun flag => ⟨g, h.enByte, rfl, rfl, hfits, h.write, h.read, h.freeH, h.check, hfetch⟩
    cases found with
    | none =>
        simp only [Prod.mk.injEq] at ht
        obtain ⟨rfl, rfl, rfl, rfl⟩ := ht
        refine ⟨hfate, hrep _, fun hpos => absurd hpos (Nat.lt_irrefl 0), fun ha => ?_⟩
        obtain ⟨bf, hbf⟩ := Arena.fetch_isSome (a := Arena.mk b.buffers m) ha b.pool b.bufferSize
          (slot b.poolCnt b.bufferSize (r + stored.length))
        rw [hres] at hbf
        cases hbf
    | some bf =>
        have hslot : a.buffers (slot b.poolCnt b.bufferSize (r + stored.length)) = some bf := by
          have hput := (Arena.mk b.buffers m).fetch_some b.pool b.bufferSize
            (slot b.poolCnt b.bufferSize (r + stored.length)) (congrArg Prod.fst hres)
          rw [hres] at hput
          rw [hput.1, Function.update_self]
        obtain ⟨piece, hpiece⟩ : ∃ piece, (if block b.poolCnt b.bufferSize
            (r + b.poolCnt * b.bufferSize) = block b.poolCnt b.bufferSize (r + stored.length)
          then b.poolCnt * b.bufferSize - stored.length
          else b.bufferSize - offset b.bufferSize (r + stored.length)) = piece := ⟨_, rfl⟩
        have hpos : 0 < piece := by
          rw [← hpiece]
          split <;> omega
        rw [hpiece] at hblock hring
        simp only [hpiece, gt_iff_lt, if_pos hpos, Prod.mk.injEq] at ht
        obtain ⟨rfl, rfl, rfl, rfl⟩ := ht
        refine ⟨hfate, hrep _, fun _ => ⟨rfl, ⟨bf, hslot⟩, hblock, hring⟩, fun _ => ?_⟩
        constructor <;> omega

/-- With allocations succeeding, there is no room exactly when the ring is full. -/
theorem prepare_eq_zero_iff (h : RingRep enByte n bs b r stored) {m : Memory UInt8}
    (halloc : m.AllocOk) : (recvBuffPrepareVA m b).1 = 0 ↔ stored.length = n * bs := by
  generalize hres : recvBuffPrepareVA m b = res
  obtain ⟨room, ptr, b', m'⟩ := res
  exact (h.prepare hres).2.2.2 halloc

/-- The copy of the caller puts the bytes behind the stored ones. -/
theorem fill_eq (h : RingRep enByte n bs b r stored) {room : Nat}
    (hspace : RingSpace n bs b (r + stored.length) stored.length room) {xs : List UInt8}
    (hfit : xs.length ≤ room) :
    ∃ buffers, b.fill (.buffer (slot n bs (r + stored.length)) (offset bs (r + stored.length)))
        xs = { b with buffers := buffers } ∧ Holds buffers n bs r (stored ++ xs) := by
  have hblock := hspace.in_block
  have hring := hspace.in_ring
  obtain ⟨bf, hbf⟩ := hspace.present
  refine ⟨_, by rw [fill, hbf], ?_⟩
  exact @Holds.write_append _ _ _ _ _ _ xs h.geometry.bs_pos h.holds (by omega) (by omega) _
    (fun bf' hbf' => Option.some.inj (hbf'.symm.trans hbf))

/-- The write cursor that is `k` bytes further. -/
theorem write_advance (h : RingRep enByte n bs b r stored) {k : Nat} (hk : k < 2 ^ 32) :
    packCursor ((cursorH b.write + (cursorL b.write + u32 k) / bs) % (2 * n))
      ((cursorL b.write + u32 k) % bs) = positionCursor n bs (r + stored.length + k) := by
  rw [h.cursorH_write, h.cursorL_write, u32_of_lt hk, block_advance h.geometry.bs_pos,
    offset_advance]
  rfl

/-- Bytes copied into a prepared piece join the stream. The result counts the frames they
complete, or is the error of the header behind these frames. -/
theorem consume_eq (h : RingRep enByte n bs b r stored) {room : Nat}
    (hspace : RingSpace n bs b (r + stored.length) stored.length room) {xs : List UInt8}
    (hxs : 0 < xs.length) (hfit : xs.length ≤ room) {ret : Int}
    (ht : recvBuffConsumeVA (b.fill (.buffer (slot n bs (r + stored.length))
      (offset bs (r + stored.length))) xs) xs.length = (ret, b')) :
    RingRep enByte n bs b' r (stored ++ xs) ∧
      ret = if gained (head enByte.toNat (n * bs)
            (split enByte.toNat (n * bs) (stored ++ xs)).2) < 0
          then gained (head enByte.toNat (n * bs) (split enByte.toNat (n * bs) (stored ++ xs)).2)
        else ((split enByte.toNat (n * bs) (stored ++ xs)).1.length : Int) -
          (split enByte.toNat (n * bs) stored).1.length := by
  obtain rfl := h.poolCnt
  obtain rfl := h.bufferSize
  obtain rfl := h.enByte
  have g := h.geometry
  have hcap := g.capacity_lt
  have hen := b.enByte.toNat_pos
  have hring := hspace.in_ring
  obtain ⟨buffers, hfill, hholds⟩ := h.fill_eq hspace hfit
  have hwrite := @write_advance _ _ _ _ _ _ h xs.length (by omega)
  rw [Nat.add_assoc, ← List.length_append] at hwrite
  have hcheck := framed_le (b.poolCnt * b.bufferSize) hen stored
  have hnew := recvBuffCheckNewMsg_eq g (b := { b with buffers := buffers }) rfl rfl rfl hholds
    (by rw [List.length_append]; omega)
    (show framed b.enByte.toNat (b.poolCnt * b.bufferSize) stored ≤ _ by
      rw [List.length_append]; omega) h.check
  simp only [hfill, recvBuffConsumeVA, if_neg (Nat.ne_of_gt hxs), hwrite, hnew,
    Prod.mk.injEq] at ht
  obtain ⟨rfl, rfl⟩ := ht
  refine ⟨⟨g, rfl, rfl, rfl, ?_, rfl, h.read, h.freeH, ?_, hholds⟩, ?_⟩
  · rw [List.length_append]
    omega
  · rw [framed_append hen, ← Nat.add_assoc]
  · rw [split_drop_framed hen, List.length_append, Nat.cast_add]
    split_ifs
    · rfl
    · omega

theorem consume (h : RingRep enByte n bs b r stored) {room : Nat}
    (hspace : RingSpace n bs b (r + stored.length) stored.length room) {xs : List UInt8}
    (hxs : 0 < xs.length) (hfit : xs.length ≤ room) {ret : Int}
    (ht : recvBuffConsumeVA (b.fill (.buffer (slot n bs (r + stored.length))
      (offset bs (r + stored.length))) xs) xs.length = (ret, b')) :
    RingRep enByte n bs b' r (stored ++ xs) := (h.consume_eq hspace hxs hfit ht).1

/-- Giving back a prepared piece unused only releases the lock. -/
theorem consume_nil (h : RingRep enByte n bs b r stored) {ret : Int}
    (ht : recvBuffConsumeVA b 0 = (ret, b')) : RingRep enByte n bs b' r stored := by
  simp only [recvBuffConsumeVA, if_true, Prod.mk.injEq] at ht
  obtain ⟨-, rfl⟩ := ht
  exact ⟨h.geometry, h.enByte, h.poolCnt, h.bufferSize, h.fits, h.write, h.read, h.freeH, h.check,
    h.holds⟩

/-! ### Reading -/

theorem gain (h : RingRep enByte n bs b r stored) :
    buffGainMsgSize b.buffers enByte n bs (block n bs (r + n * bs)) (offset bs (r + n * bs))
      (block n bs (r + stored.length)) (offset bs (r + stored.length)) =
      gained (head enByte.toNat (n * bs) stored) :=
  buffGainMsgSize_eq h.geometry h.holds h.fits enByte

/-- Without a complete frame at the front, a read returns 0 or the header's error. -/
theorem read_incomplete (h : RingRep enByte n bs b r stored)
    (hhead : ∀ size, head enByte.toNat (n * bs) stored ≠ .whole size) (m : Memory UInt8)
    (usize : Int) : recvBuffReadVA m b true usize =
      (gained (head enByte.toNat (n * bs) stored), [], b, m) := by
  have hle := gained_nonpos hhead
  simp only [recvBuffReadVA, h.cursorH_write, h.cursorL_write, h.cursorH_read, h.cursorL_read,
    h.enByte, h.poolCnt, h.bufferSize, h.gain, if_pos hle]

/-- A destination that is too small leaves the frame in the ring. -/
theorem read_refused (h : RingRep enByte n bs b r stored) {size : Nat}
    (hhead : head enByte.toNat (n * bs) stored = .whole size) (m : Memory UInt8) {usize : Int}
    (hlo : 0 ≤ usize) (hsmall : usize < (size - enByte.toNat : Nat)) :
    recvBuffReadVA m b true usize = (((size - enByte.toNat : Nat) : Int), [], b, m) := by
  have hcap := h.geometry.capacity_lt
  obtain ⟨-, -, hen, hfit, -⟩ := head_whole_iff.mp hhead
  have hpos := enByte.toNat_pos
  simp only [recvBuffReadVA, h.cursorH_write, h.cursorL_write, h.cursorH_read, h.cursorL_read,
    h.enByte, h.poolCnt, h.bufferSize, h.gain, hhead, gained_whole, Int.toNat_natCast]
  rw [if_neg (by omega), if_pos (by omega), int32_of_lt (by omega)]

/-- Reading a complete frame copies its payload out, moves the reader, and releases the
blocks it leaves. -/
theorem read_eq (h : RingRep enByte n bs b r stored) {size : Nat}
    (hhead : head enByte.toNat (n * bs) stored = .whole size) {m : Memory UInt8} {usize : Int}
    (hhi : usize < 2 ^ 31) (hlarge : (size - enByte.toNat : Nat) ≤ usize) {gc : BuffGc UInt8}
    (hgc : buffGcHelp b.buffers n bs (block n bs (r + n * bs)) (block n bs (r + size + n * bs))
      (block n bs (r + stored.length)) b.pool m = gc) :
    recvBuffReadVA m b true usize = (((size - enByte.toNat : Nat) : Int),
      (stored.take size).drop enByte.toNat,
      { b with
        buffers := gc.buffers
        freeH := gc.uHFree
        read := positionCursor n bs (r + size + n * bs) },
      gc.mem) := by
  obtain rfl := h.poolCnt
  obtain rfl := h.bufferSize
  obtain rfl := h.enByte
  have g := h.geometry
  have hfits := h.fits
  have hcap := g.capacity_lt
  obtain ⟨-, -, hen, hfit, hsize⟩ := head_whole_iff.mp hhead
  have hpos := b.enByte.toNat_pos
  have hlen : ((stored.take size).drop b.enByte.toNat).length = size - b.enByte.toNat := by
    rw [List.length_drop, List.length_take]
    omega
  have hcopy := recvBuffCopyOut_eq g ((h.holds.take size).drop b.enByte.toNat)
  rw [hlen, show r + b.enByte.toNat + (size - b.enByte.toNat) = r + size by omega] at hcopy
  have hH : (block b.poolCnt b.bufferSize (r + b.poolCnt * b.bufferSize) +
      (offset b.bufferSize (r + b.poolCnt * b.bufferSize) + b.enByte.toNat) / b.bufferSize) %
        (2 * b.poolCnt) =
      block b.poolCnt b.bufferSize (r + b.enByte.toNat + b.poolCnt * b.bufferSize) := by
    rw [block_advance g.bs_pos, Nat.add_right_comm]
  have hL : (offset b.bufferSize (r + b.poolCnt * b.bufferSize) + b.enByte.toNat) %
      b.bufferSize = offset b.bufferSize (r + b.enByte.toNat + b.poolCnt * b.bufferSize) := by
    rw [offset_advance, Nat.add_right_comm]
  simp only [recvBuffReadVA, h.cursorH_write, h.cursorL_write, h.cursorH_read, h.cursorL_read,
    h.gain, hhead, gained_whole, Int.toNat_natCast, hH, hL, hcopy, h.freeH, hgc]
  rw [if_neg (by omega), if_neg (by omega), if_neg (by simp), int32_of_lt (by omega)]
  rfl

/-- A complete frame is removed and its payload copied out, byte for byte. -/
theorem read_whole (h : RingRep enByte n bs b r stored) {size : Nat}
    (hhead : head enByte.toNat (n * bs) stored = .whole size) (m : Memory UInt8) {usize : Int}
    (hhi : usize < 2 ^ 31) (hlarge : (size - enByte.toNat : Nat) ≤ usize) :
    ∃ b' m', recvBuffReadVA m b true usize =
        (((size - enByte.toNat : Nat) : Int), (stored.take size).drop enByte.toNat, b', m') ∧
      m'.fate = m.fate ∧ RingRep enByte n bs b' (r + size) (stored.drop size) ∧
      b'.buffers (slot n bs (r + stored.length)) = b.buffers (slot n bs (r + stored.length)) ∧
      b'.read ≠ b.read := by
  have g := h.geometry
  have hfits := h.fits
  have hcap := g.capacity_lt
  obtain ⟨-, -, hen, hfit, hsize⟩ := head_whole_iff.mp hhead
  have hpos := enByte.toNat_pos
  obtain ⟨gc, hgc⟩ : ∃ gc, buffGcHelp b.buffers n bs (block n bs (r + n * bs))
      (block n bs (r + size + n * bs)) (block n bs (r + stored.length)) b.pool m = gc := ⟨_, rfl⟩
  obtain ⟨hfree, hfate, hholds, hkeep⟩ := buffGcHelp_holds g (Nat.le_add_right r size)
    (by omega) (by omega) (h.holds.drop size) (by rw [List.length_drop]; omega) hgc
  have hmoved : positionCursor n bs (r + size + n * bs) ≠ b.read := by
    rw [h.read, ne_comm]
    intro heq
    have := (positionCursor_inj g (by omega) (by omega)).mp heq
    omega
  refine ⟨_, _, h.read_eq hhead hhi hlarge hgc, hfate, ⟨g, h.enByte, h.poolCnt, h.bufferSize, ?_,
    ?_, rfl, hfree, ?_, hholds⟩, hkeep, hmoved⟩
  · rw [List.length_drop]
    omega
  · have hend : r + size + (stored.drop size).length = r + stored.length := by
      rw [List.length_drop]
      omega
    rw [hend]
    exact h.write
  · have hcheck := h.check
    rw [framed_of_whole hpos hhead, ← Nat.add_assoc] at hcheck
    exact hcheck

end RingRep

end RecvBuff

end RandServer
