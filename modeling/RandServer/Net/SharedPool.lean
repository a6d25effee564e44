import RandServer.Net.MessageQueue
import RandServer.Net.MsgBuff
import RandServer.Net.RecvRing
import RandServer.Net.SendBuff

/-!
# Buffers that share a pool

Send buffers, receive buffers of both versions and message queues over one `buff_pool`,
called in any order, and an application that sets the limit of the pool. Allocations may
fail. The heap is shared, so the message queue copies its messages byte by byte here.

`buff_pool_revive` does not look at what `realloc` returns, and the size that it asks for can
wrap. The blocks that the array no longer leads to are in no place then
(`sharedPool_loses`). Otherwise every block is in exactly one place in every state, no step
takes a block away from an unread byte or from the writer, and no call leaves the array
(`sharedPool_owned`).
-/

namespace RandServer

open LapRing

/-! ## Filling the rings -/

section Fills

variable {pool : Option Nat} {n size : Nat} {a a' : Arena UInt8}

theorem sendBuffPutHeader_fills {msgSize k i uHWrite uLWrite : Nat} (hn : 0 < n)
    (h : a.Fills pool n size a') :
    a.Fills pool n size (sendBuffPutHeader n size pool msgSize k i a' uHWrite uLWrite).2.1 := by
  induction k generalizing i a' uHWrite uLWrite with
  | zero => exact h
  | succ k ih =>
      have hone := h.copyIn uLWrite [sizeByte msgSize i] (Nat.mod_lt uHWrite hn)
      rw [sendBuffPutHeader]
      split
      · rename_i hcopy
        rw [hcopy] at hone
        exact hone
      · rename_i hcopy
        rw [hcopy] at hone
        exact ih hone

theorem sendBuffPutBlocks_fills {uHWrite k i : Nat} {pdata : List UInt8} (hn : 0 < n)
    (h : a.Fills pool n size a') :
    a.Fills pool n size (sendBuffPutBlocks n size pool uHWrite k i a' pdata).2 := by
  induction k generalizing i a' pdata with
  | zero => exact h
  | succ k ih =>
      have hone := h.copyIn 0 (pdata.take size) (Nat.mod_lt (uHWrite + 1 + i) hn)
      rw [sendBuffPutBlocks]
      split
      · rename_i hcopy
        rw [hcopy] at hone
        exact hone
      · rename_i hcopy
        rw [hcopy] at hone
        exact ih hone

theorem sendBuffPutTail_fills {uHWrite : Nat} {rest : List UInt8} (hn : 0 < n)
    (h : a.Fills pool n size a') :
    a.Fills pool n size (sendBuffPutTail n size pool a' uHWrite rest).2.1 := by
  have hblocks : a.Fills pool n size
      (sendBuffPutBlocks n size pool uHWrite (rest.length / size) 0 a' rest).2 :=
    sendBuffPutBlocks_fills hn h
  rw [sendBuffPutTail]
  split
  · rename_i hput
    rw [hput] at hblocks
    exact hblocks
  · rename_i hput
    rw [hput] at hblocks
    have hlast := hblocks.copyIn 0
      ((rest.drop (rest.length / size * size)).take (rest.length % size))
      (Nat.mod_lt (uHWrite + 1 + rest.length / size) hn)
    split
    · rename_i hcopy
      rw [hcopy] at hlast
      exact hlast
    · rename_i hcopy
      rw [hcopy] at hlast
      exact hlast

theorem sendBuffPutPayload_fills {uHWrite uLWrite : Nat} {pdata : List UInt8} (hn : 0 < n)
    (h : a.Fills pool n size a') :
    a.Fills pool n size (sendBuffPutPayload n size pool a' uHWrite uLWrite pdata).2.1 := by
  have hone := fun xs => h.copyIn uLWrite xs (Nat.mod_lt uHWrite hn)
  rw [sendBuffPutPayload]
  split
  · have hall := hone pdata
    split
    · rename_i hcopy
      rw [hcopy] at hall
      exact hall
    · rename_i hcopy
      rw [hcopy] at hall
      exact hall
  · have hfront := hone (pdata.take (size - uLWrite))
    split
    · rename_i hcopy
      rw [hcopy] at hfront
      exact hfront
    · rename_i hcopy
      rw [hcopy] at hfront
      exact sendBuffPutTail_fills hn hfront

end Fills

theorem sendBuffWrite_fills {m m' : Memory UInt8} {b b' : SendBuff} {pdata : List UInt8}
    {size ret : Int} (hn : 0 < b.poolCnt) (ht : sendBuffWrite m b pdata size = (ret, b', m')) :
    (Arena.mk b.buffers m).Fills b.pool b.poolCnt b.bufferSize ⟨b'.buffers, m'⟩ ∧
      b'.pool = b.pool := by
  simp only [sendBuffWrite] at ht
  split at ht
  · cases ht
    exact ⟨.refl, rfl⟩
  · split at ht
    · cases ht
      exact ⟨.refl, rfl⟩
    · split at ht
      · cases ht
        exact ⟨.refl, rfl⟩
      · have hheader : (Arena.mk b.buffers m).Fills b.pool b.poolCnt b.bufferSize
            (sendBuffPutHeader b.poolCnt b.bufferSize b.pool (u32 (size.toNat + b.enByte.toNat))
              b.enByte.toNat 0 ⟨b.buffers, m⟩ (cursorH b.write) (cursorL b.write)).2.1 :=
          sendBuffPutHeader_fills hn .refl
        split at ht
        · rename_i hput
          rw [hput] at hheader
          cases ht
          exact ⟨hheader, rfl⟩
        · rename_i a₁ uHWrite uLWrite hput
          rw [hput] at hheader
          have hpayload : (Arena.mk b.buffers m).Fills b.pool b.poolCnt b.bufferSize
              (sendBuffPutPayload b.poolCnt b.bufferSize b.pool a₁ uHWrite uLWrite
                (pdata.take size.toNat)).2.1 := sendBuffPutPayload_fills hn hheader
          split at ht
          · rename_i hput'
            rw [hput'] at hpayload
            cases ht
            exact ⟨hpayload, rfl⟩
          · rename_i hput'
            rw [hput'] at hpayload
            cases ht
            exact ⟨hpayload, rfl⟩

theorem recvBuffPrepareVA_fills {m m' : Memory UInt8} {b b' : RecvBuff} {room : Nat}
    {ptr : Option RecvPtr} (hn : 0 < b.poolCnt)
    (ht : recvBuffPrepareVA m b = (room, ptr, b', m')) :
    (Arena.mk b.buffers m).Fills b.pool b.poolCnt b.bufferSize ⟨b'.buffers, m'⟩ ∧
      b'.pool = b.pool := by
  simp only [recvBuffPrepareVA] at ht
  split at ht
  · cases ht
    exact ⟨.refl, rfl⟩
  · have hrefl : (Arena.mk b.buffers m).Fills b.pool b.poolCnt b.bufferSize ⟨b.buffers, m⟩ := .refl
    have hfetch := hrefl.fetch (Nat.mod_lt (cursorH b.write) hn)
    generalize (if cursorH b.read = cursorH b.write then _ else _) = size at ht
    split at ht
    · rename_i hres
      rw [hres] at hfetch
      cases ht
      exact ⟨hfetch, rfl⟩
    · rename_i hres
      rw [hres] at hfetch
      split at ht
      · cases ht
        exact ⟨hfetch, rfl⟩
      · cases ht
        exact ⟨hfetch, rfl⟩

theorem recvBuffConsumeVA_same (b : RecvBuff) (usize : Nat) :
    (recvBuffConsumeVA b usize).2.buffers = b.buffers ∧
      (recvBuffConsumeVA b usize).2.pool = b.pool := by
  simp only [recvBuffConsumeVA]
  split
  · exact ⟨rfl, rfl⟩
  · exact ⟨rfl, rfl⟩

theorem RecvBuff.fill_sized {b : RecvBuff} {size : Nat} (h : Sized b.buffers size)
    (ptr : RecvPtr) (xs : List UInt8) : Sized (b.fill ptr xs).buffers size := by
  cases ptr with
  | lens off => exact h
  | buffer i off =>
      cases hslot : b.buffers i with
      | none => simpa [fill, hslot] using h
      | some bf =>
          simp only [fill, hslot]
          apply h.update
          intro data hdata
          obtain rfl := Option.some.inj hdata
          exact h i bf hslot

/-! ## Limits -/

section Limits

variable {α : Type u}

theorem Arena.fetch_limits (a : Arena α) (pool : Option Nat) (size i : Nat) :
    (a.fetch pool size i).2.mem.limits = a.mem.limits := by
  have hnew := buffPoolNewBuff_limits a.mem pool size
  simp only [Arena.fetch]
  split
  · rfl
  · split
    · rename_i hres
      rw [hres] at hnew
      exact hnew
    · rename_i hres
      rw [hres] at hnew
      exact hnew

theorem Arena.copyIn_limits (a : Arena α) (pool : Option Nat) (size i off : Nat) (xs : List α) :
    (a.copyIn pool size i off xs).2.mem.limits = a.mem.limits := by
  have hfetch := a.fetch_limits pool size i
  simp only [Arena.copyIn]
  split
  · rename_i hres
    rw [hres] at hfetch
    exact hfetch
  · rename_i hres
    rw [hres] at hfetch
    exact hfetch

theorem Arena.Fills.limits {pool : Option Nat} {n size : Nat} {a a' : Arena α}
    (h : a.Fills pool n size a') : a'.mem.limits = a.mem.limits := by
  induction h with
  | refl => rfl
  | fetch _ _ ih => exact (Arena.fetch_limits ..).trans ih
  | copyIn off xs _ _ ih => exact (Arena.copyIn_limits ..).trans ih

theorem buffGcStep_limits (poolCnt bufferSize uHWrite : Nat) (pool : Option Nat) (s : BuffGc α) :
    (buffGcStep poolCnt bufferSize uHWrite pool s).mem.limits = s.mem.limits := by
  unfold buffGcStep
  dsimp only
  repeat' split
  · rfl
  · exact buffPoolDelBuff_limits ..
  · rfl

theorem buffGcHelp_limits (buffers : Nat → Option (Block α))
    (poolCnt bufferSize freeH uHRead uHWrite : Nat) (pool : Option Nat) (mem : Memory α) :
    (buffGcHelp buffers poolCnt bufferSize freeH uHRead uHWrite pool mem).mem.limits =
      mem.limits := by
  have hloop : ∀ (fuel : Nat) (s : BuffGc α),
      (buffGcLoop poolCnt bufferSize uHRead uHWrite pool fuel s).mem.limits = s.mem.limits := by
    intro fuel
    induction fuel with
    | zero => exact fun s => rfl
    | succ fuel ih =>
        intro s
        rw [buffGcLoop]
        split
        · rfl
        · exact (ih _).trans (buffGcStep_limits ..)
  exact hloop _ _

end Limits

/-! ## Message queues in bytes -/

/-- `msg_buff_write`. -/
def msgBuffWriteBytes (m : Memory UInt8) (b : MsgBuff UInt8) (msg : List UInt8) :
    Int × MsgBuff UInt8 × Memory UInt8 :=
  let uHWrite := cursorH b.write
  let uLWrite := cursorL b.write
  let poolBufferSize := u32 (b.msgTypeSize * b.bufferSize)
  if b.write = b.read then (0, b, m)
  else
    match Arena.copyIn { buffers := b.buffers, mem := m } b.pool poolBufferSize
      (uHWrite % b.poolCnt) (uLWrite * b.msgTypeSize) (msg.take b.msgTypeSize) with
    | (false, a) => (enErrNoMemory, { b with buffers := a.buffers }, a.mem)
    | (true, a) =>
        (1, { b with
              buffers := a.buffers
              write := packCursor
                ((uHWrite + (uLWrite + 1) / b.bufferSize) % (2 * b.poolCnt))
                ((uLWrite + 1) % b.bufferSize) }, a.mem)

/-- The copy loop of `msg_buff_read`: the bytes and the cursor behind them. -/
def msgBuffCopyBytes (buffers : Nat → Option (Block UInt8)) (poolCnt bufferSize msgTypeSize : Nat) :
    Nat → Nat → Nat → List UInt8 × Nat × Nat
  | 0, uHRead, uLRead => ([], uHRead, uLRead)
  | k + 1, uHRead, uLRead =>
      let rest := msgBuffCopyBytes buffers poolCnt bufferSize msgTypeSize k
        ((uHRead + (uLRead + 1) / bufferSize) % (2 * poolCnt)) ((uLRead + 1) % bufferSize)
      (readSlot buffers (uHRead % poolCnt) (uLRead * msgTypeSize) msgTypeSize ++ rest.1, rest.2)

/-- `msg_buff_read`. -/
def msgBuffReadBytes (m : Memory UInt8) (b : MsgBuff UInt8) (n : Nat) :
    List UInt8 × MsgBuff UInt8 × Memory UInt8 :=
  let commandCnt := min (msgBuffCount b b.write b.read) n
  let copied := msgBuffCopyBytes b.buffers b.poolCnt b.bufferSize b.msgTypeSize commandCnt
    (cursorH b.read) (cursorL b.read)
  let gc := buffGcHelp b.buffers b.poolCnt (u32 (b.msgTypeSize * b.bufferSize)) b.freeH copied.2.1
    (cursorH b.write) b.pool m
  (copied.1,
    { b with
      buffers := gc.buffers
      freeH := gc.uHFree
      read := packCursor copied.2.1 copied.2.2 }, gc.mem)

/-- The cursors of a queue with `len` messages from position `r` on. -/
structure MsgBuff.Span (n bs r len : Nat) (b : MsgBuff UInt8) : Prop where
  geometry : Geometry n bs
  poolCnt : b.poolCnt = n
  bufferSize : b.bufferSize = bs
  fits : len ≤ n * bs
  write : b.write = positionCursor n bs (r + len)
  read : b.read = positionCursor n bs (r + n * bs)
  freeH : b.freeH = block n bs (r + n * bs)

namespace MsgBuff

variable {n bs r len : Nat} {b b' : MsgBuff UInt8} {m m' : Memory UInt8}

theorem create_span (g : Geometry n bs) (msgTypeSize : Nat) (pool : Option Nat) :
    Span n bs 0 0 (msgBuffCreate msgTypeSize bs n pool) := by
  obtain ⟨hcur, hblock⟩ := positionCursor_capacity g
  exact ⟨g, rfl, rfl, Nat.zero_le _, positionCursor_zero.symm, hcur.symm, hblock.symm⟩

theorem copyBytes_cursor (g : Geometry n bs) (buffers : Nat → Option (Block UInt8))
    (msgTypeSize k p : Nat) :
    (msgBuffCopyBytes buffers n bs msgTypeSize k (block n bs (p + n * bs))
      (offset bs (p + n * bs))).2 = (block n bs (p + k + n * bs), offset bs (p + k + n * bs)) := by
  induction k generalizing p with
  | zero => rfl
  | succ k ih =>
      have hnext : p + n * bs + 1 = p + 1 + n * bs := by omega
      have hend : p + 1 + k = p + (k + 1) := by omega
      rw [msgBuffCopyBytes, block_advance g.bs_pos, offset_advance, hnext, ih, hend]

namespace Span

theorem count (h : Span n bs r len b) : msgBuffCount b b.write b.read = len := by
  have g := h.geometry
  have hcap := g.capacity_lt
  have hfits := h.fits
  rw [msgBuffCount, h.poolCnt, h.bufferSize, h.read, h.write, cursorH_position g,
    cursorL_position g, cursorH_position g, cursorL_position g,
    (buffGetSpace_position g (by omega) (by omega)).1, u32_of_lt (by omega),
    sub32_of_le (by omega) (by omega)]
  omega

/-- A write gets a block for the writer's slot, and appends a message or none. -/
theorem write_fills (h : Span n bs r len b) {msg : List UInt8} {ret : Int}
    (ht : msgBuffWriteBytes m b msg = (ret, b', m')) :
    (Arena.mk b.buffers m).Fills b.pool n (u32 (b.msgTypeSize * bs)) ⟨b'.buffers, m'⟩ ∧
      b'.pool = b.pool ∧ b'.msgTypeSize = b.msgTypeSize ∧ ∃ len', Span n bs r len' b' := by
  obtain rfl := h.poolCnt
  obtain rfl := h.bufferSize
  have g := h.geometry
  have hfits := h.fits
  simp only [msgBuffWriteBytes] at ht
  split at ht
  · cases ht
    exact ⟨.refl, rfl, rfl, len, h⟩
  · rename_i hroom
    have hrefl : (Arena.mk b.buffers m).Fills b.pool b.poolCnt
      (u32 (b.msgTypeSize * b.bufferSize)) ⟨b.buffers, m⟩ := .refl
    have hcopy := hrefl.copyIn (cursorL b.write * b.msgTypeSize) (msg.take b.msgTypeSize)
      (Nat.mod_lt (cursorH b.write) g.n_pos)
    split at ht
    · rename_i hres
      rw [hres] at hcopy
      cases ht
      exact ⟨hcopy, rfl, rfl, len, ⟨g, rfl, rfl, hfits, h.write, h.read, h.freeH⟩⟩
    · rename_i hres
      rw [hres] at hcopy
      cases ht
      refine ⟨hcopy, rfl, rfl, len + 1, ⟨g, rfl, rfl, ?_, ?_, h.read, h.freeH⟩⟩
      · have hne : len ≠ b.poolCnt * b.bufferSize := by
          rintro rfl
          exact hroom (h.write.trans h.read.symm)
        omega
      · rw [h.write, cursorH_position g, cursorL_position g, block_advance g.bs_pos,
          offset_advance, ← Nat.add_assoc]
        rfl

/-- A read moves the reader and releases the blocks it leaves. -/
theorem read_eq (h : Span n bs r len b) {cnt k : Nat} (hk : min len cnt = k)
    {gc : BuffGc UInt8}
    (hgc : buffGcHelp b.buffers n (u32 (b.msgTypeSize * bs)) (block n bs (r + n * bs))
      (block n bs (r + k + n * bs)) (block n bs (r + len)) b.pool m = gc) :
    (msgBuffReadBytes m b cnt).2 =
      ({ b with
          buffers := gc.buffers
          freeH := gc.uHFree
          read := positionCursor n bs (r + k + n * bs) }, gc.mem) := by
  have g := h.geometry
  have hcur := copyBytes_cursor g b.buffers b.msgTypeSize k r
  simp only [msgBuffReadBytes, h.count, hk]
  simp only [h.poolCnt, h.bufferSize, h.read, h.write, h.freeH, cursorH_position g,
    cursorL_position g, hcur, hgc]
  rfl

end Span

end MsgBuff

/-! ### Limits -/

theorem recvBuffReadVA_limits (m : Memory UInt8) (b : RecvBuff) (buff : Bool) (usize : Int) :
    (recvBuffReadVA m b buff usize).2.2.2.limits = m.limits := by
  simp only [recvBuffReadVA]
  split_ifs
  · rfl
  · rfl
  · rfl
  · exact buffGcHelp_limits ..

theorem recvBuffConsumeVB_limits (m : Memory UInt8) (b : RecvBuff) (usize : Nat) :
    (recvBuffConsumeVB m b usize).2.2.limits = m.limits := by
  simp only [recvBuffConsumeVB]
  split_ifs
  · rfl
  · rfl
  · rfl
  · rfl
  · split
    · rename_i hres
      exact (congrArg (fun res => res.2.limits) hres).symm.trans (buffPoolNewBuff_limits ..)
    · rename_i hres
      exact (congrArg (fun res => res.2.limits) hres).symm.trans (buffPoolNewBuff_limits ..)
  · rfl
  · rfl
  · rfl
  · rfl

theorem msgBuffWriteBytes_limits (m : Memory UInt8) (b : MsgBuff UInt8) (msg : List UInt8) :
    (msgBuffWriteBytes m b msg).2.2.limits = m.limits := by
  have hcopy := Arena.copyIn_limits ⟨b.buffers, m⟩ b.pool (u32 (b.msgTypeSize * b.bufferSize))
    (cursorH b.write % b.poolCnt) (cursorL b.write * b.msgTypeSize) (msg.take b.msgTypeSize)
  simp only [msgBuffWriteBytes]
  split
  · rfl
  · split
    · rename_i hres
      rw [hres] at hcopy
      exact hcopy
    · rename_i hres
      rw [hres] at hcopy
      exact hcopy

/-! ## The users of the pool -/

/-- A buffer, with the piece that its last prepare call returned. -/
inductive PoolUser
  | send (b : SendBuff) (room : Nat)
  | ring (b : RecvBuff) (prepared : Option (Nat × Option RecvPtr))
  | queue (b : RecvBuff) (prepared : Option (Nat × Option RecvPtr))
  | msg (b : MsgBuff UInt8)

namespace PoolUser

def buffers : PoolUser → Nat → Option (Block UInt8)
  | .send b _ => b.buffers
  | .ring b _ => b.buffers
  | .queue b _ => b.buffers
  | .msg b => b.buffers

def poolCnt : PoolUser → Nat
  | .send b _ => b.poolCnt
  | .ring b _ => b.poolCnt
  | .queue b _ => b.poolCnt
  | .msg b => b.poolCnt

/-- The blocks in the slots of a buffer. -/
def blocks (u : PoolUser) : List Nat := slotAddrs u.buffers u.poolCnt

/-- The size of a queue's blocks fits in 32 bits. -/
def SizeFits : PoolUser → Prop
  | .msg b => b.msgTypeSize * b.bufferSize < 2 ^ 32
  | _ => True

/-- The slots that `buff_gc_help` has to leave. A vB buffer does not call it. -/
def live : PoolUser → List Nat
  | .send b _ => liveSlots b.poolCnt b.read b.write
  | .ring b _ => liveSlots b.poolCnt b.read b.write
  | .queue _ _ => []
  | .msg b => liveSlots b.poolCnt b.read b.write

/-- A new buffer over pool 0. -/
inductive Created (m : Memory UInt8) : PoolUser → Prop
  | send {n : Nat} (enByte : EnByteSize) (g : Geometry n (u16 (m.pools 0).bufferSize)) :
      Created m (.send (sendBuffCreate m enByte n 0) 0)
  | ring {n : Nat} (lens : Block UInt8) (enByte : EnByteSize)
      (g : Geometry n (u16 (m.pools 0).bufferSize)) :
      Created m (.ring (recvBuffCreateVA m lens enByte n 0) none)
  | queue {n : Nat} (lens : Block UInt8) (enByte : EnByteSize) (bufferSize : Nat) (hn : 0 < n)
      (hle : n ≤ 32768) :
      Created m (.queue (recvBuffCreateVB lens enByte n bufferSize (some 0)) none)
  | msg {n bufferSize : Nat} (msgTypeSize : Nat) (g : Geometry n bufferSize) :
      Created m (.msg (msgBuffCreate msgTypeSize bufferSize n (some 0)))

inductive Op
  | write (pdata : List UInt8) (size : Int)
  | prepare
  | consume (k : Nat)
  | recvPrepare
  | recvConsume (xs : List UInt8)
  | recvRead (usize : Int)
  | msgWrite (data : List UInt8)
  | msgRead (n : Nat)

/-- What an operation does to the buffer and the heap, and the blocks it hands to the
application. At most the prepared bytes are consumed, and a vA prepare call waits while
the lock of an earlier one is held. -/
def step (m : Memory UInt8) :
    PoolUser → Op → Option (PoolUser × Memory UInt8 × List (Block UInt8))
  | .send b room, .write pdata size =>
      if size < 2 ^ 31 ∧ size ≤ pdata.length then
        let res := sendBuffWrite m b pdata size
        some (.send res.2.1 room, res.2.2, [])
      else none
  | .send b _, .prepare => some (.send b (sendBuffPrepare b).1, m, [])
  | .send b room, .consume k =>
      if k ≤ room then
        let res := sendBuffConsume m b k
        some (.send res.1 (room - k), res.2, [])
      else none
  | .ring b _, .recvPrepare =>
      if b.prepFlag then none
      else
        let res := recvBuffPrepareVA m b
        some (.ring res.2.2.1 (some (res.1, res.2.1)), res.2.2.2, [])
  | .ring b (some (room, ptr)), .recvConsume xs =>
      if xs.length ≤ room then
        let rbuff := (ptr.map fun p => b.fill p xs).getD b
        some (.ring (recvBuffConsumeVA rbuff xs.length).2 none, m, [])
      else none
  | .ring b prepared, .recvRead usize =>
      if 0 ≤ usize ∧ usize < 2 ^ 31 then
        let res := recvBuffReadVA m b true usize
        some (.ring res.2.2.1 prepared, res.2.2.2, [])
      else none
  | .queue b _, .recvPrepare => some (.queue b (some (recvBuffPrepareVB b)), m, [])
  | .queue b (some (room, ptr)), .recvConsume xs =>
      if xs.length ≤ room then
        let rbuff := (ptr.map fun p => b.fill p xs).getD b
        let res := recvBuffConsumeVB m rbuff xs.length
        some (.queue res.2.1 none, res.2.2, [])
      else none
  | .queue b prepared, .recvRead usize =>
      let res := recvBuffReadVB b usize
      some (.queue res.2.2 prepared, m, res.2.1.toList)
  | .msg b, .msgWrite data =>
      if data.length = b.msgTypeSize then
        let res := msgBuffWriteBytes m b data
        some (.msg res.2.1, res.2.2, [])
      else none
  | .msg b, .msgRead n =>
      let res := msgBuffReadBytes m b n
      some (.msg res.2.1, res.2.2, [])
  | _, _ => none

/-! ### What the operations keep -/

structure SendOk (enByte : EnByteSize) (n bs r : Nat) (q : List UInt8) (b : SendBuff)
    (room : Nat) : Prop where
  rep : SendBuff.Rep enByte n bs b r q
  pool : b.pool = some 0
  sized : Sized b.buffers bs
  room_le : room ≤ q.length

structure RingOk (enByte : EnByteSize) (n bs r : Nat) (stored : List UInt8) (b : RecvBuff)
    (prepared : Option (Nat × Option RecvPtr)) : Prop where
  rep : RecvBuff.RingRep enByte n bs b r stored
  pool : b.pool = some 0
  sized : Sized b.buffers bs
  piece : ∀ room ptr, prepared = some (room, ptr) → 0 < room →
    ptr = some (.buffer (slot n bs (r + stored.length)) (offset bs (r + stored.length))) ∧
      RecvBuff.RingSpace n bs b (r + stored.length) stored.length room

structure QueueOk (enByte : EnByteSize) (n r : Nat) (msgs : List (List UInt8))
    (part : List UInt8) (b : RecvBuff) (prepared : Option (Nat × Option RecvPtr)) : Prop where
  rep : RecvBuff.QueueRep enByte n b r msgs part
  vacant : ∀ j, msgs.length ≤ j → j < n → (j = msgs.length → b.check < enByte.toNat) →
    b.buffers ((r + j) % n) = none
  pool : b.pool = some 0
  piece : ∀ room ptr, prepared = some (room, ptr) → 0 < room → recvBuffPrepareVB b = (room, ptr)

structure MsgOk (n bs r len : Nat) (b : MsgBuff UInt8) : Prop where
  span : b.Span n bs r len
  pool : b.pool = some 0
  sized : Sized b.buffers (u32 (b.msgTypeSize * bs))

def Inv : PoolUser → Prop
  | .send b room => ∃ enByte n bs r q, SendOk enByte n bs r q b room
  | .ring b prepared => ∃ enByte n bs r stored, RingOk enByte n bs r stored b prepared
  | .queue b prepared => ∃ enByte n r msgs part, QueueOk enByte n r msgs part b prepared
  | .msg b => ∃ n bs r len, MsgOk n bs r len b

theorem sized_empty (size : Nat) : Sized (fun _ => (none : Option (Block UInt8))) size := by
  intro i data hnone
  cases hnone

theorem Created.inv {m : Memory UInt8} {u : PoolUser} (h : Created m u) : u.Inv := by
  cases h with
  | send enByte g =>
      exact ⟨enByte, _, _, 0, [], sendBuffCreate_rep_u16 g, rfl, sized_empty _, Nat.le_refl 0⟩
  | ring lens enByte g =>
      exact ⟨enByte, _, _, 0, [], RecvBuff.create_ringRep_u16 lens enByte g, rfl, sized_empty _,
        nofun⟩
  | queue lens enByte bufferSize hn hle =>
      exact ⟨enByte, _, 0, [], [], RecvBuff.create_queueRep lens enByte hn bufferSize (some 0),
        fun _ _ _ _ => rfl, rfl, RecvBuff.QueueRep.piece_none⟩
  | msg msgTypeSize g =>
      exact ⟨_, _, 0, 0, MsgBuff.create_span g msgTypeSize (some 0), rfl, sized_empty _⟩

theorem Created.blocks_eq {m : Memory UInt8} {u : PoolUser} (h : Created m u) : u.blocks = [] := by
  cases h <;> simp [blocks, slotAddrs, buffers, sendBuffCreate, recvBuffCreateVA,
    recvBuffCreateVB, msgBuffCreate]

/-- What an operation leaves behind: `held` are the blocks of everybody else. -/
structure Follows (u u' : PoolUser) (m' : Memory UInt8) (out : List (Block UInt8))
    (held : List Nat) : Prop where
  inv : u'.Inv
  places : m'.Accounted (some 0) (u'.blocks ++ (out.map Block.addr ++ held))
  spares : ∀ i ∈ u'.live, Stays u.buffers u'.buffers i

section Send

variable {enByte : EnByteSize} {n bs r room k : Nat} {q : List UInt8} {b b' : SendBuff}
  {m m' : Memory UInt8} {held : List Nat}

theorem SendOk.write (h : SendOk enByte n bs r q b room)
    (hm : m.Accounted (some 0) (slotAddrs b.buffers n ++ held)) {pdata : List UInt8} {size : Int}
    (hsize : size < 2 ^ 31) (hdata : size ≤ pdata.length) {ret : Int}
    (ht : sendBuffWrite m b pdata size = (ret, b', m')) :
    Follows (.send b room) (.send b' room) m' [] held := by
  have hn := h.rep.geometry.n_pos
  obtain ⟨hfills, hpool⟩ := sendBuffWrite_fills (by rw [h.rep.poolCnt]; exact hn) ht
  rw [h.rep.poolCnt, h.rep.bufferSize, h.pool] at hfills
  have hacc := hfills.accounted ⟨hm, h.sized⟩
  have hrep : ∃ q', SendBuff.Rep enByte n bs b' r q' ∧ q.length ≤ q'.length := by
    by_cases hyes : SendBuff.Rep.Accepts enByte n bs q.length size
    · obtain ⟨-, -, ⟨-, hrep⟩ | ⟨-, hrep⟩⟩ := h.rep.write_accepted hsize hdata hyes ht
      · exact ⟨_, hrep, by rw [List.length_append]; omega⟩
      · exact ⟨q, hrep, Nat.le_refl _⟩
    · rw [h.rep.write_refused hsize hyes] at ht
      cases ht
      exact ⟨q, h.rep, Nat.le_refl _⟩
  obtain ⟨q', hrep, hlen⟩ := hrep
  refine ⟨⟨enByte, n, bs, r, q', hrep, hpool.trans h.pool, hacc.sized, h.room_le.trans hlen⟩, ?_,
    fun i _ => hfills.stays i⟩
  simpa [blocks, buffers, poolCnt, hrep.poolCnt] using hacc.places

theorem SendOk.consume (h : SendOk enByte n bs r q b room)
    (hm : m.Accounted (some 0) (slotAddrs b.buffers n ++ held)) (hk : k ≤ room)
    (ht : sendBuffConsume m b k = (b', m')) :
    Follows (.send b room) (.send b' (room - k)) m' [] held := by
  have g := h.rep.geometry
  have hfits := h.rep.fits
  have hle := hk.trans h.room_le
  have hlen : room - k ≤ (q.drop k).length := by
    rw [List.length_drop]
    exact Nat.sub_le_sub_right h.room_le k
  have hrep := (h.rep.consume (m := m) hle).1
  rw [ht] at hrep
  by_cases hzero : k = 0
  · subst hzero
    rw [sendBuffConsume, if_pos rfl] at ht
    cases ht
    refine ⟨⟨enByte, n, bs, r, q, h.rep, h.pool, h.sized, h.room_le⟩, ?_, fun i _ => .of_eq rfl⟩
    simpa [blocks, buffers, poolCnt, h.rep.poolCnt] using hm
  · obtain ⟨gc, hgc⟩ : ∃ gc, buffGcHelp b.buffers n bs (block n bs (r + n * bs))
        (block n bs (r + k + n * bs)) (block n bs (r + q.length)) b.pool m = gc := ⟨_, rfl⟩
    rw [h.rep.consume_eq hzero hle hgc] at ht
    cases ht
    have hacc : (⟨gc.buffers, gc.mem⟩ : Arena UInt8).Accounted (some 0) n bs held := by
      rw [← hgc, h.pool]
      exact buffGcHelp_accounted g.n_pos ⟨hm, h.sized⟩
    refine ⟨⟨enByte, n, bs, r + k, q.drop k, hrep, h.pool, hacc.sized, hlen⟩, ?_, ?_⟩
    · simpa [blocks, buffers, poolCnt, h.rep.poolCnt] using hacc.places
    · intro i hi
      simp only [live, h.rep.write, h.rep.poolCnt] at hi
      apply Stays.of_eq
      exact buffGcHelp_live g (Nat.le_add_right r k) (by omega) (by omega) hgc hi

end Send

section Ring

variable {enByte : EnByteSize} {n bs r : Nat} {stored : List UInt8} {b b' : RecvBuff}
  {prepared : Option (Nat × Option RecvPtr)} {m m' : Memory UInt8} {held : List Nat}

theorem RingOk.prepare (h : RingOk enByte n bs r stored b prepared)
    (hm : m.Accounted (some 0) (slotAddrs b.buffers n ++ held)) {room : Nat}
    {ptr : Option RecvPtr} (ht : recvBuffPrepareVA m b = (room, ptr, b', m')) :
    Follows (.ring b prepared) (.ring b' (some (room, ptr))) m' [] held := by
  have hn := h.rep.geometry.n_pos
  obtain ⟨hfills, hpool⟩ := recvBuffPrepareVA_fills (by rw [h.rep.poolCnt]; exact hn) ht
  rw [h.rep.poolCnt, h.rep.bufferSize, h.pool] at hfills
  have hacc := hfills.accounted ⟨hm, h.sized⟩
  obtain ⟨-, hrep, hspace, -⟩ := h.rep.prepare ht
  refine ⟨⟨enByte, n, bs, r, stored, hrep, hpool.trans h.pool, hacc.sized, ?_⟩, ?_,
    fun i _ => hfills.stays i⟩
  · intro room' ptr' hprep hpos
    simp only [Option.some.injEq, Prod.mk.injEq] at hprep
    obtain ⟨rfl, rfl⟩ := hprep
    exact hspace hpos
  · simpa [blocks, buffers, poolCnt, hrep.poolCnt] using hacc.places

theorem RingOk.consume {room : Nat} {ptr : Option RecvPtr} {xs : List UInt8}
    (h : RingOk enByte n bs r stored b (some (room, ptr)))
    (hm : m.Accounted (some 0) (slotAddrs b.buffers n ++ held)) (hfit : xs.length ≤ room)
    (ht : (recvBuffConsumeVA ((ptr.map fun p => b.fill p xs).getD b) xs.length).2 = b') :
    Follows (.ring b (some (room, ptr))) (.ring b' none) m [] held := by
  by_cases hxs : xs = []
  · subst hxs
    rw [b.fill_map_nil ptr, List.length_nil] at ht
    obtain ⟨hbuf, hpool⟩ := recvBuffConsumeVA_same b 0
    rw [ht] at hbuf hpool
    have hrep : RecvBuff.RingRep enByte n bs b' r stored :=
      h.rep.consume_nil (Prod.ext rfl ht)
    refine ⟨⟨enByte, n, bs, r, stored, hrep, hpool.trans h.pool, ?_, nofun⟩, ?_, ?_⟩
    · rw [hbuf]
      exact h.sized
    · simpa [blocks, buffers, poolCnt, hrep.poolCnt, hbuf] using hm
    · intro i _
      exact .of_eq (congrFun hbuf i)
  · have hpos : 0 < xs.length := List.length_pos_iff.mpr hxs
    obtain ⟨rfl, hspace⟩ := h.piece room ptr rfl (by omega)
    simp only [Option.map_some, Option.getD_some] at ht
    obtain ⟨hbuf, hpool⟩ := recvBuffConsumeVA_same (b.fill (.buffer (slot n bs (r + stored.length))
      (offset bs (r + stored.length))) xs) xs.length
    rw [ht] at hbuf hpool
    rw [RecvBuff.fill_pool] at hpool
    have hrep : RecvBuff.RingRep enByte n bs b' r (stored ++ xs) :=
      h.rep.consume hspace hpos hfit (Prod.ext rfl ht)
    have haddr : ∀ i, (b'.buffers i).map Block.addr = (b.buffers i).map Block.addr := by
      intro i
      rw [hbuf]
      exact b.fill_buffers_addr _ xs i
    refine ⟨⟨enByte, n, bs, r, stored ++ xs, hrep, hpool.trans h.pool, ?_, nofun⟩, ?_, ?_⟩
    · rw [hbuf]
      exact RecvBuff.fill_sized h.sized _ xs
    · have hsame : slotAddrs b'.buffers n = slotAddrs b.buffers n :=
        slotAddrs_congr fun i _ => haddr i
      simpa [blocks, buffers, poolCnt, hrep.poolCnt, hsame] using hm
    · intro i _
      exact .of_addr (haddr i)

theorem RingOk.read (h : RingOk enByte n bs r stored b prepared)
    (hm : m.Accounted (some 0) (slotAddrs b.buffers n ++ held)) {usize ret : Int}
    {data : List UInt8} (hlo : 0 ≤ usize) (hhi : usize < 2 ^ 31)
    (ht : recvBuffReadVA m b true usize = (ret, data, b', m')) :
    Follows (.ring b prepared) (.ring b' prepared) m' [] held := by
  have g := h.rep.geometry
  have hfits := h.rep.fits
  have hsame : b' = b → m' = m → Follows (.ring b prepared) (.ring b' prepared) m' [] held := by
    rintro rfl rfl
    refine ⟨⟨enByte, n, bs, r, stored, h⟩, ?_, fun i _ => .of_eq rfl⟩
    simpa [blocks, buffers, poolCnt, h.rep.poolCnt] using hm
  by_cases hwhole : ∃ size, Framing.head enByte.toNat (n * bs) stored = .whole size
  · obtain ⟨size, hwhole⟩ := hwhole
    cases Int.lt_or_le usize (size - enByte.toNat : Nat) with
    | inl hsmall =>
        rw [h.rep.read_refused hwhole m hlo hsmall] at ht
        cases ht
        exact hsame rfl rfl
    | inr hlarge =>
        have hle : size ≤ stored.length := (Framing.head_whole_iff.mp hwhole).2.2.2.2
        obtain ⟨b₁, m₁, hread, -, hrep, hkeep, -⟩ := h.rep.read_whole hwhole m hhi hlarge
        obtain ⟨gc, hgc⟩ : ∃ gc, buffGcHelp b.buffers n bs (block n bs (r + n * bs))
          (block n bs (r + size + n * bs)) (block n bs (r + stored.length)) b.pool m = gc :=
          ⟨_, rfl⟩
        rw [ht] at hread
        cases hread
        rw [h.rep.read_eq hwhole hhi hlarge hgc] at ht
        cases ht
        have hacc : (⟨gc.buffers, gc.mem⟩ : Arena UInt8).Accounted (some 0) n bs held := by
          rw [← hgc, h.pool]
          exact buffGcHelp_accounted g.n_pos ⟨hm, h.sized⟩
        have hend : r + size + (stored.drop size).length = r + stored.length := by
          rw [List.length_drop]
          omega
        refine ⟨⟨enByte, n, bs, r + size, stored.drop size, hrep, h.pool, hacc.sized, ?_⟩, ?_, ?_⟩
        · intro room ptr hprep hpos
          obtain ⟨hptr, ⟨bf, hbf⟩, hblock, hring⟩ := h.piece room ptr hprep hpos
          rw [hend]
          refine ⟨hptr, ⟨bf, hkeep.trans hbf⟩, hblock, ?_⟩
          rw [List.length_drop]
          omega
        · simpa [blocks, buffers, poolCnt, h.rep.poolCnt] using hacc.places
        · intro i hi
          simp only [live, h.rep.write, h.rep.poolCnt] at hi
          apply Stays.of_eq
          exact buffGcHelp_live g (Nat.le_add_right r size) (by omega) (by omega) hgc hi
  · rw [h.rep.read_incomplete (fun size heq => hwhole ⟨size, heq⟩)] at ht
    cases ht
    exact hsame rfl rfl

end Ring

section Queue

variable {enByte : EnByteSize} {n r : Nat} {msgs : List (List UInt8)} {part : List UInt8}
  {b b' : RecvBuff} {prepared : Option (Nat × Option RecvPtr)} {m m' : Memory UInt8}
  {held : List Nat}

theorem QueueOk.tidy (h : QueueOk enByte n r msgs part b prepared)
    (hm : m.Accounted (some 0) (slotAddrs b.buffers n ++ held)) :
    RecvBuff.Tidy enByte n r msgs part b m held := by
  refine ⟨h.rep, h.vacant, ?_⟩
  rw [h.pool]
  exact hm

/-- An untouched buffer, with a new piece or without one. -/
theorem QueueOk.same (h : QueueOk enByte n r msgs part b prepared)
    (hm : m.Accounted (some 0) (slotAddrs b.buffers n ++ held))
    {prepared' : Option (Nat × Option RecvPtr)}
    (hpiece : ∀ room ptr, prepared' = some (room, ptr) → 0 < room →
      recvBuffPrepareVB b = (room, ptr)) :
    Follows (.queue b prepared) (.queue b prepared') m [] held := by
  refine ⟨⟨enByte, n, r, msgs, part, h.rep, h.vacant, h.pool, hpiece⟩, ?_, fun _ _ => .of_eq rfl⟩
  simpa [blocks, buffers, poolCnt, h.rep.poolCnt] using hm

theorem recvBuffConsumeVB_pool (m : Memory UInt8) (b : RecvBuff) (usize : Nat) :
    (recvBuffConsumeVB m b usize).2.1.pool = b.pool := by
  unfold recvBuffConsumeVB
  dsimp only
  repeat' split
  all_goals rfl

theorem QueueOk.consume {room : Nat} {ptr : Option RecvPtr} {xs : List UInt8}
    (h : QueueOk enByte n r msgs part b (some (room, ptr)))
    (hm : m.Accounted (some 0) (slotAddrs b.buffers n ++ held)) (hfit : xs.length ≤ room)
    {ret : Int} (ht : recvBuffConsumeVB m ((ptr.map fun p => b.fill p xs).getD b) xs.length =
      (ret, b', m')) :
    Follows (.queue b (some (room, ptr))) (.queue b' none) m' [] held := by
  by_cases hxs : xs = []
  · subst hxs
    rw [b.fill_map_nil ptr, List.length_nil, recvBuffConsumeVB, if_pos rfl] at ht
    cases ht
    exact h.same hm RecvBuff.QueueRep.piece_none
  · have hpos : 0 < xs.length := List.length_pos_iff.mpr hxs
    have hroom := h.piece room ptr rfl (by omega)
    obtain ⟨p, hptr⟩ := h.rep.prepare_ptr (by rw [hroom]; simp only; omega)
    rw [hroom] at hptr
    obtain rfl : ptr = some p := hptr
    simp only [Option.map_some, Option.getD_some] at ht
    have hpool := recvBuffConsumeVB_pool m (b.fill p xs) xs.length
    rw [ht, RecvBuff.fill_pool] at hpool
    have hpool' : b'.pool = some 0 := hpool.trans h.pool
    have hfollows : ∀ {msgs' part'}, RecvBuff.Tidy enByte n r msgs' part' b' m' held →
        Follows (.queue b (some (room, some p))) (.queue b' none) m' [] held := by
      intro msgs' part' htidy
      have hplaces := htidy.places
      rw [hpool'] at hplaces
      refine ⟨⟨enByte, n, r, msgs', part', htidy.rep, htidy.vacant, hpool',
        RecvBuff.QueueRep.piece_none⟩, ?_, fun i hi => absurd hi List.not_mem_nil⟩
      simpa [blocks, buffers, poolCnt, htidy.rep.poolCnt] using hplaces
    obtain ⟨⟨-, q, -, -, htidy⟩ | ⟨-, -, part', htidy, -⟩, -⟩ :=
      (h.tidy hm).consume hroom hpos hfit ht
    · exact hfollows htidy
    · exact hfollows htidy

theorem QueueOk.read (h : QueueOk enByte n r msgs part b prepared)
    (hm : m.Accounted (some 0) (slotAddrs b.buffers n ++ held)) {usize ret : Int}
    {out : Option (Block UInt8)} (ht : recvBuffReadVB b usize = (ret, out, b')) :
    Follows (.queue b prepared) (.queue b' prepared) m out.toList held := by
  have hsame : recvBuffReadVB b usize = (0, none, b) →
      Follows (.queue b prepared) (.queue b' prepared) m out.toList held := by
    intro hread
    rw [hread] at ht
    cases ht
    exact h.same hm h.piece
  by_cases husize : usize = 8
  · subst husize
    cases msgs with
    | nil => exact hsame h.rep.read_nil
    | cons p msgs =>
        obtain ⟨bf, b₁, hread, -, htidy, -⟩ := (h.tidy hm).read_cons
        obtain ⟨-, -, hpool, -⟩ := RecvBuff.readVB_some hread
        rw [ht] at hread
        cases hread
        have hpool' : b'.pool = some 0 := hpool.trans h.pool
        have hplaces := htidy.places
        rw [hpool'] at hplaces
        refine ⟨⟨enByte, n, r + 1, msgs, part, htidy.rep, htidy.vacant, hpool', ?_⟩, ?_, nofun⟩
        · intro room ptr hprep hpos
          have hroom := h.piece room ptr hprep hpos
          have hafter := h.rep.prepare_after_read htidy.rep (by rw [hroom]; exact hpos)
          exact hafter.trans hroom
        · simpa [blocks, buffers, poolCnt, htidy.rep.poolCnt] using hplaces
  · apply hsame
    rw [recvBuffReadVB, if_pos husize]

end Queue

section Msg

variable {n bs r len : Nat} {b b' : MsgBuff UInt8} {m m' : Memory UInt8} {held : List Nat}

theorem MsgOk.write (h : MsgOk n bs r len b)
    (hm : m.Accounted (some 0) (slotAddrs b.buffers n ++ held)) {data : List UInt8} {ret : Int}
    (ht : msgBuffWriteBytes m b data = (ret, b', m')) :
    Follows (.msg b) (.msg b') m' [] held := by
  obtain ⟨hfills, hpool, hsize, len', hspan⟩ := h.span.write_fills ht
  rw [h.pool] at hfills
  have hacc := hfills.accounted ⟨hm, h.sized⟩
  refine ⟨⟨n, bs, r, len', hspan, hpool.trans h.pool, ?_⟩, ?_, fun i _ => hfills.stays i⟩
  · rw [hsize]
    exact hacc.sized
  · simpa [blocks, buffers, poolCnt, hspan.poolCnt] using hacc.places

theorem MsgOk.read (h : MsgOk n bs r len b)
    (hm : m.Accounted (some 0) (slotAddrs b.buffers n ++ held)) {cnt : Nat} {data : List UInt8}
    (ht : msgBuffReadBytes m b cnt = (data, b', m')) :
    Follows (.msg b) (.msg b') m' [] held := by
  have g := h.span.geometry
  have hfits := h.span.fits
  obtain ⟨k, hk⟩ : ∃ k, min len cnt = k := ⟨_, rfl⟩
  obtain ⟨gc, hgc⟩ : ∃ gc, buffGcHelp b.buffers n (u32 (b.msgTypeSize * bs))
    (block n bs (r + n * bs)) (block n bs (r + k + n * bs)) (block n bs (r + len)) b.pool m = gc :=
    ⟨_, rfl⟩
  have hread := h.span.read_eq hk hgc
  rw [ht] at hread
  cases hread
  have hacc : (⟨gc.buffers, gc.mem⟩ : Arena UInt8).Accounted (some 0) n
      (u32 (b.msgTypeSize * bs)) held := by
    rw [← hgc, h.pool]
    exact buffGcHelp_accounted g.n_pos ⟨hm, h.sized⟩
  have hfree := (buffGcHelp_spec g (Nat.le_add_right r k) (by omega) hgc).1
  have hend : r + k + (len - k) = r + len := by omega
  refine ⟨⟨n, bs, r + k, len - k, ?_, h.pool, hacc.sized⟩, ?_, ?_⟩
  · exact ⟨g, h.span.poolCnt, h.span.bufferSize, by omega, by rw [hend]; exact h.span.write, rfl,
      hfree⟩
  · simpa [blocks, buffers, poolCnt, h.span.poolCnt] using hacc.places
  · intro i hi
    simp only [live, h.span.write, h.span.poolCnt] at hi
    apply Stays.of_eq
    exact buffGcHelp_live g (Nat.le_add_right r k) (by omega) (by omega) hgc hi

end Msg

/-! ### Every operation -/

/-- What a step can do: the operation of the buffer, with its conditions. -/
inductive Steps (m : Memory UInt8) :
    PoolUser → Op → PoolUser → Memory UInt8 → List (Block UInt8) → Prop
  | write {b b' : SendBuff} {room : Nat} {pdata : List UInt8} {size ret : Int}
      {m' : Memory UInt8} (hlt : size < 2 ^ 31) (hle : size ≤ pdata.length)
      (hrun : sendBuffWrite m b pdata size = (ret, b', m')) :
      Steps m (.send b room) (.write pdata size) (.send b' room) m' []
  | prepare {b : SendBuff} {room : Nat} :
      Steps m (.send b room) .prepare (.send b (sendBuffPrepare b).1) m []
  | consume {b b' : SendBuff} {room k : Nat} {m' : Memory UInt8} (hle : k ≤ room)
      (hrun : sendBuffConsume m b k = (b', m')) :
      Steps m (.send b room) (.consume k) (.send b' (room - k)) m' []
  | ringPrepare {b b' : RecvBuff} {prepared : Option (Nat × Option RecvPtr)} {room : Nat}
      {ptr : Option RecvPtr} {m' : Memory UInt8}
      (hrun : recvBuffPrepareVA m b = (room, ptr, b', m')) :
      Steps m (.ring b prepared) .recvPrepare (.ring b' (some (room, ptr))) m' []
  | ringConsume {b b' : RecvBuff} {room : Nat} {ptr : Option RecvPtr} {xs : List UInt8}
      (hfit : xs.length ≤ room)
      (hrun : (recvBuffConsumeVA ((ptr.map fun p => b.fill p xs).getD b) xs.length).2 = b') :
      Steps m (.ring b (some (room, ptr))) (.recvConsume xs) (.ring b' none) m []
  | ringRead {b b' : RecvBuff} {prepared : Option (Nat × Option RecvPtr)} {usize ret : Int}
      {data : List UInt8} {m' : Memory UInt8} (hlo : 0 ≤ usize) (hhi : usize < 2 ^ 31)
      (hrun : recvBuffReadVA m b true usize = (ret, data, b', m')) :
      Steps m (.ring b prepared) (.recvRead usize) (.ring b' prepared) m' []
  | queuePrepare {b : RecvBuff} {prepared : Option (Nat × Option RecvPtr)} :
      Steps m (.queue b prepared) .recvPrepare (.queue b (some (recvBuffPrepareVB b))) m []
  | queueConsume {b b' : RecvBuff} {room : Nat} {ptr : Option RecvPtr} {xs : List UInt8}
      {ret : Int} {m' : Memory UInt8} (hfit : xs.length ≤ room)
      (hrun : recvBuffConsumeVB m ((ptr.map fun p => b.fill p xs).getD b) xs.length =
        (ret, b', m')) :
      Steps m (.queue b (some (room, ptr))) (.recvConsume xs) (.queue b' none) m' []
  | queueRead {b b' : RecvBuff} {prepared : Option (Nat × Option RecvPtr)} {usize ret : Int}
      {out : Option (Block UInt8)} (hrun : recvBuffReadVB b usize = (ret, out, b')) :
      Steps m (.queue b prepared) (.recvRead usize) (.queue b' prepared) m out.toList
  | msgWrite {b b' : MsgBuff UInt8} {data : List UInt8} {ret : Int} {m' : Memory UInt8}
      (hrun : msgBuffWriteBytes m b data = (ret, b', m')) :
      Steps m (.msg b) (.msgWrite data) (.msg b') m' []
  | msgRead {b b' : MsgBuff UInt8} {cnt : Nat} {data : List UInt8} {m' : Memory UInt8}
      (hrun : msgBuffReadBytes m b cnt = (data, b', m')) :
      Steps m (.msg b) (.msgRead cnt) (.msg b') m' []

section Steps

variable {u u' : PoolUser} {m m' : Memory UInt8} {op : Op} {out : List (Block UInt8)}

theorem steps_of_step (ht : PoolUser.step m u op = some (u', m', out)) :
    Steps m u op u' m' out := by
  cases u with
  | send b room =>
      cases op with
      | write pdata size =>
          obtain ⟨⟨hlt, hle⟩, heq⟩ := Option.ite_none_right_eq_some.mp ht
          cases heq
          exact .write hlt hle rfl
      | prepare =>
          cases ht
          exact .prepare
      | consume k =>
          obtain ⟨hle, heq⟩ := Option.ite_none_right_eq_some.mp ht
          cases heq
          exact .consume hle rfl
      | _ => cases ht
  | ring b prepared =>
      cases op with
      | recvPrepare =>
          obtain ⟨-, heq⟩ := Option.ite_none_left_eq_some.mp ht
          cases heq
          exact .ringPrepare rfl
      | recvConsume xs =>
          cases prepared with
          | none => cases ht
          | some piece =>
              obtain ⟨hfit, heq⟩ := Option.ite_none_right_eq_some.mp ht
              cases heq
              exact .ringConsume hfit rfl
      | recvRead usize =>
          obtain ⟨⟨hlo, hhi⟩, heq⟩ := Option.ite_none_right_eq_some.mp ht
          cases heq
          exact .ringRead hlo hhi rfl
      | _ => cases ht
  | queue b prepared =>
      cases op with
      | recvPrepare =>
          cases ht
          exact .queuePrepare
      | recvConsume xs =>
          cases prepared with
          | none => cases ht
          | some piece =>
              obtain ⟨hfit, heq⟩ := Option.ite_none_right_eq_some.mp ht
              cases heq
              exact .queueConsume hfit rfl
      | recvRead usize =>
          cases ht
          exact .queueRead rfl
      | _ => cases ht
  | msg b =>
      cases op with
      | msgWrite data =>
          obtain ⟨-, heq⟩ := Option.ite_none_right_eq_some.mp ht
          cases heq
          exact .msgWrite rfl
      | msgRead cnt =>
          cases ht
          exact .msgRead rfl
      | _ => cases ht

/-- No operation changes the limit. -/
theorem Inv.step_limits (h : u.Inv) (ht : PoolUser.step m u op = some (u', m', out)) :
    m'.limits = m.limits := by
  cases steps_of_step ht with
  | write _ _ hrun =>
      obtain ⟨enByte, n, bs, r, q, h⟩ := h
      exact (sendBuffWrite_fills (by rw [h.rep.poolCnt]; exact h.rep.geometry.n_pos) hrun).1.limits
  | consume _ hrun =>
      rw [sendBuffConsume] at hrun
      split at hrun
      · cases hrun
        rfl
      · cases hrun
        exact buffGcHelp_limits ..
  | ringPrepare hrun =>
      obtain ⟨enByte, n, bs, r, stored, h⟩ := h
      exact (recvBuffPrepareVA_fills (by rw [h.rep.poolCnt]; exact h.rep.geometry.n_pos)
        hrun).1.limits
  | ringRead _ _ hrun =>
      have hmem := congrArg (fun res => res.2.2.2.limits) hrun
      exact hmem.symm.trans (recvBuffReadVA_limits ..)
  | queueConsume _ hrun =>
      have hmem := congrArg (fun res => res.2.2.limits) hrun
      exact hmem.symm.trans (recvBuffConsumeVB_limits ..)
  | msgWrite hrun =>
      have hmem := congrArg (fun res => res.2.2.limits) hrun
      exact hmem.symm.trans (msgBuffWriteBytes_limits ..)
  | msgRead hrun =>
      cases hrun
      exact buffGcHelp_limits ..
  | prepare | ringConsume | queuePrepare | queueRead => rfl

/-- Every operation keeps the buffer, and hands its blocks on to the pool, to the heap or
to the application. -/
theorem Inv.step {held : List Nat} (h : u.Inv) (hm : m.Accounted (some 0) (u.blocks ++ held))
    (ht : PoolUser.step m u op = some (u', m', out)) : Follows u u' m' out held := by
  cases u with
  | send b room =>
      obtain ⟨enByte, n, bs, r, q, h⟩ := h
      simp only [blocks, buffers, poolCnt, h.rep.poolCnt] at hm
      cases steps_of_step ht with
      | write hlt hle hrun => exact h.write hm hlt hle hrun
      | prepare =>
          refine ⟨⟨enByte, n, bs, r, q, h.rep, h.pool, h.sized, h.rep.prepare_le⟩, ?_,
            fun i _ => .of_eq rfl⟩
          simpa [blocks, buffers, poolCnt, h.rep.poolCnt] using hm
      | consume hle hrun => exact h.consume hm hle hrun
  | ring b prepared =>
      obtain ⟨enByte, n, bs, r, stored, h⟩ := h
      simp only [blocks, buffers, poolCnt, h.rep.poolCnt] at hm
      cases steps_of_step ht with
      | ringPrepare hrun => exact h.prepare hm hrun
      | ringConsume hfit hrun => exact h.consume hm hfit hrun
      | ringRead hlo hhi hrun => exact h.read hm hlo hhi hrun
  | queue b prepared =>
      obtain ⟨enByte, n, r, msgs, part, h⟩ := h
      simp only [blocks, buffers, poolCnt, h.rep.poolCnt] at hm
      cases steps_of_step ht with
      | queuePrepare =>
          apply h.same hm
          intro room ptr hprep _
          exact Option.some.inj hprep
      | queueConsume hfit hrun => exact h.consume hm hfit hrun
      | queueRead hrun => exact h.read hm hrun
  | msg b =>
      obtain ⟨n, bs, r, len, h⟩ := h
      simp only [blocks, buffers, poolCnt, h.span.poolCnt] at hm
      cases steps_of_step ht with
      | msgWrite hrun => exact h.write hm hrun
      | msgRead hrun => exact h.read hm hrun

end Steps

end PoolUser

/-! ## The machine -/

/-- `handed` are the blocks that the application got from vB buffers. -/
structure SharedPool where
  mem : Memory UInt8
  users : List PoolUser
  handed : List (Block UInt8)

namespace SharedPool

/-- `granted` is the outcome of `realloc`. -/
inductive Action
  | call (i : Nat) (op : PoolUser.Op)
  | revive (poolMaxCnt : Nat) (granted : Bool)

/-- The array of the free list is accessed up to the larger of the two counts: an operation
takes blocks from the list or puts blocks on it, never both. -/
def InArray (m m' : Memory UInt8) : Prop :=
  (m'.pools 0).head.length = (m.pools 0).head.length ∨
    (m.pools 0).head.length ≤ (m.pools 0).room ∧ (m'.pools 0).head.length ≤ (m.pools 0).room

instance (m m' : Memory UInt8) : Decidable (InArray m m') := by
  unfold InArray
  infer_instance

/-- A run ends at an access beyond the array, or to the null pointer in its place. A limit is
not set again once the array has lost blocks. -/
def step (s : SharedPool) : Action → Option SharedPool
  | .call i op =>
      match s.users[i]? with
      | none => none
      | some u =>
          match u.step s.mem op with
          | none => none
          | some (u', mem, out) =>
              if InArray s.mem mem then
                some { mem := mem, users := s.users.set i u', handed := s.handed ++ out }
              else none
  | .revive poolMaxCnt granted =>
      if (s.mem.pools 0).head.length ≤ (s.mem.pools 0).room then
        some { s with mem := buffPoolRevive s.mem 0 poolMaxCnt granted }
      else none

/-- Any buffers over a new pool, before the first allocation. -/
inductive Init : SharedPool → Prop
  | mk {mem : Memory UInt8} {users : List PoolUser} {bufferSize poolMaxCnt : Nat}
      (hbrk : mem.brk = 0) (hfreed : mem.freed = [])
      (hpool : mem.pools 0 = buffPoolCreate bufferSize poolMaxCnt)
      (husers : ∀ u ∈ users, PoolUser.Created mem u) :
      Init { mem := mem, users := users, handed := [] }

/-- Where the blocks are: in the slots, with the application, on the free list, or freed. -/
def places (s : SharedPool) : List Nat :=
  s.users.flatMap PoolUser.blocks ++ (s.handed.map Block.addr ++
    ((s.mem.pools 0).listed.map Block.addr ++ s.mem.freed))

/-- Every block that was allocated is in one place, and the free list keeps to its limit
and to blocks of the pool's size. -/
structure Owned (s : SharedPool) : Prop where
  one_place : ∀ a, s.places.count a = if a ∈ s.mem.allocated then 1 else 0
  within : (s.mem.pools 0).head.length ≤ (s.mem.pools 0).poolMaxCnt
  sized : ∀ data ∈ (s.mem.pools 0).listed, data.size = (s.mem.pools 0).bufferSize

/-- No block is taken away from the slots of unread bytes or of the writer. -/
def Spares (s t : SharedPool) : Prop :=
  ∀ (j : Nat) (u u' : PoolUser), s.users[j]? = some u → t.users[j]? = some u' → ∀ i ∈ u'.live,
    Stays u.buffers u'.buffers i

/-- The size of the new array does not wrap, and `realloc` grants it. -/
def Action.Granted : Action → Prop
  | .call _ _ => True
  | .revive poolMaxCnt granted => poolMaxCnt < 2 ^ 61 ∧ (poolMaxCnt = 0 ∨ granted = true)

/-- No size wraps, that of the array or that of a block, and `realloc` is granted. -/
structure Kept (s : SharedPool) (a : Action) : Prop where
  limit : (s.mem.pools 0).poolMaxCnt < 2 ^ 61
  sizes : ∀ u ∈ s.users, u.SizeFits
  granted : a.Granted

instance (u : PoolUser) : Decidable u.SizeFits := by
  cases u
  all_goals
    unfold PoolUser.SizeFits
    infer_instance

instance (a : Action) : Decidable a.Granted := by
  cases a
  all_goals
    unfold Action.Granted
    infer_instance

instance (s : SharedPool) (a : Action) : Decidable (s.Kept a) :=
  decidable_of_iff ((s.mem.pools 0).poolMaxCnt < 2 ^ 61 ∧ (∀ u ∈ s.users, u.SizeFits) ∧ a.Granted)
    ⟨fun h => ⟨h.1, h.2.1, h.2.2⟩, fun h => ⟨h.limit, h.sizes, h.granted⟩⟩

/-- No call leaves the array. -/
def Inside (s : SharedPool) : Prop :=
  ∀ i op u, s.Kept (.call i op) → s.users[i]? = some u → (u.step s.mem op).isSome →
    (s.step (.call i op)).isSome

end SharedPool

def sharedPool : Machine SharedPool SharedPool.Action where
  Init := SharedPool.Init
  step := SharedPool.step

namespace SharedPool

structure Inv (s : SharedPool) : Prop where
  users : ∀ u ∈ s.users, u.Inv
  places : s.mem.Accounted (some 0) (s.users.flatMap PoolUser.blocks ++ s.handed.map Block.addr)
  room : (s.mem.pools 0).poolMaxCnt < 2 ^ 61 → (s.mem.pools 0).poolMaxCnt ≤ (s.mem.pools 0).room
  reach : (s.mem.pools 0).head.length ≤ (s.mem.pools 0).room

variable {s t : SharedPool}

theorem Init.inv (h : Init s) : s.Inv := by
  cases h with
  | mk hbrk hfreed hpool husers =>
      rename_i mem users bufferSize poolMaxCnt
      refine ⟨fun u hu => (husers u hu).inv, ⟨?_, ?_⟩, ?_, ?_⟩
      · have hblocks : users.flatMap PoolUser.blocks = [] :=
          List.flatMap_eq_nil_iff.mpr fun u hu => (husers u hu).blocks_eq
        simp [hblocks, Memory.idle, Memory.allocated, hpool, hbrk, hfreed, buffPoolCreate]
      · intro i hi
        obtain rfl := Option.some.inj hi
        rw [hpool]
        exact ⟨Nat.zero_le _, fun a ha => absurd ha List.not_mem_nil⟩
      · rw [hpool]
        exact fun hlimit => (pointerRoom_eq hlimit).ge
      · rw [hpool]
        exact Nat.zero_le _

/-- What a call does where it stays inside the array. -/
theorem Inv.call_spec (h : s.Inv) {i : Nat} {u u' : PoolUser} {op : PoolUser.Op}
    {m' : Memory UInt8} {out : List (Block UInt8)} (hu : s.users[i]? = some u)
    (ht : u.step s.mem op = some (u', m', out)) :
    PoolUser.Follows u u' m' out ((s.users.eraseIdx i).flatMap PoolUser.blocks ++
      s.handed.map Block.addr) := by
  obtain ⟨hi, rfl⟩ := List.getElem?_eq_some_iff.mp hu
  have hsplit := (List.getElem_cons_eraseIdx_perm hi).symm.flatMap_right PoolUser.blocks
  have hm := h.places.perm ((hsplit.append_right (s.handed.map Block.addr)).symm)
  rw [List.flatMap_cons, List.append_assoc] at hm
  exact (h.users _ (List.getElem_mem hi)).step hm ht

theorem step_call (s : SharedPool) {i : Nat} {u : PoolUser} (hu : s.users[i]? = some u)
    (op : PoolUser.Op) : s.step (.call i op) = (u.step s.mem op).bind fun res =>
      if InArray s.mem res.2.1 then
        some { mem := res.2.1, users := s.users.set i res.1, handed := s.handed ++ res.2.2 }
      else none := by
  simp only [step, hu]
  cases u.step s.mem op with
  | none => rfl
  | some res => rfl

theorem Inv.call (h : s.Inv) {i : Nat} {op : PoolUser.Op} (hkept : s.Kept (.call i op))
    (ht : s.step (.call i op) = some t) : t.Inv := by
  cases hu : s.users[i]? with
  | none =>
      simp only [step, hu] at ht
      cases ht
  | some u =>
      rw [s.step_call hu] at ht
      obtain ⟨⟨u', m', out⟩, hstep, ht⟩ := Option.bind_eq_some_iff.mp ht
      simp only [Option.ite_none_right_eq_some] at ht
      obtain ⟨-, ht⟩ := ht
      cases ht
      have hfollows := h.call_spec hu hstep
      obtain ⟨hi, rfl⟩ := List.getElem?_eq_some_iff.mp hu
      have hlimits := congrFun ((h.users _ (List.getElem_mem hi)).step_limits hstep) 0
      simp only [Memory.limits, Prod.mk.injEq] at hlimits
      obtain ⟨hmax, hroom⟩ := hlimits
      refine ⟨?_, ?_, ?_, ?_⟩
      · intro v hv
        cases List.mem_or_eq_of_mem_set hv with
        | inl hold => exact h.users v hold
        | inr hnew => exact hnew ▸ hfollows.inv
      · apply hfollows.places.perm
        have hjoin := (List.set_perm_cons_eraseIdx hi u').flatMap_right PoolUser.blocks
        refine (hjoin.append_right _).trans ?_
        rw [List.flatMap_cons, List.append_assoc, List.map_append]
        apply List.Perm.append_left
        rw [← List.append_assoc]
        exact List.perm_append_comm
      · rw [hmax, hroom]
        exact h.room
      · have hwithin := (hfollows.places.sound 0 rfl).within
        rw [hmax] at hwithin
        rw [hroom]
        exact hwithin.trans (h.room hkept.limit)

theorem Inv.revive (h : s.Inv) {poolMaxCnt : Nat} {granted : Bool}
    (hgranted : (Action.revive poolMaxCnt granted).Granted)
    (ht : s.step (.revive poolMaxCnt granted) = some t) : t.Inv := by
  simp only [step, if_pos h.reach, Option.some.injEq] at ht
  subst ht
  have hpool : (buffPoolRevive s.mem 0 poolMaxCnt granted).pools 0 =
      { s.mem.pools 0 with
        head := (s.mem.pools 0).head.drop ((s.mem.pools 0).head.length - poolMaxCnt)
        poolMaxCnt := poolMaxCnt
        room := if granted then pointerRoom poolMaxCnt else 0 } := by
    simp only [buffPoolRevive, Memory.setPool, Function.update_self]
  obtain ⟨hlimit, hcase⟩ := hgranted
  have hroom : poolMaxCnt ≤ if granted then pointerRoom poolMaxCnt else 0 := by
    obtain rfl | rfl := hcase
    · exact Nat.zero_le _
    · exact (pointerRoom_eq hlimit).ge
  refine ⟨h.users, h.places.revive poolMaxCnt granted, ?_, ?_⟩
  · rw [hpool]
    exact fun _ => hroom
  · rw [hpool]
    refine Nat.le_trans ?_ hroom
    rw [List.length_drop]
    omega

theorem Inv.step (h : s.Inv) {a : Action} (hkept : s.Kept a) (ht : s.step a = some t) : t.Inv := by
  cases a with
  | call i op => exact h.call hkept ht
  | revive poolMaxCnt granted => exact h.revive hkept.granted ht

theorem Inv.spares (h : s.Inv) {a : Action} (ht : s.step a = some t) : s.Spares t := by
  intro j v v' hv hv'
  have hsame : t.users[j]? = s.users[j]? → ∀ i ∈ v'.live, Stays v.buffers v'.buffers i := by
    intro heq
    rw [heq, hv] at hv'
    obtain rfl := Option.some.inj hv'
    exact fun _ _ => .of_eq rfl
  cases a with
  | revive poolMaxCnt granted =>
      simp only [SharedPool.step, if_pos h.reach, Option.some.injEq] at ht
      subst ht
      exact hsame rfl
  | call i op =>
      cases hu : s.users[i]? with
      | none =>
          simp only [SharedPool.step, hu] at ht
          cases ht
      | some u =>
          rw [s.step_call hu] at ht
          obtain ⟨⟨u', m', out⟩, hstep, ht⟩ := Option.bind_eq_some_iff.mp ht
          simp only [Option.ite_none_right_eq_some] at ht
          obtain ⟨-, ht⟩ := ht
          cases ht
          by_cases hji : j = i
          · subst hji
            have hlt := (List.getElem?_eq_some_iff.mp hu).1
            simp only [List.getElem?_set_self hlt, Option.some.injEq] at hv'
            obtain rfl := hv'
            obtain rfl := Option.some.inj (hv.symm.trans hu)
            exact (h.call_spec hu hstep).spares
          · exact hsame (List.getElem?_set_ne (Ne.symm hji))

theorem Inv.inside (h : s.Inv) : s.Inside := by
  intro i op u hkept hu hsome
  obtain ⟨⟨u', m', out⟩, hstep⟩ := Option.isSome_iff_exists.mp hsome
  have hfollows := h.call_spec hu hstep
  have hmem := List.mem_of_getElem? hu
  have hlimits := congrFun ((h.users u hmem).step_limits hstep) 0
  simp only [Memory.limits, Prod.mk.injEq] at hlimits
  have hwithin := (hfollows.places.sound 0 rfl).within
  rw [hlimits.1] at hwithin
  have hin : InArray s.mem m' := .inr ⟨h.reach, hwithin.trans (h.room hkept.limit)⟩
  rw [s.step_call hu, hstep, Option.bind_some, if_pos hin]
  rfl

theorem Inv.owned (h : s.Inv) : s.Owned := by
  have hsound := h.places.sound 0 rfl
  have hlisted : (s.mem.pools 0).listed = (s.mem.pools 0).head := by
    rw [BuffPool.listed, Nat.sub_eq_zero_of_le h.reach, List.drop_zero]
  refine ⟨?_, hsound.within, hlisted ▸ hsound.sized⟩
  intro a
  have hplaces : s.places.Perm s.mem.allocated := by
    have hperm := h.places.places
    rw [SharedPool.places, hlisted]
    rwa [List.append_assoc] at hperm
  rw [hplaces.count_eq]
  exact List.Nodup.count (List.nodup_range.filter _)

end SharedPool

/-- In every run of the buffers over one pool in which no size wraps and every `realloc` is
granted, each block is in one place, no call leaves the array of the free list, and no step
takes a block away from an unread byte or from the writer. -/
theorem sharedPool_owned {s : SharedPool} (h : sharedPool.ReachableVia SharedPool.Kept s) :
    s.Owned ∧ s.Inside ∧ ∀ a t, s.step a = some t → s.Spares t := by
  have hinv : s.Inv := h.invariant (fun _ hs => SharedPool.Init.inv hs)
    fun _ _ _ hs hkept ht => hs.step hkept ht
  exact ⟨hinv.owned, hinv.inside, fun a t ht => hinv.spares ht⟩

/-- A heap of zeros with a pool of at most two blocks of three bytes. -/
def SharedPool.smallHeap : Memory UInt8 where
  brk := 0
  fate := fun _ => some (fun _ => 0)
  freed := []
  pools := fun _ => buffPoolCreate 3 2

/-- One buffer of each kind. -/
def SharedPool.fresh : SharedPool where
  mem := smallHeap
  users :=
    [.send (sendBuffCreate smallHeap .enByte8 2 0) 0,
      .ring (recvBuffCreateVA smallHeap { addr := 0, size := 0, data := fun _ => 0 } .enByte8 1 0)
        none,
      .queue (recvBuffCreateVB { addr := 0, size := 0, data := fun _ => 0 } .enByte8 2 0 (some 0))
        none,
      .msg (msgBuffCreate 1 3 2 (some 0))]
  handed := []

theorem SharedPool.init_fresh : sharedPool.Init SharedPool.fresh := by
  have g : ∀ {n}, 0 < n → n ≤ 2 → Geometry n 3 :=
    fun hn hle => ⟨hn, by omega, by decide, by decide⟩
  apply SharedPool.Init.mk rfl rfl rfl
  intro u hu
  simp only [List.mem_cons, List.not_mem_nil, or_false] at hu
  obtain rfl | rfl | rfl | rfl := hu
  · exact .send _ (g (by decide) (by decide))
  · exact .ring _ _ (g (by decide) (by decide))
  · exact .queue _ _ _ (by decide) (by decide)
  · exact .msg _ (g (by decide) (by decide))

/-- The send buffer's first block goes through the pool to the queue and from there to the
application. A block of the message queue is freed with the pool's limit. -/
theorem sharedPool_owned_four : ∃ s, sharedPool.ReachableVia SharedPool.Kept s ∧
    s.handed.map Block.addr = [0] ∧ s.mem.freed = [2] ∧
    s.Owned ∧ s.Inside ∧ ∀ a t, s.step a = some t → s.Spares t := by
  obtain ⟨s, hrun, hhanded, hfreed⟩ : ∃ s, sharedPool.runVia SharedPool.Kept SharedPool.fresh
      [.call 0 (.write [7, 8] 2), .call 0 .prepare, .call 0 (.consume 3), .call 2 .recvPrepare,
        .call 2 (.recvConsume [4]), .call 1 .recvPrepare, .call 1 (.recvConsume [2]),
        .call 2 .recvPrepare, .call 2 (.recvConsume [1, 2, 3]), .call 2 (.recvRead 8),
        .call 3 (.msgWrite [5]), .call 3 (.msgWrite [6]), .call 3 (.msgWrite [7]),
        .call 3 (.msgRead 3), .revive 0 false] = some s ∧
        s.handed.map Block.addr = [0] ∧ s.mem.freed = [2] := ⟨_, rfl, rfl, rfl⟩
  have hreach : sharedPool.ReachableVia SharedPool.Kept s :=
    Machine.ReachableVia.runVia (.init SharedPool.init_fresh) hrun
  exact ⟨s, hreach, hhanded, hfreed, sharedPool_owned hreach⟩

/-- A block is on the free list when `realloc` fails to give more room. It is in no place
then. -/
theorem sharedPool_loses :
    ¬ ∀ s, sharedPool.Reachable s → s.Owned ∧ ∀ a t, s.step a = some t → s.Spares t := by
  intro hall
  obtain ⟨s, hrun, hcount, halloc⟩ : ∃ s, sharedPool.run SharedPool.fresh
      [.call 0 (.write [7, 8] 2), .call 0 .prepare, .call 0 (.consume 3), .revive 4 false] =
        some s ∧ s.places.count 0 = 0 ∧ 0 ∈ s.mem.allocated :=
    ⟨_, rfl, by decide, by decide⟩
  have howned := (hall s (Machine.Reachable.run (.init SharedPool.init_fresh) hrun)).1
  have hone := howned.one_place 0
  rw [hcount, if_pos halloc] at hone
  exact absurd hone (by decide)

end RandServer
