import RandServer.Lib.LittleEndian
import RandServer.Net.Buff

/-!
# The receive buffers

`struct recv_buff` of `buff.c` with its two versions. Version vA (`RECV_BUFF_USE_BUFF`)
keeps the byte stream in a ring of pool blocks and cuts messages out of it on reading.
Version vB (`RECV_BUFF_USE_QUEUE`) receives each message into a block of its own and
queues the blocks.

A prepared region is described by a pointer, and the caller's copy into it is
`RecvBuff.fill`. Filling a region whose block is missing has no effect here, where the
program would write through a null pointer; the specifications show that it is present.
-/

namespace RandServer

/-- `RECV_BUFF_USE_BUFF` and `RECV_BUFF_USE_QUEUE`. -/
inductive RecvVersion
  | useBuff
  | useQueue
  deriving DecidableEq, Repr

/-- `struct recv_buff`. The array `lens` of vB is kept as its bytes, since a length
header arrives into it byte by byte. -/
structure RecvBuff where
  version : RecvVersion
  buffers : Nat → Option (Block UInt8)
  lens : Block UInt8
  write : Nat
  read : Nat
  bufferSize : Nat
  poolCnt : Nat
  freeH : Nat
  enByte : EnByteSize
  prepFlag : Bool
  pool : Option Nat
  check : Nat

/-- Where a prepared region starts: inside a block, or inside `lens`. -/
inductive RecvPtr
  | buffer (i off : Nat)
  | lens (off : Nat)
  deriving DecidableEq, Repr

/-- The caller copies bytes to a prepared pointer. -/
def RecvBuff.fill (b : RecvBuff) (ptr : RecvPtr) (xs : List UInt8) : RecvBuff :=
  match ptr with
  | .lens off => { b with lens := b.lens.write off xs }
  | .buffer i off =>
      match b.buffers i with
      | none => b
      | some bf => { b with buffers := Function.update b.buffers i (some (bf.write off xs)) }

/-- Filling nothing changes nothing. -/
theorem RecvBuff.fill_nil (b : RecvBuff) (ptr : RecvPtr) : b.fill ptr [] = b := by
  cases ptr with
  | lens off => simp only [fill, Block.write_nil]
  | buffer i off =>
      cases hbf : b.buffers i with
      | none => simp only [fill, hbf]
      | some bf =>
          have hself : Function.update b.buffers i (some bf) = b.buffers :=
            Function.update_eq_self_iff.mpr hbf.symm
          simp only [fill, hbf, Block.write_nil, hself]

/-- Copying nothing changes nothing, whether or not there is a pointer. -/
theorem RecvBuff.fill_map_nil (b : RecvBuff) (ptr : Option RecvPtr) :
    (ptr.map fun p => b.fill p []).getD b = b := by
  cases ptr with
  | none => rfl
  | some p => exact b.fill_nil p

/-- Copy bytes out of slot `i`. -/
def readSlot (buffers : Nat → Option (Block UInt8)) (i off len : Nat) : List UInt8 :=
  match buffers i with
  | none => List.replicate len 0
  | some bf => bf.read off len

/-! ## Version vA -/

def recvBuffCreateVA (m : Memory UInt8) (lens : Block UInt8) (enByte : EnByteSize)
    (poolCnt pool : Nat) : RecvBuff where
  version := .useBuff
  buffers := fun _ => none
  lens := lens
  write := 0
  read := u32 (poolCnt <<< 16)
  bufferSize := u16 (m.pools pool).bufferSize
  poolCnt := poolCnt
  freeH := poolCnt
  enByte := enByte
  prepFlag := false
  pool := some pool
  check := u32 (poolCnt <<< 16)

/-- `recv_buff_prepare_vA`: the prepared size and pointer, and the buffer and heap
afterwards. -/
def recvBuffPrepareVA (m : Memory UInt8) (b : RecvBuff) :
    Nat × Option RecvPtr × RecvBuff × Memory UInt8 :=
  let uHWrite := cursorH b.write
  let uLWrite := cursorL b.write
  let uHRead := cursorH b.read
  let uLRead := cursorL b.read
  let uSpace := buffGetSpace b.poolCnt b.bufferSize uHRead uLRead uHWrite uLWrite
  if uSpace = 0 then (0, none, b, m)
  else
    match Arena.fetch { buffers := b.buffers, mem := m } b.pool b.bufferSize
      (uHWrite % b.poolCnt) with
    | (none, a) => (0, none, { b with buffers := a.buffers }, a.mem)
    | (some _, a) =>
        let size := if uHRead = uHWrite then uSpace else b.bufferSize - uLWrite
        if size > 0 then
          (size, some (.buffer (uHWrite % b.poolCnt) uLWrite),
            { b with buffers := a.buffers, prepFlag := true }, a.mem)
        else (0, none, { b with buffers := a.buffers }, a.mem)

/-- `buff_gain_msg_size`: the size of the message at the read cursor, 0 if it is not
complete, or a negative error. -/
def buffGainMsgSize (buffers : Nat → Option (Block UInt8)) (enByte : EnByteSize)
    (poolCnt bufferSize uHRead uLRead uHWrite uLWrite : Nat) : Int :=
  let writeSize := sub32 (u32 (poolCnt * bufferSize))
    (buffGetSpace poolCnt bufferSize uHRead uLRead uHWrite uLWrite)
  if writeSize < enByte.toNat then 0
  else
    let header := (List.range enByte.toNat).flatMap fun i =>
      readSlot buffers ((uHRead + (uLRead + i) / bufferSize) % poolCnt)
        ((uLRead + i) % bufferSize) 1
    let uMsgSize := orBytes 0 0 header
    if uMsgSize < enByte.toNat then enErrRecvMsgSmall
    else if uMsgSize > u32 (poolCnt * bufferSize) then enErrRecvMsgBig
    else if uMsgSize > writeSize then 0
    else int32 uMsgSize

/-- The loop of `recv_buff_check_new_msg`: the result and the new check cursor. -/
def recvBuffCheckLoop (b : RecvBuff) (uHWrite uLWrite : Nat) :
    Nat → Int → Nat → Nat → Nat → Int × Nat
  | 0, count, check, _, _ => (count, check)
  | fuel + 1, count, check, uHRead, uLRead =>
      let err := buffGainMsgSize b.buffers b.enByte b.poolCnt b.bufferSize uHRead uLRead
        uHWrite uLWrite
      if err < 0 then (err, check)
      else if err = 0 then (count, check)
      else
        let uLRead := uLRead + err.toNat
        let uHRead := (uHRead + uLRead / b.bufferSize) % (2 * b.poolCnt)
        let uLRead := uLRead % b.bufferSize
        recvBuffCheckLoop b uHWrite uLWrite fuel (count + 1) (packCursor uHRead uLRead)
          uHRead uLRead

/-- `recv_buff_check_new_msg`. Every message takes a byte of the ring, so the loop ends
before it has passed the capacity. -/
def recvBuffCheckNewMsg (b : RecvBuff) (uWrite : Nat) : Int × RecvBuff :=
  let r := recvBuffCheckLoop b (cursorH uWrite) (cursorL uWrite)
    (b.poolCnt * b.bufferSize + 1) 0 b.check (cursorH b.check) (cursorL b.check)
  (r.1, { b with check := r.2 })

def recvBuffConsumeVA (b : RecvBuff) (usize : Nat) : Int × RecvBuff :=
  if usize = 0 then (0, { b with prepFlag := false })
  else
    let uLWrite := cursorL b.write + u32 usize
    let uHWrite := (cursorH b.write + uLWrite / b.bufferSize) % (2 * b.poolCnt)
    let uLWrite := uLWrite % b.bufferSize
    let uWrite := packCursor uHWrite uLWrite
    let r := recvBuffCheckNewMsg b uWrite
    (r.1, { r.2 with write := uWrite, prepFlag := false })

/-- The payload copy of `recv_buff_read_vA`: the bytes and the cursor behind them. -/
def recvBuffCopyOut (buffers : Nat → Option (Block UInt8)) (poolCnt bufferSize uHRead uLRead
    msgSize : Nat) : List UInt8 × Nat × Nat :=
  let curBufferSize := bufferSize - uLRead
  if curBufferSize ≥ msgSize then
    (readSlot buffers (uHRead % poolCnt) uLRead msgSize,
      (uHRead + (uLRead + msgSize) / bufferSize) % (2 * poolCnt),
      (uLRead + msgSize) % bufferSize)
  else
    let uH := (msgSize - curBufferSize) / bufferSize
    let uL := (msgSize - curBufferSize) % bufferSize
    (readSlot buffers (uHRead % poolCnt) uLRead curBufferSize ++
      ((List.range uH).flatMap fun i => readSlot buffers ((uHRead + i + 1) % poolCnt) 0 bufferSize) ++
      readSlot buffers ((uHRead + uH + 1) % poolCnt) 0 uL,
      (uHRead + uH + 1) % (2 * poolCnt), uL)

/-- `recv_buff_read_vA` into a destination of `usize` bytes, which may be null: the
return value, the bytes copied, and the buffer and heap afterwards. -/
def recvBuffReadVA (m : Memory UInt8) (b : RecvBuff) (buff : Bool) (usize : Int) :
    Int × List UInt8 × RecvBuff × Memory UInt8 :=
  let uHWrite := cursorH b.write
  let uLWrite := cursorL b.write
  let uHRead := cursorH b.read
  let uLRead := cursorL b.read
  let err := buffGainMsgSize b.buffers b.enByte b.poolCnt b.bufferSize uHRead uLRead
    uHWrite uLWrite
  if err ≤ 0 then (err, [], b, m)
  else
    let msgSize := err.toNat
    if (usize % 2 ^ 32).toNat < msgSize - b.enByte.toNat then
      (int32 (msgSize - b.enByte.toNat), [], b, m)
    else
      let uLRead := uLRead + b.enByte.toNat
      let uHRead := (uHRead + uLRead / b.bufferSize) % (2 * b.poolCnt)
      let uLRead := uLRead % b.bufferSize
      let msgSize := msgSize - b.enByte.toNat
      if b.bufferSize - uLRead < msgSize ∧ !buff then (enErrNoMemory, [], b, m)
      else
        match recvBuffCopyOut b.buffers b.poolCnt b.bufferSize uHRead uLRead msgSize with
        | (msg, uHRead, uLRead) =>
            let gc := buffGcHelp b.buffers b.poolCnt b.bufferSize b.freeH uHRead uHWrite b.pool m
            (int32 msgSize, msg,
              { b with buffers := gc.buffers, freeH := gc.uHFree,
                        read := packCursor uHRead uLRead }, gc.mem)

/-! ## Version vB -/

/-- `recv_buff_create_vB`. The array `lens` is not initialised. -/
def recvBuffCreateVB (lens : Block UInt8) (enByte : EnByteSize) (poolCnt bufferSize : Nat)
    (pool : Option Nat) : RecvBuff where
  version := .useQueue
  buffers := fun _ => none
  lens := lens
  write := 0
  read := poolCnt
  bufferSize := bufferSize
  poolCnt := poolCnt
  freeH := poolCnt
  enByte := enByte
  prepFlag := false
  pool := pool
  check := 0

/-- `rbuff->lens[i]`, an `int` in four bytes. -/
def RecvBuff.lenAt (b : RecvBuff) (i : Nat) : Int := int32 (leValue (b.lens.read (4 * i) 4))

def RecvBuff.setLen (b : RecvBuff) (i v : Nat) : RecvBuff :=
  { b with lens := b.lens.write (4 * i) (leBytes 4 v) }

def recvBuffPrepareVB (b : RecvBuff) : Nat × Option RecvPtr :=
  if b.write = b.read then (0, none)
  else
    let curWrite := b.write % b.poolCnt
    if b.check < b.enByte.toNat then
      (b.enByte.toNat - b.check, some (.lens (4 * curWrite + b.check)))
    else
      let msgSize := b.lenAt curWrite
      if msgSize ≤ 0 then (0, none)
      else (sub32 msgSize.toNat (sub32 b.check b.enByte.toNat),
        some (.buffer curWrite (b.check - b.enByte.toNat)))

/-- `recv_buff_consume_vB`. -/
def recvBuffConsumeVB (m : Memory UInt8) (b : RecvBuff) (usize : Nat) :
    Int × RecvBuff × Memory UInt8 :=
  if usize = 0 then (0, b, m)
  else
    let check := b.check
    let enByte := b.enByte.toNat
    let curWrite := b.write % b.poolCnt
    if check < enByte then
      if check + usize > enByte then (-1, b, m)
      else if check + usize = enByte then
        let msgSize := orBytes 0 0 (b.lens.read (4 * curWrite) enByte)
        if int32 msgSize < 0 then (enErrRecvMsgBig, b, m)
        else if msgSize < enByte then (enErrRecvMsgSmall, b, m)
        else
          let b := b.setLen curWrite (msgSize - enByte)
          match buffPoolNewBuff m b.pool (msgSize - enByte) with
          | (none, m) => (enErrNoMemory, b, m)
          | (some msgBuff, m) =>
              (0, { b with buffers := Function.update b.buffers curWrite (some msgBuff)
                           check := check + usize }, m)
      else (0, { b with check := check + usize }, m)
    else
      let msgSize := u32 ((b.lenAt curWrite) % 2 ^ 32).toNat
      if msgSize < check - enByte + usize then (enErrRecvMsgBig, b, m)
      else if u32 (check + usize) - enByte = msgSize then
        (1, { b with check := 0, write := (b.write + 1) % (2 * b.poolCnt) }, m)
      else (0, { b with check := u32 (check + usize) }, m)

/-- `recv_buff_read_vB` with a non-null destination: the return value, the pointer
stored in the destination, and the buffer afterwards. -/
def recvBuffReadVB (b : RecvBuff) (usize : Int) : Int × Option (Block UInt8) × RecvBuff :=
  if usize ≠ 8 then (0, none, b)
  else
    let uRead := b.read
    let uHeight := (b.write + b.poolCnt) % (2 * b.poolCnt)
    if uHeight = uRead then (0, none, b)
    else
      let i := uRead % b.poolCnt
      let msgLen := b.lenAt i
      let b' := b.setLen i 0
      (msgLen, b.buffers i,
        { b' with buffers := Function.update b.buffers i none
                  read := (uRead + 1) % (2 * b.poolCnt) })

/-! ## Dispatch -/

/-- `recv_buff_prepare`. -/
def recvBuffPrepare (m : Memory UInt8) (b : RecvBuff) :
    Nat × Option RecvPtr × RecvBuff × Memory UInt8 :=
  match b.version with
  | .useBuff => recvBuffPrepareVA m b
  | .useQueue => ((recvBuffPrepareVB b).1, (recvBuffPrepareVB b).2, b, m)

/-- `recv_buff_consume`. -/
def recvBuffConsume (m : Memory UInt8) (b : RecvBuff) (usize : Nat) :
    Int × RecvBuff × Memory UInt8 :=
  match b.version with
  | .useBuff => ((recvBuffConsumeVA b usize).1, (recvBuffConsumeVA b usize).2, m)
  | .useQueue => recvBuffConsumeVB m b usize

/-- `recv_buff_read` with a non-null destination: the return value, the payload that the
caller finds in the destination (vA) or behind the pointer stored there (vB), and the
buffer and heap afterwards. -/
def recvBuffRead (m : Memory UInt8) (b : RecvBuff) (usize : Int) :
    Int × List UInt8 × RecvBuff × Memory UInt8 :=
  match b.version with
  | .useBuff => recvBuffReadVA m b true usize
  | .useQueue =>
      let res := recvBuffReadVB b usize
      (res.1, (res.2.1.map fun bf => bf.read 0 res.1.toNat).getD [], res.2.2, m)

theorem RecvBuff.fill_version (b : RecvBuff) (ptr : RecvPtr) (xs : List UInt8) :
    (b.fill ptr xs).version = b.version := by
  unfold fill
  repeat' split
  all_goals rfl

theorem recvBuffPrepare_version (m : Memory UInt8) (b : RecvBuff) :
    (recvBuffPrepare m b).2.2.1.version = b.version := by
  unfold recvBuffPrepare recvBuffPrepareVA
  dsimp only
  repeat' split
  all_goals rfl

theorem recvBuffConsume_version (m : Memory UInt8) (b : RecvBuff) (usize : Nat) :
    (recvBuffConsume m b usize).2.1.version = b.version := by
  unfold recvBuffConsume recvBuffConsumeVA recvBuffConsumeVB
  dsimp only
  repeat' split
  all_goals rfl

theorem recvBuffRead_version (m : Memory UInt8) (b : RecvBuff) (usize : Int) :
    (recvBuffRead m b usize).2.2.1.version = b.version := by
  unfold recvBuffRead recvBuffReadVA recvBuffReadVB
  dsimp only
  repeat' split
  all_goals rfl

end RandServer
