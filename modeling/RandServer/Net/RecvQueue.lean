import RandServer.Lib.Framing
import RandServer.Net.RecvBuff

/-!
# The message queue version of the receive buffer

`RecvBuff.QueueRep b r msgs part` says that a vB buffer stores the complete messages
`msgs`, the first of them in slot `r % n`, and the bytes `part` of an unfinished one
behind them. The specifications of prepare, consume and read are stated for it.

Consuming bytes is described by `Framing.head` of all bytes of the unfinished message.
One case differs from framing: a header that announces an empty payload completes no
message, because only a consumed payload byte does.
-/

namespace RandServer

open Framing

/-- Sizes at or above this bound make the signed message size negative. -/
def maxMessage : Nat := 2 ^ 31 - 1

namespace RecvBuff

/-- Slot `i` holds the complete message `p`. -/
def Stored (b : RecvBuff) (i : Nat) (p : List UInt8) : Prop :=
  b.lenAt i = p.length ∧ ∃ bf, b.buffers i = some bf ∧ bf.read 0 p.length = p

/-- Slot `i` holds the first bytes `part` of a message, header included. -/
inductive Unfinished (en : Nat) (b : RecvBuff) (i : Nat) : List UInt8 → Prop
  | header {part : List UInt8} : part.length < en → b.check = part.length →
      b.lens.read (4 * i) part.length = part → Unfinished en b i part
  | body {part : List UInt8} {size : Nat} {bf : Block UInt8} : en ≤ part.length →
      leValue (part.take en) = size → en ≤ size → size ≤ maxMessage →
      (part.length < size ∨ part.length = en) → b.check = part.length →
      b.lenAt i = ((size - en : Nat) : Int) → b.buffers i = some bf →
      bf.read 0 (part.length - en) = part.drop en → Unfinished en b i part

structure QueueRep (en : EnByteSize) (n : Nat) (b : RecvBuff) (r : Nat)
    (msgs : List (List UInt8)) (part : List UInt8) : Prop where
  n_pos : 0 < n
  enByte : b.enByte = en
  poolCnt : b.poolCnt = n
  fits : msgs.length ≤ n
  write : b.write = (r + msgs.length) % (2 * n)
  read : b.read = (r + n) % (2 * n)
  stored : ∀ i p, msgs[i]? = some p → b.Stored ((r + i) % n) p
  unfinished : Unfinished en.toNat b ((r + msgs.length) % n) part
  full : msgs.length = n → part = []

/-- What a buffer has to do with the bytes `part` of its unfinished message. -/
def Arrived (enByte : EnByteSize) (n : Nat) (b : RecvBuff) (r : Nat) (msgs : List (List UInt8))
    (part : List UInt8) (ret : Int) : Prop :=
  match head enByte.toNat maxMessage part with
  | .short => ret = 0 ∧ QueueRep enByte n b r msgs part
  | .cut => ret = 0 ∧ QueueRep enByte n b r msgs part
  | .small => ret = enErrRecvMsgSmall
  | .big => ret = enErrRecvMsgBig
  | .whole size =>
      if size = enByte.toNat then ret = 0 ∧ QueueRep enByte n b r msgs part
      else ret = 1 ∧ QueueRep enByte n b r (msgs ++ [part.drop enByte.toNat]) []

/-! ## Message lengths -/

theorem lenAt_setLen_self (b : RecvBuff) {i v : Nat} (hv : v < 2 ^ 31) :
    (b.setLen i v).lenAt i = v := by
  have hread : (b.lens.write (4 * i) (leBytes 4 v)).read (4 * i) 4 = leBytes 4 v := by
    have h := b.lens.read_write_self (4 * i) (leBytes 4 v)
    rwa [leBytes_length] at h
  have hmod : v % 256 ^ 4 = v := Nat.mod_eq_of_lt (by omega)
  rw [lenAt, setLen, hread, leValue_leBytes, hmod, int32_of_lt hv]

/-- Writing into the four bytes of one length keeps the other lengths. -/
theorem lens_write_ne (b : Block UInt8) {i j len : Nat} (hij : j ≠ i) (off : Nat)
    {xs : List UInt8} (hxs : off + xs.length ≤ 4) (hlen : len ≤ 4) :
    (b.write (4 * i + off) xs).read (4 * j) len = b.read (4 * j) len := by
  rcases Nat.lt_or_gt_of_ne hij with hlt | hgt
  · exact b.read_write_before xs (by omega)
  · exact b.read_write_after xs (by omega)

theorem lenAt_setLen_ne (b : RecvBuff) {i j : Nat} (hij : j ≠ i) (v : Nat) :
    (b.setLen i v).lenAt j = b.lenAt j := by
  rw [lenAt, lenAt, setLen]
  exact congrArg (fun xs => int32 (leValue xs))
    (lens_write_ne b.lens hij 0 (by simp) (Nat.le_refl 4))

theorem Stored.congr {b b' : RecvBuff} {i : Nat} {p : List UInt8} (h : b.Stored i p)
    (hlen : b'.lenAt i = b.lenAt i) (hbuf : b'.buffers i = b.buffers i) : b'.Stored i p := by
  rw [Stored, hlen, hbuf]
  exact h

theorem Unfinished.congr {b b' : RecvBuff} {en i : Nat} {part : List UInt8}
    (h : Unfinished en b i part) (hen : en ≤ 4) (hcheck : b'.check = b.check)
    (hlens : ∀ len, len ≤ 4 → b'.lens.read (4 * i) len = b.lens.read (4 * i) len)
    (hbuf : b'.buffers i = b.buffers i) : Unfinished en b' i part := by
  cases h with
  | header hshort hpart hread =>
      exact .header hshort (hcheck.trans hpart) ((hlens _ (by omega)).trans hread)
  | body hlong hsize hlo hhi hrest hpart hlen hsome hread =>
      have hlen' : b'.lenAt i = b.lenAt i := by rw [lenAt, lenAt, hlens 4 (Nat.le_refl 4)]
      exact .body hlong hsize hlo hhi hrest (hcheck.trans hpart) (hlen'.trans hlen)
        (hbuf.trans hsome) hread

/-- Messages less than a lap apart lie in different slots. -/
theorem slot_ne {n r i j : Nat} (hij : i < j) (hjn : j < i + n) : (r + i) % n ≠ (r + j) % n := by
  intro heq
  have := LapRing.block_index_unique heq (by omega) (by omega)
  omega

namespace QueueRep

variable {enByte : EnByteSize} {n r : Nat} {b b' : RecvBuff} {msgs : List (List UInt8)}
  {part part' : List UInt8}

/-- A step that touches only the slot of the unfinished message keeps the others. -/
theorem replace (h : QueueRep enByte n b r msgs part) (hroom : msgs.length < n)
    (henByte : b'.enByte = b.enByte) (hpoolCnt : b'.poolCnt = b.poolCnt)
    (hwrite : b'.write = b.write) (hread : b'.read = b.read)
    (hother : ∀ j, j ≠ (r + msgs.length) % n →
      b'.lenAt j = b.lenAt j ∧ b'.buffers j = b.buffers j)
    (hun : Unfinished enByte.toNat b' ((r + msgs.length) % n) part') :
    QueueRep enByte n b' r msgs part' where
  n_pos := h.n_pos
  enByte := henByte.trans h.enByte
  poolCnt := hpoolCnt.trans h.poolCnt
  fits := h.fits
  write := hwrite.trans h.write
  read := hread.trans h.read
  stored i p hp := by
    have hi : i < msgs.length := (List.getElem?_eq_some_iff.mp hp).1
    obtain ⟨hlen, hbuf⟩ := hother _ (slot_ne hi (by omega))
    exact (h.stored i p hp).congr hlen hbuf
  unfinished := hun
  full hfull := by omega

/-- Completing the unfinished message queues it. -/
theorem complete (h : QueueRep enByte n b r msgs part) (hroom : msgs.length < n)
    (henByte : b'.enByte = b.enByte) (hpoolCnt : b'.poolCnt = b.poolCnt)
    (hwrite : b'.write = (b.write + 1) % (2 * n)) (hread : b'.read = b.read)
    (hcheck : b'.check = 0)
    (hother : ∀ j, j ≠ (r + msgs.length) % n →
      b'.lenAt j = b.lenAt j ∧ b'.buffers j = b.buffers j)
    {p : List UInt8} (hstored : b'.Stored ((r + msgs.length) % n) p) :
    QueueRep enByte n b' r (msgs ++ [p]) [] where
  n_pos := h.n_pos
  enByte := henByte.trans h.enByte
  poolCnt := hpoolCnt.trans h.poolCnt
  fits := by
    rw [List.length_append, List.length_singleton]
    exact hroom
  write := by
    rw [hwrite, h.write, Nat.mod_add_mod, List.length_append, List.length_singleton,
      Nat.add_assoc]
  read := hread.trans h.read
  stored i q hq := by
    rcases Nat.lt_or_ge i msgs.length with hi | hi
    · rw [List.getElem?_append_left hi] at hq
      obtain ⟨hlen, hbuf⟩ := hother _ (slot_ne hi (by omega))
      exact (h.stored i q hq).congr hlen hbuf
    · have hlast : i = msgs.length := by
        have := (List.getElem?_eq_some_iff.mp hq).1
        rw [List.length_append, List.length_singleton] at this
        omega
      subst hlast
      rw [List.getElem?_concat_length] at hq
      obtain rfl := Option.some.inj hq
      exact hstored
  unfinished := .header enByte.toNat_pos hcheck rfl
  full _ := rfl

/-! ## Prepare -/

theorem full_iff (h : QueueRep enByte n b r msgs part) : b.write = b.read ↔ msgs.length = n := by
  have hfits := h.fits
  rw [h.write, h.read, LapRing.lap_inj h.n_pos (by omega) (by omega)]
  omega

theorem prepare_full (h : QueueRep enByte n b r msgs part) (hfull : msgs.length = n) :
    recvBuffPrepareVB b = (0, none) := by
  rw [recvBuffPrepareVB, if_pos (h.full_iff.mpr hfull)]

theorem slot_write (h : QueueRep enByte n b r msgs part) :
    b.write % b.poolCnt = (r + msgs.length) % n := by
  rw [h.write, h.poolCnt, Nat.mod_mod_of_dvd _ (Nat.dvd_mul_left n 2)]

/-- While the header is incomplete, its missing bytes are asked for. -/
theorem prepare_header (h : QueueRep enByte n b r msgs part) (hroom : msgs.length < n)
    (hpart : part.length < enByte.toNat) : b.check = part.length ∧
      recvBuffPrepareVB b = (enByte.toNat - part.length,
        some (.lens (4 * ((r + msgs.length) % n) + part.length))) := by
  have hfull : b.write ≠ b.read := fun heq => by
    have := h.full_iff.mp heq
    omega
  cases h.unfinished with
  | header _ hcheck _ =>
      refine ⟨hcheck, ?_⟩
      rw [recvBuffPrepareVB, if_neg hfull, hcheck, h.enByte, if_pos hpart, h.slot_write]
  | body hlen => omega

/-- Behind a complete header, the missing payload bytes are asked for. -/
theorem prepare_body (h : QueueRep enByte n b r msgs part) (hroom : msgs.length < n)
    (hpart : enByte.toNat ≤ part.length) : part.length ≤ leValue (part.take enByte.toNat) ∧
      (recvBuffPrepareVB b).1 = leValue (part.take enByte.toNat) - part.length ∧
      (part.length < leValue (part.take enByte.toNat) → (recvBuffPrepareVB b).2 =
        some (.buffer ((r + msgs.length) % n) (part.length - enByte.toNat))) := by
  have hfull : b.write ≠ b.read := fun heq => by
    have := h.full_iff.mp heq
    omega
  cases h.unfinished with
  | header hlen => omega
  | body _ hsize hsmall hbig hrest hcheck hlenAt _ _ =>
      subst hsize
      rw [maxMessage] at hbig
      have hle : part.length ≤ leValue (part.take enByte.toNat) := by omega
      refine ⟨hle, ?_⟩
      rw [recvBuffPrepareVB, if_neg hfull, hcheck, h.enByte, if_neg (Nat.not_lt.mpr hpart),
        h.slot_write]
      simp only [hlenAt]
      split
      · refine ⟨?_, fun hlt => ?_⟩ <;> omega
      · rw [Int.toNat_natCast, sub32_of_le hpart (by omega), sub32_of_le (by omega) (by omega)]
        exact ⟨by omega, fun _ => rfl⟩

/-- A buffer with room asks for the rest of the header or for the rest of the payload. -/
theorem prepare_cases (h : QueueRep enByte n b r msgs part) {room : Nat} {ptr : Option RecvPtr}
    (hprep : recvBuffPrepareVB b = (room, ptr)) (hpos : 0 < room) :
    msgs.length < n ∧
      (part.length < enByte.toNat ∧ part.length + room = enByte.toNat ∧
          ptr = some (.lens (4 * ((r + msgs.length) % n) + part.length)) ∨
        enByte.toNat ≤ part.length ∧
          part.length + room = leValue (part.take enByte.toNat) ∧
          ptr = some (.buffer ((r + msgs.length) % n) (part.length - enByte.toNat))) := by
  have hfits := h.fits
  obtain hroom | hfull := Nat.lt_or_ge msgs.length n
  · refine ⟨hroom, ?_⟩
    obtain hpart | hpart := Nat.lt_or_ge part.length enByte.toNat
    · rw [(h.prepare_header hroom hpart).2] at hprep
      obtain ⟨rfl, rfl⟩ := Prod.mk.inj hprep
      exact .inl ⟨hpart, by omega, rfl⟩
    · obtain ⟨hle, hsize, hptr⟩ := h.prepare_body hroom hpart
      rw [hprep] at hsize hptr
      simp only at hsize hptr
      exact .inr ⟨hpart, by omega, hptr (by omega)⟩
  · rw [h.prepare_full (by omega)] at hprep
    obtain ⟨rfl, rfl⟩ := Prod.mk.inj hprep
    cases hpos

/-- The unfinished message is not complete, unless its payload is empty. -/
theorem unfinished_lt (h : QueueRep enByte n b r msgs part) (hpart : enByte.toNat ≤ part.length) :
    part.length < leValue (part.take enByte.toNat) ∨ part.length = enByte.toNat := by
  cases h.unfinished with
  | header hlen => omega
  | body _ hsize _ _ hrest => rwa [hsize]

/-- There is no room exactly when the queue is full or the unfinished message has an
empty payload. -/
theorem prepare_eq_zero_iff (h : QueueRep enByte n b r msgs part) :
    (recvBuffPrepareVB b).1 = 0 ↔ msgs.length = n ∨
      (part.length = enByte.toNat ∧ leValue part = enByte.toNat) := by
  have hfits := h.fits
  have hen := enByte.toNat_pos
  rcases Nat.lt_or_ge msgs.length n with hroom | hfull
  · rcases Nat.lt_or_ge part.length enByte.toNat with hpart | hpart
    · rw [(h.prepare_header hroom hpart).2]
      simp only
      omega
    · obtain ⟨hle, hsize, -⟩ := h.prepare_body hroom hpart
      rw [hsize]
      cases h.unfinished with
      | header hlen => omega
      | body _ hval hsmall _ hrest _ _ _ _ =>
          subst hval
          constructor
          · intro hzero
            have hlen : part.length = enByte.toNat := by omega
            rw [List.take_of_length_le (Nat.le_of_eq hlen)] at hzero hle
            exact Or.inr ⟨hlen, by omega⟩
          · rintro (hn | ⟨hlen, hval⟩)
            · omega
            · rw [List.take_of_length_le (Nat.le_of_eq hlen)]
              omega
  · have hn : msgs.length = n := by omega
    rw [h.prepare_full hn]
    simp only [hn, true_or]

/-! ## Consume -/

/-- A complete header opens a block for its payload. -/
theorem announce (h : QueueRep b.enByte n b r msgs part) (hroom : msgs.length < n) {i : Nat}
    (hi : i = (r + msgs.length) % n) {s : List UInt8} (hs : s.length = b.enByte.toNat)
    (hlo : b.enByte.toNat ≤ leValue s) (hhi : leValue s ≤ maxMessage) {lens : Block UInt8}
    (hother : ∀ j, j ≠ i → lens.read (4 * j) 4 = b.lens.read (4 * j) 4) (bf : Block UInt8) :
    QueueRep b.enByte n
      { ({ b with lens := lens } : RecvBuff).setLen i (leValue s - b.enByte.toNat) with
        buffers := Function.update b.buffers i (some bf)
        check := s.length } r msgs s := by
  rw [maxMessage] at hhi
  refine h.replace hroom rfl rfl rfl rfl (fun j hj => ⟨?_, ?_⟩) ?_
  · rw [← hi] at hj
    exact (lenAt_setLen_ne ({ b with lens := lens } : RecvBuff) hj _).trans
      (congrArg (fun bytes => int32 (leValue bytes)) (hother j hj))
  · exact Function.update_of_ne (hi ▸ hj) _ _
  · rw [← hi]
    have htake : s.take b.enByte.toNat = s := List.take_of_length_le (Nat.le_of_eq hs)
    refine .body (Nat.le_of_eq hs.symm) (congrArg leValue htake) hlo hhi
      (.inr hs) rfl (lenAt_setLen_self _ (by omega)) (Function.update_self ..) ?_
    rw [List.drop_of_length_le (Nat.le_of_eq hs), hs, Nat.sub_self]
    rfl

/-- Bytes that leave the header incomplete, or complete it. Without memory for the block of
the payload, its length is all that is left of them. -/
theorem consume_header_or (h : QueueRep enByte n b r msgs part) (hroom : msgs.length < n)
    (hpart : part.length < enByte.toNat) {xs : List UInt8} (hxs : 0 < xs.length)
    (hfit : part.length + xs.length ≤ enByte.toNat) {m m' : Memory UInt8}
    {i : Nat} (hi : i = (r + msgs.length) % n) {ret : Int}
    (ht : recvBuffConsumeVB m (b.fill (.lens (4 * i + part.length)) xs) xs.length =
      (ret, b', m')) :
    m'.fate = m.fate ∧ (Arrived enByte n b' r msgs (part ++ xs) ret ∨
      ret = enErrNoMemory ∧ ¬ m.AllocOk ∧ (part ++ xs).length = enByte.toNat) := by
  obtain rfl := h.enByte
  have hen := b.enByte.toNat_le
  have hlen : (part ++ xs).length = part.length + xs.length := List.length_append
  have hcheck := (h.prepare_header hroom hpart).1
  have hslot := h.slot_write.trans hi.symm
  have hbytes : (b.lens.write (4 * i + part.length) xs).read (4 * i) (part ++ xs).length =
      part ++ xs := by
    rw [hlen, Block.read_write_append]
    cases h.unfinished with
    | header _ _ hlens => rw [hi, hlens]
    | body hlen => omega
  have hother : ∀ j, j ≠ (r + msgs.length) % n →
      (b.lens.write (4 * i + part.length) xs).read (4 * j) 4 = b.lens.read (4 * j) 4 :=
    fun j hj => lens_write_ne b.lens (hi ▸ hj) _ (by omega) (Nat.le_refl 4)
  simp only [recvBuffConsumeVB, fill, hcheck, hslot, if_neg (Nat.ne_of_gt hxs),
    if_pos hpart, if_neg (Nat.not_lt.mpr hfit)] at ht
  split at ht
  · rename_i hwhole
    rw [← hlen] at hwhole
    rw [hwhole] at hbytes
    rw [hbytes, orBytes_zero] at ht
    have hhead := head_header maxMessage hwhole
    have hword : leValue (part ++ xs) < 2 ^ 32 := by
      have hlt := leValue_lt (part ++ xs)
      rw [hwhole] at hlt
      exact Nat.lt_of_lt_of_le hlt (Nat.pow_le_pow_right (by decide) hen)
    rcases Nat.lt_or_ge (leValue (part ++ xs)) (2 ^ 31) with hsmall | hbig
    · rw [int32_of_lt hsmall, if_neg (by omega)] at ht
      split at ht
      · rename_i hbelow
        simp only [Prod.mk.injEq] at ht
        obtain ⟨rfl, rfl, rfl⟩ := ht
        rw [if_pos hbelow] at hhead
        exact ⟨rfl, .inl (by rw [Arrived, hhead])⟩
      · rename_i hbelow
        rw [if_neg hbelow, if_neg (by rw [maxMessage]; omega)] at hhead
        have hfate := buffPoolNewBuff_fate m b.pool (leValue (part ++ xs) - b.enByte.toNat)
        split at ht
        · rename_i m₁ hnone
          simp only [Prod.mk.injEq] at ht
          obtain ⟨rfl, rfl, rfl⟩ := ht
          refine ⟨(congrArg (fun res => res.2.fate) hnone).symm.trans hfate,
            .inr ⟨rfl, ?_, hwhole⟩⟩
          intro halloc
          obtain ⟨bf, hbf⟩ := buffPoolNewBuff_isSome halloc b.pool
            (leValue (part ++ xs) - b.enByte.toNat)
          cases (congrArg Prod.fst hnone).symm.trans hbf
        · rename_i bf' m₁ hsome
          simp only [Prod.mk.injEq] at ht
          obtain ⟨rfl, rfl, rfl⟩ := ht
          refine ⟨(congrArg (fun res => res.2.fate) hsome).symm.trans hfate, .inl ?_⟩
          have hrep := h.announce hroom hi hwhole (by omega) (by rw [maxMessage]; omega)
            (fun j hj => hother j (hi ▸ hj)) bf'
          rw [hlen] at hrep
          split at hhead
          · rw [Arrived, hhead]
            exact ⟨rfl, hrep⟩
          · have hempty : leValue (part ++ xs) = b.enByte.toNat := by omega
            rw [Arrived, hhead]
            simp only [if_pos hempty]
            exact ⟨trivial, hrep⟩
    · rw [if_pos (int32_neg hbig hword)] at ht
      simp only [Prod.mk.injEq] at ht
      obtain ⟨rfl, rfl, rfl⟩ := ht
      rw [if_neg (by omega), if_pos (by rw [maxMessage]; omega)] at hhead
      exact ⟨rfl, .inl (by rw [Arrived, hhead])⟩
  · rename_i hshort
    simp only [Prod.mk.injEq] at ht
    obtain ⟨rfl, rfl, rfl⟩ := ht
    have hhead : head b.enByte.toNat maxMessage (part ++ xs) = .short := by
      rw [head, if_pos (by omega)]
    refine ⟨rfl, .inl ?_⟩
    rw [Arrived, hhead]
    refine ⟨rfl, h.replace hroom rfl rfl rfl rfl (fun j hj => ⟨?_, rfl⟩) ?_⟩
    · exact congrArg (fun bytes => int32 (leValue bytes)) (hother j hj)
    · exact .header (by omega) hlen.symm (hi ▸ hbytes)

/-- Behind a valid header, the message is incomplete or whole. -/
theorem head_body (h : QueueRep enByte n b r msgs part) (hpart : enByte.toNat ≤ part.length)
    (xs : List UInt8) : head enByte.toNat maxMessage (part ++ xs) =
      if (part ++ xs).length < leValue (part.take enByte.toNat) then .cut
      else .whole (leValue (part.take enByte.toNat)) := by
  have htake : (part ++ xs).take enByte.toNat = part.take enByte.toNat :=
    List.take_append_of_le_length hpart
  have hlen : (part ++ xs).length = part.length + xs.length := List.length_append
  cases h.unfinished with
  | header hshort => omega
  | body _ hsize hsmall hbig =>
      subst hsize
      rw [head, htake, if_neg (by omega), if_neg (by omega), if_neg (by omega)]

/-- Bytes of the payload, up to its end. -/
theorem consume_body (h : QueueRep enByte n b r msgs part) (hroom : msgs.length < n)
    (hpart : enByte.toNat ≤ part.length) {xs : List UInt8} (hxs : 0 < xs.length)
    (hfit : part.length + xs.length ≤ leValue (part.take enByte.toNat)) {m m' : Memory UInt8}
    {i : Nat} (hi : i = (r + msgs.length) % n) {ret : Int}
    (ht : recvBuffConsumeVB m (b.fill (.buffer i (part.length - enByte.toNat)) xs) xs.length =
      (ret, b', m')) :
    m'.fate = m.fate ∧ Arrived enByte n b' r msgs (part ++ xs) ret := by
  obtain rfl := h.enByte
  have hlen : (part ++ xs).length = part.length + xs.length := List.length_append
  have hslot := h.slot_write.trans hi.symm
  have hun := h.unfinished
  rw [← hi] at hun
  cases hun with
  | header hshort => omega
  | @body size bf _ hsize hsmall hbig _ hcheck hlenAt hbuf hread =>
      rw [hsize] at hfit
      rw [maxMessage] at hbig
      have htake : (part ++ xs).take b.enByte.toNat = part.take b.enByte.toNat :=
        List.take_append_of_le_length hpart
      have hdrop : (part ++ xs).drop b.enByte.toNat = part.drop b.enByte.toNat ++ xs :=
        List.drop_append_of_le_length hpart
      have hhead := h.head_body hpart xs
      rw [hsize] at hhead
      have hbytes : (bf.write (part.length - b.enByte.toNat) xs).read 0
          ((part ++ xs).length - b.enByte.toNat) = (part ++ xs).drop b.enByte.toNat := by
        have happend := bf.read_write_append 0 (part.length - b.enByte.toNat) xs
        rw [hread, Nat.zero_add, ← hdrop] at happend
        rw [← happend]
        congr 1
        omega
      have hword : u32 ((((size - b.enByte.toNat : Nat) : Int) % 2 ^ 32).toNat) =
          size - b.enByte.toNat := by
        rw [u32]
        omega
      have hkeep : ∀ j, j ≠ (r + msgs.length) % n → Function.update b.buffers i
          (some (bf.write (part.length - b.enByte.toNat) xs)) j = b.buffers j :=
        fun j hj => Function.update_of_ne (hi ▸ hj) _ _
      have hlenAt' : (b.fill (.buffer i (part.length - b.enByte.toNat)) xs).lenAt i =
          ((size - b.enByte.toNat : Nat) : Int) := by
        simp only [fill, hbuf]
        exact hlenAt
      simp only [fill, hbuf] at hlenAt' ht
      have hbehind : ¬ b.check < b.enByte.toNat := by omega
      have hroom' : ¬ size - b.enByte.toNat < b.check - b.enByte.toNat + xs.length := by omega
      simp only [recvBuffConsumeVB, hslot, if_neg (Nat.ne_of_gt hxs), if_neg hbehind, hlenAt',
        hword, if_neg hroom', u32_of_lt (show b.check + xs.length < 2 ^ 32 by omega)] at ht
      split at ht
      · rename_i hdone
        simp only [Prod.mk.injEq] at ht
        obtain ⟨rfl, rfl, rfl⟩ := ht
        rw [if_neg (by omega)] at hhead
        refine ⟨rfl, ?_⟩
        rw [Arrived, hhead]
        simp only [if_neg (show size ≠ b.enByte.toNat by omega), true_and]
        have hsize' : (part ++ xs).length - b.enByte.toNat = size - b.enByte.toNat := by omega
        have hwrite : (b.write + 1) % (2 * b.poolCnt) = (b.write + 1) % (2 * n) := by
          rw [h.poolCnt]
        have hstored : RecvBuff.Stored { b with
            buffers := Function.update b.buffers i
              (some (bf.write (part.length - b.enByte.toNat) xs))
            write := (b.write + 1) % (2 * b.poolCnt)
            check := 0 } i ((part ++ xs).drop b.enByte.toNat) := by
          refine ⟨?_, _, Function.update_self .., ?_⟩
          · rw [List.length_drop, hsize']
            exact hlenAt'
          · rw [List.length_drop]
            exact hbytes
        refine h.complete hroom ?_ ?_ hwrite ?_ ?_ ?_ ?_
        on_goal 5 => exact fun j hj => ⟨rfl, hkeep j hj⟩
        on_goal 5 => exact hi ▸ hstored
        all_goals rfl
      · rename_i hmore
        simp only [Prod.mk.injEq] at ht
        obtain ⟨rfl, rfl, rfl⟩ := ht
        rw [if_pos (by omega)] at hhead
        refine ⟨rfl, ?_⟩
        rw [Arrived, hhead]
        refine ⟨rfl, h.replace hroom rfl rfl rfl rfl (fun j hj => ⟨rfl, hkeep j hj⟩) ?_⟩
        rw [← hi]
        exact .body (by omega) (by rw [htake, hsize]) hsmall (by rw [maxMessage]; omega)
          (.inl (by omega)) (by rw [hlen, ← hcheck]) hlenAt' (Function.update_self ..) hbytes

/-- Bytes copied to a prepared pointer join the unfinished message, unless there is no
memory. -/
theorem consume_or (h : QueueRep enByte n b r msgs part) {room : Nat} {ptr : RecvPtr}
    (hprep : recvBuffPrepareVB b = (room, some ptr)) {xs : List UInt8} (hxs : 0 < xs.length)
    (hfit : xs.length ≤ room) {m m' : Memory UInt8} {ret : Int}
    (ht : recvBuffConsumeVB m (b.fill ptr xs) xs.length = (ret, b', m')) :
    m'.fate = m.fate ∧ (Arrived enByte n b' r msgs (part ++ xs) ret ∨
      ret = enErrNoMemory ∧ ¬ m.AllocOk ∧ (part ++ xs).length = enByte.toNat) := by
  obtain ⟨hroom, ⟨hpart, hrest, hptr⟩ | ⟨hpart, hrest, hptr⟩⟩ :=
    h.prepare_cases hprep (by omega)
  · obtain rfl := Option.some.inj hptr
    exact h.consume_header_or hroom hpart hxs (by omega) rfl ht
  · obtain rfl := Option.some.inj hptr
    obtain ⟨hfate, harr⟩ := h.consume_body hroom hpart hxs (by omega) rfl ht
    exact ⟨hfate, .inl harr⟩

theorem consume (h : QueueRep enByte n b r msgs part) {room : Nat} {ptr : RecvPtr}
    (hprep : recvBuffPrepareVB b = (room, some ptr)) {xs : List UInt8} (hxs : 0 < xs.length)
    (hfit : xs.length ≤ room) {m m' : Memory UInt8} (halloc : m.AllocOk) {ret : Int}
    (ht : recvBuffConsumeVB m (b.fill ptr xs) xs.length = (ret, b', m')) :
    m'.fate = m.fate ∧ Arrived enByte n b' r msgs (part ++ xs) ret := by
  obtain ⟨hfate, harr | ⟨-, hno, -⟩⟩ := h.consume_or hprep hxs hfit ht
  · exact ⟨hfate, harr⟩
  · exact absurd halloc hno

/-- An error leaves the complete messages as they are. -/
theorem consume_error (h : QueueRep enByte n b r msgs part) {room : Nat} {ptr : RecvPtr}
    (hprep : recvBuffPrepareVB b = (room, some ptr)) {xs : List UInt8} (hxs : 0 < xs.length)
    (hfit : xs.length ≤ room) {m m' : Memory UInt8} {ret : Int}
    (ht : recvBuffConsumeVB m (b.fill ptr xs) xs.length = (ret, b', m')) (hret : ret < 0) :
    ∃ part', QueueRep enByte n b' r msgs part' := by
  obtain ⟨hroom, ⟨hpart, hrest, hptr⟩ | ⟨hpart, hrest, hptr⟩⟩ :=
    h.prepare_cases hprep (by omega)
  · -- the error comes from a complete header, and the bytes of its length are overwritten
    obtain rfl := Option.some.inj hptr
    have hcheck := (h.prepare_header hroom hpart).1
    have hslot := h.slot_write
    have hlens : ∀ j, j ≠ (r + msgs.length) % n →
        (b.lens.write (4 * ((r + msgs.length) % n) + part.length) xs).read (4 * j) 4 =
          b.lens.read (4 * j) 4 :=
      fun j hj => lens_write_ne b.lens hj _ (by have := enByte.toNat_le; omega) (Nat.le_refl 4)
    have hkeep : ∀ b₁ : RecvBuff, b₁.enByte = b.enByte → b₁.poolCnt = b.poolCnt →
        b₁.write = b.write → b₁.read = b.read → b₁.check = b.check →
        b₁.buffers = b.buffers →
        (∀ j, j ≠ (r + msgs.length) % n → b₁.lenAt j = b.lenAt j) →
        ∃ part', QueueRep enByte n b₁ r msgs part' := by
      intro b₁ hen hcnt hwrite hread hcheck₁ hbuf hlen
      refine ⟨b₁.lens.read (4 * ((r + msgs.length) % n)) part.length,
        h.replace hroom hen hcnt hwrite hread
          (fun j hj => ⟨hlen j hj, congrFun hbuf j⟩) (.header ?_ ?_ ?_)⟩
      · simpa using hpart
      · simp [hcheck₁, hcheck]
      · simp
    simp only [recvBuffConsumeVB, fill, hcheck, hslot, h.enByte, if_neg (Nat.ne_of_gt hxs),
      if_pos hpart, if_neg (show ¬ part.length + xs.length > enByte.toNat by omega)] at ht
    have hlen₁ : ∀ j, j ≠ (r + msgs.length) % n →
        ({ b with lens := b.lens.write (4 * ((r + msgs.length) % n) + part.length) xs } :
          RecvBuff).lenAt j = b.lenAt j :=
      fun j hj => congrArg (fun bytes => int32 (leValue bytes)) (hlens j hj)
    split at ht
    · split at ht
      · simp only [Prod.mk.injEq] at ht
        obtain ⟨-, rfl, -⟩ := ht
        exact hkeep _ h.enByte.symm rfl rfl rfl hcheck.symm rfl hlen₁
      · split at ht
        · simp only [Prod.mk.injEq] at ht
          obtain ⟨-, rfl, -⟩ := ht
          exact hkeep _ h.enByte.symm rfl rfl rfl hcheck.symm rfl hlen₁
        · split at ht
          · simp only [Prod.mk.injEq] at ht
            obtain ⟨-, rfl, -⟩ := ht
            refine hkeep _ h.enByte.symm rfl rfl rfl hcheck.symm rfl fun j hj => ?_
            exact (lenAt_setLen_ne _ hj _).trans (hlen₁ j hj)
          · simp only [Prod.mk.injEq] at ht
            omega
    · simp only [Prod.mk.injEq] at ht
      omega
  · obtain rfl := Option.some.inj hptr
    obtain ⟨-, harr⟩ := h.consume_body hroom hpart hxs (by omega) rfl ht
    have hhead := h.head_body hpart xs
    split at hhead
    · simp only [Arrived, hhead] at harr
      omega
    · simp only [Arrived, hhead] at harr
      split at harr <;> omega

/-- No byte is asked for beyond the frame being received. -/
theorem length_le_of_whole (h : QueueRep enByte n b r msgs part) {room cap size : Nat}
    {ptr : Option RecvPtr} (hprep : recvBuffPrepareVB b = (room, ptr)) {xs : List UInt8}
    (hxs : 0 < xs.length) (hfit : xs.length ≤ room)
    (hhead : head enByte.toNat cap (part ++ xs) = .whole size) :
    (part ++ xs).length ≤ size := by
  obtain ⟨-, hval, hlo, -, -⟩ := head_whole_iff.mp hhead
  rw [List.length_append]
  obtain ⟨-, ⟨hpart, hrest, -⟩ | ⟨hpart, hrest, -⟩⟩ := h.prepare_cases hprep (by omega)
  · omega
  · rw [List.take_append_of_le_length hpart] at hval
    omega

/-- A buffer with room knows where the bytes go. -/
theorem prepare_ptr (h : QueueRep enByte n b r msgs part) (hpos : 0 < (recvBuffPrepareVB b).1) :
    ∃ ptr, (recvBuffPrepareVB b).2 = some ptr := by
  obtain ⟨-, ⟨-, -, hptr⟩ | ⟨-, -, hptr⟩⟩ := h.prepare_cases Prod.mk.eta.symm hpos
  · exact ⟨_, hptr⟩
  · exact ⟨_, hptr⟩

/-- With nothing prepared, no piece is left to agree with the buffer. -/
theorem piece_none : ∀ room ptr, (none : Option (Nat × Option RecvPtr)) = some (room, ptr) →
    0 < room → recvBuffPrepareVB b = (room, ptr) := by
  intro room ptr hnone
  cases hnone

/-! ## Read -/

theorem empty_iff (h : QueueRep enByte n b r msgs part) :
    (b.write + b.poolCnt) % (2 * b.poolCnt) = b.read ↔ msgs = [] := by
  have hfits := h.fits
  have hn := h.n_pos
  rw [h.write, h.read, h.poolCnt, Nat.mod_add_mod, ← List.length_eq_zero_iff,
    eq_comm, LapRing.lap_inj hn (by omega) (by omega)]
  omega

theorem read_nil (h : QueueRep enByte n b r [] part) : recvBuffReadVB b 8 = (0, none, b) := by
  rw [recvBuffReadVB, if_neg (by decide)]
  simp only [if_pos (h.empty_iff.mpr rfl)]

/-- Reading hands out the block of the first message and its length. -/
theorem read_cons {p : List UInt8} (h : QueueRep enByte n b r (p :: msgs) part) :
    ∃ (bf : Block UInt8) (b' : RecvBuff), recvBuffReadVB b 8 = ((p.length : Int), some bf, b') ∧
      bf.read 0 p.length = p ∧ QueueRep enByte n b' (r + 1) msgs part ∧ b'.read ≠ b.read := by
  obtain ⟨hlen, bf, hbuf, hbytes⟩ := h.stored 0 p rfl
  have hfits : msgs.length + 1 ≤ n := h.fits
  have hslot : b.read % b.poolCnt = (r + 0) % n := by
    rw [h.read, h.poolCnt, Nat.mod_mod_of_dvd _ (Nat.dvd_mul_left n 2), Nat.add_mod_right,
      Nat.add_zero]
  have hsome : ¬ (b.write + b.poolCnt) % (2 * b.poolCnt) = b.read :=
    fun heq => List.cons_ne_nil _ _ (h.empty_iff.mp heq)
  have hread : recvBuffReadVB b 8 = ((p.length : Int), some bf,
      { b.setLen ((r + 0) % n) 0 with
        buffers := Function.update b.buffers ((r + 0) % n) none
        read := (b.read + 1) % (2 * b.poolCnt) }) := by
    rw [recvBuffReadVB, if_neg (by decide)]
    simp only [if_neg hsome, hslot, hlen, hbuf]
  have hmoved : (b.read + 1) % (2 * b.poolCnt) ≠ b.read := by
    rw [h.read, h.poolCnt, Nat.mod_add_mod, ne_comm]
    intro heq
    have := (LapRing.lap_inj h.n_pos (by omega) (by omega)).mp heq
    omega
  refine ⟨bf, _, hread, hbytes, ?_, hmoved⟩
  have hpos : ∀ i, r + 1 + i = r + (i + 1) := fun i => by omega
  refine ⟨h.n_pos, h.enByte, h.poolCnt, by omega, ?_, ?_, ?_, ?_, ?_⟩
  · rw [hpos]
    exact h.write
  · simp only [h.read, h.poolCnt, Nat.mod_add_mod, Nat.add_right_comm]
  · intro i q hq
    have hi : i < msgs.length := (List.getElem?_eq_some_iff.mp hq).1
    have hne : (r + (i + 1)) % n ≠ (r + 0) % n := (slot_ne (by omega) (by omega)).symm
    rw [hpos]
    exact (h.stored (i + 1) q hq).congr (lenAt_setLen_ne b hne 0) (Function.update_of_ne hne _ _)
  · rw [hpos]
    have hun := h.unfinished
    rcases Nat.lt_or_ge (msgs.length + 1) n with hroom | hfull
    · have hne : (r + (msgs.length + 1)) % n ≠ (r + 0) % n := (slot_ne (by omega) (by omega)).symm
      exact hun.congr enByte.toNat_le rfl
        (fun len hlen => lens_write_ne b.lens hne 0 (by simp) hlen)
        (Function.update_of_ne hne _ _)
    · obtain rfl := h.full (by rw [List.length_cons]; omega)
      cases hun with
      | header hen hcheck _ => exact .header hen hcheck rfl
      | body hen => exact absurd enByte.toNat_pos (by simpa using hen)
  · intro hfull
    omega

/-- A read does not move the region that was prepared before it. -/
theorem prepare_after_read {p : List UInt8} (h : QueueRep enByte n b r (p :: msgs) part)
    (h' : QueueRep enByte n b' (r + 1) msgs part) (hpos : 0 < (recvBuffPrepareVB b).1) :
    recvBuffPrepareVB b' = recvBuffPrepareVB b := by
  have hfits := h.fits
  have hslot : r + (p :: msgs).length = r + 1 + msgs.length := by
    rw [List.length_cons]
    omega
  rcases Nat.lt_or_ge (p :: msgs).length n with hroom | hfull
  · have hroom' : msgs.length < n := Nat.lt_of_succ_lt hroom
    rcases Nat.lt_or_ge part.length enByte.toNat with hpart | hpart
    · rw [(h.prepare_header hroom hpart).2, (h'.prepare_header hroom' hpart).2, hslot]
    · obtain ⟨-, hsize, hptr⟩ := h.prepare_body hroom hpart
      obtain ⟨-, hsize', hptr'⟩ := h'.prepare_body hroom' hpart
      refine Prod.ext (hsize'.trans hsize.symm) ?_
      rw [hptr (by omega), hptr' (by omega), hslot]
  · rw [h.prepare_full (by omega)] at hpos
    cases hpos

end QueueRep

/-- A new queue is empty. -/
theorem create_queueRep (lens : Block UInt8) (enByte : EnByteSize) {n : Nat} (hn : 0 < n)
    (bufferSize : Nat) (pool : Option Nat) :
    QueueRep enByte n (recvBuffCreateVB lens enByte n bufferSize pool) 0 [] [] where
  n_pos := hn
  enByte := rfl
  poolCnt := rfl
  fits := Nat.zero_le n
  write := (Nat.zero_mod _).symm
  read := by
    rw [Nat.zero_add, Nat.mod_eq_of_lt (by omega)]
    rfl
  stored _ _ hp := by cases hp
  unfinished := .header enByte.toNat_pos rfl rfl
  full _ := rfl

end RecvBuff

end RandServer
