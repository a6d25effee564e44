import RandServer.Lib.Machine
import RandServer.Net.Ownership
import RandServer.Net.RecvQueue

/-!
# The blocks of a receive queue

A vB `recv_buff` between the network, which prepares and consumes, and an application,
which reads and gets the block of each message for itself. The machine records the input,
the payloads delivered so far, and the blocks handed out. After an error the network does
not go on, but the application may still read.

`messageQueue_safe` says that the queue keeps the frames of the input apart, in order, and
in blocks of their own. It has one condition: the chunk that completes the header of an
empty payload completes a frame, but `recv_buff_consume_vB` does not return 1 for it.
-/

namespace RandServer

open Framing

/-! ## Places -/

namespace RecvBuff

variable {b b' : RecvBuff} {m m' : Memory UInt8} {n : Nat} {held : List Nat}

theorem fill_buffers_addr (b : RecvBuff) (ptr : RecvPtr) (xs : List UInt8) (j : Nat) :
    ((b.fill ptr xs).buffers j).map Block.addr = (b.buffers j).map Block.addr := by
  cases ptr with
  | lens off => rfl
  | buffer i off =>
      cases hslot : b.buffers i with
      | none => simp [fill, hslot]
      | some bf =>
          by_cases hji : j = i
          · subst hji
            simp [fill, hslot]
          · simp [fill, hslot, hji]

theorem fill_buffers_none {ptr : RecvPtr} {xs : List UInt8} {j : Nat} :
    (b.fill ptr xs).buffers j = none ↔ b.buffers j = none := by
  have h : ((b.fill ptr xs).buffers j).isNone = (b.buffers j).isNone := by
    simpa using congrArg Option.isNone (b.fill_buffers_addr ptr xs j)
  rw [← Option.isNone_iff_eq_none, h, Option.isNone_iff_eq_none]

@[simp] theorem fill_write (ptr : RecvPtr) (xs : List UInt8) : (b.fill ptr xs).write = b.write := by
  unfold fill
  repeat' split
  all_goals rfl

@[simp] theorem fill_check (ptr : RecvPtr) (xs : List UInt8) : (b.fill ptr xs).check = b.check := by
  unfold fill
  repeat' split
  all_goals rfl

@[simp] theorem fill_poolCnt (ptr : RecvPtr) (xs : List UInt8) :
    (b.fill ptr xs).poolCnt = b.poolCnt := by
  unfold fill
  repeat' split
  all_goals rfl

@[simp] theorem fill_pool (ptr : RecvPtr) (xs : List UInt8) : (b.fill ptr xs).pool = b.pool := by
  unfold fill
  repeat' split
  all_goals rfl

@[simp] theorem fill_enByte (ptr : RecvPtr) (xs : List UInt8) :
    (b.fill ptr xs).enByte = b.enByte := by
  unfold fill
  repeat' split
  all_goals rfl

/-- What consuming does to the slots: only the writer's may change, by getting a block,
and as long as the header is incomplete none does. -/
structure Consumed (b b' : RecvBuff) (ret : Int) : Prop where
  pool : b'.pool = b.pool
  other : ∀ j, j ≠ b.write % b.poolCnt → b'.buffers j = b.buffers j ∧ b'.lenAt j = b.lenAt j
  open_header : b'.check < b.enByte.toNat → b'.buffers = b.buffers
  still_header : ret ≠ 1 → b'.check < b.enByte.toNat → b.check < b.enByte.toNat

theorem consumeVB_consumed {usize : Nat} {ret : Int} (hsmall : b.check + usize < 2 ^ 32)
    (ht : recvBuffConsumeVB m b usize = (ret, b', m')) : Consumed b b' ret := by
  simp only [recvBuffConsumeVB] at ht
  split at ht
  · cases ht
    exact ⟨rfl, fun _ _ => ⟨rfl, rfl⟩, fun _ => rfl, fun _ h => h⟩
  · split at ht
    · rename_i hheader
      split at ht
      · cases ht
        exact ⟨rfl, fun _ _ => ⟨rfl, rfl⟩, fun _ => rfl, fun _ h => h⟩
      · split at ht
        · rename_i hwhole
          split at ht
          · cases ht
            exact ⟨rfl, fun _ _ => ⟨rfl, rfl⟩, fun _ => rfl, fun _ h => h⟩
          · split at ht
            · cases ht
              exact ⟨rfl, fun _ _ => ⟨rfl, rfl⟩, fun _ => rfl, fun _ h => h⟩
            · split at ht
              · cases ht
                exact ⟨rfl, fun j hj => ⟨rfl, lenAt_setLen_ne b hj _⟩, fun _ => rfl, fun _ h => h⟩
              · cases ht
                refine ⟨rfl, fun j hj => ⟨Function.update_of_ne hj _ _, lenAt_setLen_ne b hj _⟩,
                  ?_, ?_⟩
                · intro hlt
                  exact absurd hwhole (Nat.ne_of_lt hlt)
                · intro _ _
                  exact hheader
        · cases ht
          exact ⟨rfl, fun _ _ => ⟨rfl, rfl⟩, fun _ => rfl, fun _ _ => hheader⟩
    · rename_i hbody
      split at ht
      · cases ht
        exact ⟨rfl, fun _ _ => ⟨rfl, rfl⟩, fun _ => rfl, fun _ h => h⟩
      · split at ht
        · cases ht
          exact ⟨rfl, fun _ _ => ⟨rfl, rfl⟩, fun _ => rfl, fun h => absurd rfl h⟩
        · cases ht
          refine ⟨rfl, fun _ _ => ⟨rfl, rfl⟩, fun _ => rfl, fun _ hlt => ?_⟩
          simp only [u32_of_lt hsmall] at hlt
          omega

/-- Bytes copied to a prepared pointer stay in the writer's slot. -/
theorem fill_other {room : Nat} {ptr : RecvPtr} {xs : List UInt8}
    (hprep : recvBuffPrepareVB b = (room, some ptr)) (hfit : xs.length ≤ room) {j : Nat}
    (hj : j ≠ b.write % b.poolCnt) :
    (b.fill ptr xs).buffers j = b.buffers j ∧ (b.fill ptr xs).lenAt j = b.lenAt j := by
  have hen := b.enByte.toNat_le
  simp only [recvBuffPrepareVB] at hprep
  split at hprep
  · cases hprep
  · split at hprep
    · cases hprep
      refine ⟨rfl, congrArg (fun bytes => int32 (leValue bytes)) ?_⟩
      exact lens_write_ne b.lens hj _ (by omega) (Nat.le_refl 4)
    · split at hprep
      · cases hprep
      · cases hprep
        simp only [fill]
        split
        · exact ⟨rfl, rfl⟩
        · exact ⟨Function.update_of_ne hj _ _, rfl⟩

/-- A block that is opened for a payload comes from the pool or the heap. -/
theorem consumeVB_accounted {usize : Nat} {ret : Int} (hn : 0 < b.poolCnt)
    (hvacant : b.check < b.enByte.toNat → b.buffers (b.write % b.poolCnt) = none)
    (h : m.Accounted b.pool (slotAddrs b.buffers b.poolCnt ++ held))
    (ht : recvBuffConsumeVB m b usize = (ret, b', m')) :
    m'.Accounted b.pool (slotAddrs b'.buffers b.poolCnt ++ held) := by
  have hi : b.write % b.poolCnt < b.poolCnt := Nat.mod_lt _ hn
  simp only [recvBuffConsumeVB] at ht
  split at ht
  · cases ht
    exact h
  · split at ht
    · rename_i hheader
      split at ht
      · cases ht
        exact h
      · split at ht
        · split at ht
          · cases ht
            exact h
          · split at ht
            · cases ht
              exact h
            · split at ht
              · rename_i m₁ hnew
                cases ht
                exact (h.newBuff hnew).1
              · rename_i bf m₁ hnew
                cases ht
                have hold := slotAddrs_perm b.buffers hi
                simp only [hvacant hheader, Option.map_none, Option.toList_none,
                  List.nil_append] at hold
                apply (h.newBuff hnew).1.perm
                refine ((slotAddrs_update hi _).append_right held).trans ?_
                exact (hold.symm.append_right held).cons bf.addr
        · cases ht
          exact h
    · split at ht
      · cases ht
        exact h
      · split at ht
        · cases ht
          exact h
        · cases ht
          exact h

/-- What reading does to the slots: the reader's is emptied into the caller's hands. -/
theorem readVB_some {usize ret : Int} {bf : Block UInt8}
    (ht : recvBuffReadVB b usize = (ret, some bf, b')) :
    b.buffers (b.read % b.poolCnt) = some bf ∧
      b'.buffers = Function.update b.buffers (b.read % b.poolCnt) none ∧
      b'.pool = b.pool ∧ b'.poolCnt = b.poolCnt ∧ b'.check = b.check ∧ b'.enByte = b.enByte ∧
      ∀ j, j ≠ b.read % b.poolCnt → b'.lenAt j = b.lenAt j := by
  simp only [recvBuffReadVB] at ht
  split at ht
  · cases ht
  · split at ht
    · cases ht
    · simp only [Prod.mk.injEq] at ht
      obtain ⟨-, hbf, rfl⟩ := ht
      exact ⟨hbf, rfl, rfl, rfl, rfl, rfl, fun j hj => lenAt_setLen_ne b hj 0⟩

theorem readVB_accounted {usize ret : Int} {bf : Block UInt8} {handed : List Nat}
    (hn : 0 < b.poolCnt) (h : m.Accounted b.pool (slotAddrs b.buffers b.poolCnt ++ handed))
    (ht : recvBuffReadVB b usize = (ret, some bf, b')) :
    m.Accounted b.pool (slotAddrs b'.buffers b.poolCnt ++ bf.addr :: handed) := by
  have hi : b.read % b.poolCnt < b.poolCnt := Nat.mod_lt _ hn
  obtain ⟨hslot, hbuf, -⟩ := readVB_some ht
  have hold := slotAddrs_perm b.buffers hi
  simp only [hslot, Option.map_some, Option.toList_some] at hold
  apply h.perm
  rw [hbuf]
  refine List.perm_middle.trans ?_
  exact (((slotAddrs_update hi none).append_right handed).cons bf.addr).trans
    (hold.symm.append_right handed)

/-! ## Consuming -/

namespace QueueRep

variable {enByte : EnByteSize} {r room : Nat} {msgs : List (List UInt8)} {part xs : List UInt8}

theorem check_eq (h : QueueRep enByte n b r msgs part) : b.check = part.length := by
  cases h.unfinished with
  | header _ hcheck _ => exact hcheck
  | body _ _ _ _ _ hcheck => exact hcheck

theorem length_lt_of_room (h : QueueRep enByte n b r msgs part)
    (hpos : 0 < (recvBuffPrepareVB b).1) : msgs.length < n := (h.prepare_cases Prod.mk.eta.symm hpos).1

/-- A message ends before the sizes become negative. -/
theorem room_lt (h : QueueRep enByte n b r msgs part) (hpos : 0 < (recvBuffPrepareVB b).1) :
    part.length + (recvBuffPrepareVB b).1 < 2 ^ 31 := by
  have hen := enByte.toNat_le
  obtain ⟨-, ⟨hpart, hrest, -⟩ | ⟨hpart, hrest, -⟩⟩ := h.prepare_cases Prod.mk.eta.symm hpos
  · omega
  · cases h.unfinished with
    | header hshort => omega
    | body _ hsize _ hbig =>
        rw [maxMessage] at hbig
        omega

/-- Either 1 is returned and the chunk has completed a message, or it has completed none
but maybe an empty one. An error leaves the complete messages as they are. -/
theorem consume_cases (h : QueueRep enByte n b r msgs part) {ptr : RecvPtr}
    (hprep : recvBuffPrepareVB b = (room, some ptr)) (hxs : 0 < xs.length)
    (hfit : xs.length ≤ room) {ret : Int}
    (ht : recvBuffConsumeVB m (b.fill ptr xs) xs.length = (ret, b', m')) :
    (ret = 1 ∧ ∃ p, part ++ xs = frame enByte.toNat p ∧ Valid enByte.toNat maxMessage p ∧
        QueueRep enByte n b' r (msgs ++ [p]) []) ∨
      (ret ≠ 1 ∧
        (∀ size, head enByte.toNat maxMessage (part ++ xs) = .whole size → size = enByte.toNat) ∧
        ∃ part', QueueRep enByte n b' r msgs part' ∧ (0 ≤ ret → part' = part ++ xs)) := by
  have hwhole : ∀ size, head enByte.toNat maxMessage (part ++ xs) = .whole size →
      (part ++ xs).length ≤ size :=
    fun size => h.length_le_of_whole hprep hxs hfit
  obtain ⟨-, harr | ⟨herr, -, hlen⟩⟩ := h.consume_or hprep hxs hfit ht
  · cases hhead : head enByte.toNat maxMessage (part ++ xs) with
    | short | cut =>
        simp only [Arrived, hhead] at harr
        refine .inr ⟨by omega, fun size hwhole => ?_, _, harr.2, fun _ => rfl⟩
        cases hwhole
    | small | big =>
        simp only [Arrived, hhead, enErrRecvMsgSmall, enErrRecvMsgBig] at harr
        obtain ⟨part', hrep⟩ := h.consume_error hprep hxs hfit ht (by omega)
        refine .inr ⟨by omega, fun size hwhole => ?_, part', hrep, fun _ => by omega⟩
        cases hwhole
    | whole size =>
        simp only [Arrived, hhead] at harr
        split at harr
        · rename_i hsize
          refine .inr ⟨by omega, ?_, _, harr.2, fun _ => rfl⟩
          intro size' hsize'
          exact (Head.whole.inj hsize').symm.trans hsize
        · obtain ⟨hframe, hvalid, -⟩ := frame_of_head hhead
          have hle := hwhole size hhead
          rw [List.drop_eq_nil_of_le hle, List.append_nil, List.take_of_length_le hle] at hframe
          rw [List.take_of_length_le hle] at hvalid
          exact .inl ⟨harr.1, _, hframe, hvalid, harr.2⟩
  · -- without memory for the payload, the chunk has completed the header
    obtain ⟨part', hrep⟩ := h.consume_error hprep hxs hfit ht (by rw [herr]; decide)
    refine .inr ⟨by rw [herr]; decide, ?_, part', hrep, ?_⟩
    · intro size hhead
      have hle := (head_whole_iff.mp hhead).2.2.2.2
      have hlo := (head_whole_iff.mp hhead).2.2.1
      omega
    · intro hpos
      rw [herr] at hpos
      exact absurd hpos (by decide)

end QueueRep

/-! ## Slots and messages -/

/-- The complete messages are stored in blocks of their own, and no other slot has a block
but that of the unfinished message. -/
structure Tidy (enByte : EnByteSize) (n r : Nat) (msgs : List (List UInt8)) (part : List UInt8)
    (b : RecvBuff) (m : Memory UInt8) (held : List Nat) : Prop where
  rep : QueueRep enByte n b r msgs part
  vacant : ∀ j, msgs.length ≤ j → j < n → (j = msgs.length → b.check < enByte.toNat) →
    b.buffers ((r + j) % n) = none
  places : m.Accounted b.pool (slotAddrs b.buffers n ++ held)

theorem create_tidy (lens : Block UInt8) (enByte : EnByteSize) (hn : 0 < n) (bufferSize : Nat)
    {pool : Option Nat} (h : m.Accounted pool held) :
    Tidy enByte n 0 [] [] (recvBuffCreateVB lens enByte n bufferSize pool) m held := by
  refine ⟨create_queueRep lens enByte hn bufferSize pool, fun _ _ _ _ => rfl, ?_⟩
  simpa [slotAddrs, recvBuffCreateVB] using h

namespace Tidy

variable {enByte : EnByteSize} {r : Nat} {msgs : List (List UInt8)} {part : List UInt8}

/-- Reading moves the block of the first message out of its slot. -/
theorem read_cons {p : List UInt8} (h : Tidy enByte n r (p :: msgs) part b m held) :
    ∃ bf b', recvBuffReadVB b 8 = ((p.length : Int), some bf, b') ∧ bf.read 0 p.length = p ∧
      Tidy enByte n (r + 1) msgs part b' m (bf.addr :: held) ∧
      ∀ j, j ≠ r % n → b'.buffers j = b.buffers j ∧ b'.lenAt j = b.lenAt j := by
  obtain ⟨bf, b', hread, hbytes, hrep', -⟩ := h.rep.read_cons
  obtain ⟨-, hbuf, hpool, -, hcheck, -, hlens⟩ := readVB_some hread
  have hn := h.rep.n_pos
  have hslot : b.read % b.poolCnt = r % n := by
    rw [h.rep.read, h.rep.poolCnt, Nat.mod_mod_of_dvd _ (Nat.dvd_mul_left n 2), Nat.add_mod_right]
  have hcnt : 0 < b.poolCnt := by
    rw [h.rep.poolCnt]
    exact hn
  have hplaces : m.Accounted b.pool (slotAddrs b.buffers b.poolCnt ++ held) := by
    rw [h.rep.poolCnt]
    exact h.places
  have hplaces := readVB_accounted hcnt hplaces hread
  rw [hslot] at hbuf hlens
  rw [h.rep.poolCnt, ← hpool] at hplaces
  refine ⟨bf, b', hread, hbytes, ⟨hrep', ?_, hplaces⟩, ?_⟩
  · intro j hj hjn hheader
    have hpos : r + 1 + j = r + (j + 1) := by omega
    rw [hbuf, hpos]
    by_cases hlast : j + 1 = n
    · -- the slot that has just been emptied
      rw [hlast, Nat.add_mod_right, Function.update_self]
    · have hold := h.vacant (j + 1) (by simpa using hj) (by omega) fun heq => by
        rw [← hcheck]
        exact hheader (by simpa using heq)
      by_cases heq : (r + (j + 1)) % n = r % n
      · rw [heq, Function.update_self]
      · rwa [Function.update_of_ne heq]
  · intro j hj
    exact ⟨by rw [hbuf, Function.update_of_ne hj], hlens j hj⟩

/-- What a chunk does to the messages and to the blocks. -/
theorem consume (h : Tidy enByte n r msgs part b m held) {room : Nat} {ptr : RecvPtr}
    (hprep : recvBuffPrepareVB b = (room, some ptr)) {xs : List UInt8} (hxs : 0 < xs.length)
    (hfit : xs.length ≤ room) {ret : Int}
    (ht : recvBuffConsumeVB m (b.fill ptr xs) xs.length = (ret, b', m')) :
    ((ret = 1 ∧ ∃ p, part ++ xs = frame enByte.toNat p ∧ Valid enByte.toNat maxMessage p ∧
          Tidy enByte n r (msgs ++ [p]) [] b' m' held) ∨
        (ret ≠ 1 ∧
          (∀ size, head enByte.toNat maxMessage (part ++ xs) = .whole size →
            size = enByte.toNat) ∧
          ∃ part', Tidy enByte n r msgs part' b' m' held ∧ (0 ≤ ret → part' = part ++ xs))) ∧
      ∀ j, j ≠ (r + msgs.length) % n → b'.buffers j = b.buffers j ∧ b'.lenAt j = b.lenAt j := by
  have hn := h.rep.n_pos
  have hcheck := h.rep.check_eq
  have hlt := h.rep.length_lt_of_room (by rw [hprep]; simp only; omega)
  have hsize := h.rep.room_lt (by rw [hprep]; simp only; omega)
  rw [hprep] at hsize
  have hslot : (b.fill ptr xs).write % (b.fill ptr xs).poolCnt = (r + msgs.length) % n := by
    simpa using h.rep.slot_write
  have hconsumed := consumeVB_consumed (by simp only [fill_check]; omega) ht
  have hother : ∀ j, j ≠ (r + msgs.length) % n →
      b'.buffers j = b.buffers j ∧ b'.lenAt j = b.lenAt j := by
    intro j hj
    obtain ⟨hbuf, hlen⟩ := hconsumed.other j (by rwa [hslot])
    obtain ⟨hbuf', hlen'⟩ := fill_other hprep hfit (by rwa [h.rep.slot_write])
    exact ⟨hbuf.trans hbuf', hlen.trans hlen'⟩
  have hplaces : m'.Accounted b'.pool (slotAddrs b'.buffers n ++ held) := by
    rw [hconsumed.pool]
    have hfill : slotAddrs (b.fill ptr xs).buffers n = slotAddrs b.buffers n :=
      slotAddrs_congr fun i _ => b.fill_buffers_addr ptr xs i
    have hcnt : (b.fill ptr xs).poolCnt = n := by
      simpa using h.rep.poolCnt
    have hold : m.Accounted (b.fill ptr xs).pool
        (slotAddrs (b.fill ptr xs).buffers (b.fill ptr xs).poolCnt ++ held) := by
      rw [hcnt, hfill, fill_pool]
      exact h.places
    have hstep := consumeVB_accounted (by rw [hcnt]; exact hn) ?_ hold ht
    · rwa [hcnt] at hstep
    · rw [hslot, fill_buffers_none]
      intro hheader
      apply h.vacant _ (le_refl _) hlt
      intro _
      simpa [h.rep.enByte] using hheader
  refine ⟨?_, hother⟩
  obtain ⟨hret, p, hframe, hvalid, hrep⟩ | ⟨hret, hnot, part', hrep, hpart⟩ :=
    h.rep.consume_cases hprep hxs hfit ht
  · refine .inl ⟨hret, p, hframe, hvalid, hrep, ?_, hplaces⟩
    intro j hj hjn _
    rw [List.length_append, List.length_singleton] at hj
    have hne : (r + j) % n ≠ (r + msgs.length) % n := (slot_ne (by omega) (by omega)).symm
    rw [(hother _ hne).1]
    exact h.vacant j (by omega) hjn (by omega)
  · refine .inr ⟨hret, hnot, part', ⟨hrep, ?_, hplaces⟩, hpart⟩
    intro j hj hjn hheader
    by_cases hlast : j = msgs.length
    · -- the header is still incomplete
      subst hlast
      have hopen : b'.check < (b.fill ptr xs).enByte.toNat := by
        simpa [h.rep.enByte] using hheader rfl
      have hstill := hconsumed.still_header hret hopen
      simp only [fill_check, fill_enByte, h.rep.enByte] at hstill
      rw [hconsumed.open_header hopen, fill_buffers_none]
      exact h.vacant _ (le_refl _) hjn fun _ => hstill
    · have hne : (r + j) % n ≠ (r + msgs.length) % n := (slot_ne (by omega) (by omega)).symm
      rw [(hother _ hne).1]
      exact h.vacant j hj hjn (fun heq => absurd heq hlast)

end Tidy

end RecvBuff

/-! ## The queue and its users -/

/-- `ret` is the result of the last consume call. -/
structure MessageQueue where
  rbuff : RecvBuff
  mem : Memory UInt8
  prepared : Option (Nat × Option RecvPtr)
  ret : Int
  input : List UInt8
  delivered : List (List UInt8)
  handed : List (Block UInt8)

namespace MessageQueue

inductive Action
  | prepare
  | consume (xs : List UInt8)
  | read (usize : Int)

def step (s : MessageQueue) : Action → Option MessageQueue
  | .prepare =>
      if s.ret < 0 then none else some { s with prepared := some (recvBuffPrepareVB s.rbuff) }
  | .consume xs =>
      match s.prepared with
      | none => none
      | some (room, ptr) =>
          if xs.length ≤ room then
            let rbuff := (ptr.map fun p => s.rbuff.fill p xs).getD s.rbuff
            let res := recvBuffConsumeVB s.mem rbuff xs.length
            some { s with
              rbuff := res.2.1
              mem := res.2.2
              prepared := none
              ret := res.1
              input := s.input ++ xs }
          else none
  | .read usize =>
      let res := recvBuffReadVB s.rbuff usize
      some { s with
        rbuff := res.2.2
        delivered := match res.2.1 with
          | some bf => s.delivered ++ [bf.read 0 res.1.toNat]
          | none => s.delivered
        handed := s.handed ++ res.2.1.toList }

/-- A new queue on a heap in which every block is in one place. -/
inductive Init : MessageQueue → Prop
  | mk {mem : Memory UInt8} {n : Nat} (hn : 0 < n) (hle : n ≤ 0xefff) (lens : Block UInt8)
      (enByte : EnByteSize) (bufferSize : Nat) {pool : Option Nat} {others : List Nat}
      (hmem : mem.Accounted pool others) :
      Init { rbuff := recvBuffCreateVB lens enByte n bufferSize pool, mem := mem,
             prepared := none, ret := 0, input := [], delivered := [], handed := [] }

/-- The payloads of the frames at the start of the input. -/
def frames (s : MessageQueue) : List (List UInt8) :=
  (split s.rbuff.enByte.toNat maxMessage s.input).1

structure Safe (s : MessageQueue) : Prop where
  in_order : s.delivered <+: s.frames
  bounded : s.frames.length ≤ s.delivered.length + s.rbuff.poolCnt
  stored : ∀ j p, s.delivered.length ≤ j → s.frames[j]? = some p →
    s.rbuff.Stored (j % s.rbuff.poolCnt) p
  unreferenced : ∀ bf ∈ s.handed, ∀ i < s.rbuff.poolCnt,
    (s.rbuff.buffers i).map Block.addr ≠ some bf.addr

/-- A consume call returns 1 exactly for the last chunk of a frame. No step changes the
slots of the messages that are undelivered before and after it. -/
structure Keeps (s : MessageQueue) (a : Action) (t : MessageQueue) : Prop where
  returns : ∀ xs, a = .consume xs → (t.ret = 1 ↔ t.frames.length = s.frames.length + 1)
  untouched : ∀ j, t.delivered.length ≤ j → j < s.frames.length →
    t.rbuff.buffers (j % s.rbuff.poolCnt) = s.rbuff.buffers (j % s.rbuff.poolCnt) ∧
      t.rbuff.lenAt (j % s.rbuff.poolCnt) = s.rbuff.lenAt (j % s.rbuff.poolCnt)

/-- The chunk completes no frame without a payload. -/
def Nonempty (s : MessageQueue) : Action → Prop
  | .consume xs => [] ∉ (split s.rbuff.enByte.toNat maxMessage (s.input ++ xs)).1
  | _ => True

instance (s : MessageQueue) (a : Action) : Decidable (s.Nonempty a) :=
  match a with
  | .consume _ => inferInstanceAs (Decidable (_ ∉ _))
  | .prepare | .read _ => inferInstanceAs (Decidable True)

end MessageQueue

def messageQueue : Machine MessageQueue MessageQueue.Action where
  Init := MessageQueue.Init
  step := MessageQueue.step

namespace MessageQueue

/-! ## What is stored -/

/-- The complete messages `msgs` are what follows the delivered ones. -/
structure Stores (enByte : EnByteSize) (n : Nat) (others : List Nat) (msgs : List (List UInt8))
    (part : List UInt8) (s : MessageQueue) : Prop where
  tidy : RecvBuff.Tidy enByte n s.delivered.length msgs part s.rbuff s.mem
    (s.handed.map Block.addr ++ others)
  frames : s.frames = s.delivered ++ msgs
  going : 0 ≤ s.ret → s.input = encode enByte.toNat (s.delivered ++ msgs) ++ part ∧
    ∀ p ∈ s.delivered ++ msgs, Valid enByte.toNat maxMessage p
  piece : ∀ room ptr, s.prepared = some (room, ptr) → 0 ≤ s.ret ∧
    (0 < room → recvBuffPrepareVB s.rbuff = (room, ptr))

theorem Init.stores {s : MessageQueue} (h : Init s) :
    ∃ enByte n others, s.Stores enByte n others [] [] := by
  cases h with
  | @mk mem n hn hle lens enByte bufferSize pool others hmem =>
      refine ⟨enByte, n, others, RecvBuff.create_tidy lens enByte hn bufferSize ?_, rfl, ?_, nofun⟩
      · exact hmem
      · exact fun _ => ⟨rfl, by simp⟩

namespace Stores

variable {enByte : EnByteSize} {n : Nat} {others : List Nat} {msgs : List (List UInt8)}
  {part : List UInt8} {s t : MessageQueue}

theorem safe (h : s.Stores enByte n others msgs part) : s.Safe where
  in_order := ⟨msgs, h.frames.symm⟩
  bounded := by
    rw [h.frames, h.tidy.rep.poolCnt, List.length_append]
    exact Nat.add_le_add_left h.tidy.rep.fits _
  stored j p hj hp := by
    rw [h.frames, List.getElem?_append_right hj] at hp
    have hstored := h.tidy.rep.stored _ p hp
    rw [h.tidy.rep.poolCnt]
    rwa [Nat.add_sub_of_le hj] at hstored
  unreferenced bf hbf i hi := by
    intro hslot
    rw [h.tidy.rep.poolCnt] at hi
    have hnodup := (List.nodup_append.mp h.tidy.places.nodup).1
    have hmem : bf.addr ∈ slotAddrs s.rbuff.buffers n :=
      List.mem_filterMap.mpr ⟨i, List.mem_range.mpr hi, hslot⟩
    have hheld : bf.addr ∈ s.handed.map Block.addr ++ others :=
      List.mem_append_left _ (List.mem_map_of_mem hbf)
    exact (List.nodup_append.mp hnodup).2.2 _ hmem _ hheld rfl

theorem prepare (h : s.Stores enByte n others msgs part) (ht : s.step .prepare = some t) :
    t.Stores enByte n others msgs part ∧ s.Keeps .prepare t := by
  simp only [step] at ht
  split at ht
  · cases ht
  · rename_i hgoing
    obtain rfl := Option.some.inj ht
    refine ⟨⟨h.tidy, h.frames, h.going, ?_⟩, ⟨nofun, fun _ _ _ => ⟨rfl, rfl⟩⟩⟩
    intro room ptr hprep
    exact ⟨Int.not_lt.mp hgoing, fun _ => Option.some.inj hprep⟩

theorem read (h : s.Stores enByte n others msgs part) {usize : Int}
    (ht : s.step (.read usize) = some t) :
    (∃ msgs', t.Stores enByte n others msgs' part) ∧ s.Keeps (.read usize) t := by
  have hsame : recvBuffReadVB s.rbuff usize = (0, none, s.rbuff) →
      (∃ msgs', t.Stores enByte n others msgs' part) ∧ s.Keeps (.read usize) t := by
    intro hread
    simp only [step, hread, Option.toList_none, List.append_nil] at ht
    obtain rfl := Option.some.inj ht
    exact ⟨⟨msgs, h⟩, ⟨nofun, fun _ _ _ => ⟨rfl, rfl⟩⟩⟩
  by_cases husize : usize = 8
  · subst husize
    cases msgs with
    | nil => exact hsame h.tidy.rep.read_nil
    | cons p msgs =>
        obtain ⟨bf, b', hread, hbytes, htidy, hother⟩ := h.tidy.read_cons
        simp only [step, hread, Int.toNat_natCast, hbytes, Option.toList_some] at ht
        obtain rfl := Option.some.inj ht
        have hframes : (split b'.enByte.toNat maxMessage s.input).1 = s.frames := by
          rw [htidy.rep.enByte, MessageQueue.frames, h.tidy.rep.enByte]
        refine ⟨⟨msgs, ?_, ?_, ?_, ?_⟩, ⟨nofun, ?_⟩⟩
        · refine ⟨by simpa using htidy.rep, by simpa using htidy.vacant, ?_⟩
          apply htidy.places.perm
          apply List.Perm.append_left
          simp only [List.map_append, List.map_cons, List.map_nil, List.append_assoc,
            List.singleton_append]
          exact List.perm_middle
        · simpa [MessageQueue.frames] using hframes.trans h.frames
        · simpa using h.going
        · intro room ptr hprep
          obtain ⟨hgoing, hpiece⟩ := h.piece room ptr hprep
          refine ⟨hgoing, fun hpos => ?_⟩
          have hprep' := hpiece hpos
          have hsame := h.tidy.rep.prepare_after_read htidy.rep (by rw [hprep']; exact hpos)
          exact hsame.trans hprep'
        · intro j hj hjlt
          simp only [List.length_append, h.frames, List.length_cons] at hj hjlt
          have hfits : msgs.length + 1 ≤ n := h.tidy.rep.fits
          have hne : j % n ≠ s.delivered.length % n := by
            intro heq
            have := LapRing.block_index_unique heq (by omega) (by omega)
            omega
          rw [h.tidy.rep.poolCnt]
          exact hother _ hne
  · apply hsame
    rw [recvBuffReadVB, if_pos husize]

/-- Bytes behind whole frames. -/
theorem frames_append (h : s.Stores enByte n others msgs part) (hgoing : 0 ≤ s.ret)
    (xs : List UInt8) : (split enByte.toNat maxMessage (s.input ++ xs)).1 =
      s.delivered ++ msgs ++ (split enByte.toNat maxMessage (part ++ xs)).1 := by
  obtain ⟨hinput, hvalid⟩ := h.going hgoing
  rw [hinput, List.append_assoc, split_append enByte.toNat_pos hvalid]

/-- The chunk that completes the header of an empty payload completes a frame. -/
theorem head_ne (h : s.Stores enByte n others msgs part) (hgoing : 0 ≤ s.ret) {xs : List UInt8}
    (hok : s.Nonempty (.consume xs)) :
    head enByte.toNat maxMessage (part ++ xs) ≠ .whole enByte.toNat := by
  intro hhead
  apply hok
  rw [h.tidy.rep.enByte, h.frames_append hgoing, split_of_whole enByte.toNat_pos hhead]
  have hnil : ((part ++ xs).take enByte.toNat).drop enByte.toNat = [] := by simp
  rw [hnil]
  exact List.mem_append_right _ List.mem_cons_self

/-- A chunk that is not empty. -/
theorem consume_some (h : s.Stores enByte n others msgs part) (hgoing : 0 ≤ s.ret) {room : Nat}
    {p : RecvPtr} (hroom : recvBuffPrepareVB s.rbuff = (room, some p)) {xs : List UInt8}
    (hpos : 0 < xs.length) (hfit : xs.length ≤ room) (hok : s.Nonempty (.consume xs))
    {ret : Int} {b' : RecvBuff} {m' : Memory UInt8}
    (hres : recvBuffConsumeVB s.mem (s.rbuff.fill p xs) xs.length = (ret, b', m')) :
    (∃ msgs' part', Stores enByte n others msgs' part'
        { s with rbuff := b', mem := m', prepared := none, ret := ret, input := s.input ++ xs }) ∧
      s.Keeps (.consume xs)
        { s with rbuff := b', mem := m', prepared := none, ret := ret, input := s.input ++ xs } := by
  obtain ⟨houtcome, hother⟩ := h.tidy.consume hroom hpos hfit hres
  have hfits := h.tidy.rep.fits
  have hlt := h.tidy.rep.length_lt_of_room (by rw [hroom]; simp only; omega)
  have huntouched : ∀ j, s.delivered.length ≤ j → j < s.frames.length →
      b'.buffers (j % s.rbuff.poolCnt) = s.rbuff.buffers (j % s.rbuff.poolCnt) ∧
        b'.lenAt (j % s.rbuff.poolCnt) = s.rbuff.lenAt (j % s.rbuff.poolCnt) := by
    intro j hj hjlt
    rw [h.frames, List.length_append] at hjlt
    rw [h.tidy.rep.poolCnt]
    apply hother
    intro heq
    have := LapRing.block_index_unique heq.symm (by omega) (by omega)
    omega
  obtain ⟨hinput, hvalid⟩ := h.going hgoing
  obtain ⟨rfl, q, hframe, hq, htidy⟩ | ⟨hret, hnot, part', htidy, hpart⟩ := houtcome
  · -- the frame of `q` is complete
    have hframes : (split b'.enByte.toNat maxMessage (s.input ++ xs)).1 =
        s.delivered ++ (msgs ++ [q]) := by
      have hone := @split_append _ maxMessage enByte.toNat_pos [q] (by simpa using hq) []
      have hnil : (split enByte.toNat maxMessage []).1 = [] := rfl
      simp only [encode_cons, encode_nil, List.append_nil, hnil] at hone
      rw [htidy.rep.enByte, h.frames_append hgoing, hframe, hone, List.append_assoc]
    refine ⟨⟨msgs ++ [q], [], htidy, hframes, ?_, nofun⟩, ⟨?_, huntouched⟩⟩
    · intro _
      refine ⟨?_, ?_⟩
      · simp only [hinput, List.append_assoc, hframe]
        simp [encode_append]
      · rw [← List.append_assoc]
        exact List.forall_mem_append.mpr ⟨hvalid, List.forall_mem_singleton.mpr hq⟩
    · intro _ _
      rw [h.frames]
      simp [MessageQueue.frames, hframes, Nat.add_assoc]
  · have hnone : ∀ size, head enByte.toNat maxMessage (part ++ xs) ≠ .whole size := by
      intro size hhead
      obtain rfl := hnot size hhead
      exact h.head_ne hgoing hok hhead
    have hframes : (split b'.enByte.toNat maxMessage (s.input ++ xs)).1 = s.delivered ++ msgs := by
      rw [htidy.rep.enByte, h.frames_append hgoing, split_of_not_whole hnone, List.append_nil]
    refine ⟨⟨msgs, part', htidy, hframes, ?_, nofun⟩, ⟨?_, huntouched⟩⟩
    · intro hpos'
      refine ⟨?_, hvalid⟩
      rw [hinput, hpart hpos', List.append_assoc]
    · intro _ _
      rw [h.frames]
      simp [MessageQueue.frames, hframes, hret]

theorem consume (h : s.Stores enByte n others msgs part) {xs : List UInt8}
    (hok : s.Nonempty (.consume xs)) (ht : s.step (.consume xs) = some t) :
    (∃ msgs' part', t.Stores enByte n others msgs' part') ∧ s.Keeps (.consume xs) t := by
  simp only [step] at ht
  split at ht
  · cases ht
  · rename_i room ptr hprep
    split at ht
    · rename_i hfit
      obtain ⟨hgoing, hpiece⟩ := h.piece room ptr hprep
      obtain rfl := Option.some.inj ht
      by_cases hxs : xs = []
      · subst hxs
        simp only [s.rbuff.fill_map_nil ptr, List.length_nil, recvBuffConsumeVB, if_true,
          List.append_nil]
        refine ⟨⟨msgs, part, h.tidy, h.frames, fun _ => h.going hgoing, ?_⟩,
          ⟨?_, fun _ _ _ => ⟨rfl, rfl⟩⟩⟩
        · intro room ptr hnone
          cases hnone
        · intro _ _
          simp [MessageQueue.frames]
      · have hpos : 0 < xs.length := List.length_pos_iff.mpr hxs
        have hroom := hpiece (by omega)
        obtain ⟨p, hptr⟩ := h.tidy.rep.prepare_ptr (by rw [hroom]; simp only; omega)
        rw [hroom] at hptr
        obtain rfl : ptr = some p := hptr
        simp only [Option.map_some, Option.getD_some]
        generalize hres : recvBuffConsumeVB s.mem (s.rbuff.fill p xs) xs.length = res
        obtain ⟨ret, b', m'⟩ := res
        exact h.consume_some hgoing hroom hpos hfit hok hres
    · cases ht

/-- Every step keeps what is stored. -/
theorem step (h : s.Stores enByte n others msgs part) {a : Action} (hok : s.Nonempty a)
    (ht : s.step a = some t) :
    (∃ msgs' part', t.Stores enByte n others msgs' part') ∧ s.Keeps a t := by
  cases a with
  | prepare =>
      obtain ⟨hstores, hkeeps⟩ := h.prepare ht
      exact ⟨⟨msgs, part, hstores⟩, hkeeps⟩
  | consume xs => exact h.consume hok ht
  | read usize =>
      obtain ⟨⟨msgs', hstores⟩, hkeeps⟩ := h.read ht
      exact ⟨⟨msgs', part, hstores⟩, hkeeps⟩

end Stores

def Inv (s : MessageQueue) : Prop := ∃ enByte n others msgs part, s.Stores enByte n others msgs part

theorem inv_of_reachable {s : MessageQueue} (h : messageQueue.ReachableVia Nonempty s) : s.Inv := by
  apply h.invariant
  · intro s hs
    obtain ⟨enByte, n, others, hstores⟩ := Init.stores hs
    exact ⟨enByte, n, others, [], [], hstores⟩
  · intro s t a hs hok hstep
    obtain ⟨enByte, n, others, msgs, part, hstores⟩ := hs
    obtain ⟨⟨msgs', part', hstores'⟩, -⟩ := hstores.step hok hstep
    exact ⟨enByte, n, others, msgs', part', hstores'⟩

end MessageQueue

/-! ## Every run -/

/-- As long as no chunk completes a frame without a payload, the queue is safe in every
state and every step keeps it so. -/
theorem messageQueue_safe {s : MessageQueue}
    (h : messageQueue.ReachableVia MessageQueue.Nonempty s) :
    s.Safe ∧ ∀ a t, s.Nonempty a → s.step a = some t → s.Keeps a t := by
  obtain ⟨enByte, n, others, msgs, part, hstores⟩ := MessageQueue.inv_of_reachable h
  refine ⟨hstores.safe, fun a t hok hstep => ?_⟩
  exact (hstores.step hok hstep).2

/-- A queue of two messages with one-byte headers, on a heap of zeros. -/
def MessageQueue.fresh : MessageQueue where
  rbuff := recvBuffCreateVB { addr := 0, size := 0, data := fun _ => 0 } .enByte8 2 0 none
  mem :=
    { brk := 0, fate := fun _ => some (fun _ => 0), freed := [],
      pools := fun _ => buffPoolCreate 3 0 }
  prepared := none
  ret := 0
  input := []
  delivered := []
  handed := []

theorem MessageQueue.init_fresh : messageQueue.Init MessageQueue.fresh :=
  @Init.mk _ _ (by decide) (by decide) _ _ _ _ [] ⟨by decide, nofun⟩

/-- Two messages in five chunks, the first of them read. -/
theorem messageQueue_safe_two : ∃ s, messageQueue.runVia MessageQueue.Nonempty
    MessageQueue.fresh [.prepare, .consume [3], .prepare, .consume [7], .prepare, .consume [8],
      .prepare, .consume [2], .read 8, .prepare, .consume [9]] = some s ∧ s.ret = 1 ∧
      s.Safe ∧ ∀ a t, s.Nonempty a → s.step a = some t → s.Keeps a t := by
  obtain ⟨s, hrun, hret⟩ : ∃ s, messageQueue.runVia MessageQueue.Nonempty
      MessageQueue.fresh [.prepare, .consume [3], .prepare, .consume [7], .prepare, .consume [8],
        .prepare, .consume [2], .read 8, .prepare, .consume [9]] = some s ∧ s.ret = 1 :=
    ⟨_, rfl, rfl⟩
  exact ⟨s, hrun, hret, messageQueue_safe (.runVia (.init MessageQueue.init_fresh) hrun)⟩

/-- The header of an empty payload completes its frame, and 0 is returned. -/
theorem messageQueue_empty_missed : ¬ ∀ s, messageQueue.Reachable s →
    s.Safe ∧ ∀ a t, s.step a = some t → s.Keeps a t := by
  intro h
  obtain ⟨s, hrun, t, hstep, hret, hlen⟩ : ∃ s, messageQueue.run MessageQueue.fresh [.prepare] =
      some s ∧ ∃ t, s.step (.consume [1]) = some t ∧ t.ret = 0 ∧
        t.frames.length = s.frames.length + 1 := ⟨_, rfl, _, rfl, rfl, by decide⟩
  have hreach := Machine.Reachable.run (.init MessageQueue.init_fresh) hrun
  have hreturns := ((h s hreach).2 _ t hstep).returns [1] rfl
  rw [hret] at hreturns
  exact absurd (hreturns.mpr hlen) (by decide)

end RandServer
