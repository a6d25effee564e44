import RandServer.Lib.Machine
import RandServer.Net.RecvQueue
import RandServer.Net.RecvRing

/-!
# A receive buffer and its callers

The machine of one `recv_buff`: the network side prepares a region and consumes at most
that many bytes, and a reader removes messages, in any order. The bytes consumed so far
are `input`, the payloads removed so far are `removed`. A read counts as a removal when
it has moved the read cursor, since an empty payload returns 0 like an empty buffer.

For vA, `RingInv` ties both to the stored bytes, and `recvBuff_framed` states that the
reads cut the stream at its headers, whatever the chunks were.
-/

namespace RandServer

open LapRing Framing

structure Receiver where
  rbuff : RecvBuff
  mem : Memory UInt8
  prepared : Option (Nat × Option RecvPtr)
  input : List UInt8
  removed : List (List UInt8)

namespace Receiver

inductive Action
  | prepare
  | consume (xs : List UInt8)
  | read (usize : Int)

/-- A prepare call waits while the lock of an earlier one is held. A consume call copies
its bytes to the prepared pointer first. -/
def step (s : Receiver) : Action → Option Receiver
  | .prepare =>
      if s.rbuff.prepFlag then none
      else
        let res := recvBuffPrepare s.mem s.rbuff
        some { s with rbuff := res.2.2.1, mem := res.2.2.2, prepared := some (res.1, res.2.1) }
  | .consume xs =>
      match s.prepared with
      | none => none
      | some (room, ptr) =>
          if xs.length ≤ room then
            let rbuff := (ptr.map fun p => s.rbuff.fill p xs).getD s.rbuff
            let res := recvBuffConsume s.mem rbuff xs.length
            some { s with
              rbuff := res.2.1
              mem := res.2.2
              prepared := none
              input := s.input ++ xs }
          else none
  | .read usize =>
      if 0 ≤ usize ∧ usize < 2 ^ 31 then
        let res := recvBuffRead s.mem s.rbuff usize
        some { s with
          rbuff := res.2.2.1
          mem := res.2.2.2
          removed := if res.2.2.1.read = s.rbuff.read then s.removed
            else s.removed ++ [res.2.1] }
      else none

/-- A new receive buffer, over any pool and any heap. -/
inductive Init : RecvVersion → Receiver → Prop
  | useBuff {mem : Memory UInt8} {n pool : Nat} (g : Geometry n (mem.pools pool).bufferSize)
      (lens : Block UInt8) (enByte : EnByteSize) :
      Init .useBuff
        { rbuff := recvBuffCreateVA mem lens enByte n pool, mem := mem, prepared := none,
          input := [], removed := [] }
  | useQueue (mem : Memory UInt8) {n : Nat} (hn : 0 < n) (lens : Block UInt8)
      (enByte : EnByteSize) (bufferSize : Nat) (pool : Option Nat) :
      Init .useQueue
        { rbuff := recvBuffCreateVB lens enByte n bufferSize pool, mem := mem, prepared := none,
          input := [], removed := [] }

/-- The largest frame that the version accepts. -/
def limit (s : Receiver) : Nat :=
  match s.rbuff.version with
  | .useBuff => s.rbuff.poolCnt * s.rbuff.bufferSize
  | .useQueue => maxMessage

/-- The payloads and the rest of the bytes received so far. -/
def received (s : Receiver) : List (List UInt8) × List UInt8 :=
  split s.rbuff.enByte.toNat s.limit s.input

end Receiver

def receiver (v : RecvVersion) : Machine Receiver Receiver.Action where
  Init := Receiver.Init v
  step := Receiver.step

namespace Receiver

/-! ## The ring version -/

/-- The stored bytes are what follows the removed frames, and a prepared piece is still
there. -/
def RingInv (enByte : EnByteSize) (n bs : Nat) (s : Receiver) : Prop :=
  s.rbuff.version = .useBuff ∧ ∃ r stored,
    RecvBuff.RingRep enByte n bs s.rbuff r stored ∧
    s.input = encode enByte.toNat s.removed ++ stored ∧
    (∀ p ∈ s.removed, Valid enByte.toNat (n * bs) p) ∧
    ∀ room ptr, s.prepared = some (room, ptr) → 0 < room →
      ptr = some (.buffer (slot n bs (r + stored.length)) (offset bs (r + stored.length))) ∧
        RecvBuff.RingSpace n bs s.rbuff (r + stored.length) stored.length room

/-- `RingInv` with the read position and the stored bytes as parameters. -/
structure RingAt (enByte : EnByteSize) (n bs r : Nat) (stored : List UInt8) (s : Receiver) :
    Prop where
  version : s.rbuff.version = .useBuff
  rep : RecvBuff.RingRep enByte n bs s.rbuff r stored
  input : s.input = encode enByte.toNat s.removed ++ stored
  valid : ∀ p ∈ s.removed, Valid enByte.toNat (n * bs) p
  piece : ∀ room ptr, s.prepared = some (room, ptr) → 0 < room →
    ptr = some (.buffer (slot n bs (r + stored.length)) (offset bs (r + stored.length))) ∧
      RecvBuff.RingSpace n bs s.rbuff (r + stored.length) stored.length room

theorem ringInv_iff {enByte : EnByteSize} {n bs : Nat} {s : Receiver} :
    RingInv enByte n bs s ↔ ∃ r stored, RingAt enByte n bs r stored s := by
  constructor
  · rintro ⟨hv, r, stored, hrep, hinput, hvalid, hpiece⟩
    exact ⟨r, stored, hv, hrep, hinput, hvalid, hpiece⟩
  · rintro ⟨r, stored, h⟩
    exact ⟨h.version, r, stored, h.rep, h.input, h.valid, h.piece⟩

theorem ringAt_create {mem : Memory UInt8} {n pool : Nat}
    (g : Geometry n (mem.pools pool).bufferSize) (lens : Block UInt8) (enByte : EnByteSize) :
    RingAt enByte n (mem.pools pool).bufferSize 0 []
      { rbuff := recvBuffCreateVA mem lens enByte n pool, mem := mem, prepared := none,
        input := [], removed := [] } where
  version := rfl
  rep := RecvBuff.create_ringRep lens enByte g
  input := rfl
  valid := fun _ hp => (List.not_mem_nil hp).elim
  piece := fun _ _ hprep => nomatch hprep

theorem Init.ringInv {s : Receiver} (h : Init .useBuff s) :
    ∃ enByte n bs, RingInv enByte n bs s := by
  cases h with
  | useBuff g lens enByte =>
      exact ⟨enByte, _, _, ringInv_iff.mpr ⟨0, [], ringAt_create g lens enByte⟩⟩

section RingAt

variable {enByte : EnByteSize} {n bs r : Nat} {stored : List UInt8} {s t : Receiver}

theorem RingAt.prepare (h : RingAt enByte n bs r stored s) (ht : s.step .prepare = some t) :
    RingAt enByte n bs r stored t ∧ t.removed = s.removed ∧ t.input = s.input := by
  have hversion := recvBuffPrepare_version s.mem s.rbuff
  simp only [step] at ht
  split at ht
  · cases ht
  · obtain rfl := Option.some.inj ht
    generalize hres : recvBuffPrepare s.mem s.rbuff = res at hversion
    obtain ⟨room, ptr, b', m'⟩ := res
    have hres' := hres
    simp only [recvBuffPrepare, h.version] at hres'
    obtain ⟨-, hrep', hspace, -⟩ := h.rep.prepare hres'
    refine ⟨⟨hversion.trans h.version, hrep', h.input, h.valid, ?_⟩, rfl, rfl⟩
    intro room' ptr' hprep hpos
    simp only [Option.some.injEq, Prod.mk.injEq] at hprep
    obtain ⟨rfl, rfl⟩ := hprep
    exact hspace hpos

theorem RingAt.consume (h : RingAt enByte n bs r stored s) {xs : List UInt8}
    (ht : s.step (.consume xs) = some t) :
    RingAt enByte n bs r (stored ++ xs) t ∧ t.removed = s.removed ∧ t.input = s.input ++ xs := by
  simp only [step] at ht
  split at ht
  · cases ht
  · rename_i room ptr hprep
    split at ht
    · rename_i hfit
      obtain rfl := Option.some.inj ht
      by_cases hxs : xs = []
      · subst hxs
        have hfill := s.rbuff.fill_map_nil ptr
        simp only [hfill, recvBuffConsume, h.version, List.length_nil, List.append_nil]
        exact ⟨⟨h.version, h.rep.consume_nil rfl, h.input, h.valid, nofun⟩, trivial, trivial⟩
      · have hpos : 0 < xs.length := List.length_pos_iff.mpr hxs
        obtain ⟨rfl, hspace⟩ := h.piece room ptr hprep (by omega)
        have hversion := (s.rbuff.fill_version (.buffer (slot n bs (r + stored.length))
          (offset bs (r + stored.length))) xs).trans h.version
        refine ⟨⟨(recvBuffConsume_version _ _ _).trans hversion, ?_, ?_, h.valid, nofun⟩, rfl,
          rfl⟩
        · simp only [Option.map_some, Option.getD_some, recvBuffConsume, hversion]
          exact h.rep.consume hspace hpos hfit rfl
        · simp only [h.input, List.append_assoc]
    · cases ht

/-- A read removes the front frame, or changes nothing because there is no complete frame
or the destination is too small. -/
theorem RingAt.read (h : RingAt enByte n bs r stored s) {usize : Int}
    (ht : s.step (.read usize) = some t) :
    (t = s ∧ ∀ size, head enByte.toNat (n * bs) stored = .whole size →
        usize < (size - enByte.toNat : Nat)) ∨
      ∃ size, head enByte.toNat (n * bs) stored = .whole size ∧
        (size - enByte.toNat : Nat) ≤ usize ∧
        RingAt enByte n bs (r + size) (stored.drop size) t ∧
        t.removed = s.removed ++ [(stored.take size).drop enByte.toNat] ∧ t.input = s.input := by
  have hversion := (recvBuffRead_version s.mem s.rbuff usize).trans h.version
  simp only [step, recvBuffRead, h.version] at ht hversion
  split at ht
  · rename_i husize
    obtain rfl := Option.some.inj ht
    by_cases hwhole : ∃ size, head enByte.toNat (n * bs) stored = .whole size
    · obtain ⟨size, hwhole⟩ := hwhole
      rcases Int.lt_or_le usize (size - enByte.toNat : Nat) with hsmall | hlarge
      · simp only [h.rep.read_refused hwhole s.mem husize.1 hsmall, if_true, true_and]
        refine .inl fun size' hwhole' => ?_
        obtain rfl := Head.whole.inj (hwhole.symm.trans hwhole')
        exact hsmall
      · obtain ⟨b', m', hread, -, hrep', hkeep, hmoved⟩ :=
          h.rep.read_whole hwhole s.mem husize.2 hlarge
        obtain ⟨hstored, hv', -⟩ := frame_of_head hwhole
        have hle : size ≤ stored.length := (head_whole_iff.mp hwhole).2.2.2.2
        have hend : r + size + (stored.drop size).length = r + stored.length := by
          rw [List.length_drop]
          omega
        rw [hread] at hversion
        simp only [hread, if_neg hmoved]
        refine .inr ⟨size, hwhole, hlarge, ⟨hversion, hrep', ?_, ?_, ?_⟩, rfl, trivial⟩
        · rw [h.input, encode_append, encode_cons, encode_nil, List.append_nil,
            List.append_assoc, ← hstored]
        · exact List.forall_mem_append.mpr ⟨h.valid, List.forall_mem_singleton.mpr hv'⟩
        · intro room ptr hprep hpos
          obtain ⟨hptr, ⟨bf, hbf⟩, hblock, hring⟩ := h.piece room ptr hprep hpos
          rw [hend]
          refine ⟨hptr, ⟨bf, hkeep.trans hbf⟩, hblock, ?_⟩
          rw [List.length_drop]
          omega
    · have hnot : ∀ size, head enByte.toNat (n * bs) stored ≠ .whole size :=
        fun size heq => hwhole ⟨size, heq⟩
      simp only [h.rep.read_incomplete hnot, if_true, true_and]
      exact .inl fun size heq => absurd heq (hnot size)
  · cases ht

theorem RingInv.step {i : Action} (h : RingInv enByte n bs s) (ht : s.step i = some t) :
    RingInv enByte n bs t := by
  obtain ⟨r, stored, h⟩ := ringInv_iff.mp h
  cases i with
  | prepare => exact ringInv_iff.mpr ⟨r, stored, (h.prepare ht).1⟩
  | consume xs => exact ringInv_iff.mpr ⟨r, stored ++ xs, (h.consume ht).1⟩
  | read usize =>
      obtain ⟨rfl, -⟩ | ⟨size, -, -, h', -⟩ := h.read ht
      · exact ringInv_iff.mpr ⟨r, stored, h⟩
      · exact ringInv_iff.mpr ⟨_, _, h'⟩

end RingAt

/-- The reads cut the stream at its headers: the removed payloads are the leading ones of
every continuation of the input, a large enough read returns the next one, and the
error of an invalid header is returned once all earlier frames are gone. -/
structure Framed (s : Receiver) : Prop where
  in_order : ∀ rest, s.removed <+:
    (split s.rbuff.enByte.toNat s.limit (s.input ++ rest)).1
  next : ∀ p later, s.received.1 = s.removed ++ p :: later → ∀ usize : Int,
    p.length ≤ usize → usize < 2 ^ 31 →
      (recvBuffRead s.mem s.rbuff usize).1 = p.length ∧
        (recvBuffRead s.mem s.rbuff usize).2.1 = p
  too_small : s.received.1 = s.removed →
    head s.rbuff.enByte.toNat s.limit s.received.2 = .small →
      ∀ usize, (recvBuffRead s.mem s.rbuff usize).1 = enErrRecvMsgSmall
  too_big : s.received.1 = s.removed →
    head s.rbuff.enByte.toNat s.limit s.received.2 = .big →
      ∀ usize, (recvBuffRead s.mem s.rbuff usize).1 = enErrRecvMsgBig

theorem RingInv.framed {enByte : EnByteSize} {n bs : Nat} {s : Receiver}
    (h : RingInv enByte n bs s) : s.Framed := by
  obtain ⟨hv, r, stored, hrep, hinput, hvalid, -⟩ := h
  have hen := enByte.toNat_pos
  have hlimit : s.limit = n * bs := by
    simp only [limit, hv, hrep.poolCnt, hrep.bufferSize]
  have hsplit : ∀ rest, split enByte.toNat (n * bs) (s.input ++ rest) =
      (s.removed ++ (split enByte.toNat (n * bs) (stored ++ rest)).1,
        (split enByte.toNat (n * bs) (stored ++ rest)).2) := by
    intro rest
    rw [hinput, List.append_assoc, split_append hen hvalid]
  have hreceived := hsplit []
  rw [List.append_nil, List.append_nil] at hreceived
  have herror : s.received.1 = s.removed → ∀ usize,
      (recvBuffRead s.mem s.rbuff usize).1 =
        gained (head s.rbuff.enByte.toNat s.limit s.received.2) := by
    intro hall usize
    rw [received, hrep.enByte, hlimit, hreceived] at hall ⊢
    have hnil : (split enByte.toNat (n * bs) stored).1 = [] := List.append_right_eq_self.mp hall
    obtain ⟨hback, -, hrest⟩ := encode_split (n * bs) hen stored
    rw [hnil, encode_nil, List.nil_append] at hback
    rw [hback] at hrest
    simp only [recvBuffRead, hv, hrep.read_incomplete hrest, hback]
  refine ⟨fun rest => ?_, fun p later hlater usize hlarge hhi => ?_, ?_, ?_⟩
  · rw [hrep.enByte, hlimit, hsplit]
    exact List.prefix_append _ _
  · rw [received, hrep.enByte, hlimit, hreceived] at hlater
    have hcons := List.append_cancel_left hlater
    by_cases hwhole : ∃ size, head enByte.toNat (n * bs) stored = .whole size
    · obtain ⟨size, hwhole⟩ := hwhole
      rw [split_of_whole hen hwhole] at hcons
      obtain ⟨rfl, -⟩ := List.cons.inj hcons
      have hlen := (frame_of_head hwhole).2.2
      have hsize : size - enByte.toNat = ((stored.take size).drop enByte.toNat).length := by omega
      rw [← hsize] at hlarge
      obtain ⟨b', m', hread, -⟩ := hrep.read_whole hwhole s.mem hhi hlarge
      simp only [recvBuffRead, hv, hread, hsize, and_self]
    · rw [split_of_not_whole fun size heq => hwhole ⟨size, heq⟩] at hcons
      cases hcons
  · intro hall hsmall usize
    rw [herror hall usize, hsmall]
    rfl
  · intro hall hbig usize
    rw [herror hall usize, hbig]
    rfl

end Receiver

/-- In every state that the ring version can reach, by any chunks of any stream and any
reads, the reads follow the frames of the stream. -/
theorem recvBuff_framed {s : Receiver} (h : (receiver .useBuff).Reachable s) : s.Framed := by
  obtain ⟨enByte, n, bs, hinv⟩ := h.invariant (fun _ hs => Receiver.Init.ringInv hs)
    (fun _ _ _ ⟨enByte, n, bs, hs⟩ ht => ⟨enByte, n, bs, Receiver.RingInv.step hs ht⟩)
  exact hinv.framed

/-- A ring of two blocks of three bytes on a heap of zeros, with one-byte headers. -/
def Receiver.smallRing : Receiver where
  rbuff := recvBuffCreateVA
    { brk := 0, fate := fun _ => some (fun _ => 0), freed := [],
      pools := fun _ => buffPoolCreate 3 0 }
    { addr := 0, size := 0, data := fun _ => 0 } .enByte8 2 0
  mem :=
    { brk := 0, fate := fun _ => some (fun _ => 0), freed := [],
      pools := fun _ => buffPoolCreate 3 0 }
  prepared := none
  input := []
  removed := []

theorem Receiver.smallRing_init : Init .useBuff smallRing :=
  .useBuff ⟨by decide, by decide, by decide, by decide⟩ _ _

/-- The second frame wraps around the ring, and the third header is too small. -/
theorem recvBuff_framed_wrap : ∃ s, (receiver .useBuff).run Receiver.smallRing
    [.prepare, .consume [4, 1, 2], .prepare, .consume [3, 5], .read 3, .prepare, .consume [6],
      .prepare, .consume [7, 8, 9], .read 4, .prepare, .consume [0], .read 4] = some s ∧
      s.removed = [[1, 2, 3], [6, 7, 8, 9]] ∧ s.Framed := by
  have hinit : (receiver .useBuff).Init Receiver.smallRing := Receiver.smallRing_init
  obtain ⟨s, hrun, hremoved⟩ : ∃ s, (receiver .useBuff).run Receiver.smallRing
      [.prepare, .consume [4, 1, 2], .prepare, .consume [3, 5], .read 3, .prepare, .consume [6],
        .prepare, .consume [7, 8, 9], .read 4, .prepare, .consume [0], .read 4] = some s ∧
        s.removed = [[1, 2, 3], [6, 7, 8, 9]] := ⟨_, rfl, rfl⟩
  exact ⟨s, hrun, hremoved, recvBuff_framed (Machine.Reachable.run (.init hinit) hrun)⟩

end RandServer
