import RandServer.Net.RingCursors

/-!
# What the ring receive buffer tells its callers

`recv_buff_read_vA` returns a payload length or an error, and `net_service.h` lets its
callers loop as long as the result `r` has `0 < r <= usize`. `ReadTells` says that these
are the reads that took effect.

`recv_buff_consume_vA` announces the frames that a chunk completed, with a cursor of its
own. `Agrees` says that what has been announced and not removed is what is stored, and
`SameError` that a consume and a later read report the same invalid header.
-/

namespace RandServer

open LapRing Framing

namespace Receiver

/-- The complete frames that are stored. -/
def pending (s : Receiver) : List (List UInt8) :=
  (split s.rbuff.enByte.toNat s.limit
    (s.input.drop (encode s.rbuff.enByte.toNat s.removed).length)).1

section RingAt

variable {enByte : EnByteSize} {n bs r : Nat} {stored : List UInt8} {s t : Receiver}

theorem RingAt.limit_eq (h : RingAt enByte n bs r stored s) : s.limit = n * bs := by
  simp only [limit, h.version, h.rep.poolCnt, h.rep.bufferSize]

theorem RingAt.pending_eq (h : RingAt enByte n bs r stored s) :
    s.pending = (split enByte.toNat (n * bs) stored).1 := by
  rw [pending, h.limit_eq, h.rep.enByte, h.input, List.drop_left]

theorem RingAt.received_eq (h : RingAt enByte n bs r stored s) :
    s.received = (s.removed ++ s.pending, (split enByte.toNat (n * bs) stored).2) := by
  rw [received, h.limit_eq, h.rep.enByte, h.input, h.pending_eq]
  exact split_append enByte.toNat_pos h.valid stored

/-- The front frame. -/
theorem RingAt.pending_whole (h : RingAt enByte n bs r stored s) {size : Nat}
    (hwhole : head enByte.toNat (n * bs) stored = .whole size) :
    s.pending = ((stored.take size).drop enByte.toNat) ::
      (split enByte.toNat (n * bs) (stored.drop size)).1 := by
  rw [h.pending_eq, split_of_whole enByte.toNat_pos hwhole]

theorem RingAt.pending_nil (h : RingAt enByte n bs r stored s)
    (hnot : ∀ size, head enByte.toNat (n * bs) stored ≠ .whole size) : s.pending = [] := by
  rw [h.pending_eq, split_of_not_whole hnot]

/-- What a read returns, by the front of the stored bytes. -/
theorem RingAt.read_whole (h : RingAt enByte n bs r stored s) {size : Nat}
    (hwhole : head enByte.toNat (n * bs) stored = .whole size) {usize : Int} (hlo : 0 ≤ usize)
    (hhi : usize < 2 ^ 31) :
    (recvBuffRead s.mem s.rbuff usize).1 = (size - enByte.toNat : Nat) ∧
      ((size - enByte.toNat : Nat) ≤ usize →
        (recvBuffRead s.mem s.rbuff usize).2.1 = (stored.take size).drop enByte.toNat) := by
  rcases Int.lt_or_le usize (size - enByte.toNat : Nat) with hsmall | hlarge
  · refine ⟨?_, fun hle => absurd hle (Int.not_le.mpr hsmall)⟩
    simp only [recvBuffRead, h.version, h.rep.read_refused hwhole s.mem hlo hsmall]
  · obtain ⟨b', m', hread, -⟩ := h.rep.read_whole hwhole s.mem hhi hlarge
    simp only [recvBuffRead, h.version, hread, and_self, implies_true]

theorem RingAt.read_incomplete (h : RingAt enByte n bs r stored s)
    (hnot : ∀ size, head enByte.toNat (n * bs) stored ≠ .whole size) (usize : Int) :
    (recvBuffRead s.mem s.rbuff usize).1 = gained (head enByte.toNat (n * bs) stored) := by
  simp only [recvBuffRead, h.version, h.rep.read_incomplete hnot]

end RingAt

/-! ## The result of a read -/

/-- A read of a result between 0 and the size of the destination removes the next frame
and copies its payload, and every other result leaves the buffer as it was. -/
def ReadTells (n bs : Nat) (s : Receiver) : Prop :=
  ∀ usize t, s.step (.read usize) = some t →
    (0 < (recvBuffRead s.mem s.rbuff usize).1 → (recvBuffRead s.mem s.rbuff usize).1 ≤ usize →
      ∃ payload later, s.pending = payload :: later ∧
        (recvBuffRead s.mem s.rbuff usize).1 = payload.length ∧
        (recvBuffRead s.mem s.rbuff usize).2.1 = payload ∧
        t.removed = s.removed ++ [payload] ∧ t.Exact n bs) ∧
    ((recvBuffRead s.mem s.rbuff usize).1 ≤ 0 ∨ usize < (recvBuffRead s.mem s.rbuff usize).1 →
      t.rbuff = s.rbuff ∧ t.mem = s.mem)

variable {n bs : Nat} {s t : Receiver}

theorem Counted.of_reachable (g : Geometry n bs) (h : (recvCursors n bs).Reachable s) :
    s.Counted n bs :=
  h.invariant (fun _ hs => Receiver.Created.counted g hs)
    (fun _ _ _ hs ht => Receiver.Counted.step hs ht)

/-- The read of a front frame with a payload tells what it did. -/
theorem Counted.readTells (h : s.Counted n bs) (hfront : s.pending.head? ≠ some []) :
    s.ReadTells n bs := by
  intro usize t ht
  have hexact := (h.step ht).exact
  obtain ⟨enByte, stored, h⟩ := h
  have husize : 0 ≤ usize ∧ usize < 2 ^ 31 := by
    simp only [Receiver.step, Option.ite_none_right_eq_some] at ht
    exact ht.1
  obtain ⟨rfl, hsmall⟩ | ⟨size, hwhole, hlarge, -, hremoved, -⟩ := h.read ht
  · refine ⟨fun hpos hle => ?_, fun _ => ⟨rfl, rfl⟩⟩
    by_cases hwhole : ∃ size, head enByte.toNat (n * bs) stored = .whole size
    · obtain ⟨size, hwhole⟩ := hwhole
      rw [(h.read_whole hwhole husize.1 husize.2).1] at hle
      exact absurd hle (Int.not_le.mpr (hsmall size hwhole))
    · have hnot : ∀ size, head enByte.toNat (n * bs) stored ≠ .whole size :=
        fun size heq => hwhole ⟨size, heq⟩
      rw [h.read_incomplete hnot] at hpos
      exact absurd (gained_nonpos hnot) (Int.not_le.mpr hpos)
  · have hlen := (frame_of_head hwhole).2.2
    obtain ⟨hret, hcopy⟩ := h.read_whole hwhole husize.1 husize.2
    have hnonempty : (stored.take size).drop enByte.toNat ≠ [] := by
      intro hnil
      rw [h.pending_whole hwhole, hnil] at hfront
      exact hfront rfl
    have hpos := List.length_pos_iff.mpr hnonempty
    rw [hret]
    refine ⟨fun _ hle => ⟨_, _, h.pending_whole hwhole, ?_, hcopy hle, hremoved, hexact⟩,
      fun hno => ?_⟩
    · omega
    · omega

/-- The read of an empty payload returns 0 and removes the frame. -/
theorem Counted.not_readTells (h : s.Counted n bs) (hfront : s.pending.head? = some []) :
    ¬ s.ReadTells n bs := by
  intro htells
  obtain ⟨enByte, stored, h⟩ := h
  have g := h.rep.geometry
  have hfits := h.rep.fits
  have hen := enByte.toNat_pos
  by_cases hwhole : ∃ size, head enByte.toNat (n * bs) stored = .whole size
  · obtain ⟨size, hwhole⟩ := hwhole
    rw [h.pending_whole hwhole, List.head?_cons, Option.some.injEq] at hfront
    have hlen := (frame_of_head hwhole).2.2
    rw [hfront, List.length_nil, Nat.zero_add] at hlen
    have hsize := (head_whole_iff.mp hwhole).2.2.2
    obtain ⟨t, ht⟩ : ∃ t, s.step (.read 0) = some t := ⟨_, by rw [Receiver.step, if_pos (by decide)]⟩
    obtain ⟨-, hsmall⟩ | ⟨size', hwhole', -, h', -⟩ := h.read ht
    · have := hsmall size hwhole
      omega
    · obtain rfl := Head.whole.inj (hwhole.symm.trans hwhole')
      have hret := (h.read_whole hwhole (Int.le_refl 0) (by decide)).1
      have hsame := ((htells 0 t ht).2 (.inl (by omega))).1
      have hread := h'.rep.read
      rw [hsame, h.rep.read, positionCursor_inj g (by omega) (by omega)] at hread
      omega
  · rw [h.pending_nil fun size heq => hwhole ⟨size, heq⟩] at hfront
    cases hfront

end Receiver

/-- In a reachable ring the results of reads tell what the reads did exactly if the next
frame is not one with an empty payload. -/
theorem recvBuff_readTells_iff {n bs : Nat} (g : Geometry n bs) {s : Receiver}
    (h : (recvCursors n bs).Reachable s) : s.ReadTells n bs ↔ s.pending.head? ≠ some [] := by
  have hcounted := Receiver.Counted.of_reachable g h
  constructor
  · intro htells hfront
    exact hcounted.not_readTells hfront htells
  · exact hcounted.readTells

theorem Receiver.smallRing_created : Created 2 3 smallRing := .mk _ _ _ _ rfl

/-- The second of two frames with payloads is the next one. -/
theorem recvBuff_readTells_next : ∃ s, (recvCursors 2 3).run Receiver.smallRing
    [.prepare, .consume [2, 7, 3], .read 1, .prepare, .consume [8, 9]] = some s ∧
      s.removed = [[7]] ∧ s.ReadTells 2 3 := by
  have g : Geometry 2 3 := ⟨by decide, by decide, by decide, by decide⟩
  have hinit : (recvCursors 2 3).Init Receiver.smallRing := Receiver.smallRing_created
  obtain ⟨s, hrun, hremoved, hfront⟩ : ∃ s, (recvCursors 2 3).run Receiver.smallRing
      [.prepare, .consume [2, 7, 3], .read 1, .prepare, .consume [8, 9]] = some s ∧
        s.removed = [[7]] ∧ s.pending = [[8, 9]] := ⟨_, rfl, rfl, rfl⟩
  refine ⟨s, hrun, hremoved,
    (recvBuff_readTells_iff g (Machine.Reachable.run (.init hinit) hrun)).mpr ?_⟩
  rw [hfront]
  decide

/-- A frame of one header byte: the read returns 0, and the frame is gone. -/
theorem recvBuff_read_hides : ¬ ∀ s, (recvCursors 2 3).Reachable s → s.ReadTells 2 3 := by
  intro h
  have g : Geometry 2 3 := ⟨by decide, by decide, by decide, by decide⟩
  have hinit : (recvCursors 2 3).Init Receiver.smallRing := Receiver.smallRing_created
  obtain ⟨s, hrun, hfront⟩ : ∃ s, (recvCursors 2 3).run Receiver.smallRing
      [.prepare, .consume [1]] = some s ∧ s.pending = [[]] := ⟨_, rfl, rfl⟩
  have hreach := Machine.Reachable.run (.init hinit) hrun
  have hcounted := Receiver.Counted.of_reachable g hreach
  exact hcounted.not_readTells (by rw [hfront]; rfl) (h s hreach)

/-! ## Announcements -/

namespace Receiver

/-- The result of the `recv_buff_consume` call for a chunk. -/
def consumeResult (s : Receiver) (xs : List UInt8) : Int :=
  match s.prepared with
  | none => 0
  | some (_, ptr) =>
      (recvBuffConsume s.mem ((ptr.map fun p => s.rbuff.fill p xs).getD s.rbuff) xs.length).1

/-- Read `k` frames into a destination that is always large enough. -/
def drain : Nat → Receiver → Receiver
  | 0, s => s
  | k + 1, s => drain k ((s.step (.read (2 ^ 31 - 1))).getD s)

/-- After the chunk, a read that has removed every complete frame returns the same error. -/
def SameError (s : Receiver) (xs : List UInt8) (t : Receiver) : Prop :=
  ∀ e < 0, ∀ usize, s.consumeResult xs = e ↔
    (recvBuffRead (t.drain t.pending.length).mem (t.drain t.pending.length).rbuff usize).1 = e

end Receiver

/-- A receive buffer with the sum of the positive results of consume. -/
structure Announcer where
  recv : Receiver
  announced : Nat

namespace Announcer

def step (s : Announcer) (a : Receiver.Action) : Option Announcer :=
  (s.recv.step a).map fun t =>
    { recv := t
      announced := match a with
        | .consume xs => s.announced + (s.recv.consumeResult xs).toNat
        | _ => s.announced }

def Init (n bs : Nat) (s : Announcer) : Prop := s.recv.Created n bs ∧ s.announced = 0

/-- What was announced and not removed are the complete frames that are stored. The check
cursor stands behind them, and every block up to the write cursor is there. -/
structure Agrees (n bs : Nat) (s : Announcer) : Prop where
  announced : s.announced = s.recv.removed.length + s.recv.pending.length
  check : Decodes n bs s.recv.rbuff.check
    ((encode s.recv.rbuff.enByte.toNat (s.recv.removed ++ s.recv.pending)).length + n * bs)
  boundary : encode s.recv.rbuff.enByte.toNat (s.recv.removed ++ s.recv.pending) <+: s.recv.input
  present : ∀ p, (encode s.recv.rbuff.enByte.toNat s.recv.removed).length ≤ p →
    p < s.recv.input.length → ∃ bf, s.recv.rbuff.buffers (slot n bs p) = some bf

/-- A chunk that ends behind an invalid header completes no frame and is not empty. -/
def Ok (s : Announcer) : Receiver.Action → Prop
  | .consume xs =>
      gained (head s.recv.rbuff.enByte.toNat s.recv.limit
        (split s.recv.rbuff.enByte.toNat s.recv.limit (s.recv.input ++ xs)).2) < 0 →
      xs ≠ [] ∧ (split s.recv.rbuff.enByte.toNat s.recv.limit (s.recv.input ++ xs)).1.length =
        s.recv.received.1.length
  | _ => True

instance (s : Announcer) : (a : Receiver.Action) → Decidable (s.Ok a)
  | .prepare => .isTrue trivial
  | .read _ => .isTrue trivial
  | .consume xs => by
      unfold Ok
      infer_instance

end Announcer

def announcer (n bs : Nat) : Machine Announcer Receiver.Action where
  Init := Announcer.Init n bs
  step := Announcer.step

namespace Receiver

variable {enByte : EnByteSize} {n bs r : Nat} {stored : List UInt8} {s t : Receiver}

/-- What a consume call returns. -/
theorem RingAt.consume_result (h : RingAt enByte n bs r stored s) {xs : List UInt8}
    (ht : s.step (.consume xs) = some t) : s.consumeResult xs =
      if xs = [] then 0
      else if gained (head enByte.toNat (n * bs)
          (split enByte.toNat (n * bs) (stored ++ xs)).2) < 0
        then gained (head enByte.toNat (n * bs) (split enByte.toNat (n * bs) (stored ++ xs)).2)
      else ((split enByte.toNat (n * bs) (stored ++ xs)).1.length : Int) -
        (split enByte.toNat (n * bs) stored).1.length := by
  simp only [Receiver.step] at ht
  split at ht
  · cases ht
  · rename_i room ptr hprep
    split at ht
    · rename_i hfit
      by_cases hxs : xs = []
      · subst hxs
        simp only [consumeResult, hprep, s.rbuff.fill_map_nil ptr, recvBuffConsume, h.version,
          recvBuffConsumeVA, List.length_nil, if_true]
      · have hpos : 0 < xs.length := List.length_pos_iff.mpr hxs
        obtain ⟨rfl, hspace⟩ := h.piece room ptr hprep (by omega)
        have hversion := (s.rbuff.fill_version (.buffer (slot n bs (r + stored.length))
          (offset bs (r + stored.length))) xs).trans h.version
        rw [if_neg hxs]
        simp only [consumeResult, hprep, Option.map_some, Option.getD_some, recvBuffConsume,
          hversion]
        exact (h.rep.consume_eq hspace hpos hfit rfl).2
    · cases ht

/-- Draining removes the complete frames, and then a read returns what the header behind
them gives. -/
theorem RingAt.drain (h : RingAt enByte n bs r stored s) :
    ∃ r', RingAt enByte n bs r' (split enByte.toNat (n * bs) stored).2
      (s.drain s.pending.length) := by
  generalize hk : s.pending.length = k
  induction k generalizing r stored s with
  | zero =>
      have hnil := List.length_eq_zero_iff.mp hk
      rw [h.pending_eq] at hnil
      have hback := (encode_split (n * bs) enByte.toNat_pos stored).1
      rw [hnil, encode_nil, List.nil_append] at hback
      rw [hback]
      exact ⟨r, h⟩
  | succ k ih =>
      have hwhole : ∃ size, head enByte.toNat (n * bs) stored = .whole size := by
        by_contra hnot
        rw [h.pending_nil fun size heq => hnot ⟨size, heq⟩] at hk
        cases hk
      obtain ⟨size, hwhole⟩ := hwhole
      have hcap := h.rep.geometry.capacity_lt
      have hsize := (head_whole_iff.mp hwhole).2.2.2
      obtain ⟨t, ht⟩ : ∃ t, s.step (.read (2 ^ 31 - 1)) = some t :=
        ⟨_, by rw [Receiver.step, if_pos (by decide)]⟩
      rw [Receiver.drain, ht, Option.getD_some]
      obtain ⟨-, hsmall⟩ | ⟨size', hwhole', -, h', -⟩ := h.read ht
      · have := hsmall size hwhole
        omega
      · obtain rfl := Head.whole.inj (hwhole.symm.trans hwhole')
        rw [split_of_whole enByte.toNat_pos hwhole]
        apply ih h'
        rw [h.pending_whole hwhole, List.length_cons] at hk
        rw [h'.pending_eq]
        omega

/-- The error of a drained read. -/
theorem RingAt.drained_read (h : RingAt enByte n bs r stored s) (usize : Int) :
    (recvBuffRead (s.drain s.pending.length).mem (s.drain s.pending.length).rbuff usize).1 =
      gained (head enByte.toNat (n * bs) (split enByte.toNat (n * bs) stored).2) := by
  obtain ⟨r', hdrained⟩ := h.drain
  exact hdrained.read_incomplete (encode_split (n * bs) enByte.toNat_pos stored).2.2 usize

end Receiver

namespace Announcer

variable {enByte : EnByteSize} {n bs r : Nat} {stored : List UInt8} {s t : Announcer}

/-- The condition in terms of the stored bytes. -/
theorem ok_consume_iff (h : s.recv.RingAt enByte n bs r stored) (xs : List UInt8) :
    s.Ok (.consume xs) ↔
      (gained (head enByte.toNat (n * bs) (split enByte.toNat (n * bs) (stored ++ xs)).2) < 0 →
        xs ≠ [] ∧ (split enByte.toNat (n * bs) (stored ++ xs)).1.length =
          (split enByte.toNat (n * bs) stored).1.length) := by
  have hsplit : split enByte.toNat (n * bs) (s.recv.input ++ xs) =
      (s.recv.removed ++ (split enByte.toNat (n * bs) (stored ++ xs)).1,
        (split enByte.toNat (n * bs) (stored ++ xs)).2) := by
    rw [h.input, List.append_assoc, split_append enByte.toNat_pos h.valid]
  rw [Ok, h.rep.enByte, h.limit_eq, hsplit, h.received_eq, h.pending_eq, List.length_append,
    List.length_append, Nat.add_left_cancel_iff]

/-- Up to the number of announcements, a ring agrees with its stored bytes always. -/
theorem agrees_iff (h : s.recv.RingAt enByte n bs (encode enByte.toNat s.recv.removed).length stored) :
    s.Agrees n bs ↔ s.announced = s.recv.removed.length + s.recv.pending.length := by
  have g := h.rep.geometry
  have hpending := h.pending_eq
  have hframed : (encode enByte.toNat (s.recv.removed ++ s.recv.pending)).length =
      (encode enByte.toNat s.recv.removed).length + framed enByte.toNat (n * bs) stored := by
    rw [encode_append, List.length_append, hpending, framed]
  refine ⟨fun hagrees => hagrees.announced, fun hann => ⟨hann, ?_, ?_, ?_⟩⟩
  · rw [h.rep.check, h.rep.enByte, hframed]
    exact .position g _
  · rw [h.rep.enByte, encode_append, h.input, hpending]
    apply (List.prefix_append_right_inj _).mpr
    exact ⟨_, (encode_split (n * bs) enByte.toNat_pos stored).1⟩
  · intro p hlo hhi
    rw [h.rep.enByte] at hlo
    rw [h.input, List.length_append] at hhi
    obtain ⟨i, rfl⟩ := Nat.exists_eq_add_of_le hlo
    apply (h.rep.holds.drop i).head_present
    intro hnil
    have hlen := congrArg List.length hnil
    rw [List.length_drop, List.length_nil] at hlen
    omega

/-- A consume call announces the frames that its chunk completes exactly if it meets the
condition, or it loses the count of some or passes over a stored error. -/
theorem consume_iff (h : s.recv.RingAt enByte n bs (encode enByte.toNat s.recv.removed).length stored)
    (hann : s.announced = s.recv.removed.length + s.recv.pending.length) {xs : List UInt8}
    (ht : s.step (.consume xs) = some t) :
    (t.announced = t.recv.removed.length + t.recv.pending.length ∧
      s.recv.SameError xs t.recv) ↔ s.Ok (.consume xs) := by
  obtain ⟨u, hu, rfl⟩ := Option.map_eq_some_iff.mp ht
  obtain ⟨hring, hremoved, -⟩ := h.consume hu
  have hmore : (split enByte.toNat (n * bs) stored).1.length ≤
      (split enByte.toNat (n * bs) (stored ++ xs)).1.length :=
    (split_isPrefixOf enByte.toNat_pos stored xs).length_le
  have hread := hring.drained_read
  have hresult := h.consume_result hu
  rw [ok_consume_iff h]
  simp only [Receiver.SameError, hread]
  rw [h.pending_eq] at hann
  rw [hremoved, hring.pending_eq]
  generalize hfront : gained (head enByte.toNat (n * bs)
    (split enByte.toNat (n * bs) (stored ++ xs)).2) = front at hresult ⊢
  have hnonpos : front ≤ 0 := by
    rw [← hfront]
    exact gained_nonpos (encode_split (n * bs) enByte.toNat_pos (stored ++ xs)).2.2
  constructor
  · rintro ⟨hcount, hsame⟩ hneg
    have hret := (hsame front hneg 0).mpr rfl
    have hxs : xs ≠ [] := by
      intro hnil
      rw [hresult, if_pos hnil] at hret
      omega
    refine ⟨hxs, ?_⟩
    rw [hret] at hcount
    omega
  · intro hok
    by_cases hxs : xs = []
    · rw [if_pos hxs] at hresult
      have hfine : ¬ front < 0 := fun hneg => (hok hneg).1 hxs
      subst hxs
      rw [List.append_nil] at hmore ⊢
      refine ⟨by rw [hresult]; omega, fun e he _ => ?_⟩
      rw [hresult]
      omega
    · rw [if_neg hxs] at hresult
      by_cases hneg : front < 0
      · rw [if_pos hneg] at hresult
        have hsame := (hok hneg).2
        exact ⟨by rw [hresult]; omega, fun e _ _ => by rw [hresult]⟩
      · rw [if_neg hneg] at hresult
        refine ⟨by rw [hresult]; omega, fun e he _ => ?_⟩
        rw [hresult]
        omega

def Inv (n bs : Nat) (s : Announcer) : Prop :=
  (∃ enByte stored,
    s.recv.RingAt enByte n bs (encode enByte.toNat s.recv.removed).length stored) ∧
    s.announced = s.recv.removed.length + s.recv.pending.length

theorem Init.inv (g : Geometry n bs) (h : Init n bs s) : s.Inv n bs := by
  obtain ⟨hcreated, hzero⟩ := h
  obtain ⟨recv, announced⟩ := s
  cases hcreated with
  | mk mem pool lens enByte hsize =>
      subst hsize
      have hring := Receiver.ringAt_create g lens enByte
      refine ⟨⟨enByte, [], hring⟩, ?_⟩
      rw [hring.pending_eq, hzero]
      rfl

theorem Inv.step (h : s.Inv n bs) {a : Receiver.Action} (hok : s.Ok a) (ht : s.step a = some t) :
    t.Inv n bs := by
  obtain ⟨⟨enByte, stored, h⟩, hann⟩ := h
  obtain ⟨u, hu, hstep⟩ := Option.map_eq_some_iff.mp ht
  refine ⟨?_, ?_⟩
  · rw [← hstep]
    exact Receiver.Counted.step ⟨enByte, stored, h⟩ hu
  · cases a with
    | prepare =>
        obtain ⟨h', hremoved, -⟩ := h.prepare hu
        subst hstep
        rw [hremoved, h'.pending_eq, hann, h.pending_eq]
    | consume xs => exact ((consume_iff h hann ht).mpr hok).1
    | read usize =>
        subst hstep
        obtain ⟨rfl, -⟩ | ⟨size, hwhole, -, h', hremoved, -⟩ := h.read hu
        · exact hann
        · rw [hremoved, h'.pending_eq, hann, h.pending_whole hwhole, List.length_append,
            List.length_cons, List.length_singleton]
          omega

theorem Inv.agrees (h : s.Inv n bs) : s.Agrees n bs := by
  obtain ⟨⟨enByte, stored, h⟩, hann⟩ := h
  exact (agrees_iff h).mpr hann

end Announcer

/-- As long as no chunk both completes frames and ends behind an invalid header, and none
is given back empty with such a header stored, the announcements agree with the stored
frames. Such a chunk breaks the agreement, or its error is not the one of a later read. -/
theorem recvBuff_announces {n bs : Nat} (g : Geometry n bs) {s : Announcer}
    (h : (announcer n bs).ReachableVia Announcer.Ok s) :
    s.Agrees n bs ∧ ∀ xs t, s.step (.consume xs) = some t →
      (t.Agrees n bs ∧ s.recv.SameError xs t.recv ↔ s.Ok (.consume xs)) := by
  have hinv : s.Inv n bs :=
    h.invariant (fun _ hs => Announcer.Init.inv g hs)
      (fun _ _ _ hs hok ht => Announcer.Inv.step hs hok ht)
  refine ⟨hinv.agrees, fun xs t ht => ?_⟩
  obtain ⟨⟨enByte, stored, hring⟩, hann⟩ := hinv
  rw [← Announcer.consume_iff hring hann ht]
  obtain ⟨u, hu, rfl⟩ := Option.map_eq_some_iff.mp ht
  obtain ⟨hring', hremoved, -⟩ := hring.consume hu
  rw [← hremoved] at hring'
  rw [Announcer.agrees_iff hring']

def Announcer.fresh : Announcer := ⟨Receiver.smallRing, 0⟩

theorem Announcer.fresh_init : Init 2 3 fresh := ⟨Receiver.smallRing_created, rfl⟩

/-- Two frames arrive in three chunks, and the invalid header behind them alone. -/
theorem recvBuff_announces_error : ∃ s, (announcer 2 3).runVia Announcer.Ok Announcer.fresh
    [.prepare, .consume [2, 7, 2], .prepare, .consume [8], .read 1, .prepare, .consume [0]] =
      some s ∧ s.announced = 2 ∧ s.Agrees 2 3 := by
  have g : Geometry 2 3 := ⟨by decide, by decide, by decide, by decide⟩
  have hinit : (announcer 2 3).Init Announcer.fresh := Announcer.fresh_init
  obtain ⟨s, hrun, hann⟩ : ∃ s, (announcer 2 3).runVia Announcer.Ok Announcer.fresh
      [.prepare, .consume [2, 7, 2], .prepare, .consume [8], .read 1, .prepare, .consume [0]] =
        some s ∧ s.announced = 2 := ⟨_, rfl, rfl⟩
  exact ⟨s, hrun, hann,
    (recvBuff_announces g (Machine.ReachableVia.runVia (.init hinit) hrun)).1⟩

/-- One chunk with a frame and an invalid header: the error is announced, the frame is
not. -/
theorem recvBuff_announces_less : ¬ ∀ s, (announcer 2 3).Reachable s → s.Agrees 2 3 := by
  intro h
  have hinit : (announcer 2 3).Init Announcer.fresh := Announcer.fresh_init
  obtain ⟨s, hrun, hann, hremoved, hpending⟩ : ∃ s, (announcer 2 3).run Announcer.fresh
      [.prepare, .consume [2, 7, 0]] = some s ∧ s.announced = 0 ∧ s.recv.removed = [] ∧
        s.recv.pending = [[7]] := ⟨_, rfl, rfl, rfl, rfl⟩
  have hagrees := (h s (Machine.Reachable.run (.init hinit) hrun)).announced
  rw [hann, hremoved, hpending] at hagrees
  cases hagrees

end RandServer
