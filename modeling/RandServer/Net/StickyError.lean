import RandServer.Net.MessageQueue
import RandServer.Net.RecvContract

/-!
# Invalid headers

`recv_buff_consume` reports a length header that is too small or too big. `Sticky` says
that from then on no read returns anything but the payloads in front of that header.

A ring keeps the bytes of the header where they are, so it never gets past them. A queue
keeps them in `lens`, and leaves `check` as it was: the next chunk overwrites the end of
the header. The epoll service feeds the buffer again after an error, so a queue follows
the stream only until its first error.
-/

namespace RandServer

open LapRing Framing

/-- A receive buffer and the results of its consume calls: whether one of them was
negative, and the payloads in front of the invalid header that was reported first. -/
structure Watched where
  recv : Receiver
  failed : Bool
  reported : Option (List (List UInt8))

namespace Watched

/-- A consume call led to `t` and returned `ret`. -/
def note (s : Watched) (ret : Int) (t : Receiver) : Watched where
  recv := t
  failed := s.failed || decide (ret < 0)
  reported := s.reported.or
    (if ret = enErrRecvMsgSmall ∨ ret = enErrRecvMsgBig then some t.received.1 else none)

theorem note_of_nonneg (s : Watched) {ret : Int} (hret : 0 ≤ ret) (t : Receiver) :
    s.note ret t = { s with recv := t } := by
  have hcode : ¬ (ret = enErrRecvMsgSmall ∨ ret = enErrRecvMsgBig) := by
    rw [enErrRecvMsgSmall, enErrRecvMsgBig]
    omega
  simp only [note, if_neg hcode, Option.or_none, decide_eq_false (Int.not_lt.mpr hret),
    Bool.or_false]

def step (s : Watched) (a : Receiver.Action) : Option Watched :=
  (s.recv.step a).map fun t =>
    match a with
    | .consume xs => s.note (s.recv.consumeResult xs) t
    | _ => { s with recv := t }

theorem step_consume {s t : Watched} {xs : List UInt8} (ht : s.step (.consume xs) = some t) :
    ∃ u, s.recv.step (.consume xs) = some u ∧ s.note (s.recv.consumeResult xs) u = t :=
  Option.map_eq_some_iff.mp ht

/-- A new buffer of either version, with any number of blocks. -/
def Init (s : Watched) : Prop :=
  s.failed = false ∧ s.reported = none ∧
    (Receiver.Init .useQueue s.recv ∨
      ∃ n bs, 0 < n ∧ 0 < bs ∧ bs ≤ 65535 ∧ Receiver.Created n bs s.recv)

/-- The payloads that were read are those in front of the reported header. -/
def Sticky (s : Watched) : Prop := ∀ ps, s.reported = some ps → s.recv.removed <+: ps

/-- The block indices of a ring fit into 16 bits, and a queue gets no bytes after an
error. -/
def Ok (s : Watched) (a : Receiver.Action) : Prop :=
  match s.recv.rbuff.version, a with
  | .useBuff, _ => s.recv.rbuff.poolCnt ≤ 32768
  | .useQueue, .consume xs => s.failed = true → xs = []
  | .useQueue, _ => True

instance (s : Watched) (a : Receiver.Action) : Decidable (s.Ok a) := by
  unfold Ok
  split <;> infer_instance

end Watched

def watched : Machine Watched Receiver.Action where
  Init := Watched.Init
  step := Watched.step

/-! ## The ring version -/

/-- The header behind the frames of the stored bytes gives the error. -/
theorem Receiver.RingAt.rejects_of_consume {enByte : EnByteSize} {n bs r : Nat}
    {stored xs : List UInt8} {s t : Receiver} (h : s.RingAt enByte n bs r stored)
    (ht : s.step (.consume xs) = some t)
    (hcode : s.consumeResult xs = enErrRecvMsgSmall ∨ s.consumeResult xs = enErrRecvMsgBig) :
    Rejects enByte.toNat (n * bs) (split enByte.toNat (n * bs) (stored ++ xs)).2 := by
  have hneg : s.consumeResult xs < 0 := by
    obtain hcode | hcode := hcode <;> rw [hcode] <;> decide
  have hmore : (split enByte.toNat (n * bs) stored).1.length ≤
      (split enByte.toNat (n * bs) (stored ++ xs)).1.length :=
    (split_isPrefixOf enByte.toNat_pos stored xs).length_le
  rw [h.consume_result ht] at hneg
  have hrest := (encode_split (n * bs) enByte.toNat_pos (stored ++ xs)).2.2
  rw [Rejects]
  cases hhead : head enByte.toNat (n * bs) (split enByte.toNat (n * bs) (stored ++ xs)).2 with
  | small => exact .inl rfl
  | big => exact .inr rfl
  | short | cut =>
      simp only [hhead, gained, lt_self_iff_false, if_false] at hneg
      split at hneg <;> omega
  | whole size => exact absurd hhead (hrest size)

namespace Watched

section Ring

variable {enByte : EnByteSize} {n bs r : Nat} {stored : List UInt8} {s t : Watched}

/-- The reported header is still the first one that is refused. -/
def Marks (en cap : Nat) (s : Watched) : Prop :=
  ∀ ps, s.reported = some ps →
    (split en cap s.recv.input).1 = ps ∧ Rejects en cap (split en cap s.recv.input).2

structure Ring (enByte : EnByteSize) (n bs r : Nat) (stored : List UInt8) (s : Watched) :
    Prop where
  at_stored : s.recv.RingAt enByte n bs r stored
  marks : s.Marks enByte.toNat (n * bs)

theorem Ring.sticky (h : s.Ring enByte n bs r stored) : s.Sticky := by
  intro ps hps
  have hreceived := h.at_stored.received_eq
  rw [Receiver.received, h.at_stored.limit_eq, h.at_stored.rep.enByte] at hreceived
  rw [← (h.marks ps hps).1, hreceived]
  exact List.prefix_append _ _

theorem Ring.consume (h : s.Ring enByte n bs r stored) {xs : List UInt8}
    (ht : s.step (.consume xs) = some t) : t.Ring enByte n bs r (stored ++ xs) := by
  obtain ⟨u, hu, rfl⟩ := step_consume ht
  obtain ⟨hring, hremoved, hinput⟩ := h.at_stored.consume hu
  refine ⟨hring, ?_⟩
  intro ps hps
  obtain hold | ⟨-, hnew⟩ := Option.or_eq_some_iff.mp hps
  · -- bytes behind a refused header
    obtain ⟨hfront, hrejects⟩ := h.marks ps hold
    have happend := split_append_of_rejects enByte.toNat_pos hrejects xs
    simp only [note, hinput, happend]
    exact ⟨hfront, hrejects.append xs⟩
  · obtain ⟨hcode, hnew⟩ := Option.ite_none_right_eq_some.mp hnew
    have hfront := hring.received_eq
    rw [Receiver.received, hring.limit_eq, hring.rep.enByte] at hfront
    rw [Receiver.received, hring.limit_eq, hring.rep.enByte, Option.some.injEq] at hnew
    refine ⟨hnew, ?_⟩
    simp only [note, hfront]
    exact h.at_stored.rejects_of_consume hu hcode

/-- Every step keeps the invariant of the ring. -/
theorem Ring.step (h : s.Ring enByte n bs r stored) {a : Receiver.Action}
    (ht : s.step a = some t) : ∃ r' stored', t.Ring enByte n bs r' stored' := by
  cases a with
  | prepare =>
      obtain ⟨u, hu, rfl⟩ := Option.map_eq_some_iff.mp ht
      obtain ⟨hring, -, hinput⟩ := h.at_stored.prepare hu
      refine ⟨r, stored, hring, ?_⟩
      simp only [Marks, hinput]
      exact h.marks
  | consume xs => exact ⟨r, stored ++ xs, h.consume ht⟩
  | read usize =>
      obtain ⟨u, hu, rfl⟩ := Option.map_eq_some_iff.mp ht
      obtain ⟨rfl, -⟩ | ⟨size, -, -, hring, -, hinput⟩ := h.at_stored.read hu
      · exact ⟨r, stored, h⟩
      · refine ⟨_, _, hring, ?_⟩
        simp only [Marks, hinput]
        exact h.marks

end Ring

/-! ## The queue version -/

end Watched

/-- Only a header that is refused is reported as too small or too big. -/
theorem RecvBuff.QueueRep.rejects_of_consume {enByte : EnByteSize} {n r room : Nat}
    {b b' : RecvBuff} {m m' : Memory UInt8} {msgs : List (List UInt8)} {part xs : List UInt8}
    {ptr : RecvPtr} {ret : Int} (h : b.QueueRep enByte n r msgs part)
    (hprep : recvBuffPrepareVB b = (room, some ptr)) (hxs : 0 < xs.length)
    (hfit : xs.length ≤ room)
    (ht : recvBuffConsumeVB m (b.fill ptr xs) xs.length = (ret, b', m'))
    (hcode : ret = enErrRecvMsgSmall ∨ ret = enErrRecvMsgBig) :
    Rejects enByte.toNat maxMessage (part ++ xs) := by
  rw [enErrRecvMsgSmall, enErrRecvMsgBig] at hcode
  obtain ⟨-, harr | ⟨herr, -⟩⟩ := h.consume_or hprep hxs hfit ht
  · rw [Rejects]
    cases hhead : head enByte.toNat maxMessage (part ++ xs) with
    | small => exact .inl rfl
    | big => exact .inr rfl
    | short | cut =>
        simp only [RecvBuff.Arrived, hhead] at harr
        omega
    | whole size =>
        simp only [RecvBuff.Arrived, hhead] at harr
        split at harr <;> omega
  · rw [enErrNoMemory] at herr
    omega

namespace Watched

section Queue

variable {enByte : EnByteSize} {n r : Nat} {msgs : List (List UInt8)} {part : List UInt8}
  {s t : Watched}

/-- The complete messages `msgs` follow those that were read. Until the first error they
are the frames of the input. -/
structure Queue (enByte : EnByteSize) (n r : Nat) (msgs : List (List UInt8)) (part : List UInt8)
    (s : Watched) : Prop where
  version : s.recv.rbuff.version = .useQueue
  rep : s.recv.rbuff.QueueRep enByte n r msgs part
  going : s.failed = false → s.reported = none ∧
    s.recv.input = encode enByte.toNat (s.recv.removed ++ msgs) ++ part ∧
    ∀ p ∈ s.recv.removed ++ msgs, Valid enByte.toNat maxMessage p
  marks : ∀ ps, s.reported = some ps → ps = s.recv.removed ++ msgs
  piece : ∀ room ptr, s.recv.prepared = some (room, ptr) → 0 < room →
    recvBuffPrepareVB s.recv.rbuff = (room, ptr)

namespace Queue

theorem sticky (h : s.Queue enByte n r msgs part) : s.Sticky := by
  intro ps hps
  rw [h.marks ps hps]
  exact List.prefix_append _ _

theorem prepare (h : s.Queue enByte n r msgs part) (ht : s.step .prepare = some t) :
    t.Queue enByte n r msgs part := by
  obtain ⟨u, hu, rfl⟩ := Option.map_eq_some_iff.mp ht
  simp only [Receiver.step, recvBuffPrepare, h.version] at hu
  split at hu
  · cases hu
  · obtain rfl := Option.some.inj hu
    refine ⟨h.version, h.rep, h.going, h.marks, ?_⟩
    intro room ptr hprep _
    exact Option.some.inj hprep

theorem read (h : s.Queue enByte n r msgs part) {usize : Int}
    (ht : s.step (.read usize) = some t) : ∃ r' msgs', t.Queue enByte n r' msgs' part := by
  obtain ⟨u, hu, rfl⟩ := Option.map_eq_some_iff.mp ht
  simp only [Receiver.step, recvBuffRead, h.version, Option.ite_none_right_eq_some] at hu
  obtain ⟨-, hu⟩ := hu
  have hsame : recvBuffReadVB s.recv.rbuff usize = (0, none, s.recv.rbuff) →
      ∃ r' msgs', ({ s with recv := u } : Watched).Queue enByte n r' msgs' part := by
    intro hread
    simp only [hread, if_true] at hu
    obtain rfl := Option.some.inj hu
    exact ⟨r, msgs, h⟩
  by_cases husize : usize = 8
  · subst husize
    cases msgs with
    | nil => exact hsame h.rep.read_nil
    | cons p msgs =>
        obtain ⟨bf, b', hread, hbytes, hrep, hmoved⟩ := h.rep.read_cons
        have hversion := recvBuffRead_version s.recv.mem s.recv.rbuff 8
        simp only [recvBuffRead, h.version, hread] at hversion
        simp only [hread, if_neg hmoved, Option.map_some, Option.getD_some, Int.toNat_natCast,
          hbytes, Option.some.injEq] at hu
        subst hu
        refine ⟨r + 1, msgs, hversion, hrep, ?_, ?_, ?_⟩
        · simpa using h.going
        · simpa using h.marks
        · intro room ptr hprep hpos
          have hprep' := h.piece room ptr hprep hpos
          have hsame := h.rep.prepare_after_read hrep (by rw [hprep']; exact hpos)
          exact hsame.trans hprep'
  · apply hsame
    rw [recvBuffReadVB, if_pos husize]

/-- A chunk after the last error-free one is empty, and does nothing. -/
theorem consume_nil (h : s.Queue enByte n r msgs part) (ht : s.step (.consume []) = some t) :
    t.Queue enByte n r msgs part := by
  obtain ⟨u, hu, rfl⟩ := step_consume ht
  simp only [Receiver.step] at hu
  split at hu
  · cases hu
  · rename_i room ptr hprep
    have hresult : s.recv.consumeResult [] = 0 := by
      simp only [Receiver.consumeResult, hprep, s.recv.rbuff.fill_map_nil ptr, recvBuffConsume,
        h.version, recvBuffConsumeVB, List.length_nil, if_true]
    simp only [s.recv.rbuff.fill_map_nil ptr, recvBuffConsume, h.version, recvBuffConsumeVB,
      List.length_nil, if_true, List.append_nil, Nat.zero_le, Option.some.injEq] at hu
    subst hu
    rw [hresult, s.note_of_nonneg (le_refl 0)]
    exact ⟨h.version, h.rep, h.going, h.marks, RecvBuff.QueueRep.piece_none⟩

theorem consume (h : s.Queue enByte n r msgs part) {xs : List UInt8}
    (hok : s.failed = true → xs = []) (ht : s.step (.consume xs) = some t) :
    ∃ msgs' part', t.Queue enByte n r msgs' part' := by
  by_cases hnil : xs = []
  · subst hnil
    exact ⟨msgs, part, h.consume_nil ht⟩
  · have hgoing : s.failed = false := Bool.eq_false_iff.mpr fun hfailed => hnil (hok hfailed)
    obtain ⟨hunreported, hinput, hvalid⟩ := h.going hgoing
    have hxs : 0 < xs.length := List.length_pos_iff.mpr hnil
    obtain ⟨u, hu, rfl⟩ := step_consume ht
    simp only [Receiver.step] at hu
    split at hu
    · cases hu
    · rename_i room ptr hprep
      obtain ⟨hfit, hu⟩ := Option.ite_none_right_eq_some.mp hu
      have hprepare := h.piece room ptr hprep (by omega)
      obtain ⟨ptr, rfl⟩ : ∃ p, ptr = some p := by
        obtain ⟨p, hp⟩ := h.rep.prepare_ptr (by rw [hprepare]; exact Nat.lt_of_lt_of_le hxs hfit)
        exact ⟨p, by rw [← hp, hprepare]⟩
      have hversion := (recvBuffConsume_version s.recv.mem (s.recv.rbuff.fill ptr xs)
        xs.length).trans ((s.recv.rbuff.fill_version ptr xs).trans h.version)
      have hfill := (s.recv.rbuff.fill_version ptr xs).trans h.version
      have hresult : s.recv.consumeResult xs =
          (recvBuffConsumeVB s.recv.mem (s.recv.rbuff.fill ptr xs) xs.length).1 := by
        simp only [Receiver.consumeResult, hprep, Option.map_some, Option.getD_some,
          recvBuffConsume, hfill]
      simp only [Option.map_some, Option.getD_some, recvBuffConsume, hfill] at hu hversion
      generalize hres : recvBuffConsumeVB s.recv.mem (s.recv.rbuff.fill ptr xs) xs.length = res
        at hu hresult hversion
      obtain ⟨ret, b', m'⟩ := res
      obtain rfl := Option.some.inj hu
      simp only at hresult hversion
      simp only [hresult]
      have hpiece := @RecvBuff.QueueRep.piece_none b'
      obtain ⟨rfl, p, hframe, hp, hrep⟩ | ⟨hret, -, part', hrep, hpart⟩ :=
        h.rep.consume_cases hprepare hxs hfit hres
      · -- the chunk completes a message
        rw [s.note_of_nonneg (by decide)]
        refine ⟨msgs ++ [p], [], hversion, hrep, fun _ => ⟨hunreported, ?_, ?_⟩, ?_, hpiece⟩
        · rw [hinput, List.append_assoc, hframe, ← List.append_assoc s.recv.removed]
          rw [encode_append _ _ [p], encode_cons, encode_nil, List.append_nil, List.append_nil]
        · rw [← List.append_assoc]
          exact List.forall_mem_append.mpr ⟨hvalid, List.forall_mem_singleton.mpr hp⟩
        · intro ps hps
          rw [hunreported] at hps
          cases hps
      · obtain hnonneg | hneg := le_or_gt 0 ret
        · obtain rfl := hpart hnonneg
          rw [s.note_of_nonneg hnonneg]
          refine ⟨msgs, _, hversion, hrep, fun _ => ⟨hunreported, ?_, hvalid⟩, ?_, hpiece⟩
          · rw [hinput, List.append_assoc]
          · intro ps hps
            rw [hunreported] at hps
            cases hps
        · -- the first error, and what it reports
          refine ⟨msgs, part', hversion, hrep, fun hfine => ?_, ?_, hpiece⟩
          · simp only [note, decide_eq_true hneg, Bool.or_true] at hfine
            cases hfine
          · intro ps hps
            simp only [note, hunreported, Option.none_or] at hps
            obtain ⟨hcode, hps⟩ := Option.ite_none_right_eq_some.mp hps
            have hrejects := h.rep.rejects_of_consume hprepare hxs hfit hres hcode
            rw [Receiver.received, Receiver.limit, hversion, hrep.enByte, hinput,
              List.append_assoc, split_append enByte.toNat_pos hvalid, hrejects.split_eq,
              List.append_nil, Option.some.injEq] at hps
            exact hps.symm

end Queue

end Queue

/-! ## Both versions -/

/-- A ring whose block indices do not fit has done nothing yet. -/
inductive Inv (s : Watched) : Prop
  | ring {enByte : EnByteSize} {n bs r : Nat} {stored : List UInt8} :
      s.Ring enByte n bs r stored → Inv s
  | wide : s.recv.rbuff.version = .useBuff → ¬ s.recv.rbuff.poolCnt ≤ 32768 →
      s.reported = none → Inv s
  | queue {enByte : EnByteSize} {n r : Nat} {msgs : List (List UInt8)} {part : List UInt8} :
      s.Queue enByte n r msgs part → Inv s

variable {s t : Watched}

theorem Init.inv (h : Init s) : s.Inv := by
  obtain ⟨hfailed, hreported, hinit | ⟨n, bs, hn, hpos, hle, hcreated⟩⟩ := h
  · obtain ⟨recv, failed, reported⟩ := s
    cases hinit with
    | useQueue mem hn lens enByte bufferSize pool =>
        refine .queue ⟨rfl,
          RecvBuff.create_queueRep lens enByte hn bufferSize pool, fun _ => ⟨hreported, rfl, ?_⟩,
          fun ps hps => ?_, nofun⟩
        · simp
        · rw [hreported] at hps
          cases hps
  · obtain ⟨recv, failed, reported⟩ := s
    cases hcreated with
    | mk mem pool lens enByte hsize =>
        subst hsize
        by_cases hnarrow : n ≤ 32768
        · have g : Geometry n (mem.pools pool).bufferSize := ⟨hn, hnarrow, hpos, hle⟩
          refine .ring ⟨Receiver.ringAt_create g lens enByte, fun ps hps => ?_⟩
          rw [hreported] at hps
          cases hps
        · exact .wide rfl hnarrow hreported

theorem Inv.step (h : s.Inv) {a : Receiver.Action} (hok : s.Ok a) (ht : s.step a = some t) :
    t.Inv := by
  cases h with
  | ring h =>
      obtain ⟨r', stored', h'⟩ := h.step ht
      exact .ring h'
  | wide hversion hwide _ =>
      simp only [Ok, hversion] at hok
      exact absurd hok hwide
  | queue h =>
      cases a with
      | prepare => exact .queue (h.prepare ht)
      | read usize =>
          obtain ⟨r', msgs', h'⟩ := h.read ht
          exact .queue h'
      | consume xs =>
          simp only [Ok, h.version] at hok
          obtain ⟨msgs', part', h'⟩ := h.consume hok ht
          exact .queue h'

theorem Inv.sticky (h : s.Inv) : s.Sticky := by
  cases h with
  | ring h => exact h.sticky
  | wide _ _ hnone =>
      intro ps hps
      rw [hnone] at hps
      cases hps
  | queue h => exact h.sticky

end Watched

/-- In runs that feed a queue until its first error only, a reported header is the end of
the messages. -/
theorem recvBuff_sticky {s : Watched} (h : watched.ReachableVia Watched.Ok s) : s.Sticky := by
  have hinv : s.Inv := h.invariant (fun _ hs => Watched.Init.inv hs)
    (fun _ _ _ hs hok ht => Watched.Inv.step hs hok ht)
  exact hinv.sticky

/-- A queue of two messages on a heap of zeros, with one-byte headers. -/
def Watched.smallQueue : Watched where
  recv :=
    { rbuff := recvBuffCreateVB { addr := 0, size := 8, data := fun _ => 0 } .enByte8 2 0 none
      mem :=
        { brk := 0, fate := fun _ => some (fun _ => 0), freed := [],
          pools := fun _ => buffPoolCreate 0 0 }
      prepared := none
      input := []
      removed := [] }
  failed := false
  reported := none

theorem Watched.smallQueue_init : Init smallQueue :=
  ⟨rfl, rfl, .inl (.useQueue _ (by decide) _ _ _ _)⟩

/-- A message, an invalid header, and a read after the error. -/
theorem recvBuff_sticky_read : ∃ s, watched.runVia Watched.Ok Watched.smallQueue
    [.prepare, .consume [3], .prepare, .consume [7, 8], .prepare, .consume [0], .prepare,
      .read 8] = some s ∧ s.reported = some [[7, 8]] ∧ s.recv.removed = [[7, 8]] ∧ s.Sticky := by
  have hinit : watched.Init Watched.smallQueue := Watched.smallQueue_init
  obtain ⟨s, hrun, hreported, hremoved⟩ : ∃ s, watched.runVia Watched.Ok Watched.smallQueue
      [.prepare, .consume [3], .prepare, .consume [7, 8], .prepare, .consume [0], .prepare,
        .read 8] = some s ∧ s.reported = some [[7, 8]] ∧ s.recv.removed = [[7, 8]] :=
    ⟨_, rfl, rfl, rfl⟩
  exact ⟨s, hrun, hreported, hremoved,
    recvBuff_sticky (Machine.ReachableVia.runVia (.init hinit) hrun)⟩

/-- After the header 0, the next byte takes its place. -/
theorem recvBuff_resynchronises : ¬ ∀ s, watched.Reachable s → s.Sticky := by
  intro h
  have hinit : watched.Init Watched.smallQueue := Watched.smallQueue_init
  obtain ⟨s, hrun, hreported, hremoved⟩ : ∃ s, watched.run Watched.smallQueue
      [.prepare, .consume [0], .prepare, .consume [3], .prepare, .consume [7, 8], .read 8] =
        some s ∧ s.reported = some [] ∧ s.recv.removed = [[7, 8]] := ⟨_, rfl, rfl, rfl⟩
  have hprefix := h s (Machine.Reachable.run (.init hinit) hrun) [] hreported
  rw [hremoved] at hprefix
  exact absurd hprefix (by decide)

end RandServer
