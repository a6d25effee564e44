import RandServer.Net.Receiver

/-!
# Receive buffers that run out of room

A receive buffer that offers no room should hold a complete message, so that reading it
makes room. For streams of valid frames and without failing allocations this holds of
the ring version in every reachable state. The queue version stops for ever at the first
frame with an empty payload: its header is complete, no byte is missing, and only a
consumed byte would complete the message. `recvBuff_unwedged_iff` shows that this is the
only such case.
-/

namespace RandServer

open LapRing Framing

namespace Receiver

/-- No allocation fails, and the consumed bytes go on with frames that the version
accepts. -/
def Served (s : Receiver) : Action → Prop
  | .prepare => s.mem.AllocOk
  | .consume xs => s.mem.AllocOk ∧
      ValidPrefix s.rbuff.enByte.toNat s.limit (s.input ++ xs)
  | .read _ => s.mem.AllocOk

/-- The sizes that suffice for every message: the ring's capacity, or a pointer. -/
def Sufficient (s : Receiver) (usize : Int) : Prop :=
  match s.rbuff.version with
  | .useBuff => (s.rbuff.poolCnt * s.rbuff.bufferSize : Nat) ≤ usize ∧ usize < 2 ^ 31
  | .useQueue => usize = 8

/-- If there is no room, a sufficient read removes a message and makes room. -/
def Unwedged (s : Receiver) : Prop :=
  (recvBuffPrepare s.mem s.rbuff).1 = 0 → ∀ usize, s.Sufficient usize →
    (recvBuffRead s.mem s.rbuff usize).2.2.1.read ≠ s.rbuff.read ∧
      0 < (recvBuffPrepare (recvBuffRead s.mem s.rbuff usize).2.2.2
        (recvBuffRead s.mem s.rbuff usize).2.2.1).1

/-! ## The ring version -/

theorem RingInv.limit_eq {enByte : EnByteSize} {n bs : Nat} {s : Receiver}
    (h : RingInv enByte n bs s) : s.rbuff.enByte = enByte ∧ s.limit = n * bs := by
  obtain ⟨hv, r, stored, hrep, -⟩ := h
  exact ⟨hrep.enByte, by simp only [limit, hv, hrep.poolCnt, hrep.bufferSize]⟩

/-- Only consuming extends the input. -/
theorem step_input {s t : Receiver} {i : Action} (ht : s.step i = some t) :
    t.input = match i with
      | .consume xs => s.input ++ xs
      | _ => s.input := by
  cases i with
  | prepare =>
      simp only [step] at ht
      split at ht
      · cases ht
      · obtain rfl := Option.some.inj ht
        rfl
  | consume xs =>
      simp only [step] at ht
      split at ht
      · cases ht
      · split at ht
        · obtain rfl := Option.some.inj ht
          rfl
        · cases ht
  | read usize =>
      simp only [step] at ht
      split at ht
      · obtain rfl := Option.some.inj ht
        rfl
      · cases ht

/-- The ring invariant together with the stream seen so far. -/
def ServedRing (enByte : EnByteSize) (n bs : Nat) (s : Receiver) : Prop :=
  RingInv enByte n bs s ∧ ValidPrefix enByte.toNat (n * bs) s.input

theorem ServedRing.step {enByte : EnByteSize} {n bs : Nat} {s t : Receiver} {i : Action}
    (h : ServedRing enByte n bs s) (hok : s.Served i) (ht : s.step i = some t) :
    ServedRing enByte n bs t := by
  refine ⟨h.1.step ht, ?_⟩
  rw [step_input ht]
  obtain ⟨henByte, hlimit⟩ := h.1.limit_eq
  cases i with
  | prepare => exact h.2
  | consume xs =>
      have hstream := hok.2
      rwa [henByte, hlimit] at hstream
  | read usize => exact h.2

theorem Init.servedRing {s : Receiver} (h : Init .useBuff s) :
    ∃ enByte n bs, ServedRing enByte n bs s := by
  obtain ⟨enByte, n, bs, hring⟩ := h.ringInv
  have hinput : s.input = [] := by
    cases h
    rfl
  exact ⟨enByte, n, bs, hring, hinput ▸ ValidPrefix.nil _ _⟩

/-- A full ring holds a complete frame, since no frame is larger than the ring. -/
theorem ServedRing.unwedged {enByte : EnByteSize} {n bs : Nat} {s : Receiver}
    (h : ServedRing enByte n bs s) (halloc : s.mem.AllocOk) : s.Unwedged := by
  obtain ⟨⟨hv, r, stored, hrep, hinput, hvalid, -⟩, hstream⟩ := h
  have hen := enByte.toNat_pos
  intro hzero usize husize
  simp only [Sufficient, hv, hrep.poolCnt, hrep.bufferSize] at husize
  simp only [recvBuffPrepare, hv] at hzero
  have hfull := (hrep.prepare_eq_zero_iff halloc).mp hzero
  rw [hinput] at hstream
  obtain ⟨size, hwhole⟩ := (hstream.drop_frames hen hvalid).head_of_full hfull
    hrep.geometry.capacity_pos
  obtain ⟨-, -, hlo, hcap, -⟩ := head_whole_iff.mp hwhole
  obtain ⟨b', m', hread, hfate, hrep', -, hmoved⟩ :=
    hrep.read_whole hwhole s.mem husize.2 (by omega)
  have hversion := (recvBuffRead_version s.mem s.rbuff usize).trans hv
  simp only [recvBuffRead, hv, hread] at hversion ⊢
  refine ⟨hmoved, ?_⟩
  simp only [recvBuffPrepare, hversion]
  apply Nat.pos_of_ne_zero
  rw [ne_eq, hrep'.prepare_eq_zero_iff (halloc.of_fate_eq hfate), List.length_drop]
  omega

/-! ## The queue version -/

/-- The messages and the unfinished bytes are what follows the removed frames. -/
def QueueInv (enByte : EnByteSize) (n : Nat) (s : Receiver) : Prop :=
  s.rbuff.version = .useQueue ∧ ∃ r msgs part,
    RecvBuff.QueueRep enByte n s.rbuff r msgs part ∧
    s.input = encode enByte.toNat (s.removed ++ msgs) ++ part ∧
    (∀ p ∈ s.removed ++ msgs, Valid enByte.toNat maxMessage p ∧ p ≠ []) ∧
    ∀ room ptr, s.prepared = some (room, ptr) → 0 < room →
      recvBuffPrepareVB s.rbuff = (room, ptr)

theorem Init.queueInv {s : Receiver} (h : Init .useQueue s) : ∃ enByte n, QueueInv enByte n s := by
  cases h with
  | useQueue mem hn lens enByte bufferSize pool =>
      exact ⟨enByte, _, rfl, 0, [], [], RecvBuff.create_queueRep lens enByte hn bufferSize pool,
        rfl, fun p hp => (List.not_mem_nil hp).elim, fun _ _ hprep => nomatch hprep⟩

section QueueInv

variable {enByte : EnByteSize} {n : Nat} {s t : Receiver}

theorem QueueInv.limit_eq (h : QueueInv enByte n s) :
    s.rbuff.enByte = enByte ∧ s.limit = maxMessage := by
  obtain ⟨hv, r, msgs, part, hrep, -⟩ := h
  exact ⟨hrep.enByte, by simp only [limit, hv]⟩

theorem QueueInv.prepare (h : QueueInv enByte n s) (ht : s.step .prepare = some t) :
    QueueInv enByte n t := by
  obtain ⟨hv, r, msgs, part, hrep, hinput, hvalid, -⟩ := h
  simp only [step, recvBuffPrepare, hv] at ht
  split at ht
  · cases ht
  · obtain rfl := Option.some.inj ht
    refine ⟨hv, r, msgs, part, hrep, hinput, hvalid, ?_⟩
    intro room ptr hprep _
    exact Option.some.inj hprep

theorem QueueInv.consume (h : QueueInv enByte n s) {xs : List UInt8}
    (hok : s.Served (.consume xs)) (ht : s.step (.consume xs) = some t) :
    QueueInv enByte n t := by
  obtain ⟨henByte, hlimit⟩ := h.limit_eq
  obtain ⟨hv, r, msgs, part, hrep, hinput, hvalid, hpiece⟩ := h
  obtain ⟨halloc, hstream⟩ := hok
  rw [henByte, hlimit, hinput, List.append_assoc] at hstream
  have hen := enByte.toNat_pos
  simp only [step] at ht
  split at ht
  · cases ht
  · rename_i room ptr hprep
    split at ht
    · rename_i hfit
      obtain rfl := Option.some.inj ht
      by_cases hxs : xs = []
      · subst hxs
        have hfill := s.rbuff.fill_map_nil ptr
        simp only [hfill, recvBuffConsume, hv, recvBuffConsumeVB, List.length_nil, if_true,
          List.append_nil]
        exact ⟨hv, r, msgs, part, hrep, hinput, hvalid, RecvBuff.QueueRep.piece_none⟩
      · have hpos : 0 < xs.length := List.length_pos_iff.mpr hxs
        have hroom := hpiece room ptr hprep (by omega)
        obtain ⟨p, hptr⟩ := hrep.prepare_ptr (by rw [hroom]; simp only; omega)
        rw [hroom] at hptr
        obtain rfl : ptr = some p := hptr
        have hversion := (s.rbuff.fill_version p xs).trans hv
        have hversion' := (recvBuffConsume_version s.mem (s.rbuff.fill p xs) xs.length).trans
          hversion
        simp only [Option.map_some, Option.getD_some]
        simp only [recvBuffConsume, hversion] at hversion' ⊢
        generalize hres : recvBuffConsumeVB s.mem (s.rbuff.fill p xs) xs.length = res at hversion'
        obtain ⟨ret, b', m'⟩ := res
        obtain ⟨-, harr⟩ := hrep.consume hroom hpos hfit halloc hres
        have hnext := (hstream.drop_frames hen fun q hq => (hvalid q hq).1)
        have hinput' : s.input ++ xs =
            encode enByte.toNat (s.removed ++ msgs) ++ (part ++ xs) := by
          rw [hinput, List.append_assoc]
        have hpiece' := @RecvBuff.QueueRep.piece_none b'
        rw [RecvBuff.Arrived] at harr
        split at harr
        · exact ⟨hversion', r, msgs, part ++ xs, harr.2, hinput', hvalid, hpiece'⟩
        · exact ⟨hversion', r, msgs, part ++ xs, harr.2, hinput', hvalid, hpiece'⟩
        · rename_i hhead
          exact absurd hhead (hnext.head_ne hen).1
        · rename_i hhead
          exact absurd hhead (hnext.head_ne hen).2
        · rename_i size hhead
          split at harr
          · exact ⟨hversion', r, msgs, part ++ xs, harr.2, hinput', hvalid, hpiece'⟩
          · rename_i hne
            have hle := hrep.length_le_of_whole hroom hpos hfit hhead
            obtain ⟨hframe, hv', hsize⟩ := frame_of_head hhead
            rw [List.drop_eq_nil_of_le hle, List.append_nil, List.take_of_length_le hle] at hframe
            rw [List.take_of_length_le hle] at hv' hsize
            have hlist : s.removed ++ (msgs ++ [(part ++ xs).drop enByte.toNat]) =
                s.removed ++ msgs ++ [(part ++ xs).drop enByte.toNat] :=
              (List.append_assoc _ _ _).symm
            have hencode : s.input ++ xs = encode enByte.toNat
                (s.removed ++ (msgs ++ [(part ++ xs).drop enByte.toNat])) ++ [] := by
              rw [hlist, encode_append, encode_cons, encode_nil, List.append_nil,
                List.append_nil, ← hframe]
              exact hinput'
            refine ⟨hversion', r, _, [], harr.2, hencode, ?_, hpiece'⟩
            · intro q hq
              rw [hlist] at hq
              rcases List.mem_append.mp hq with hq | hq
              · exact hvalid q hq
              · obtain rfl := List.mem_singleton.mp hq
                refine ⟨hv', fun hnil => hne ?_⟩
                rw [hnil, List.length_nil, Nat.zero_add] at hsize
                exact hsize.symm
    · cases ht

theorem QueueInv.read (h : QueueInv enByte n s) {usize : Int}
    (ht : s.step (.read usize) = some t) : QueueInv enByte n t := by
  have hs := h
  obtain ⟨hv, r, msgs, part, hrep, hinput, hvalid, hpiece⟩ := h
  have hversion := (recvBuffRead_version s.mem s.rbuff usize).trans hv
  simp only [step, recvBuffRead, hv] at ht hversion
  split at ht
  · obtain rfl := Option.some.inj ht
    by_cases husize : usize = 8
    · subst husize
      cases msgs with
      | nil =>
          simp only [hrep.read_nil, if_true]
          exact hs
      | cons p msgs =>
          obtain ⟨bf, b', hread, hbytes, hrep', hmoved⟩ := hrep.read_cons
          simp only [hread, if_neg hmoved, Option.map_some, Option.getD_some, Int.toNat_natCast,
            hbytes] at hversion ⊢
          have hlist : s.removed ++ [p] ++ msgs = s.removed ++ p :: msgs := by simp
          refine ⟨hversion, r + 1, msgs, part, hrep', ?_, ?_, ?_⟩
          · rw [hinput, hlist]
          · rwa [hlist]
          · intro room ptr hprep hpos
            have hprep' := hpiece room ptr hprep hpos
            exact (hrep.prepare_after_read hrep' (by rw [hprep']; exact hpos)).trans hprep'
    · have hread : recvBuffReadVB s.rbuff usize = (0, none, s.rbuff) := by
        rw [recvBuffReadVB, if_pos husize]
      simp only [hread, if_true]
      exact hs
  · cases ht

theorem QueueInv.step {i : Action} (h : QueueInv enByte n s) (hok : s.Served i)
    (ht : s.step i = some t) : QueueInv enByte n t := by
  cases i with
  | prepare => exact h.prepare ht
  | consume xs => exact h.consume hok ht
  | read usize => exact h.read ht

/-- The header of the unfinished message announces an empty payload. -/
def EmptyPayload (en : Nat) (part : List UInt8) : Prop := part.length = en ∧ leValue part = en

/-- The received frames contain an empty payload exactly when the buffer is stuck on it. -/
theorem empty_mem_received_iff {r : Nat} {msgs : List (List UInt8)} {part : List UInt8}
    (hv : s.rbuff.version = .useQueue) (hrep : RecvBuff.QueueRep enByte n s.rbuff r msgs part)
    (hinput : s.input = encode enByte.toNat (s.removed ++ msgs) ++ part)
    (hvalid : ∀ p ∈ s.removed ++ msgs, Valid enByte.toNat maxMessage p ∧ p ≠ []) :
    [] ∈ s.received.1 ↔ EmptyPayload enByte.toNat part := by
  have hen := enByte.toNat_pos
  have hlimit : s.limit = maxMessage := by simp only [limit, hv]
  rw [received, hrep.enByte, hlimit, hinput, split_append hen fun p hp => (hvalid p hp).1]
  constructor
  · intro hmem
    rcases List.mem_append.mp hmem with hmem | hmem
    · exact absurd rfl (hvalid [] hmem).2
    · by_cases hwhole : ∃ size, head enByte.toNat maxMessage part = .whole size
      · obtain ⟨size, hwhole⟩ := hwhole
        obtain ⟨hlen, hval, hlo, -, hle⟩ := head_whole_iff.mp hwhole
        rcases hrep.unfinished_lt hlen with hlt | heq
        · omega
        · rw [List.take_of_length_le (Nat.le_of_eq heq)] at hval
          exact ⟨heq, by omega⟩
      · rw [split_of_not_whole fun size heq => hwhole ⟨size, heq⟩] at hmem
        exact absurd hmem List.not_mem_nil
  · rintro ⟨hlen, hval⟩
    have htake : part.take enByte.toNat = part := List.take_of_length_le (Nat.le_of_eq hlen)
    have hle := enByte.toNat_le
    have hwhole : head enByte.toNat maxMessage part = .whole enByte.toNat := by
      rw [head_whole_iff, htake, hval, maxMessage]
      omega
    rw [split_of_whole hen hwhole, htake, List.drop_of_length_le (Nat.le_of_eq hlen)]
    exact List.mem_append_right _ List.mem_cons_self

theorem QueueInv.unwedged_iff (h : QueueInv enByte n s) : s.Unwedged ↔ [] ∉ s.received.1 := by
  obtain ⟨hv, r, msgs, part, hrep, hinput, hvalid, -⟩ := h
  have hen := enByte.toNat_pos
  have hversion := (recvBuffRead_version s.mem s.rbuff 8).trans hv
  rw [empty_mem_received_iff hv hrep hinput hvalid]
  simp only [Unwedged, Sufficient, hv, recvBuffPrepare, hrep.prepare_eq_zero_iff, forall_eq]
  simp only [recvBuffRead, hv] at hversion ⊢
  simp only [hversion]
  cases msgs with
  | nil =>
      simp only [hrep.read_nil, EmptyPayload]
      have hn := hrep.n_pos
      constructor
      · intro hwedge hempty
        exact (hwedge (.inr hempty)).1 rfl
      · rintro hempty (hfull | hstuck)
        · exact absurd hfull (Nat.ne_of_lt hn)
        · exact absurd hstuck hempty
  | cons p msgs =>
      obtain ⟨bf, b', hread, -, hrep', hmoved⟩ := hrep.read_cons
      have hfits := hrep.fits
      simp only [hread, Nat.pos_iff_ne_zero, ne_eq, hrep'.prepare_eq_zero_iff, hmoved,
        not_false_eq_true, true_and, EmptyPayload]
      constructor
      · intro hwedge hempty
        exact hwedge (.inr hempty) (.inr hempty)
      · rintro hempty - (hfull | hstuck)
        · rw [List.length_cons] at hfits
          omega
        · exact hempty hstuck

end QueueInv

end Receiver

/-- Served with valid frames, a receive buffer never runs out of room without holding a
message to read, except that the queue version does so at a frame without payload. -/
theorem recvBuff_unwedged_iff {v : RecvVersion} {s : Receiver}
    (h : (receiver v).ReachableVia Receiver.Served s) (halloc : s.mem.AllocOk) :
    s.Unwedged ↔ (v = .useQueue → [] ∉ s.received.1) := by
  cases v with
  | useBuff =>
      obtain ⟨enByte, n, bs, hinv⟩ := h.invariant (fun _ hs => Receiver.Init.servedRing hs)
        (fun _ _ _ ⟨enByte, n, bs, hs⟩ hok ht =>
          ⟨enByte, n, bs, Receiver.ServedRing.step hs hok ht⟩)
      exact ⟨fun _ hv => (nomatch hv), fun _ => hinv.unwedged halloc⟩
  | useQueue =>
      obtain ⟨enByte, n, hinv⟩ := h.invariant (fun _ hs => Receiver.Init.queueInv hs)
        (fun _ _ _ ⟨enByte, n, hs⟩ hok ht =>
          ⟨enByte, n, Receiver.QueueInv.step hs hok ht⟩)
      rw [hinv.unwedged_iff]
      exact ⟨fun hnot _ => hnot, fun hnot => hnot rfl⟩

/-- A queue of one message on a heap of zeros, with one-byte headers. -/
def Receiver.smallQueue : Receiver where
  rbuff := recvBuffCreateVB { addr := 0, size := 0, data := fun _ => 0 } .enByte8 1 0 none
  mem :=
    { brk := 0, fate := fun _ => some (fun _ => 0), freed := [],
      pools := fun _ => buffPoolCreate 3 0 }
  prepared := none
  input := []
  removed := []

theorem Receiver.smallQueue_init : (receiver .useQueue).Init smallQueue :=
  Receiver.Init.useQueue _ (by decide) _ _ _ _

/-- A one-byte message fills the queue, and reading it makes room. -/
theorem recvBuff_unwedged_full : ∃ s, (receiver .useQueue).run Receiver.smallQueue
    [.prepare, .consume [2], .prepare, .consume [7]] = some s ∧
      (recvBuffPrepare s.mem s.rbuff).1 = 0 ∧
      (s.Unwedged ↔ (RecvVersion.useQueue = .useQueue → [] ∉ s.received.1)) := by
  have hvalid : ∀ p ∈ [[(7 : UInt8)]], Valid 1 maxMessage p := by
    intro p hp
    obtain rfl := List.mem_singleton.mp hp
    exact ⟨by decide, by decide⟩
  have halloc : Receiver.smallQueue.mem.AllocOk := fun _ => ⟨_, rfl⟩
  refine ⟨_, rfl, rfl, recvBuff_unwedged_iff ?_ halloc⟩
  refine .step (i := .consume [7]) (.step (i := .prepare) (.step (i := .consume [2])
    (.step (i := .prepare) (.init Receiver.smallQueue_init) halloc rfl) ⟨halloc, ?_⟩ rfl)
    halloc rfl) ⟨halloc, ?_⟩ rfl
  · exact ⟨[[7]], [7], hvalid, rfl⟩
  · exact ⟨[[7]], [], hvalid, rfl⟩

/-- The header of an empty payload leaves the queue without room and without a message. -/
theorem recvBuff_wedged_empty_payload : ¬ ∀ v s, (receiver v).ReachableVia Receiver.Served s →
    s.mem.AllocOk → s.Unwedged := by
  intro h
  have hvalid : ∀ p ∈ [([] : List UInt8)], Valid 1 maxMessage p := by
    intro p hp
    obtain rfl := List.mem_singleton.mp hp
    exact ⟨by decide, by decide⟩
  have halloc : Receiver.smallQueue.mem.AllocOk := fun _ => ⟨_, rfl⟩
  obtain ⟨s, hrun, hroom, hread, hmem⟩ : ∃ s, (receiver .useQueue).step
      { Receiver.smallQueue with prepared := some (1, some (.lens 0)) } (.consume [1]) = some s ∧
        (recvBuffPrepare s.mem s.rbuff).1 = 0 ∧
        (recvBuffRead s.mem s.rbuff 8).2.2.1.read = s.rbuff.read ∧
        s.mem.fate = Receiver.smallQueue.mem.fate := ⟨_, rfl, rfl, rfl, rfl⟩
  have hreach : (receiver .useQueue).ReachableVia Receiver.Served s :=
    .step (i := .consume [1])
      (.step (i := .prepare) (.init Receiver.smallQueue_init) halloc rfl)
      ⟨halloc, [[]], [], hvalid, rfl⟩ hrun
  have hversion : s.rbuff.version = .useQueue := by
    cases hrun
    rfl
  have hsufficient : s.Sufficient 8 := by simp only [Receiver.Sufficient, hversion]
  exact (h _ s hreach (halloc.of_fate_eq hmem) hroom 8 hsufficient).1 hread

end RandServer
