import RandServer.Net.RecvQueue
import RandServer.Net.RecvRing

/-!
# Both versions of the receive buffer as stored bytes

`RecvBuff.Stores` says which bytes a receive buffer of either version holds, and what the
operations return is stated with the complete frames of these bytes. For a stream of valid
frames the versions differ in one case only: the queue version never completes a frame
without payload, which `RecvVersion.Completes` excludes.
-/

namespace RandServer

open LapRing Framing

namespace RecvVersion

/-- The version recognizes every complete frame of the bytes. -/
def Completes (v : RecvVersion) (en cap : Nat) (bytes : List UInt8) : Prop :=
  v = .useQueue → [] ∉ (split en cap bytes).1

/-- The sizes of destination that suffice for every message. -/
def Sufficient (v : RecvVersion) (cap : Nat) (usize : Int) : Prop :=
  match v with
  | .useBuff => (cap : Int) ≤ usize ∧ usize < 2 ^ 31
  | .useQueue => usize = 8

instance (v : RecvVersion) (cap : Nat) (usize : Int) : Decidable (v.Sufficient cap usize) := by
  unfold Sufficient
  cases v <;> infer_instance

/-- Fewer bytes have fewer complete frames. -/
theorem Completes.of_append {v : RecvVersion} {en cap : Nat} (hen : 0 < en) {xs ys : List UInt8}
    (h : v.Completes en cap (xs ++ ys)) : v.Completes en cap xs :=
  fun hv hmem => h hv ((split_isPrefixOf hen xs ys).subset hmem)

end RecvVersion

section Stream

variable {en cap : Nat} {xs : List UInt8}

/-- No error lies behind the complete frames of a valid stream. -/
theorem gained_valid (hen : 0 < en) (h : ValidPrefix en cap xs) :
    gained (head en cap (split en cap xs).2) = 0 := by
  obtain ⟨hback, hvalid, hnot⟩ := encode_split cap hen xs
  rw [← hback] at h
  have hne := (h.drop_frames hen hvalid).head_ne hen
  cases hhead : head en cap (split en cap xs).2 with
  | short => rfl
  | cut => rfl
  | small => exact absurd hhead hne.1
  | big => exact absurd hhead hne.2
  | whole size => exact absurd hhead (hnot size)

end Stream

namespace RecvBuff

/-- The largest frame that the buffer accepts. -/
def limit (b : RecvBuff) : Nat :=
  match b.version with
  | .useBuff => b.poolCnt * b.bufferSize
  | .useQueue => maxMessage

/-- The buffer holds the bytes, of which no frame is longer than `cap`. -/
inductive Stores (enByte : EnByteSize) (cap : Nat) (b : RecvBuff) : List UInt8 → Prop
  | ring {n bs r : Nat} {stored : List UInt8} : b.version = .useBuff → n * bs = cap →
      RingRep enByte n bs b r stored → Stores enByte cap b stored
  | queue {n r : Nat} {msgs : List (List UInt8)} {part : List UInt8} : b.version = .useQueue →
      maxMessage = cap → QueueRep enByte n b r msgs part →
      (∀ p ∈ msgs, Valid enByte.toNat cap p) →
      Stores enByte cap b (encode enByte.toNat msgs ++ part)

section Queue

variable {enByte : EnByteSize} {n r : Nat} {b : RecvBuff} {msgs : List (List UInt8)}
variable {part : List UInt8}

/-- The only complete frame that an unfinished message can be has no payload. -/
theorem QueueRep.nil_mem_split_iff (h : QueueRep enByte n b r msgs part) :
    [] ∈ (split enByte.toNat maxMessage part).1 ↔
      part.length = enByte.toNat ∧ leValue part = enByte.toNat := by
  have hen := enByte.toNat_pos
  constructor
  · intro hmem
    by_cases hwhole : ∃ size, head enByte.toNat maxMessage part = .whole size
    · obtain ⟨size, hwhole⟩ := hwhole
      obtain ⟨hlen, hval, hlo, -, hle⟩ := head_whole_iff.mp hwhole
      obtain hlt | heq := h.unfinished_lt hlen
      · omega
      · rw [List.take_of_length_le (Nat.le_of_eq heq)] at hval
        exact ⟨heq, by omega⟩
    · rw [split_of_not_whole fun size heq => hwhole ⟨size, heq⟩] at hmem
      exact absurd hmem List.not_mem_nil
  · rintro ⟨hlen, hval⟩
    have htake : part.take enByte.toNat = part := List.take_of_length_le (Nat.le_of_eq hlen)
    have hle := enByte.toNat_le
    have hwhole : head enByte.toNat maxMessage part = .whole enByte.toNat := by
      rw [head_whole_iff, htake, hval, maxMessage]
      omega
    rw [split_of_whole hen hwhole, htake, List.drop_of_length_le (Nat.le_of_eq hlen)]
    exact List.mem_cons_self

theorem QueueRep.split_part (h : QueueRep enByte n b r msgs part)
    (hpayload : [] ∉ (split enByte.toNat maxMessage part).1) :
    (split enByte.toNat maxMessage part).1 = [] := by
  by_cases hwhole : ∃ size, head enByte.toNat maxMessage part = .whole size
  · obtain ⟨size, hwhole⟩ := hwhole
    obtain ⟨hlen, hval, hlo, -, hle⟩ := head_whole_iff.mp hwhole
    refine absurd (h.nil_mem_split_iff.mpr ?_) hpayload
    obtain hlt | heq := h.unfinished_lt hlen
    · omega
    · rw [List.take_of_length_le (Nat.le_of_eq heq)] at hval
      exact ⟨heq, by omega⟩
  · rw [split_of_not_whole fun size heq => hwhole ⟨size, heq⟩]

/-- A message that is completed ends with its frame. -/
theorem QueueRep.whole_part (h : QueueRep enByte n b r msgs part) {room size : Nat}
    {ptr : Option RecvPtr} (hprep : recvBuffPrepareVB b = (room, ptr)) {xs : List UInt8}
    (hxs : 0 < xs.length) (hfit : xs.length ≤ room)
    (hhead : head enByte.toNat maxMessage (part ++ xs) = .whole size) :
    part ++ xs = frame enByte.toNat ((part ++ xs).drop enByte.toNat) ∧
      Valid enByte.toNat maxMessage ((part ++ xs).drop enByte.toNat) := by
  have hle := h.length_le_of_whole hprep hxs hfit hhead
  obtain ⟨hframe, hvalid, -⟩ := frame_of_head hhead
  rw [List.drop_eq_nil_of_le hle, List.append_nil, List.take_of_length_le hle] at hframe
  rw [List.take_of_length_le hle] at hvalid
  exact ⟨hframe, hvalid⟩

/-- A chunk leaves the bytes of the messages and of the unfinished one, and the result counts
the new message. -/
theorem QueueRep.settled (h : QueueRep enByte n b r msgs part)
    (hframes : ∀ p ∈ msgs, Valid enByte.toNat maxMessage p) {room : Nat} {ptr : Option RecvPtr}
    (hprep : recvBuffPrepareVB b = (room, ptr)) {xs : List UInt8} (hxs : 0 < xs.length)
    (hfit : xs.length ≤ room) (hvalid : ValidPrefix enByte.toNat maxMessage (part ++ xs))
    {b' : RecvBuff} {ret : Int} (harr : Arrived enByte n b' r msgs (part ++ xs) ret) :
    ∃ msgs' part', QueueRep enByte n b' r msgs' part' ∧
      (∀ p ∈ msgs', Valid enByte.toNat maxMessage p) ∧
      encode enByte.toNat msgs ++ (part ++ xs) = encode enByte.toNat msgs' ++ part' ∧
      ret = (msgs'.length : Int) - msgs.length := by
  have hen := enByte.toNat_pos
  have hsame : ret = 0 ∧ QueueRep enByte n b' r msgs (part ++ xs) →
      ∃ msgs' part', QueueRep enByte n b' r msgs' part' ∧
        (∀ p ∈ msgs', Valid enByte.toNat maxMessage p) ∧
        encode enByte.toNat msgs ++ (part ++ xs) = encode enByte.toNat msgs' ++ part' ∧
        ret = (msgs'.length : Int) - msgs.length := by
    rintro ⟨rfl, hrep⟩
    exact ⟨msgs, part ++ xs, hrep, hframes, rfl, (Int.sub_self _).symm⟩
  rw [Arrived] at harr
  split at harr
  · exact hsame harr
  · exact hsame harr
  · rename_i hhead
    exact absurd hhead (hvalid.head_ne hen).1
  · rename_i hhead
    exact absurd hhead (hvalid.head_ne hen).2
  · rename_i size hhead
    split at harr
    · exact hsame harr
    · obtain ⟨rfl, hrep⟩ := harr
      obtain ⟨hback, hframe⟩ := h.whole_part hprep hxs hfit hhead
      refine ⟨_, [], hrep, ?_, ?_, ?_⟩
      · exact List.forall_mem_append.mpr ⟨hframes, List.forall_mem_singleton.mpr hframe⟩
      · rw [encode_append, encode_cons, encode_nil, List.append_nil, List.append_nil, ← hback]
      · rw [List.length_append, List.length_singleton]
        omega

/-- The complete frames are the messages, if none lacks a payload. -/
theorem QueueRep.split_stored (h : QueueRep enByte n b r msgs part)
    (hvalid : ∀ p ∈ msgs, Valid enByte.toNat maxMessage p)
    (hpayload : [] ∉ (split enByte.toNat maxMessage (encode enByte.toNat msgs ++ part)).1) :
    (split enByte.toNat maxMessage (encode enByte.toNat msgs ++ part)).1 = msgs := by
  rw [split_append enByte.toNat_pos hvalid] at hpayload ⊢
  rw [h.split_part fun hmem => hpayload (List.mem_append_right _ hmem), List.append_nil]

end Queue

namespace Stores

variable {enByte : EnByteSize} {cap room : Nat} {b b₁ b₂ : RecvBuff} {m m₁ m₂ : Memory UInt8}
variable {stored : List UInt8} {ptr : Option RecvPtr}

theorem enByte_eq (h : b.Stores enByte cap stored) : b.enByte = enByte := by
  cases h with
  | ring _ _ hrep => exact hrep.enByte
  | queue _ _ hrep _ => exact hrep.enByte

theorem limit_eq (h : b.Stores enByte cap stored) : b.limit = cap := by
  cases h with
  | ring hv hcap hrep => simp only [limit, hv, hrep.poolCnt, hrep.bufferSize, hcap]
  | queue hv hcap _ _ => simp only [limit, hv, hcap]

theorem prepare (h : b.Stores enByte cap stored)
    (hp : recvBuffPrepare m b = (room, ptr, b₁, m₁)) :
    b₁.Stores enByte cap stored ∧ b₁.version = b.version ∧ m₁.fate = m.fate := by
  have hversion : b₁.version = b.version := by
    have hkeep := recvBuffPrepare_version m b
    rwa [hp] at hkeep
  cases h with
  | ring hv hcap hrep =>
      simp only [recvBuffPrepare, hv] at hp
      obtain ⟨hfate, hrep', -⟩ := hrep.prepare hp
      exact ⟨.ring (hversion.trans hv) hcap hrep', hversion, hfate⟩
  | queue hv hcap hrep hvalid =>
      simp only [recvBuffPrepare, hv, Prod.mk.injEq] at hp
      obtain ⟨-, -, rfl, rfl⟩ := hp
      exact ⟨.queue hv hcap hrep hvalid, rfl, rfl⟩

/-- A buffer without room holds a complete frame. -/
theorem prepare_zero (h : b.Stores enByte cap stored) (halloc : m.AllocOk)
    (hvalid : ValidPrefix enByte.toNat cap stored)
    (hcompletes : b.version.Completes enByte.toNat cap stored)
    (hp : (recvBuffPrepare m b).1 = 0) : (split enByte.toNat cap stored).1 ≠ [] := by
  have hen := enByte.toNat_pos
  intro hnone
  cases h with
  | ring hv hcap hrep =>
      subst hcap
      simp only [recvBuffPrepare, hv] at hp
      have hfull := (hrep.prepare_eq_zero_iff halloc).mp hp
      obtain ⟨size, hwhole⟩ := hvalid.head_of_full hfull hrep.geometry.capacity_pos
      rw [split_of_whole hen hwhole] at hnone
      cases hnone
  | queue hv hcap hrep hframes =>
      subst hcap
      have hpayload := hcompletes hv
      rw [hrep.split_stored hframes hpayload] at hnone
      subst hnone
      simp only [recvBuffPrepare, hv, hrep.prepare_eq_zero_iff] at hp
      obtain hfull | hstuck := hp
      · exact absurd hrep.n_pos (by rw [← hfull]; exact Nat.lt_irrefl 0)
      · exact hpayload (hrep.nil_mem_split_iff.mpr hstuck)

/-- One chunk: the bytes join the stored ones, and the result counts the frames that they
complete. -/
theorem turn (h : b.Stores enByte cap stored) (hp : recvBuffPrepare m b = (room, ptr, b₁, m₁))
    (hroom : 0 < room) : ∃ p, ptr = some p ∧ ∀ xs : List UInt8, xs.length ≤ room →
      ∀ ret b₂ m₂, recvBuffConsume m₁ (b₁.fill p xs) xs.length = (ret, b₂, m₂) → m.AllocOk →
        ValidPrefix enByte.toNat cap (stored ++ xs) →
        b.version.Completes enByte.toNat cap (stored ++ xs) →
        b₂.Stores enByte cap (stored ++ xs) ∧ b₂.version = b.version ∧ m₂.fate = m.fate ∧
          ret = ((split enByte.toNat cap (stored ++ xs)).1.length : Int) -
            (split enByte.toNat cap stored).1.length := by
  have hen := enByte.toNat_pos
  have hversion₁ : b₁.version = b.version := by
    have hkeep := recvBuffPrepare_version m b
    rwa [hp] at hkeep
  have hversion₂ : ∀ {p : RecvPtr} {xs : List UInt8} {ret : Int} {b₂ : RecvBuff}
      {m₂ : Memory UInt8}, recvBuffConsume m₁ (b₁.fill p xs) xs.length = (ret, b₂, m₂) →
      b₂.version = b.version := by
    intro p xs ret b₂ m₂ hc
    have hkeep := recvBuffConsume_version m₁ (b₁.fill p xs) xs.length
    rw [hc, fill_version, hversion₁] at hkeep
    exact hkeep
  cases h with
  | @ring n bs r stored hv hcap hrep =>
      subst hcap
      simp only [recvBuffPrepare, hv] at hp
      obtain ⟨hfate, hrep', hpiece, -⟩ := hrep.prepare hp
      obtain ⟨rfl, hspace⟩ := hpiece hroom
      refine ⟨_, rfl, fun xs hfit ret b₂ m₂ hc halloc hvalid hcompletes => ?_⟩
      have hv₂ := (hversion₂ hc).trans hv
      by_cases hxs : xs = []
      · subst hxs
        simp only [fill_nil, recvBuffConsume, hversion₁, hv, List.length_nil, Prod.mk.injEq] at hc
        obtain ⟨hret, hb₂, rfl⟩ := hc
        have hrep₂ := hrep'.consume_nil (Prod.ext hret hb₂)
        have hzero : ret = 0 := by
          rw [← hret, recvBuffConsumeVA, if_pos rfl]
        simp only [List.append_nil, Int.sub_self]
        exact ⟨.ring hv₂ rfl hrep₂, hv₂.trans hv.symm, hfate, hzero⟩
      · have hpos : 0 < xs.length := List.length_pos_iff.mpr hxs
        simp only [recvBuffConsume, fill_version, hversion₁, hv, Prod.mk.injEq] at hc
        obtain ⟨hret, hb₂, rfl⟩ := hc
        obtain ⟨hrep₂, hcount⟩ := hrep'.consume_eq hspace hpos hfit (Prod.ext hret hb₂)
        rw [gained_valid hen hvalid, if_neg (Int.lt_irrefl 0)] at hcount
        exact ⟨.ring hv₂ rfl hrep₂, hv₂.trans hv.symm, hfate, hcount⟩
  | @queue n r msgs part hv hcap hrep hframes =>
      subst hcap
      simp only [recvBuffPrepare, hv, Prod.mk.injEq] at hp
      obtain ⟨hsize, hptr, rfl, rfl⟩ := hp
      obtain ⟨p, hsome⟩ := hrep.prepare_ptr (by omega)
      refine ⟨p, hptr.symm.trans hsome, fun xs hfit ret b₂ m₂ hc halloc hvalid hcompletes => ?_⟩
      have hv₂ := (hversion₂ hc).trans hv
      have hpayload := hcompletes hv
      have hstored := hrep.split_stored hframes
        ((hcompletes.of_append hen) hv)
      simp only [recvBuffConsume, fill_version, hv] at hc
      rw [hstored]
      by_cases hxs : xs = []
      · subst hxs
        simp only [fill_nil, recvBuffConsumeVB, List.length_nil, if_true, Prod.mk.injEq] at hc
        obtain ⟨rfl, rfl, rfl⟩ := hc
        rw [List.append_nil, hstored, Int.sub_self]
        exact ⟨.queue hv rfl hrep hframes, rfl, rfl, rfl⟩
      · have hpos : 0 < xs.length := List.length_pos_iff.mpr hxs
        have hprep : recvBuffPrepareVB b = (room, some p) := Prod.ext hsize hsome
        obtain ⟨hfate, harr⟩ := hrep.consume hprep hpos hfit halloc hc
        rw [List.append_assoc] at hvalid hpayload ⊢
        obtain ⟨msgs', part', hrep₂, hall, hbytes, hret⟩ :=
          hrep.settled hframes hprep hpos hfit (hvalid.drop_frames hen hframes) harr
        rw [hbytes] at hpayload ⊢
        rw [hrep₂.split_stored hall hpayload]
        exact ⟨.queue hv₂ rfl hrep₂ hall, hv₂.trans hv.symm, hfate, hret⟩

/-- A sufficient read removes the first complete frame and returns the length of its
payload, or it returns 0 because there is none. -/
theorem read (h : b.Stores enByte cap stored) (hvalid : ValidPrefix enByte.toNat cap stored)
    (hcompletes : b.version.Completes enByte.toNat cap stored) {usize : Int}
    (husize : b.version.Sufficient cap usize) (m : Memory UInt8) :
    (split enByte.toNat cap stored).1 = [] ∧ recvBuffRead m b usize = (0, [], b, m) ∨
      ∃ p stored' b' m', stored = frame enByte.toNat p ++ stored' ∧ Valid enByte.toNat cap p ∧
        recvBuffRead m b usize = ((p.length : Int), p, b', m') ∧ b'.Stores enByte cap stored' ∧
        b'.version = b.version ∧ m'.fate = m.fate ∧ b'.read ≠ b.read := by
  have hen := enByte.toNat_pos
  have hversion := recvBuffRead_version m b usize
  cases h with
  | @ring n bs r stored hv hcap hrep =>
      subst hcap
      simp only [RecvVersion.Sufficient, hv] at husize
      by_cases hwhole : ∃ size, head enByte.toNat (n * bs) stored = .whole size
      · obtain ⟨size, hwhole⟩ := hwhole
        obtain ⟨hback, hframe, hsize⟩ := frame_of_head hwhole
        obtain ⟨-, -, -, hcap, -⟩ := head_whole_iff.mp hwhole
        obtain ⟨b', m', hread, hfate, hrep', -, hmoved⟩ :=
          hrep.read_whole hwhole m husize.2 (by omega)
        rw [← Nat.eq_sub_of_add_eq hsize] at hread
        have hread' : recvBuffRead m b usize =
            ((((stored.take size).drop enByte.toNat).length : Int),
              (stored.take size).drop enByte.toNat, b', m') := by
          simp only [recvBuffRead, hv, hread]
        rw [hread'] at hversion
        exact .inr ⟨_, _, b', m', hback, hframe, hread', .ring (hversion.trans hv) rfl hrep',
          hversion, hfate, hmoved⟩
      · have hnot : ∀ size, head enByte.toNat (n * bs) stored ≠ .whole size :=
          fun size heq => hwhole ⟨size, heq⟩
        have hzero := gained_valid hen hvalid
        rw [split_of_not_whole hnot] at hzero ⊢
        refine .inl ⟨rfl, ?_⟩
        simp only [recvBuffRead, hv, hrep.read_incomplete hnot, hzero]
  | @queue n r msgs part hv hcap hrep hframes =>
      subst hcap
      simp only [RecvVersion.Sufficient, hv] at husize
      subst husize
      rw [hrep.split_stored hframes (hcompletes hv)]
      cases msgs with
      | nil =>
          refine .inl ⟨rfl, ?_⟩
          simp only [recvBuffRead, hv, hrep.read_nil, Option.map_none, Option.getD_none]
      | cons p msgs =>
          obtain ⟨bf, b', hread, hbytes, hrep', hmoved⟩ := hrep.read_cons
          have hread' : recvBuffRead m b 8 = ((p.length : Int), p, b', m) := by
            simp only [recvBuffRead, hv, hread, Option.map_some, Option.getD_some,
              Int.toNat_natCast, hbytes]
          rw [hread'] at hversion
          refine .inr ⟨p, _, b', m, ?_, hframes p List.mem_cons_self, hread',
            .queue (hversion.trans hv) rfl hrep' fun q hq => hframes q (List.mem_cons_of_mem _ hq),
            hversion, rfl, hmoved⟩
          rw [encode_cons, List.append_assoc]

end Stores

/-! ## The read cursor -/

theorem fill_read (b : RecvBuff) (ptr : RecvPtr) (xs : List UInt8) :
    (b.fill ptr xs).read = b.read := by
  unfold fill
  repeat' split
  all_goals rfl

end RecvBuff

/-- Receiving leaves the read cursor alone. -/
theorem recvBuffPrepare_read (m : Memory UInt8) (b : RecvBuff) :
    (recvBuffPrepare m b).2.2.1.read = b.read := by
  unfold recvBuffPrepare recvBuffPrepareVA
  dsimp only
  repeat' split
  all_goals rfl

theorem recvBuffConsume_read (m : Memory UInt8) (b : RecvBuff) (usize : Nat) :
    (recvBuffConsume m b usize).2.1.read = b.read := by
  unfold recvBuffConsume recvBuffConsumeVA recvBuffConsumeVB
  dsimp only
  repeat' split
  all_goals rfl

end RandServer
