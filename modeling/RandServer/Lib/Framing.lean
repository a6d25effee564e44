import RandServer.Lib.LittleEndian

/-!
# Length-prefixed framing of byte streams

A frame is a little-endian length header of `en` bytes followed by its payload, and
the length counts the header itself. `head` classifies the front of a stream for a
receiver that accepts lengths up to `cap`, and `split` cuts a stream into payloads
and the rest that does not start with a complete acceptable frame.

`split_frames` shows that the cut is determined by any decomposition into valid
frames, and `split_append` and `split_take_prefix` relate the cuts of a stream and
of its parts, so that a receiver can be specified on the bytes it has seen so far.
-/

namespace Framing

variable {en cap : Nat}

/-- Encode a payload with its self-inclusive length header. -/
def frame (en : Nat) (payload : List UInt8) : List UInt8 :=
  leBytes en (payload.length + en) ++ payload

/-- Payloads whose length the header can encode and the receiver accepts. -/
def Valid (en cap : Nat) (payload : List UInt8) : Prop :=
  payload.length + en ≤ cap ∧ payload.length + en < 256 ^ en

/-- What the front of a stream looks like to a receiver. -/
inductive Head
  | short
  | small
  | big
  | cut
  | whole (size : Nat)
  deriving DecidableEq, Repr

def head (en cap : Nat) (s : List UInt8) : Head :=
  if s.length < en then .short
  else if leValue (s.take en) < en then .small
  else if cap < leValue (s.take en) then .big
  else if s.length < leValue (s.take en) then .cut
  else .whole (leValue (s.take en))

/-- Cut off at most `fuel` leading frames. -/
def splitN (en cap : Nat) : Nat → List UInt8 → List (List UInt8) × List UInt8
  | 0, s => ([], s)
  | fuel + 1, s =>
      match head en cap s with
      | .whole size =>
          let rest := splitN en cap fuel (s.drop size)
          (((s.take size).drop en) :: rest.1, rest.2)
      | _ => ([], s)

/-- Cut a stream into its leading payloads and the rest. Every frame has at least
one header byte, so the length of the stream is enough fuel. -/
def split (en cap : Nat) (s : List UInt8) : List (List UInt8) × List UInt8 :=
  splitN en cap s.length s

@[simp] theorem frame_length (en : Nat) (payload : List UInt8) :
    (frame en payload).length = payload.length + en := by
  simp [frame, Nat.add_comm]

theorem frame_ne_nil {en : Nat} (hen : 0 < en) (payload : List UInt8) :
    frame en payload ≠ [] := by
  apply List.ne_nil_of_length_pos
  rw [frame_length]
  exact Nat.add_pos_right _ hen

/-- Concatenated frames. -/
def encode (en : Nat) (payloads : List (List UInt8)) : List UInt8 :=
  (payloads.map (frame en)).flatten

@[simp] theorem encode_nil (en : Nat) : encode en [] = [] := rfl

@[simp] theorem encode_cons (en : Nat) (p : List UInt8) (ps : List (List UInt8)) :
    encode en (p :: ps) = frame en p ++ encode en ps := rfl

@[simp] theorem encode_append (en : Nat) (ps qs : List (List UInt8)) :
    encode en (ps ++ qs) = encode en ps ++ encode en qs := by
  simp [encode]

theorem head_whole_iff {s : List UInt8} {size : Nat} : head en cap s = .whole size ↔
    en ≤ s.length ∧ leValue (s.take en) = size ∧ en ≤ size ∧ size ≤ cap ∧ size ≤ s.length := by
  simp only [head]
  repeat' split
  all_goals simp only [reduceCtorEq, false_iff, Head.whole.injEq]
  all_goals omega

/-- The front of a stream that ends with its header. -/
theorem head_header (cap : Nat) {s : List UInt8} (hs : s.length = en) : head en cap s =
    if leValue s < en then .small else if cap < leValue s then .big
    else if en < leValue s then .cut else .whole (leValue s) := by
  rw [head, List.take_of_length_le (Nat.le_of_eq hs), hs, if_neg (Nat.lt_irrefl _)]

/-- A valid frame is recognised whatever follows it. -/
theorem head_frame_append {payload : List UInt8} (hv : Valid en cap payload) (t : List UInt8) :
    head en cap (frame en payload ++ t) = .whole (payload.length + en) := by
  have hheader : (frame en payload ++ t).take en = leBytes en (payload.length + en) := by
    rw [frame, List.append_assoc, List.take_append_of_le_length (by simp)]
    exact List.take_of_length_le (by simp)
  rw [head_whole_iff, hheader, leValue_leBytes, Nat.mod_eq_of_lt hv.2]
  have hcap := hv.1
  simp only [List.length_append, frame_length]
  exact ⟨by omega, trivial, by omega, hcap, by omega⟩

/-- The header of a valid frame can be read as soon as its bytes are there. -/
theorem leValue_header {payload z t t' : List UInt8} (hv : Valid en cap payload)
    (h : z ++ t = frame en payload ++ t') (hz : en ≤ z.length) :
    leValue (z.take en) = payload.length + en := by
  have htake : z.take en = leBytes en (payload.length + en) := by
    rw [← List.take_append_of_le_length hz, h, frame, List.append_assoc,
      List.take_append_of_le_length (by simp)]
    exact List.take_of_length_le (by simp)
  rw [htake, leValue_leBytes, Nat.mod_eq_of_lt hv.2]

/-- Part of a valid frame is neither rejected nor taken for a complete one. -/
theorem head_part {payload z t t' : List UInt8} (hv : Valid en cap payload)
    (h : z ++ t = frame en payload ++ t') (hz : z.length < (frame en payload).length) :
    head en cap z = .short ∨ head en cap z = .cut := by
  rw [frame_length] at hz
  rcases Nat.lt_or_ge z.length en with hshort | hlong
  · exact .inl (by rw [head, if_pos hshort])
  · have hval := leValue_header hv h hlong
    have hcap := hv.1
    refine .inr ?_
    rw [head, if_neg (by omega), hval, if_neg (by omega), if_neg (by omega), if_pos hz]

/-- A complete frame at the front is the encoding of its payload. -/
theorem frame_of_head {s : List UInt8} {size : Nat} (h : head en cap s = .whole size) :
    s = frame en ((s.take size).drop en) ++ s.drop size ∧
      Valid en cap ((s.take size).drop en) ∧ ((s.take size).drop en).length + en = size := by
  obtain ⟨hlen, hval, hsize, hcap, hfit⟩ := head_whole_iff.mp h
  have hpayload : ((s.take size).drop en).length + en = size := by
    rw [List.length_drop, List.length_take]
    omega
  have htake : (s.take en).length = en := by
    rw [List.length_take]
    omega
  have hheader : leBytes en size = (s.take size).take en := by
    have hback := leBytes_leValue (s.take en)
    rw [htake, hval] at hback
    rw [hback, List.take_take, Nat.min_eq_left hsize]
  refine ⟨?_, ⟨by omega, ?_⟩, hpayload⟩
  · rw [frame, hpayload, hheader, List.take_append_drop, List.take_append_drop]
  · have hlt := leValue_lt (s.take en)
    rw [htake, hval] at hlt
    omega

theorem splitN_frame {payload : List UInt8} (hv : Valid en cap payload) (fuel : Nat)
    (t : List UInt8) : splitN en cap (fuel + 1) (frame en payload ++ t) =
      (payload :: (splitN en cap fuel t).1, (splitN en cap fuel t).2) := by
  have hsize : (frame en payload ++ t).take (payload.length + en) = frame en payload := by
    rw [← frame_length, List.take_left]
  have hdrop : (frame en payload ++ t).drop (payload.length + en) = t := by
    rw [← frame_length, List.drop_left]
  have hpay : (frame en payload).drop en = payload := by
    rw [frame, List.drop_left' (by simp)]
  simp only [splitN, head_frame_append hv, hsize, hdrop, hpay]

theorem splitN_of_not_whole {s : List UInt8} (h : ∀ size, head en cap s ≠ .whole size)
    (fuel : Nat) : splitN en cap fuel s = ([], s) := by
  cases fuel with
  | zero => rfl
  | succ fuel =>
      rw [splitN]
      split
      · exact absurd ‹_› (h _)
      · rfl

/-- Every stream is the encoding of valid payloads followed by a rest without a
complete frame. -/
theorem exists_decomposition (cap : Nat) (hen : 0 < en) (s : List UInt8) :
    ∃ ps rest, s = encode en ps ++ rest ∧ (∀ p ∈ ps, Valid en cap p) ∧
      ∀ size, head en cap rest ≠ .whole size := by
  induction hlen : s.length using Nat.strongRecOn generalizing s with
  | ind len ih =>
      by_cases hw : ∃ size, head en cap s = .whole size
      · obtain ⟨size, hw⟩ := hw
        obtain ⟨hs, hv, hsize⟩ := frame_of_head hw
        have hlt : (s.drop size).length < len := by
          have hfit := (head_whole_iff.mp hw).2.2
          rw [List.length_drop]
          omega
        obtain ⟨ps, rest, heq, hps, hrest⟩ := ih _ hlt (s.drop size) rfl
        refine ⟨(s.take size).drop en :: ps, rest, ?_, ?_, hrest⟩
        · rw [encode_cons, List.append_assoc, ← heq]
          exact hs
        · intro p hp
          rcases List.mem_cons.mp hp with rfl | hp
          · exact hv
          · exact hps p hp
      · exact ⟨[], s, rfl, by simp, fun size h => hw ⟨size, h⟩⟩

theorem splitN_encode {ps : List (List UInt8)} (hps : ∀ p ∈ ps, Valid en cap p)
    {rest : List UInt8} (hrest : ∀ size, head en cap rest ≠ .whole size) {fuel : Nat}
    (hfuel : ps.length ≤ fuel) : splitN en cap fuel (encode en ps ++ rest) = (ps, rest) := by
  induction ps generalizing fuel with
  | nil => exact splitN_of_not_whole hrest fuel
  | cons p ps ih =>
      obtain ⟨fuel, rfl⟩ : ∃ k, fuel = k + 1 :=
        ⟨fuel - 1, by rw [List.length_cons] at hfuel; omega⟩
      rw [encode_cons, List.append_assoc, splitN_frame (hps p List.mem_cons_self),
        ih (fun q hq => hps q (List.mem_cons_of_mem _ hq)) (Nat.le_of_succ_le_succ hfuel)]

theorem length_le_encode (hen : 0 < en) (ps : List (List UInt8)) :
    ps.length ≤ (encode en ps).length := by
  induction ps with
  | nil => exact Nat.le_refl _
  | cons p ps ih =>
      rw [encode_cons, List.length_append, frame_length, List.length_cons]
      omega

/-- Any decomposition into valid frames and a rest without one is the cut. -/
theorem split_frames (hen : 0 < en) {ps : List (List UInt8)} (hps : ∀ p ∈ ps, Valid en cap p)
    {rest : List UInt8} (hrest : ∀ size, head en cap rest ≠ .whole size) :
    split en cap (encode en ps ++ rest) = (ps, rest) := by
  apply splitN_encode hps hrest
  have hle := length_le_encode hen ps
  rw [List.length_append]
  omega

/-- The cut of a stream puts it back together. -/
theorem encode_split (cap : Nat) (hen : 0 < en) (s : List UInt8) :
    encode en (split en cap s).1 ++ (split en cap s).2 = s ∧
      (∀ p ∈ (split en cap s).1, Valid en cap p) ∧
      ∀ size, head en cap (split en cap s).2 ≠ .whole size := by
  obtain ⟨ps, rest, rfl, hps, hrest⟩ := exists_decomposition cap hen s
  rw [split_frames hen hps hrest]
  exact ⟨rfl, hps, hrest⟩

/-- Leading valid frames are split off one by one. -/
theorem split_append (hen : 0 < en) {ps : List (List UInt8)}
    (hps : ∀ p ∈ ps, Valid en cap p) (t : List UInt8) :
    split en cap (encode en ps ++ t) = (ps ++ (split en cap t).1, (split en cap t).2) := by
  obtain ⟨ht, hqs, hrest⟩ := encode_split cap hen t
  have hall : ∀ p ∈ ps ++ (split en cap t).1, Valid en cap p := by
    intro p hp
    rcases List.mem_append.mp hp with hp | hp
    · exact hps p hp
    · exact hqs p hp
  rw [← split_frames hen hall hrest, encode_append, List.append_assoc, ht]

theorem split_of_not_whole {s : List UInt8} (h : ∀ size, head en cap s ≠ .whole size) :
    split en cap s = ([], s) := splitN_of_not_whole h _

/-- A complete frame at the front is cut off first. -/
theorem split_of_whole (hen : 0 < en) {s : List UInt8} {size : Nat}
    (h : head en cap s = .whole size) : split en cap s =
      (((s.take size).drop en) :: (split en cap (s.drop size)).1,
        (split en cap (s.drop size)).2) := by
  obtain ⟨hs, hv, -⟩ := frame_of_head h
  have hone : ∀ p ∈ [(s.take size).drop en], Valid en cap p := by
    intro p hp
    rwa [List.mem_singleton.mp hp]
  have hsplit := split_append hen hone (s.drop size)
  rw [encode_cons, encode_nil, List.append_nil, ← hs] at hsplit
  exact hsplit

/-- What a receiver has cut from part of a stream it also cuts from the whole. -/
theorem split_isPrefixOf (hen : 0 < en) (s t : List UInt8) :
    (split en cap s).1 <+: (split en cap (s ++ t)).1 := by
  obtain ⟨hs, hps, -⟩ := encode_split cap hen s
  rw [← congrArg (· ++ t) hs, List.append_assoc, split_append hen hps]
  exact List.prefix_append _ _

/-! ## Invalid headers -/

/-- The stream starts with a header that the receiver refuses. -/
def Rejects (en cap : Nat) (s : List UInt8) : Prop :=
  head en cap s = .small ∨ head en cap s = .big

/-- A header is refused whatever follows it. -/
theorem Rejects.append {s : List UInt8} (h : Rejects en cap s) (t : List UInt8) :
    Rejects en cap (s ++ t) := by
  have hlen : ¬ s.length < en := by
    intro hshort
    simp only [Rejects, head, if_pos hshort, reduceCtorEq, or_self] at h
  have hlen' : ¬ (s ++ t).length < en := by
    rw [List.length_append]
    omega
  have htake : (s ++ t).take en = s.take en :=
    List.take_append_of_le_length (Nat.not_lt.mp hlen)
  simp only [Rejects, head, if_neg hlen, if_neg hlen', htake] at h ⊢
  split
  · exact .inl rfl
  · split
    · exact .inr rfl
    · rename_i hsmall hbig
      rw [if_neg hsmall, if_neg hbig] at h
      split at h <;> simp only [reduceCtorEq, or_self] at h

theorem Rejects.split_eq {s : List UInt8} (h : Rejects en cap s) : split en cap s = ([], s) := by
  apply split_of_not_whole
  intro size hwhole
  simp only [Rejects, hwhole, reduceCtorEq, or_self] at h

/-- Nothing is cut off behind a refused header. -/
theorem split_append_of_rejects (hen : 0 < en) {s : List UInt8}
    (h : Rejects en cap (split en cap s).2) (t : List UInt8) :
    split en cap (s ++ t) = ((split en cap s).1, (split en cap s).2 ++ t) := by
  obtain ⟨hs, hps, -⟩ := encode_split cap hen s
  have happend := split_append hen hps ((split en cap s).2 ++ t)
  rw [(h.append t).split_eq, List.append_nil, ← List.append_assoc, hs] at happend
  exact happend

/-! ## Streams of valid frames -/

/-- The bytes `s` begin some stream of valid frames. -/
def ValidPrefix (en cap : Nat) (s : List UInt8) : Prop :=
  ∃ ps t, (∀ p ∈ ps, Valid en cap p) ∧ encode en ps = s ++ t

namespace ValidPrefix

variable {s t : List UInt8}

theorem nil (en cap : Nat) : ValidPrefix en cap [] := ⟨[], [], by simp, rfl⟩

theorem of_append (h : ValidPrefix en cap (s ++ t)) : ValidPrefix en cap s := by
  obtain ⟨ps, u, hps, heq⟩ := h
  exact ⟨ps, t ++ u, hps, by rw [heq, List.append_assoc]⟩

/-- Behind leading valid frames, the stream goes on with valid frames. -/
theorem drop_frames (hen : 0 < en) {qs : List (List UInt8)} (hqs : ∀ q ∈ qs, Valid en cap q)
    (h : ValidPrefix en cap (encode en qs ++ s)) : ValidPrefix en cap s := by
  obtain ⟨ps, t, hps, heq⟩ := h
  have hcut : split en cap (encode en ps) = (ps, []) := by
    have hnil : ∀ size, head en cap [] ≠ .whole size := fun size hhead => by
      have hle := (head_whole_iff.mp hhead).1
      exact absurd hle (Nat.not_le.mpr hen)
    have hframes := split_frames hen hps hnil
    rwa [List.append_nil] at hframes
  rw [heq, List.append_assoc, split_append hen hqs, Prod.mk.injEq] at hcut
  obtain ⟨hback, hvalid, -⟩ := encode_split cap hen (s ++ t)
  rw [hcut.2, List.append_nil] at hback
  exact ⟨(split en cap (s ++ t)).1, t, hvalid, hback⟩

/-- The frame that a nonempty beginning belongs to. -/
theorem exists_frame (h : ValidPrefix en cap s) (hs : s ≠ []) :
    ∃ p t t', Valid en cap p ∧ s ++ t = frame en p ++ t' := by
  obtain ⟨ps, t, hps, heq⟩ := h
  cases ps with
  | nil => exact absurd (List.append_eq_nil_iff.mp heq.symm).1 hs
  | cons p ps => exact ⟨p, t, encode en ps, hps p List.mem_cons_self, heq.symm⟩

/-- The receiver never rejects the front of such a stream. -/
theorem head_ne (hen : 0 < en) (h : ValidPrefix en cap s) :
    head en cap s ≠ .small ∧ head en cap s ≠ .big := by
  by_cases hs : s = []
  · have hshort : head en cap s = .short := by
      rw [hs, head, if_pos (by simpa using hen)]
    rw [hshort]
    exact ⟨nofun, nofun⟩
  · obtain ⟨p, t, t', hv, heq⟩ := h.exists_frame hs
    rcases Nat.lt_or_ge s.length (frame en p).length with hlt | hge
    · rcases head_part hv heq hlt with hhead | hhead
      all_goals
        rw [hhead]
        exact ⟨nofun, nofun⟩
    · obtain ⟨rest, hrest⟩ : ∃ rest, s = frame en p ++ rest := by
        have htake := congrArg (List.take (frame en p).length) heq
        rw [List.take_append_of_le_length hge, List.take_left] at htake
        have hsplit := List.take_append_drop (frame en p).length s
        rw [htake] at hsplit
        exact ⟨_, hsplit.symm⟩
      rw [hrest, head_frame_append hv]
      exact ⟨nofun, nofun⟩

/-- A full receiver holds a complete frame. -/
theorem head_of_full (h : ValidPrefix en cap s) (hfull : s.length = cap)
    (hpos : 0 < cap) : ∃ size, head en cap s = .whole size := by
  have hs : s ≠ [] := List.ne_nil_of_length_pos (by omega)
  obtain ⟨p, t, t', hv, heq⟩ := h.exists_frame hs
  have hen' : en ≤ s.length := by
    have := hv.1
    omega
  have hval := leValue_header hv heq hen'
  have hcap := hv.1
  exact ⟨p.length + en, head_whole_iff.mpr ⟨hen', hval, by omega, hcap, by omega⟩⟩

end ValidPrefix

end Framing
