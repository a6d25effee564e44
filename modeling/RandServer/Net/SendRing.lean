import RandServer.Lib.Machine
import RandServer.Net.SendBuff

/-!
# The send ring as a byte queue

The machine of one `send_buff`: frames are written, pieces are prepared, and bytes of a
prepared piece are consumed, in any order. `enqueued` collects the payloads of the writes
that moved the write cursor, and `sent` the bytes that are dropped, as they are found
behind the prepared pointer when they are dropped. Writes come between preparing a piece
and consuming it, so the piece has to outlive them.
-/

namespace RandServer

open LapRing Framing

structure SendRing where
  sbuff : SendBuff
  mem : Memory UInt8
  prepared : Nat × Option (Nat × Nat)
  enqueued : List (List UInt8)
  sent : List UInt8

namespace SendRing

inductive Action
  | write (pdata : List UInt8) (size : Int)
  | prepare
  | consume (k : Nat)

/-- Consuming leaves the rest of the piece prepared. -/
def step (s : SendRing) : Action → Option SendRing
  | .write pdata size =>
      if size < 2 ^ 31 ∧ size ≤ pdata.length then
        let res := sendBuffWrite s.mem s.sbuff pdata size
        some { s with
          sbuff := res.2.1
          mem := res.2.2
          enqueued := if res.2.1.write = s.sbuff.write then s.enqueued
            else s.enqueued ++ [pdata.take size.toNat] }
      else none
  | .prepare => some { s with prepared := sendBuffPrepare s.sbuff }
  | .consume k =>
      if k ≤ s.prepared.1 then
        let res := sendBuffConsume s.mem s.sbuff k
        some { s with
          sbuff := res.1
          mem := res.2
          prepared := (s.prepared.1 - k, s.prepared.2.map fun ptr => (ptr.1, ptr.2 + k))
          sent := s.sent ++ s.sbuff.peek s.prepared.2 k }
      else none

/-- A new send buffer, over any pool of a heap that never fails. -/
inductive Init : SendRing → Prop
  | mk {mem : Memory UInt8} {n pool : Nat} (halloc : mem.AllocOk)
      (g : Geometry n (mem.pools pool).bufferSize) (enByte : EnByteSize) :
      Init { sbuff := sendBuffCreate mem enByte n pool, mem := mem, prepared := (0, none),
             enqueued := [], sent := [] }

/-- The frames of the enqueued payloads. -/
def written (s : SendRing) : List UInt8 := encode s.sbuff.enByte.toNat s.enqueued

/-- The free space of the ring. -/
def free (s : SendRing) : Nat :=
  s.sbuff.poolCnt * s.sbuff.bufferSize - (s.written.length - s.sent.length)

/-- A write enqueues its frame when the payload passes the size check and the frame fits. -/
def Enqueues (s : SendRing) (size : Int) : Prop :=
  0 ≤ size ∧ size.toNat < 256 ^ s.sbuff.enByte.toNat ∧
    size.toNat + s.sbuff.enByte.toNat ≤ s.free

/-- The ring is a byte queue. -/
structure Fifo (s : SendRing) : Prop where
  in_order : s.sent <+: s.written
  exposes : s.sent ++ s.sbuff.peek s.prepared.2 s.prepared.1 <+: s.written
  enqueues : ∀ pdata size, size < 2 ^ 31 → size ≤ (pdata.length : Int) →
    (s.Enqueues size ∧ ∃ t, s.step (.write pdata size) = some t ∧
        t.enqueued = s.enqueued ++ [pdata.take size.toNat]) ∨
      (¬ s.Enqueues size ∧ s.step (.write pdata size) = some s)
  empty_iff : (sendBuffPrepare s.sbuff).1 = 0 ↔ s.sent = s.written

end SendRing

def sendRing : Machine SendRing SendRing.Action where
  Init := SendRing.Init
  step := SendRing.step

namespace SendRing

/-! ## The stored bytes -/

/-- The ring holds what is written and not sent. A prepared piece is the front of it. -/
structure Holding (enByte : EnByteSize) (n bs r : Nat) (q : List UInt8) (s : SendRing) :
    Prop where
  rep : SendBuff.Rep enByte n bs s.sbuff r q
  bytes : s.written = s.sent ++ q
  piece : 0 < s.prepared.1 → s.prepared.1 ≤ min q.length (bs - offset bs r) ∧
    s.prepared.2 = some (slot n bs r, offset bs r)

namespace Holding

variable {enByte : EnByteSize} {n bs r : Nat} {q : List UInt8} {s t : SendRing}

/-- The prepared bytes are found behind their pointer. -/
theorem peek (h : s.Holding enByte n bs r q) {k : Nat} (hk : k ≤ s.prepared.1) :
    s.sbuff.peek s.prepared.2 k = q.take k := by
  by_cases hzero : k = 0
  · subst hzero
    simp
  · obtain ⟨hle, hptr⟩ := h.piece (by omega)
    have hq : q ≠ [] := by
      rintro rfl
      simp only [List.length_nil, Nat.zero_min] at hle
      omega
    have hprep := h.rep.prepare_eq
    rw [if_neg hq] at hprep
    have hpeek := h.rep.peek_eq (k := k) (by rw [hprep]; exact hk.trans hle)
    rwa [hprep, ← hptr] at hpeek

theorem prepare (h : s.Holding enByte n bs r q) (ht : s.step .prepare = some t) :
    t.Holding enByte n bs r q := by
  obtain rfl := Option.some.inj ht
  refine ⟨h.rep, h.bytes, fun hpos => ?_⟩
  have hq : q ≠ [] := h.rep.prepare_pos.mp hpos
  simp only [h.rep.prepare_eq, if_neg hq, le_refl, and_self]

theorem consume (h : s.Holding enByte n bs r q) {k : Nat} (ht : s.step (.consume k) = some t) :
    t.Holding enByte n bs (r + k) (q.drop k) ∧ t.sent = s.sent ++ q.take k ∧ k ≤ q.length ∧
      t.mem.fate = s.mem.fate := by
  simp only [step, Option.ite_none_right_eq_some, Option.some.injEq] at ht
  obtain ⟨hk, rfl⟩ := ht
  have hlen : k ≤ q.length := by
    by_cases hzero : k = 0
    · omega
    · exact hk.trans ((h.piece (by omega)).1.trans (Nat.min_le_left _ _))
  obtain ⟨hrep, hfate⟩ := h.rep.consume (m := s.mem) hlen
  refine ⟨⟨hrep, ?_, fun hpos => ?_⟩, by simp only [h.peek hk], hlen, hfate⟩
  · have hbytes := h.bytes
    simp only [written, h.rep.enByte] at hbytes
    simp only [written, hrep.enByte, hbytes, h.peek hk, List.append_assoc, List.take_append_drop]
  · -- the rest of the piece lies in the block of the reader still
    have hleft : 0 < s.prepared.1 - k := hpos
    obtain ⟨hle, hptr⟩ := h.piece (by omega)
    have hin : offset bs r + k < bs := by omega
    have hbs := h.rep.geometry.bs_pos
    refine ⟨?_, ?_⟩
    · simp only [List.length_drop, offset_add_of_lt hin]
      omega
    · simp only [hptr, Option.map_some, slot_add_of_lt hbs hin, offset_add_of_lt hin]

/-- A write enqueues its frame behind the stored bytes, fails to allocate, or changes
nothing. -/
theorem write (h : s.Holding enByte n bs r q) {pdata : List UInt8} {size : Int}
    (ht : s.step (.write pdata size) = some t) :
    t.mem.fate = s.mem.fate ∧ t.sent = s.sent ∧ t.prepared = s.prepared ∧
      ((SendBuff.Rep.Accepts enByte n bs q.length size ∧
          (sendBuffWrite s.mem s.sbuff pdata size).1 = size ∧
          t.enqueued = s.enqueued ++ [pdata.take size.toNat] ∧
          t.Holding enByte n bs r (q ++ frame enByte.toNat (pdata.take size.toNat))) ∨
        (SendBuff.Rep.Accepts enByte n bs q.length size ∧ ¬ s.mem.AllocOk ∧
          (sendBuffWrite s.mem s.sbuff pdata size).1 = enErrNoMemory ∧
          t.enqueued = s.enqueued ∧ t.Holding enByte n bs r q) ∨
        (¬ SendBuff.Rep.Accepts enByte n bs q.length size ∧
          (sendBuffWrite s.mem s.sbuff pdata size).1 = 0 ∧ t = s)) := by
  simp only [step, Option.ite_none_right_eq_some, Option.some.injEq] at ht
  obtain ⟨⟨hsize, hdata⟩, ht⟩ := ht
  by_cases hyes : SendBuff.Rep.Accepts enByte n bs q.length size
  · generalize hres : sendBuffWrite s.mem s.sbuff pdata size = res at ht ⊢
    obtain ⟨ret, b', m'⟩ := res
    obtain ⟨hfate, hret, hcases⟩ := h.rep.write_accepted hsize hdata hyes hres
    obtain ⟨hdone, hrep⟩ | ⟨hfail, hrep⟩ := hcases
    · have hne : frame enByte.toNat (pdata.take size.toNat) ≠ [] :=
          frame_ne_nil enByte.toNat_pos _
      have hmoved : b'.write ≠ s.sbuff.write := h.rep.write_ne hrep hne
      simp only [if_neg hmoved] at ht
      subst ht
      refine ⟨hfate, rfl, rfl, .inl ⟨hyes, hdone, rfl, hrep, ?_, fun hpos => ?_⟩⟩
      · have hbytes := h.bytes
        simp only [written, h.rep.enByte] at hbytes
        simp [written, hrep.enByte, hbytes]
      · obtain ⟨hle, hptr⟩ := h.piece hpos
        refine ⟨hle.trans ?_, hptr⟩
        simp only [List.length_append]
        omega
    · have hsame : b'.write = s.sbuff.write := hrep.write.trans h.rep.write.symm
      simp only [if_pos hsame] at ht
      subst ht
      refine ⟨hfate, rfl, rfl,
        .inr (.inl ⟨hyes, fun halloc => ?_, hfail, rfl, hrep, ?_, h.piece⟩)⟩
      · have hpos := hyes.1
        have herr : size = -1 := (hret halloc).symm.trans hfail
        omega
      · have hbytes := h.bytes
        simp only [written, h.rep.enByte] at hbytes
        simp only [written, hrep.enByte, hbytes]
  · have hres : sendBuffWrite s.mem s.sbuff pdata size = (0, s.sbuff, s.mem) :=
      h.rep.write_refused hsize hyes
    simp only [hres, if_true] at ht ⊢
    subst ht
    exact ⟨rfl, rfl, rfl, .inr (.inr ⟨hyes, trivial, rfl⟩)⟩

end Holding

/-- The ring stores what is written and not sent. A prepared piece is the front of it. -/
structure Stores (enByte : EnByteSize) (n bs r : Nat) (q : List UInt8) (s : SendRing) :
    Prop where
  rep : SendBuff.Rep enByte n bs s.sbuff r q
  alloc : s.mem.AllocOk
  bytes : s.written = s.sent ++ q
  piece : 0 < s.prepared.1 → s.prepared.1 ≤ min q.length (bs - offset bs r) ∧
    s.prepared.2 = some (slot n bs r, offset bs r)

def Inv (s : SendRing) : Prop := ∃ enByte n bs r q, s.Stores enByte n bs r q

theorem Init.inv {s : SendRing} (h : Init s) : s.Inv := by
  cases h with
  | mk halloc g enByte =>
      exact ⟨enByte, _, _, 0, [], sendBuffCreate_rep g, halloc, rfl, nofun⟩

theorem Holding.stores {enByte : EnByteSize} {n bs r : Nat} {q : List UInt8} {s : SendRing}
    (h : s.Holding enByte n bs r q) (halloc : s.mem.AllocOk) : s.Stores enByte n bs r q :=
  ⟨h.rep, halloc, h.bytes, h.piece⟩

namespace Stores

variable {enByte : EnByteSize} {n bs r : Nat} {q : List UInt8} {s t : SendRing}

theorem holding (h : s.Stores enByte n bs r q) : s.Holding enByte n bs r q :=
  ⟨h.rep, h.bytes, h.piece⟩

theorem free_eq (h : s.Stores enByte n bs r q) : s.free = n * bs - q.length := by
  simp [free, h.bytes, h.rep.poolCnt, h.rep.bufferSize]

theorem enqueues_iff (h : s.Stores enByte n bs r q) (size : Int) :
    s.Enqueues size ↔ SendBuff.Rep.Accepts enByte n bs q.length size := by
  have hfits := h.rep.fits
  have hen := enByte.toNat_pos
  simp only [Enqueues, SendBuff.Rep.Accepts, h.free_eq, h.rep.enByte]
  omega

theorem prepare (h : s.Stores enByte n bs r q) (ht : s.step .prepare = some t) :
    t.Stores enByte n bs r q := by
  have hmem : t.mem = s.mem := by
    obtain rfl := Option.some.inj ht
    rfl
  exact (h.holding.prepare ht).stores (hmem ▸ h.alloc)

theorem consume (h : s.Stores enByte n bs r q) {k : Nat}
    (ht : s.step (.consume k) = some t) : t.Stores enByte n bs (r + k) (q.drop k) := by
  obtain ⟨hhold, -, -, hfate⟩ := h.holding.consume ht
  exact hhold.stores (h.alloc.of_fate_eq hfate)

/-- A write enqueues its frame behind the stored bytes or changes nothing. -/
theorem write (h : s.Stores enByte n bs r q) {pdata : List UInt8} {size : Int}
    (hsize : size < 2 ^ 31) (hdata : size ≤ pdata.length) :
    (s.Enqueues size ∧ ∃ t, s.step (.write pdata size) = some t ∧
        t.enqueued = s.enqueued ++ [pdata.take size.toNat] ∧
        t.Stores enByte n bs r (q ++ frame enByte.toNat (pdata.take size.toNat))) ∨
      (¬ s.Enqueues size ∧ s.step (.write pdata size) = some s) := by
  rw [h.enqueues_iff]
  obtain ⟨t, ht⟩ : ∃ t, s.step (.write pdata size) = some t :=
    ⟨_, by rw [step, if_pos ⟨hsize, hdata⟩]⟩
  obtain ⟨hfate, -, -, ⟨hyes, -, henq, hhold⟩ | ⟨-, hfail, -⟩ | ⟨hno, -, rfl⟩⟩ :=
    h.holding.write ht
  · exact .inl ⟨hyes, t, ht, henq, hhold.stores (h.alloc.of_fate_eq hfate)⟩
  · exact absurd h.alloc hfail
  · exact .inr ⟨hno, ht⟩

theorem fifo (h : s.Stores enByte n bs r q) : s.Fifo where
  in_order := ⟨q, h.bytes.symm⟩
  exposes := by
    rw [h.holding.peek (le_refl _), h.bytes]
    exact List.prefix_append_right_inj _ |>.mpr (List.take_prefix _ _)
  enqueues pdata size hsize hdata := by
    obtain ⟨hyes, t, ht, henq, -⟩ | hno := h.write hsize hdata
    · exact .inl ⟨hyes, t, ht, henq⟩
    · exact .inr hno
  empty_iff := by
    have hpos := h.rep.prepare_pos
    rw [h.bytes, List.self_eq_append_right]
    constructor
    · intro hzero
      by_contra hq
      have := hpos.mpr hq
      omega
    · intro hq
      by_contra hzero
      exact hpos.mp (by omega) hq

end Stores

theorem Inv.step {s t : SendRing} {a : Action} (h : s.Inv) (ht : s.step a = some t) : t.Inv := by
  obtain ⟨enByte, n, bs, r, q, h⟩ := h
  cases a with
  | write pdata size =>
      have hargs : size < 2 ^ 31 ∧ size ≤ pdata.length := by
        simp only [SendRing.step, Option.ite_none_right_eq_some] at ht
        exact ht.1
      obtain ⟨-, t', ht', -, h'⟩ | ⟨-, hsame⟩ := h.write hargs.1 hargs.2
      · obtain rfl := Option.some.inj (ht.symm.trans ht')
        exact ⟨enByte, n, bs, r, _, h'⟩
      · obtain rfl := Option.some.inj (ht.symm.trans hsame)
        exact ⟨enByte, n, bs, r, q, h⟩
  | prepare => exact ⟨enByte, n, bs, r, q, h.prepare ht⟩
  | consume k => exact ⟨enByte, n, bs, r + k, q.drop k, h.consume ht⟩

end SendRing

/-! ## Every run -/

/-- In every run the send ring is a byte queue of frames. -/
theorem sendRing_fifo {s : SendRing} (h : sendRing.Reachable s) : s.Fifo := by
  have hinv : s.Inv := by
    apply h.invariant
    · exact fun s hs => hs.inv
    · exact fun s t a hs hstep => hs.step hstep
  obtain ⟨enByte, n, bs, r, q, hstores⟩ := hinv
  exact hstores.fifo

/-- A ring of two blocks of four bytes, on a heap of zeros. -/
def SendRing.fresh : SendRing where
  sbuff := sendBuffCreate
    { brk := 0, fate := fun _ => some (fun _ => 0), freed := [],
      pools := fun _ => buffPoolCreate 4 0 } .enByte8 2 0
  mem :=
    { brk := 0, fate := fun _ => some (fun _ => 0), freed := [],
      pools := fun _ => buffPoolCreate 4 0 }
  prepared := (0, none)
  enqueued := []
  sent := []

/-- A frame is written while the one before it is prepared, and fills the ring. -/
theorem sendRing_fifo_full : ∃ s, sendRing.run SendRing.fresh
    [.write [1, 2, 3] 3, .prepare, .write [5, 6, 7] 3, .write [] 0, .consume 3, .consume 1,
      .prepare, .consume 4] = some s ∧ s.sent = [4, 1, 2, 3, 4, 5, 6, 7] ∧ s.Fifo := by
  have hinit : sendRing.Init SendRing.fresh :=
    .mk (fun _ => ⟨_, rfl⟩) ⟨by decide, by decide, by decide, by decide⟩ .enByte8
  obtain ⟨s, hrun, hsent⟩ : ∃ s, sendRing.run SendRing.fresh
      [.write [1, 2, 3] 3, .prepare, .write [5, 6, 7] 3, .write [] 0, .consume 3, .consume 1,
        .prepare, .consume 4] = some s ∧ s.sent = [4, 1, 2, 3, 4, 5, 6, 7] := ⟨_, rfl, rfl⟩
  exact ⟨s, hrun, hsent, sendRing_fifo (Machine.Reachable.run (.init hinit) hrun)⟩

end RandServer
