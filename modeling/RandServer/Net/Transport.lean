import RandServer.Lib.Machine
import RandServer.Net.RecvQueue
import RandServer.Net.SendBuff

/-!
# Transport from a send buffer to a receive queue

A sender's `send_buff` is emptied into a receiver's vB `recv_buff` with the same header
width, in pieces of any size that both sides offer. Payloads that the sender enqueues
are recorded in `accepted` and payloads that the receiver hands out in `delivered`.

Two kinds of payload break the transport, although the sender enqueues them. A payload
whose size fits the header but whose size plus header does not is sent with a wrapped
length. An empty payload completes no message at the receiver, which then never asks
for another byte. `Encodable` excludes both, and `transport_faithful` shows that
nothing else goes wrong in any run.
-/

namespace RandServer

open Framing

structure Transport where
  sbuff : SendBuff
  rbuff : RecvBuff
  mem : Memory UInt8
  accepted : List (List UInt8)
  delivered : List (List UInt8)
  failed : Bool

namespace Transport

inductive Action
  | write (pdata : List UInt8) (size : Int)
  | transfer (k : Nat)
  | read

/-- A payload counts as accepted when the write cursor has moved: the return value of
an enqueued empty payload is that of a refused one. -/
def step (s : Transport) : Action → Option Transport
  | .write pdata size =>
      if size < 2 ^ 31 ∧ size ≤ pdata.length then
        let res := sendBuffWrite s.mem s.sbuff pdata size
        some { s with
          sbuff := res.2.1
          mem := res.2.2
          accepted := if res.2.1.write = s.sbuff.write then s.accepted
            else s.accepted ++ [pdata.take size.toNat] }
      else none
  | .transfer k =>
      match recvBuffPrepareVB s.rbuff with
      | (_, none) => none
      | (room, some ptr) =>
          if 0 < k ∧ k ≤ (sendBuffPrepare s.sbuff).1 ∧ k ≤ room then
            let rbuff := s.rbuff.fill ptr (s.sbuff.peek (sendBuffPrepare s.sbuff).2 k)
            let res := recvBuffConsumeVB s.mem rbuff k
            let sent := sendBuffConsume res.2.2 s.sbuff k
            some { s with
              sbuff := sent.1
              rbuff := res.2.1
              mem := sent.2
              failed := s.failed || decide (res.1 < 0) }
          else none
  | .read =>
      let res := recvBuffReadVB s.rbuff 8
      some { s with
        rbuff := res.2.2
        delivered := match res.2.1 with
          | some bf => s.delivered ++ [bf.read 0 res.1.toNat]
          | none => s.delivered }

/-- Two new buffers with the same header width, and a heap that never fails. -/
inductive Init : Transport → Prop
  | mk {mem : Memory UInt8} {n pool : Nat} (halloc : mem.AllocOk)
      (g : Geometry n (mem.pools pool).bufferSize) (enByte : EnByteSize) {n' : Nat}
      (hn' : 0 < n') (hle' : n' ≤ 32768) (lens : Block UInt8) (bufferSize : Nat)
      (pool' : Option Nat) :
      Init { sbuff := sendBuffCreate mem enByte n pool
             rbuff := recvBuffCreateVB lens enByte n' bufferSize pool'
             mem := mem, accepted := [], delivered := [], failed := false }

end Transport

def transport : Machine Transport Transport.Action where
  Init := Transport.Init
  step := Transport.step

namespace Transport

/-- What a reader on the other side relies on. -/
structure Faithful (s : Transport) : Prop where
  in_order : s.delivered <+: s.accepted
  no_error : s.failed = false
  complete : (∀ k, s.step (.transfer k) = none) → (recvBuffReadVB s.rbuff 8).2.1 = none →
    s.delivered = s.accepted

/-- A write that the sender would enqueue carries a nonempty payload whose framed size
fits in the header. -/
def Encodable (s : Transport) : Action → Prop
  | .write _ size =>
      0 ≤ size ∧ size.toNat < 256 ^ s.sbuff.enByte.toNat ∧
        size.toNat + s.sbuff.enByte.toNat ≤
          buffGetSpace s.sbuff.poolCnt s.sbuff.bufferSize (cursorH s.sbuff.read)
            (cursorL s.sbuff.read) (cursorH s.sbuff.write) (cursorL s.sbuff.write) →
      0 < size ∧ size.toNat + s.sbuff.enByte.toNat < 256 ^ s.sbuff.enByte.toNat
  | .transfer _ => True
  | .read => True

instance (s : Transport) (i : Action) : Decidable (s.Encodable i) := by
  cases i <;> unfold Encodable <;> infer_instance

/-- The payloads `rest` are under way: some bytes have reached the receiver's unfinished
message, the others are still in the sender's queue. -/
structure InFlight (en : Nat) (part q : List UInt8) (rest : List (List UInt8)) : Prop where
  bytes : encode en rest = part ++ q
  valid : ∀ p ∈ rest, Valid en maxMessage p
  nonempty : ∀ p ∈ rest, 0 < p.length

def Inv (s : Transport) : Prop :=
  ∃ enByte n bs r q n' r' msgs part rest, SendBuff.Rep enByte n bs s.sbuff r q ∧
    RecvBuff.QueueRep enByte n' s.rbuff r' msgs part ∧ s.mem.AllocOk ∧
    InFlight enByte.toNat part q rest ∧ s.accepted = s.delivered ++ msgs ++ rest ∧
    s.failed = false

theorem Init.inv {s : Transport} (h : Init s) : s.Inv := by
  cases h with
  | mk halloc g enByte hn' _ lens bufferSize pool' =>
      exact ⟨enByte, _, _, 0, [], _, 0, [], [], [], sendBuffCreate_rep g,
        RecvBuff.create_queueRep lens enByte hn' bufferSize pool', halloc,
        ⟨rfl, by simp, by simp⟩, rfl, rfl⟩

namespace InFlight

variable {en : Nat} {part q : List UInt8} {rest : List (List UInt8)}

theorem enqueue (h : InFlight en part q rest) {p : List UInt8} (hv : Valid en maxMessage p)
    (hp : 0 < p.length) : InFlight en part (q ++ frame en p) (rest ++ [p]) where
  bytes := by
    rw [encode_append, encode_cons, encode_nil, List.append_nil, h.bytes, List.append_assoc]
  valid := List.forall_mem_append.mpr ⟨h.valid, List.forall_mem_singleton.mpr hv⟩
  nonempty := List.forall_mem_append.mpr ⟨h.nonempty, List.forall_mem_singleton.mpr hp⟩

/-- Transferring bytes that stay within the first frame either leaves it unfinished or
completes it. -/
theorem transfer {p : List UInt8} (h : InFlight en part q (p :: rest)) {k : Nat}
    (hfit : (part ++ q.take k).length ≤ (frame en p).length) :
    (InFlight en (part ++ q.take k) (q.drop k) (p :: rest) ∧
      (head en maxMessage (part ++ q.take k) = .short ∨
        head en maxMessage (part ++ q.take k) = .cut)) ∨
    (part ++ q.take k = frame en p ∧ InFlight en [] (q.drop k) rest) := by
  have hbytes : (part ++ q.take k) ++ q.drop k = frame en p ++ encode en rest := by
    rw [List.append_assoc, List.take_append_drop, ← h.bytes, encode_cons]
  rcases Nat.lt_or_ge (part ++ q.take k).length (frame en p).length with hlt | hge
  · refine .inl ⟨⟨?_, h.valid, h.nonempty⟩, ?_⟩
    · rw [hbytes, encode_cons]
    · exact head_part (h.valid p List.mem_cons_self) hbytes hlt
  · obtain ⟨hframe, hrest⟩ := List.append_inj hbytes (Nat.le_antisymm hfit hge)
    exact .inr ⟨hframe, hrest.symm, fun p' hp' => h.valid p' (List.mem_cons_of_mem _ hp'),
      fun p' hp' => h.nonempty p' (List.mem_cons_of_mem _ hp')⟩

end InFlight

/-! ## One step -/

theorem encodable_iff {enByte : EnByteSize} {n bs r : Nat} {q : List UInt8} {s : Transport}
    (hs : SendBuff.Rep enByte n bs s.sbuff r q) (pdata : List UInt8) (size : Int) :
    s.Encodable (.write pdata size) ↔ (SendBuff.Rep.Accepts enByte n bs q.length size →
      0 < size ∧ size.toNat + enByte.toNat < 256 ^ enByte.toNat) := by
  have hfits := hs.fits
  have hen := enByte.toNat_pos
  simp only [Encodable, SendBuff.Rep.Accepts, hs.space, hs.enByte]
  constructor
  · rintro h ⟨hpos, hlow, hroom⟩
    exact h ⟨hpos, hlow, by omega⟩
  · rintro h ⟨hpos, hlow, hroom⟩
    exact h ⟨hpos, hlow, by omega⟩

theorem Inv.write {s t : Transport} (h : s.Inv) {pdata : List UInt8} {size : Int}
    (hok : s.Encodable (.write pdata size)) (ht : s.step (.write pdata size) = some t) :
    t.Inv := by
  obtain ⟨enByte, n, bs, r, q, n', r', msgs, part, rest, hs, hr, halloc, hfly, hacc, hfail⟩ := h
  simp only [step] at ht
  generalize hres : sendBuffWrite s.mem s.sbuff pdata size = res at ht
  obtain ⟨ret, b', m'⟩ := res
  split at ht
  · rename_i hsize
    obtain rfl := Option.some.inj ht
    by_cases hyes : SendBuff.Rep.Accepts enByte n bs q.length size
    · obtain ⟨hpos, hlow⟩ := (encodable_iff hs pdata size).mp hok hyes
      obtain ⟨hfate, hret, hcases⟩ := hs.write_accepted hsize.1 hsize.2 hyes hres
      have hret := hret halloc
      rcases hcases with ⟨-, hs'⟩ | ⟨herr, -⟩
      · have hne : frame enByte.toNat (pdata.take size.toNat) ≠ [] :=
          frame_ne_nil enByte.toNat_pos _
        have hmoved : b'.write ≠ s.sbuff.write := hs.write_ne hs' hne
        have hlen : (pdata.take size.toNat).length = size.toNat := by
          rw [List.length_take]
          omega
        have hvalid : Valid enByte.toNat maxMessage (pdata.take size.toNat) := by
          have hcap := hs.geometry.capacity_lt
          have hroom := hyes.2.2
          exact ⟨by rw [hlen, maxMessage]; omega, by rw [hlen]; exact hlow⟩
        refine ⟨enByte, n, bs, r, _, n', r', msgs, part, rest ++ [pdata.take size.toNat], hs', hr,
          halloc.of_fate_eq hfate, hfly.enqueue hvalid (by omega), ?_, hfail⟩
        simp only [if_neg hmoved, hacc, List.append_assoc]
      · rw [hret, enErrNoMemory] at herr
        omega
    · rw [hs.write_refused hsize.1 hyes] at hres
      cases hres
      simp only [if_true]
      exact ⟨enByte, n, bs, r, q, n', r', msgs, part, rest, hs, hr, halloc, hfly, hacc, hfail⟩
  · cases ht

theorem Inv.read {s t : Transport} (h : s.Inv) (ht : s.step .read = some t) : t.Inv := by
  obtain ⟨enByte, n, bs, r, q, n', r', msgs, part, rest, hs, hr, halloc, hfly, hacc, hfail⟩ := h
  cases msgs with
  | nil =>
      simp only [step, hr.read_nil] at ht
      obtain rfl := Option.some.inj ht
      exact ⟨enByte, n, bs, r, q, n', r', [], part, rest, hs, hr, halloc, hfly, hacc, hfail⟩
  | cons p msgs =>
      obtain ⟨bf, b', hread, hbytes, hr', -⟩ := hr.read_cons
      simp only [step, hread, Int.toNat_natCast, hbytes] at ht
      obtain rfl := Option.some.inj ht
      refine ⟨enByte, n, bs, r, q, n', r' + 1, msgs, part, rest, hs, hr', halloc, hfly, ?_, hfail⟩
      simp only [hacc, List.append_assoc, List.cons_append, List.nil_append]

/-- The receiver never asks for bytes beyond the frame it is receiving. -/
theorem room_le {enByte : EnByteSize} {n r : Nat} {b : RecvBuff} {msgs : List (List UInt8)}
    {part q : List UInt8} {p : List UInt8} {rest : List (List UInt8)}
    (hr : RecvBuff.QueueRep enByte n b r msgs part)
    (hfly : InFlight enByte.toNat part q (p :: rest)) (hpos : 0 < (recvBuffPrepareVB b).1) :
    part.length + (recvBuffPrepareVB b).1 ≤ (frame enByte.toNat p).length := by
  rw [frame_length]
  obtain ⟨-, ⟨hpart, hrest, -⟩ | ⟨hpart, hrest, -⟩⟩ := hr.prepare_cases Prod.mk.eta.symm hpos
  · omega
  · have hbytes := hfly.bytes
    rw [encode_cons] at hbytes
    rw [leValue_header (hfly.valid p List.mem_cons_self) hbytes.symm hpart] at hrest
    omega

theorem Inv.transfer {s t : Transport} (h : s.Inv) {k : Nat}
    (ht : s.step (.transfer k) = some t) : t.Inv := by
  obtain ⟨enByte, n, bs, r, q, n', r', msgs, part, rest, hs, hr, halloc, hfly, hacc, hfail⟩ := h
  simp only [step] at ht
  split at ht
  · cases ht
  · rename_i room ptr hprep
    split at ht
    · rename_i hk
      obtain ⟨hpos, hsend, hroom⟩ := hk
      have hpeek := hs.peek_eq hsend
      have hkq : k ≤ q.length := Nat.le_trans hsend hs.prepare_le
      have hlen : (q.take k).length = k := by
        rw [List.length_take]
        omega
      rw [hpeek] at ht
      generalize hres : recvBuffConsumeVB s.mem (s.rbuff.fill ptr (q.take k)) k = res at ht
      obtain ⟨ret, rb', m'⟩ := res
      have hres' : recvBuffConsumeVB s.mem (s.rbuff.fill ptr (q.take k)) (q.take k).length =
          (ret, rb', m') := by
        rw [hlen]
        exact hres
      obtain ⟨hfate, harr⟩ := hr.consume hprep (by omega) (by omega) halloc hres'
      obtain ⟨hs', hfate'⟩ := hs.consume (m := m') hkq
      obtain rfl := Option.some.inj ht
      obtain ⟨p, rest, rfl⟩ : ∃ p rest', rest = p :: rest' := by
        apply List.exists_cons_of_ne_nil
        rintro rfl
        have hnil := congrArg List.length hfly.bytes
        rw [encode_nil, List.length_nil, List.length_append] at hnil
        omega
      have hle := room_le hr hfly (by rw [hprep]; simp only; omega)
      rw [hprep] at hle
      rcases hfly.transfer (k := k) (by rw [List.length_append]; omega) with
        ⟨hfly', hhead⟩ | ⟨hframe, hfly'⟩
      · have harr' : ret = 0 ∧
            RecvBuff.QueueRep enByte n' rb' r' msgs (part ++ q.take k) := by
          rcases hhead with hhead | hhead
          · rwa [RecvBuff.Arrived, hhead] at harr
          · rwa [RecvBuff.Arrived, hhead] at harr
        obtain ⟨rfl, hr'⟩ := harr'
        exact ⟨enByte, n, bs, r + k, q.drop k, n', r', msgs, part ++ q.take k, p :: rest, hs', hr',
          halloc.of_fate_eq (hfate'.trans hfate), hfly', hacc, by simp [hfail]⟩
      · have hvalid := hfly.valid p List.mem_cons_self
        have hpay := hfly.nonempty p List.mem_cons_self
        have hhead := head_frame_append hvalid []
        rw [List.append_nil, ← hframe] at hhead
        have hdrop : (part ++ q.take k).drop enByte.toNat = p := by
          rw [hframe, frame, List.drop_left' (leBytes_length _ _)]
        rw [RecvBuff.Arrived, hhead] at harr
        simp only [if_neg (show p.length + enByte.toNat ≠ enByte.toNat by omega), hdrop] at harr
        obtain ⟨rfl, hr'⟩ := harr
        refine ⟨enByte, n, bs, r + k, q.drop k, n', r', msgs ++ [p], [], rest, hs', hr',
          halloc.of_fate_eq (hfate'.trans hfate), hfly', ?_, by simp [hfail]⟩
        rw [List.append_assoc, List.append_assoc]
        simpa using hacc
    · cases ht

theorem Inv.step {s t : Transport} {i : Action} (h : s.Inv) (hok : s.Encodable i)
    (ht : s.step i = some t) : t.Inv := by
  cases i with
  | write pdata size => exact h.write hok ht
  | transfer k => exact h.transfer ht
  | read => exact h.read ht

/-! ## Every run -/

/-- A blocked sender has nothing left, unless the receiver is full. -/
theorem sent_of_blocked {s : Transport} {enByte : EnByteSize} {n bs r n' r' : Nat}
    {part q : List UInt8} {rest : List (List UInt8)}
    (hs : SendBuff.Rep enByte n bs s.sbuff r q)
    (hr : RecvBuff.QueueRep enByte n' s.rbuff r' [] part)
    (hfly : InFlight enByte.toNat part q rest) (hblocked : s.step (.transfer 1) = none) :
    q = [] := by
  by_contra hq
  have hsend : 0 < (sendBuffPrepare s.sbuff).1 := hs.prepare_pos.mpr hq
  have hroom : (recvBuffPrepareVB s.rbuff).1 ≠ 0 := by
    intro hzero
    rcases hr.prepare_eq_zero_iff.mp hzero with hfull | ⟨hlen, hval⟩
    · exact absurd hfull (Nat.ne_of_lt hr.n_pos)
    · have hen := enByte.toNat_pos
      cases rest with
      | nil =>
          have hnil := congrArg List.length hfly.bytes
          rw [encode_nil, List.length_nil, List.length_append] at hnil
          omega
      | cons p rest =>
          have hbytes := hfly.bytes
          rw [encode_cons] at hbytes
          have hp := hfly.nonempty p List.mem_cons_self
          have hheader := leValue_header (hfly.valid p List.mem_cons_self) hbytes.symm
            (Nat.le_of_eq hlen.symm)
          rw [List.take_of_length_le (Nat.le_of_eq hlen), hval] at hheader
          omega
  obtain ⟨ptr, hptr⟩ := hr.prepare_ptr (Nat.pos_of_ne_zero hroom)
  simp only [step] at hblocked
  split at hblocked
  · rename_i heq
    rw [heq] at hptr
    cases hptr
  · rename_i heq
    rw [heq] at hroom
    rw [if_pos ⟨by decide, hsend, Nat.pos_of_ne_zero hroom⟩] at hblocked
    cases hblocked

theorem Inv.faithful {s : Transport} (h : s.Inv) : s.Faithful := by
  obtain ⟨enByte, n, bs, r, q, n', r', msgs, part, rest, hs, hr, halloc, hfly, hacc, hfail⟩ := h
  refine ⟨?_, hfail, ?_⟩
  · rw [hacc, List.append_assoc]
    exact List.prefix_append _ _
  · intro hblocked hdrained
    have hmsgs : msgs = [] := by
      cases msgs with
      | nil => rfl
      | cons p msgs =>
          obtain ⟨bf, b', hread, -⟩ := hr.read_cons
          rw [hread] at hdrained
          cases hdrained
    subst hmsgs
    have hq := sent_of_blocked hs hr hfly (hblocked 1)
    subst hq
    cases rest with
    | nil => rw [hacc, List.append_nil, List.append_nil]
    | cons p rest =>
        have hbytes := hfly.bytes
        have hp := hfly.nonempty p List.mem_cons_self
        have hlen := congrArg List.length hbytes
        rw [encode_cons, List.append_nil] at hbytes
        rw [encode_cons, List.length_append, frame_length, List.append_nil] at hlen
        have hheader := leValue_header (z := part) (t := []) (hfly.valid p List.mem_cons_self)
          (by rw [List.append_nil]; exact hbytes.symm) (by omega)
        rcases hr.unfinished_lt (by omega) with hlt | heq
        · omega
        · omega

end Transport

/-- If every enqueued payload is nonempty and its framed size fits in the header, the
receiver gets all payloads, once and in order, in every run. -/
theorem transport_faithful {s : Transport} (h : transport.ReachableVia Transport.Encodable s) :
    s.Faithful := by
  apply Transport.Inv.faithful
  exact h.invariant (fun _ hs => Transport.Init.inv hs)
    (fun _ _ _ hs hok ht => Transport.Inv.step hs hok ht)

/-- Buffers of `n` blocks of four bytes and of `n'` messages, on a heap of zeros. -/
def Transport.fresh (enByte : EnByteSize) (n n' : Nat) : Transport where
  sbuff := sendBuffCreate
    { brk := 0, fate := fun _ => some (fun _ => 0), freed := [],
      pools := fun _ => buffPoolCreate 4 0 } enByte n 0
  rbuff := recvBuffCreateVB { addr := 0, size := 0, data := fun _ => 0 } enByte n' 0 none
  mem :=
    { brk := 0, fate := fun _ => some (fun _ => 0), freed := [],
      pools := fun _ => buffPoolCreate 4 0 }
  accepted := []
  delivered := []
  failed := false

theorem Transport.fresh_init (enByte : EnByteSize) {n n' : Nat} (hn : 0 < n ∧ n ≤ 32768)
    (hn' : 0 < n' ∧ n' ≤ 32768) : Init (fresh enByte n n') :=
  .mk (fun _ => ⟨_, rfl⟩) ⟨hn.1, hn.2, by decide, by decide⟩ enByte hn'.1 hn'.2 _ _ _

/-- A payload that crosses a block boundary and arrives in three pieces. -/
theorem transport_faithful_pieces : ∃ s, transport.runVia Transport.Encodable
    (Transport.fresh .enByte8 2 1) [.write [1, 2, 3, 4, 5] 5, .transfer 1, .transfer 3,
      .transfer 2, .read] = some s ∧ s.delivered = [[1, 2, 3, 4, 5]] ∧ s.Faithful := by
  have hinit : transport.Init (Transport.fresh .enByte8 2 1) :=
    Transport.fresh_init .enByte8 (by decide) (by decide)
  obtain ⟨s, hrun, hdel⟩ : ∃ s, transport.runVia Transport.Encodable
      (Transport.fresh .enByte8 2 1) [.write [1, 2, 3, 4, 5] 5, .transfer 1, .transfer 3,
        .transfer 2, .read] = some s ∧ s.delivered = [[1, 2, 3, 4, 5]] := ⟨_, rfl, rfl⟩
  exact ⟨s, hrun, hdel, transport_faithful (Machine.ReachableVia.runVia (.init hinit) hrun)⟩

/-- An accepted empty payload stops the receiver: nothing can be transferred or read any
more, but the payload has not been delivered. -/
theorem transport_empty_payload_lost : ¬ ∀ s, transport.Reachable s → s.Faithful := by
  intro h
  obtain ⟨s, hrun, hroom, hread, hacc, hdel⟩ : ∃ s, transport.run (Transport.fresh .enByte8 1 1)
      [.write [] 0, .transfer 1] = some s ∧ recvBuffPrepareVB s.rbuff = (0, none) ∧
        (recvBuffReadVB s.rbuff 8).2.1 = none ∧ s.accepted = [[]] ∧ s.delivered = [] :=
    ⟨_, rfl, rfl, rfl, rfl, rfl⟩
  have hreach : transport.Reachable s := Machine.Reachable.run
    (.init (Transport.fresh_init .enByte8 (by decide) (by decide))) hrun
  have hblocked : ∀ k, s.step (.transfer k) = none := by
    intro k
    simp only [Transport.step, hroom]
  have hlost := (h s hreach).complete hblocked hread
  rw [hacc, hdel] at hlost
  cases hlost

/-- A payload of 255 bytes wraps the one-byte length, and the receiver reports an error. -/
example : (transport.run (Transport.fresh .enByte8 64 1)
    [.write (List.replicate 255 1) 255, .transfer 1]).map (·.failed) = some true := by
  decide +kernel

end RandServer
