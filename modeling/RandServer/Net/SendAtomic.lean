import RandServer.Net.FreeSpace

/-!
# Writes that fail

`send_buff_write` allocates the blocks of a frame as it goes, so it can fail with parts of
the frame written into free blocks. `AllOrNothing` says that a write either enqueues its
frame or is `Untouched`: the cursors and the bytes between them are as before, and no
later run can tell that it was made. A run ends where an assertion fails.

A run is judged by what its caller observes, the results and the bytes behind the
prepared pointers. Two rings that hold the same bytes are observed alike
(`Holding.alike`), whatever else their blocks contain. In a ring of more than `2 ^ 15`
blocks the cursors lose their block indices. Then the ring seems to hold free blocks, and
the parts of a failed write are seen.
-/

namespace RandServer

open LapRing Framing

namespace SendRing

/-! ## Assertions -/

def Asserts (s : SendRing) : Action → Prop
  | .write _ size => sendBuffWriteAssert s.sbuff size
  | .prepare => sendBuffPrepareAssert s.sbuff
  | .consume k => sendBuffConsumeAssert s.sbuff k

instance (s : SendRing) (a : Action) : Decidable (s.Asserts a) := by
  cases a
  all_goals
    unfold Asserts
    infer_instance

/-- A step in which no assertion fails. -/
def checked (s : SendRing) (a : Action) : Option SendRing :=
  if s.Asserts a then s.step a else none

theorem checked_eq_some {s t : SendRing} {a : Action} :
    s.checked a = some t ↔ s.Asserts a ∧ s.step a = some t := by
  rw [checked, Option.ite_none_right_eq_some]

/-- No assertion fails in a ring that stores `q`. -/
theorem Holding.asserts {enByte : EnByteSize} {n bs r : Nat} {q : List UInt8} {s t : SendRing}
    (h : s.Holding enByte n bs r q) {a : Action} (ht : s.step a = some t) : s.Asserts a := by
  have g := h.rep.geometry
  have hspace := SpaceCall.Exact.of_cursors g h.rep.read h.rep.write h.rep.fits
  cases a with
  | write pdata size =>
      refine fun _ _ => ⟨hspace.asserts, ?_⟩
      rw [h.rep.poolCnt, h.rep.bufferSize]
      exact hspace.bounded
  | prepare =>
      refine ⟨?_, ?_⟩
      · rw [h.rep.read, h.rep.write, h.rep.poolCnt, cursorH_position g, cursorH_position g,
          cursorL_position g, cursorL_position g, block_mod, block_mod, slot_add_capacity g.bs_pos,
          offset_add_capacity]
        exact fun hlap => offset_le_of_div_eq (h.rep.same_block_iff.mp hlap)
      · rw [h.rep.bufferSize, h.rep.prepare_eq]
        split_ifs
        · exact Nat.zero_le _
        · exact (Nat.min_le_right ..).trans (Nat.sub_le ..)
  | consume k =>
      obtain ⟨-, -, hle, -⟩ := h.consume ht
      have hcap := g.capacity_lt
      show k ≤ u32 (s.sbuff.bufferSize * s.sbuff.poolCnt)
      rw [h.rep.poolCnt, h.rep.bufferSize, Nat.mul_comm, u32_of_lt (by omega)]
      exact hle.trans h.rep.fits

end SendRing

/-- The send ring as it is built, with the assertion about its block count. -/
def assertedRing (n bs : Nat) : Machine SendRing SendRing.Action where
  Init s := SendRing.Created n bs s ∧ n ≤ 0xefff
  step := SendRing.checked

theorem assertedRing_reachable {n bs : Nat} {s : SendRing} (h : (assertedRing n bs).Reachable s) :
    (sendCursors n bs).Reachable s := by
  induction h with
  | init hs => exact .init hs.1
  | step _ _ ht ih => exact ih.step trivial (SendRing.checked_eq_some.mp ht).2

namespace SendRing

/-! ## Observations -/

inductive Observation
  | wrote (ret : Int)
  | prepared (usize : Nat) (bytes : List UInt8)
  | consumed (bytes : List UInt8)
  deriving DecidableEq

def observe (s : SendRing) : Action → Observation
  | .write pdata size => .wrote (sendBuffWrite s.mem s.sbuff pdata size).1
  | .prepare =>
      .prepared (sendBuffPrepare s.sbuff).1
        (s.sbuff.peek (sendBuffPrepare s.sbuff).2 (sendBuffPrepare s.sbuff).1)
  | .consume k => .consumed (s.sbuff.peek s.prepared.2 k)

/-- The observations of a run in which no write fails to allocate and no assertion fails. -/
def trace : List Action → SendRing → Option (List Observation)
  | [], _ => some []
  | a :: as, s =>
      if s.observe a = .wrote enErrNoMemory then none
      else (s.checked a).bind fun t => (trace as t).map (s.observe a :: ·)

/-- Every run from `s` is observed in the same way from `t`, unless the latter runs out of
memory. -/
def Alike (s t : SendRing) : Prop :=
  ∀ as obs, trace as s = some obs → t.mem.AllocOk ∨ (trace as t).isSome →
    trace as t = some obs

/-- A write from `s` to `t` left no trace. The runs after it, and those without it, go on
with any heaps. -/
structure Untouched (n bs : Nat) (s t : SendRing) : Prop where
  write : t.sbuff.write = s.sbuff.write
  read : t.sbuff.read = s.sbuff.read
  bytes : ∀ p, s.sent.length ≤ p → p < s.written.length →
    cell t.sbuff.buffers n bs p = cell s.sbuff.buffers n bs p
  later : ∀ m m', Alike { s with mem := m } { t with mem := m' } ∧
    Alike { t with mem := m' } { s with mem := m }

/-- Every write enqueues its whole frame or leaves no trace. -/
def AllOrNothing (n bs : Nat) (s : SendRing) : Prop :=
  ∀ pdata size t, s.checked (.write pdata size) = some t →
    t.enqueued = s.enqueued ++ [pdata.take size.toNat] ∧ t.Exact n bs ∨ s.Untouched n bs t

/-! ## Rings with the same bytes -/

section Twins

variable {enByte : EnByteSize} {n bs r : Nat} {q : List UInt8} {s t s' t' : SendRing}

theorem Holding.setMem (h : s.Holding enByte n bs r q) (m : Memory UInt8) :
    ({ s with mem := m } : SendRing).Holding enByte n bs r q :=
  ⟨h.rep, h.bytes, h.piece⟩

/-- Steps of twins are observed alike and lead to twins. -/
theorem Holding.twin (h : s.Holding enByte n bs r q) (h' : s'.Holding enByte n bs r q)
    (hprep : s'.prepared = s.prepared) {a : Action} (ht : s.step a = some t)
    (hmem : s.observe a ≠ .wrote enErrNoMemory)
    (hmem' : s'.mem.AllocOk ∨ s'.observe a ≠ .wrote enErrNoMemory) :
    s'.observe a = s.observe a ∧ ∃ t' r' q', s'.step a = some t' ∧
      t.Holding enByte n bs r' q' ∧ t'.Holding enByte n bs r' q' ∧ t'.prepared = t.prepared ∧
      t'.mem.fate = s'.mem.fate := by
  cases a with
  | write pdata size =>
      have hargs : size < 2 ^ 31 ∧ size ≤ pdata.length := by
        simp only [step, Option.ite_none_right_eq_some] at ht
        exact ht.1
      obtain ⟨t', ht'⟩ : ∃ t', s'.step (.write pdata size) = some t' :=
        ⟨_, by rw [step, if_pos hargs]⟩
      obtain ⟨hfate', -, hsame', hcases'⟩ := h'.write ht'
      obtain ⟨-, -, hsame, hcases⟩ := h.write ht
      have hprep' : t'.prepared = t.prepared := hsame'.trans (hprep.trans hsame.symm)
      simp only [observe, ne_eq, Observation.wrote.injEq] at hmem hmem' ⊢
      obtain ⟨hyes, hret, -, hhold⟩ | ⟨-, -, hfail, -⟩ | ⟨hno, hret, rfl⟩ := hcases
      · obtain ⟨-, hret', -, hhold'⟩ | ⟨-, hbad, hfail', -⟩ | ⟨hno', -⟩ := hcases'
        · exact ⟨by rw [hret, hret'], t', r, _, ht', hhold, hhold', hprep', hfate'⟩
        · obtain halloc | hfine := hmem'
          · exact absurd halloc hbad
          · exact absurd hfail' hfine
        · exact absurd hyes hno'
      · exact absurd hfail hmem
      · obtain ⟨hyes', -⟩ | ⟨hyes', -⟩ | ⟨-, hret', rfl⟩ := hcases'
        · exact absurd hyes' hno
        · exact absurd hyes' hno
        · exact ⟨by rw [hret, hret'], t', r, q, ht', h, h', hprep', hfate'⟩
  | prepare =>
      have heq : sendBuffPrepare s'.sbuff = sendBuffPrepare s.sbuff := by
        rw [h.rep.prepare_eq, h'.rep.prepare_eq]
      refine ⟨?_, _, r, q, rfl, h.prepare ht, h'.prepare rfl, ?_, rfl⟩
      · have hpeek' := h'.rep.peek_eq (le_refl _)
        rw [heq] at hpeek'
        simp only [observe, heq, hpeek', h.rep.peek_eq (le_refl _)]
      · obtain rfl := Option.some.inj ht
        exact heq
  | consume k =>
      have hk : k ≤ s.prepared.1 := by
        simp only [step, Option.ite_none_right_eq_some] at ht
        exact ht.1
      have hk' : k ≤ s'.prepared.1 := by
        rw [hprep]
        exact hk
      obtain ⟨t', ht'⟩ : ∃ t', s'.step (.consume k) = some t' := ⟨_, by rw [step, if_pos hk']⟩
      have hfate := (h'.consume ht').2.2.2
      refine ⟨?_, t', r + k, q.drop k, ht', (h.consume ht).1, (h'.consume ht').1, ?_, hfate⟩
      · simp only [observe, h.peek hk, h'.peek hk']
      · simp only [step, if_pos hk, if_pos hk', Option.some.injEq] at ht ht'
        subst ht ht'
        simp only [hprep]

/-- Twins are observed alike. -/
theorem Holding.alike (h : s.Holding enByte n bs r q) (h' : s'.Holding enByte n bs r q)
    (hprep : s'.prepared = s.prepared) : Alike s s' := by
  intro as
  induction as generalizing s s' r q with
  | nil =>
      intro obs hobs _
      exact hobs
  | cons a as ih =>
      intro obs hobs hmem
      rw [trace, Option.ite_none_left_eq_some] at hobs
      obtain ⟨hfine, hobs⟩ := hobs
      obtain ⟨t, hchecked, hobs⟩ := Option.bind_eq_some_iff.mp hobs
      have ht := (checked_eq_some.mp hchecked).2
      obtain ⟨rest, hrest, rfl⟩ := Option.map_eq_some_iff.mp hobs
      have hfine' : s'.mem.AllocOk ∨ s'.observe a ≠ .wrote enErrNoMemory := by
        refine hmem.imp_right fun hsome hbad => ?_
        rw [trace, if_pos hbad] at hsome
        cases hsome
      obtain ⟨hsame, t', r', q', hstep', hhold, hhold', hprep', hfate⟩ :=
        h.twin h' hprep ht hfine hfine'
      have ht' : s'.checked a = some t' := checked_eq_some.mpr ⟨h'.asserts hstep', hstep'⟩
      have hrest' : trace as t' = some rest := by
        apply ih hhold hhold' hprep' rest hrest
        refine hmem.imp (fun halloc => halloc.of_fate_eq hfate) fun hsome => ?_
        rw [trace, hsame, if_neg hfine, ht', Option.bind_some, Option.isSome_map] at hsome
        exact hsome
      rw [trace, hsame, if_neg hfine, ht', Option.bind_some, hrest', Option.map_some]

end Twins

theorem Counted.allOrNothing {n bs : Nat} {s : SendRing} (h : s.Counted n bs) :
    s.AllOrNothing n bs := by
  intro pdata size t hchecked
  have ht := (checked_eq_some.mp hchecked).2
  have hexact := (h.step ht).exact
  obtain ⟨enByte, q, h⟩ := h
  obtain ⟨-, hsent, hprep, ⟨-, -, henq, -⟩ | ⟨-, -, -, henq, h'⟩ | ⟨-, -, rfl⟩⟩ := h.write ht
  · exact .inl ⟨henq, hexact⟩
  · refine .inr ⟨?_, ?_, fun p hlo hhi => ?_, fun m m' => ⟨?_, ?_⟩⟩
    · exact h'.rep.write.trans h.rep.write.symm
    · exact h'.rep.read.trans h.rep.read.symm
    · -- both rings hold the same byte at the position
      rw [h.bytes, List.length_append] at hhi
      obtain ⟨i, rfl⟩ := Nat.exists_eq_add_of_le hlo
      have hbyte := List.getElem?_eq_getElem (l := q) (show i < q.length by omega)
      rw [h.rep.holds i _ hbyte, h'.rep.holds i _ hbyte]
    · exact (h.setMem m).alike (h'.setMem m') hprep
    · exact (h'.setMem m').alike (h.setMem m) hprep.symm
  · exact .inr ⟨rfl, rfl, fun _ _ _ => rfl,
      fun m m' => ⟨(h.setMem m).alike (h.setMem m') rfl, (h.setMem m').alike (h.setMem m) rfl⟩⟩

/-- The ring and its assertions work: no step that the caller may take ends the program, and
every write is all or nothing. -/
structure Atomic (n bs : Nat) (s : SendRing) : Prop where
  asserts : ∀ a t, s.step a = some t → s.Asserts a
  write : s.AllOrNothing n bs

end SendRing

/-- In rings of up to `2 ^ 15` blocks no assertion fails, and a write that does not enqueue
its frame leaves no trace, whichever allocation fails. -/
theorem sendBuff_allOrNothing {n bs : Nat} (g : Geometry n bs) {s : SendRing}
    (h : (assertedRing n bs).Reachable s) : s.Atomic n bs := by
  have hcounted : s.Counted n bs := sendCursors_counted g (assertedRing_reachable h)
  refine ⟨fun a t ht => ?_, hcounted.allOrNothing⟩
  obtain ⟨enByte, q, hhold⟩ := hcounted
  exact hhold.asserts ht

/-- The heap gives one block. A second frame does not fit into it, and its write leaves no
trace. -/
theorem sendBuff_allOrNothing_exhausted :
    ∃ s t : SendRing, (assertedRing 2 4).Reachable s ∧ s.enqueued = [[7, 8, 9]] ∧
      s.checked (.write [1] 1) = some t ∧ s.Untouched 2 4 t := by
  obtain ⟨s₀, hinit, s, hrun, henq, t, ht, hkept⟩ : ∃ s₀, SendRing.Created 2 4 s₀ ∧
      ∃ s, (assertedRing 2 4).run s₀ [.write [7, 8, 9] 3] = some s ∧ s.enqueued = [[7, 8, 9]] ∧
      ∃ t, s.checked (.write [1] 1) = some t ∧ t.enqueued = [[7, 8, 9]] := by
    refine ⟨_, .mk { brk := 0, fate := fun i => if i < 1 then some fun _ => 0 else none,
                     freed := [], pools := fun _ => buffPoolCreate 4 0 } 0 .enByte8 rfl, ?_⟩
    exact ⟨_, rfl, rfl, _, rfl, rfl⟩
  have hreach : (assertedRing 2 4).Reachable s :=
    Machine.Reachable.run (.init ⟨hinit, by decide⟩) hrun
  have hcase := (sendBuff_allOrNothing ⟨by decide, by decide, by decide, by decide⟩ hreach).write
    [1] 1 t ht
  refine ⟨s, t, hreach, henq, ht, hcase.resolve_left fun hpushed => ?_⟩
  rw [hkept, henq] at hpushed
  exact absurd hpushed.1 (by decide)

/-! ## Cursors that lose their block indices -/

section Copy

variable {buffers : Nat → Option (Block UInt8)} {m : Memory UInt8} {bufferSize i : Nat}

/-- A copy into a missing block of an empty pool takes the block from `malloc`. -/
theorem Arena.copyIn_malloc (off : Nat) (xs : List UInt8) (hnone : buffers i = none)
    (hpools : m.pools = fun _ => buffPoolCreate bufferSize 0)
    (hfate : (m.fate m.brk).isSome) :
    ∃ bf : Block UInt8, (∀ k x, xs[k]? = some x → bf.data (off + k) = x) ∧
      Arena.copyIn { buffers := buffers, mem := m } (some 0) bufferSize i off xs =
        (true, { buffers := Function.update buffers i (some bf),
                 mem := { m with brk := m.brk + 1 } }) := by
  obtain ⟨data, hdata⟩ := Option.isSome_iff_exists.mp hfate
  refine ⟨Block.write { addr := m.brk, size := bufferSize, data := data } off xs,
    fun k x hx => Block.write_data_at _ off hx, ?_⟩
  simp [Arena.copyIn, Arena.fetch, hnone, buffPoolNewBuff, hpools, buffPoolCreate,
    Memory.malloc, hdata]

theorem Arena.copyIn_exhausted (off : Nat) (xs : List UInt8) (hnone : buffers i = none)
    (hpools : m.pools = fun _ => buffPoolCreate bufferSize 0)
    (hfate : m.fate m.brk = none) :
    Arena.copyIn { buffers := buffers, mem := m } (some 0) bufferSize i off xs =
      (false, { buffers := buffers, mem := { m with brk := m.brk + 1 } }) := by
  simp [Arena.copyIn, Arena.fetch, hnone, buffPoolNewBuff, hpools, buffPoolCreate,
    Memory.malloc, hfate]

end Copy

/-- Only 16 bits of a block index are stored. -/
theorem packCursor_mod (h l : Nat) : packCursor (h % 65536) l = packCursor h l := by
  have hshift : u32 ((h % 65536) <<< 16) = u32 (h <<< 16) := by
    rw [u32, u32, Nat.shiftLeft_eq, Nat.shiftLeft_eq]
    omega
  rw [packCursor, packCursor, hshift]

/-- The loop of `buff_gc_help` makes one step. -/
theorem buffGcHelp_one {buffers : Nat → Option (Block UInt8)} {poolCnt bufferSize freeH uHRead
    uHWrite : Nat} {pool : Option Nat} {mem : Memory UInt8} {bf : Block UInt8} (hpos : 0 < poolCnt)
    (hne : freeH ≠ uHRead) (hnext : (freeH + 1) % (2 * poolCnt) = uHRead)
    (hslot : freeH % poolCnt ≠ uHWrite % poolCnt) (hbf : buffers (freeH % poolCnt) = some bf) :
    buffGcHelp buffers poolCnt bufferSize freeH uHRead uHWrite pool mem =
      { buffers := Function.update buffers (freeH % poolCnt) none
        uHFree := u16 uHRead
        mem := buffPoolDelBuff mem pool (some bf) bufferSize
        cnt := 1 } := by
  obtain ⟨fuel, hfuel⟩ : ∃ fuel, 2 * poolCnt = fuel + 2 := ⟨2 * poolCnt - 2, by omega⟩
  rw [buffGcHelp]
  simp only [hfuel, buffGcLoop, if_neg hne, buffGcStep, if_neg hslot, hbf]
  simp only [← hfuel, hnext, if_true, Nat.zero_add]

namespace SendRing

/-- The heap gives `2 ^ 16` blocks. -/
def scarce (i : Nat) : Option (Nat → UInt8) := if i < 65536 then some fun _ => 0 else none

/-- A ring of 32769 blocks of one byte. The writer is at block `w`, the reader one capacity
behind block `r`, and there are blocks in the slots `held`. -/
structure At (w r brk : Nat) (held : Nat → Prop) (s : SendRing) : Prop where
  write : s.sbuff.write = packCursor w 0
  read : s.sbuff.read = packCursor r 0
  freeH : s.sbuff.freeH = r
  bufferSize : s.sbuff.bufferSize = 1
  poolCnt : s.sbuff.poolCnt = 32769
  enByte : s.sbuff.enByte = .enByte8
  pool : s.sbuff.pool = some 0
  slots : ∀ i, (s.sbuff.buffers i).isSome ↔ held i
  brk : s.mem.brk = brk
  fate : s.mem.fate = scarce
  pools : s.mem.pools = fun _ => buffPoolCreate 1 0

/-- The read cursor is behind the writer by a lap less the stored blocks, or the ring seems to
be empty. -/
def Spaced (w r : Nat) : Prop := w < 65536 ∧ r < 65536 ∧
  (w < r ∧ r ≤ w + 32769 ∨ r < w ∧ r + 32769 ≤ w)

theorem Spaced.space {w r : Nat} (h : Spaced w r) :
    buffGetSpace 32769 1 r 0 w 0 = if w < r then r - w else 65538 + r - w := by
  obtain ⟨hw, hr, hcase⟩ := h
  rw [buffGetSpace]
  split_ifs with hlt heq
  · have hdiff : sub32 r w = r - w := sub32_of_le (Nat.le_of_lt hlt) (by omega)
    rw [hdiff, Nat.mul_one, Nat.add_zero, u32_of_lt (by omega),
      sub32_of_le (Nat.zero_le _) (by omega), Nat.sub_zero]
  · omega
  · have hword : u32 (2 * 32769 + r) = 65538 + r := u32_of_lt (by omega)
    have hdiff : sub32 (65538 + r) w = 65538 + r - w := sub32_of_le (by omega) (by omega)
    rw [hword, hdiff, Nat.mul_one, Nat.add_zero, u32_of_lt (by omega),
      sub32_of_le (Nat.zero_le _) (by omega), Nat.sub_zero]

theorem Spaced.bounds {w r : Nat} (h : Spaced w r) :
    1 ≤ buffGetSpace 32769 1 r 0 w 0 ∧ buffGetSpace 32769 1 r 0 w 0 ≤ 32769 := by
  rw [h.space]
  obtain ⟨hw, hr, hcase⟩ := h
  split_ifs
  · omega
  · omega

namespace At

variable {w r brk : Nat} {held : Nat → Prop} {s : SendRing}

theorem cursors (h : s.At w r brk held) (hs : Spaced w r) :
    cursorH s.sbuff.write = w ∧ cursorL s.sbuff.write = 0 ∧ cursorH s.sbuff.read = r ∧
      cursorL s.sbuff.read = 0 := by
  obtain ⟨hw, hr, -⟩ := hs
  rw [h.write, h.read]
  exact ⟨cursorH_pack hw (by decide), cursorL_pack hw (by decide), cursorH_pack hr (by decide),
    cursorL_pack hr (by decide)⟩

theorem writeAssert (h : s.At w r brk held) (hs : Spaced w r) (size : Int) :
    sendBuffWriteAssert s.sbuff size := by
  obtain ⟨hH, hL, hRH, hRL⟩ := h.cursors hs
  intro _ _
  rw [hH, hL, hRH, hRL, h.poolCnt, h.bufferSize]
  exact ⟨fun _ => Nat.le_refl 0, hs.bounds.2⟩

/-- The blocks that a copy into slot `i` takes from the heap. -/
def missing (s : SendRing) (i : Nat) : Nat := if (s.sbuff.buffers i).isSome then 0 else 1

theorem missing_eq_zero (h : s.At w r brk held) {i : Nat} (hheld : held i) : missing s i = 0 :=
  if_pos ((h.slots i).mpr hheld)

theorem missing_eq_one (h : s.At w r brk held) {i : Nat} (hheld : ¬ held i) : missing s i = 1 :=
  if_neg fun hsome => hheld ((h.slots i).mp hsome)

/-- The block of a slot is there, or the heap gives it. -/
theorem copyIn (h : s.At w r brk held) (i : Nat) (xs : List UInt8)
    (hroom : held i ∨ brk < 65536) :
    ∃ (bf : Block UInt8) (m : Memory UInt8),
      Arena.copyIn { buffers := s.sbuff.buffers, mem := s.mem } (some 0) 1 i 0 xs =
        (true, { buffers := Function.update s.sbuff.buffers i (some bf), mem := m }) ∧
      (∀ k x, xs[k]? = some x → bf.data (0 + k) = x) ∧
      (∀ bf', xs = [] → s.sbuff.buffers i = some bf' → bf = bf') ∧
      ({ s with sbuff := { s.sbuff with buffers := Function.update s.sbuff.buffers i (some bf) }
                mem := m } : SendRing).At w r (brk + missing s i) fun k => held k ∨ k = i := by
  have hslots : ∀ (bf : Block UInt8) k,
      (Function.update s.sbuff.buffers i (some bf) k).isSome ↔ held k ∨ k = i := by
    intro bf k
    by_cases hk : k = i
    · simp [hk]
    · rw [Function.update_of_ne hk, h.slots, or_iff_left hk]
  by_cases hheld : held i
  · obtain ⟨bf, hbf⟩ := Option.isSome_iff_exists.mp ((h.slots i).mpr hheld)
    rw [h.missing_eq_zero hheld]
    have hcopy : Arena.copyIn { buffers := s.sbuff.buffers, mem := s.mem } (some 0) 1 i 0 xs =
        (true, { buffers := Function.update s.sbuff.buffers i (some (bf.write 0 xs)),
                 mem := s.mem }) := by
      simp [Arena.copyIn, Arena.fetch, hbf]
    refine ⟨_, _, hcopy, fun k x hx => Block.write_data_at _ 0 hx, ?_, h.write, h.read, h.freeH,
      h.bufferSize, h.poolCnt, h.enByte, h.pool, hslots _, h.brk, h.fate, h.pools⟩
    rintro bf' rfl hbf'
    rw [Block.write_nil]
    exact Option.some.inj (hbf.symm.trans hbf')
  · have hnone : s.sbuff.buffers i = none :=
      Option.not_isSome_iff_eq_none.mp fun hsome => hheld ((h.slots i).mp hsome)
    have hlt : brk < 65536 := hroom.resolve_left hheld
    rw [h.missing_eq_one hheld]
    obtain ⟨bf, hdata, hcopy⟩ := Arena.copyIn_malloc 0 xs hnone h.pools
      (by rw [h.fate, h.brk, scarce, if_pos hlt]; rfl)
    refine ⟨bf, _, hcopy, hdata, ?_, h.write, h.read, h.freeH, h.bufferSize, h.poolCnt, h.enByte,
      h.pool, hslots _, ?_, h.fate, h.pools⟩
    · rintro bf' - hbf'
      rw [hnone] at hbf'
      cases hbf'
    · show s.mem.brk + 1 = brk + 1
      rw [h.brk]

/-- A frame without payload is written, and the block behind it is got ready. -/
theorem write_empty (h : s.At w r brk held) (hs : Spaced w r)
    (hheader : held (w % 32769) ∨ brk < 65536)
    (hnext : held ((w + 1) % 32769) ∨ brk + missing s (w % 32769) < 65536) :
    ∃ (t : SendRing) (bf bf' : Block UInt8), s.checked (.write [] 0) = some t ∧
      s.observe (.write [] 0) = .wrote 0 ∧ bf.data 0 = 1 ∧
      t.sbuff.buffers = Function.update (Function.update s.sbuff.buffers (w % 32769) (some bf))
        ((w + 1) % 32769) (some bf') ∧
      (∀ old, s.sbuff.buffers ((w + 1) % 32769) = some old → bf' = old) ∧
      t.prepared = s.prepared ∧
      t.At ((w + 1) % 65536) r (brk + missing s (w % 32769) + missing s ((w + 1) % 32769))
        fun k => (held k ∨ k = w % 32769) ∨ k = (w + 1) % 32769 := by
  have hw := hs.1
  have hother : (w + 1) % 32769 ≠ w % 32769 := by omega
  obtain ⟨hH, hL, hRH, hRL⟩ := h.cursors hs
  obtain ⟨bf, m₁, hcopy₁, hdata, -, h₁⟩ := h.copyIn (w % 32769) [sizeByte (u32 (0 + 1)) 0] hheader
  obtain ⟨u₁, hu₁⟩ : ∃ u₁, u₁ = Function.update s.sbuff.buffers (w % 32769) (some bf) := ⟨_, rfl⟩
  rw [← hu₁] at h₁ hcopy₁
  have hsame : u₁ ((w + 1) % 32769) = s.sbuff.buffers ((w + 1) % 32769) := by
    rw [hu₁, Function.update_of_ne hother]
  obtain ⟨bf', m₂, hcopy₂, -, hold, h₂⟩ :=
    h₁.copyIn ((w + 1) % 32769) [] (hnext.imp_left .inl)
  simp only [missing, hsame] at hcopy₂ hold h₂
  have hblock : (w + 1) % 65538 = w + 1 := Nat.mod_eq_of_lt (by omega)
  have hspace : ¬ buffGetSpace 32769 1 r 0 w 0 < u32 1 := Nat.not_lt.mpr hs.bounds.1
  have hwrite : sendBuffWrite s.mem s.sbuff [] 0 =
      (0, { s.sbuff with
            buffers := Function.update u₁ ((w + 1) % 32769) (some bf')
            write := packCursor ((w + 1) % 65536) 0 }, m₂) := by
    rw [packCursor_mod]
    simp [sendBuffWrite, sizeRest, h.enByte, EnByteSize.toNat, hH, hL, hRH, hRL, h.poolCnt,
      h.bufferSize, hspace, sendBuffPutHeader, sendBuffPutPayload, h.pool, hcopy₁, hcopy₂, hblock]
  have hstep : s.step (.write [] 0) = some
      { s with
        sbuff := (sendBuffWrite s.mem s.sbuff [] 0).2.1
        mem := (sendBuffWrite s.mem s.sbuff [] 0).2.2
        enqueued := if (sendBuffWrite s.mem s.sbuff [] 0).2.1.write = s.sbuff.write then s.enqueued
          else s.enqueued ++ [[]] } := rfl
  rw [hwrite] at hstep
  refine ⟨_, bf, bf', checked_eq_some.mpr ⟨h.writeAssert hs 0, hstep⟩, ?_, hdata 0 1 rfl,
    by rw [← hu₁], fun old hsome => hold old trivial hsome, rfl, rfl, h₂.read, h₂.freeH, h₂.bufferSize, h₂.poolCnt,
    h₂.enByte, h₂.pool, h₂.slots, h₂.brk, h₂.fate, h₂.pools⟩
  simp only [observe, hwrite]

theorem prepare (h : s.At w r brk held) (hs : Spaced w r) (hslot : w % 32769 ≠ r % 32769)
    {bf : Block UInt8} (hbf : s.sbuff.buffers (r % 32769) = some bf) :
    s.checked .prepare = some { s with prepared := (1, some (r % 32769, 0)) } ∧
      s.observe .prepare = .prepared 1 [bf.data 0] := by
  obtain ⟨hH, hL, hRH, hRL⟩ := h.cursors hs
  have hone : sub32 1 0 = 1 := by decide
  have hprep : sendBuffPrepare s.sbuff = (1, some (r % 32769, 0)) := by
    simp [sendBuffPrepare, hH, hRH, hRL, h.poolCnt, h.bufferSize, hslot, hone]
  have hassert : s.Asserts .prepare := by
    refine ⟨fun hlap => absurd hlap.2 ?_, ?_⟩
    · rw [hH, hRH, h.poolCnt]
      exact hslot
    · rw [hprep, h.bufferSize]
  refine ⟨checked_eq_some.mpr ⟨hassert, by rw [step, hprep]⟩, ?_⟩
  simp [observe, hprep, SendBuff.peek, hbf, Block.read]

/-- The block of a consumed byte is released. -/
theorem consume (h : s.At w r brk held) (hs : Spaced w r) (hslot : w % 32769 ≠ r % 32769)
    {bf : Block UInt8} (hbf : s.sbuff.buffers (r % 32769) = some bf)
    (hprep : s.prepared = (1, some (r % 32769, 0))) :
    ∃ t, s.checked (.consume 1) = some t ∧ s.observe (.consume 1) = .consumed [bf.data 0] ∧
      t.sbuff.buffers = Function.update s.sbuff.buffers (r % 32769) none ∧
      t.At w ((r + 1) % 65536) brk fun k => held k ∧ k ≠ r % 32769 := by
  obtain ⟨hH, hL, hRH, hRL⟩ := h.cursors hs
  have hr := hs.2.1
  have hnext : (r + 1) % 65538 = r + 1 := Nat.mod_eq_of_lt (by omega)
  have hgc : buffGcHelp s.sbuff.buffers 32769 1 r (r + 1) w (some 0) s.mem =
      { buffers := Function.update s.sbuff.buffers (r % 32769) none
        uHFree := u16 (r + 1)
        mem := buffPoolDelBuff s.mem (some 0) (some bf) 1
        cnt := 1 } :=
    buffGcHelp_one (by decide) (by omega) hnext (Ne.symm hslot) hbf
  have hone : u32 1 = 1 := by decide
  have hconsume : sendBuffConsume s.mem s.sbuff 1 =
      ({ s.sbuff with
          buffers := Function.update s.sbuff.buffers (r % 32769) none
          freeH := (r + 1) % 65536
          read := packCursor ((r + 1) % 65536) 0 },
        buffPoolDelBuff s.mem (some 0) (some bf) 1) := by
    rw [packCursor_mod]
    simp [sendBuffConsume, h.bufferSize, h.poolCnt, hH, hRH, hRL, h.freeH, h.pool, hone, hnext, hgc,
      u16]
  have hdel : buffPoolDelBuff s.mem (some 0) (some bf) 1 =
      { s.mem with freed := bf.addr :: s.mem.freed } := by
    simp [buffPoolDelBuff, h.pools, buffPoolCreate, Memory.free]
  have hassert : s.Asserts (.consume 1) := by
    show 1 ≤ u32 (s.sbuff.bufferSize * s.sbuff.poolCnt)
    rw [h.bufferSize, h.poolCnt]
    decide
  have hstep : s.step (.consume 1) = some
      { s with
        sbuff := (sendBuffConsume s.mem s.sbuff 1).1
        mem := (sendBuffConsume s.mem s.sbuff 1).2
        prepared := (s.prepared.1 - 1, s.prepared.2.map fun ptr => (ptr.1, ptr.2 + 1))
        sent := s.sent ++ s.sbuff.peek s.prepared.2 1 } := by
    rw [step, if_pos (by rw [hprep])]
  rw [hconsume, hdel] at hstep
  refine ⟨_, checked_eq_some.mpr ⟨hassert, hstep⟩, ?_, rfl, h.write, rfl, rfl, h.bufferSize,
    h.poolCnt, h.enByte, h.pool, fun k => ?_, h.brk, h.fate, h.pools⟩
  · simp [observe, hprep, SendBuff.peek, hbf, Block.read]
  · by_cases hk : k = r % 32769
    · simp [hk]
    · simp [h.slots, hk]

theorem congr {held' : Nat → Prop} (h : s.At w r brk held) (hsame : ∀ i, held i ↔ held' i) :
    s.At w r brk held' :=
  ⟨h.write, h.read, h.freeH, h.bufferSize, h.poolCnt, h.enByte, h.pool,
    fun i => (h.slots i).trans (hsame i), h.brk, h.fate, h.pools⟩

theorem setPrepared (h : s.At w r brk held) (p : Nat × Option (Nat × Nat)) :
    ({ s with prepared := p } : SendRing).At w r brk held :=
  ⟨h.write, h.read, h.freeH, h.bufferSize, h.poolCnt, h.enByte, h.pool, h.slots, h.brk, h.fate,
    h.pools⟩

theorem copyIn_held (h : s.At w r brk held) {i : Nat} (hheld : held i) (xs : List UInt8) :
    ∃ (bf : Block UInt8) (m : Memory UInt8) (buffers : Nat → Option (Block UInt8)),
      Arena.copyIn { buffers := s.sbuff.buffers, mem := s.mem } (some 0) 1 i 0 xs =
        (true, { buffers := buffers, mem := m }) ∧
      buffers i = some bf ∧ (∀ k, k ≠ i → buffers k = s.sbuff.buffers k) ∧
      (∀ k x, xs[k]? = some x → bf.data (0 + k) = x) ∧
      ({ s with sbuff := { s.sbuff with buffers := buffers }, mem := m } : SendRing).At w r brk
        held := by
  obtain ⟨bf, m, hcopy, hdata, -, hat⟩ := h.copyIn i xs (.inl hheld)
  rw [h.missing_eq_zero hheld, Nat.add_zero] at hat
  refine ⟨bf, m, _, hcopy, Function.update_self .., fun k hk => Function.update_of_ne hk .., hdata,
    hat.congr fun k => or_iff_left_of_imp ?_⟩
  rintro rfl
  exact hheld

end At

/-! ### Two laps -/

/-- The writer's block, and the two blocks before it. The reader skips those of the first lap. -/
def lapSlots (j i : Nat) : Prop := i = min j 32767 ∨ i = min (j + 1) 32768 ∨ i = (j + 2) % 32769

theorem lapSlots_next {j r : Nat} (hj : j < 65533) (hr : r = (32769 + j) % 65536) (i : Nat) :
    ((lapSlots j i ∨ i = (j + 2) % 32769) ∨ i = (j + 2 + 1) % 32769) ∧ i ≠ r % 32769 ↔
      lapSlots (j + 1) i := by
  obtain hlap | hlap := Nat.lt_or_ge j 32767
  · have hread : r % 32769 = j := by omega
    clear hr
    have hwrite : (j + 2) % 32769 = j + 2 := Nat.mod_eq_of_lt (by omega)
    have hmin : min j 32767 = j ∧ min (j + 1) 32768 = j + 1 ∧ min (j + 1) 32767 = j + 1 ∧
        min (j + 1 + 1) 32768 = j + 2 := by omega
    have hother : (j + 1 + 2) % 32769 ≠ j := by omega
    simp only [lapSlots, hread, hwrite, hmin, Nat.add_right_comm j 2 1]
    generalize (j + 1 + 2) % 32769 = w at hother ⊢
    omega
  · have hread : r % 32769 = (j + 2) % 32769 := by omega
    clear hr
    have hmin : min j 32767 = 32767 ∧ min (j + 1) 32768 = 32768 ∧ min (j + 1) 32767 = 32767 ∧
        min (j + 1 + 1) 32768 = 32768 := by omega
    have hsmall : (j + 2) % 32769 < 32767 := by omega
    have hother : (j + 1 + 2) % 32769 ≠ (j + 2) % 32769 := by omega
    simp only [lapSlots, hread, hmin, Nat.add_right_comm j 2 1]
    generalize (j + 1 + 2) % 32769 = w at hother ⊢
    generalize (j + 2) % 32769 = w' at hsmall hother ⊢
    omega

/-- `j` frames without payload have been sent. Two more are stored until the read cursor loses
its block index. -/
def Lapped (j : Nat) (s : SendRing) : Prop :=
  s.At (j + 2) ((32769 + j) % 65536) (j + 3) (lapSlots j)

theorem Lapped.next {j : Nat} {s : SendRing} (h : s.Lapped j) (hj : j < 65533) :
    ∃ t, (assertedRing 32769 1).run s [.write [] 0, .prepare, .consume 1] = some t ∧
      t.Lapped (j + 1) := by
  obtain ⟨r, hr⟩ : ∃ r, r = (32769 + j) % 65536 := ⟨_, rfl⟩
  rw [Lapped, ← hr] at h
  have hheader : lapSlots j ((j + 2) % 32769) := .inr (.inr rfl)
  have hfree : ¬ lapSlots j ((j + 2 + 1) % 32769) := by
    rw [lapSlots]
    omega
  obtain ⟨t₁, bf, bf', hwrite, -, -, hbuf, -, -, h₁⟩ :=
    h.write_empty ⟨by omega, by omega, by omega⟩ (.inl hheader)
      (.inr (by rw [h.missing_eq_zero hheader]; omega))
  rw [h.missing_eq_zero hheader, h.missing_eq_one hfree, Nat.mod_eq_of_lt (by omega)] at h₁
  have hs₁ : Spaced (j + 2 + 1) r := ⟨by omega, by omega, by omega⟩
  have hslot : (j + 2 + 1) % 32769 ≠ r % 32769 := by omega
  have hheld : (lapSlots j (r % 32769) ∨ r % 32769 = (j + 2) % 32769) ∨
      r % 32769 = (j + 2 + 1) % 32769 := by
    obtain hlap | hlap := Nat.lt_or_ge j 32767
    · exact .inl (.inl (.inl (by omega)))
    · exact .inl (.inr (by omega))
  obtain ⟨bf₁, hbf₁⟩ := Option.isSome_iff_exists.mp ((h₁.slots _).mpr hheld)
  have hprepare := (h₁.prepare hs₁ hslot hbf₁).1
  obtain ⟨t, hconsume, -, -, ht⟩ :=
    (h₁.setPrepared (1, some (r % 32769, 0))).consume hs₁ hslot hbf₁ rfl
  refine ⟨t, ?_, ?_⟩
  · simp only [Machine.run, assertedRing, hwrite, hprepare, hconsume, Option.bind_some]
  · have hread : (r + 1) % 65536 = (32769 + (j + 1)) % 65536 := by omega
    rw [hread] at ht
    exact ht.congr fun i => lapSlots_next hj hr i

/-- Two frames are written at first. -/
theorem Lapped.start : ∃ s, (assertedRing 32769 1).Reachable s ∧ s.Lapped 0 := by
  have hcreated : Created 32769 1 _ := .mk
    { brk := 0, fate := scarce, freed := [], pools := fun _ => buffPoolCreate 1 0 } 0 .enByte8 rfl
  generalize hs₀ : ({ sbuff := _, mem := _, prepared := _, enqueued := _, sent := _ } :
    SendRing) = s₀ at hcreated
  have h₀ : s₀.At 0 32769 0 fun _ => False := by
    rw [← hs₀]
    exact ⟨rfl, rfl, rfl, rfl, rfl, rfl, rfl, fun i => ⟨nofun, nofun⟩, rfl, rfl, rfl⟩
  obtain ⟨s₁, -, -, hwrite₁, -, -, -, -, -, h₁⟩ := h₀.write_empty ⟨by decide, by decide, by decide⟩
    (.inr (by decide)) (.inr (by rw [h₀.missing_eq_one not_false]; decide))
  rw [h₀.missing_eq_one not_false, h₀.missing_eq_one not_false] at h₁
  have hheader : (False ∨ 1 % 32769 = 0 % 32769) ∨ 1 % 32769 = (0 + 1) % 32769 := .inr rfl
  obtain ⟨s₂, -, -, hwrite₂, -, -, -, -, -, h₂⟩ := h₁.write_empty ⟨by decide, by decide, by decide⟩
    (.inl hheader) (.inr (by rw [h₁.missing_eq_zero hheader]; decide))
  rw [h₁.missing_eq_zero hheader, h₁.missing_eq_one (by decide)] at h₂
  have hinit : (assertedRing 32769 1).Reachable s₀ := .init ⟨hcreated, by decide⟩
  refine ⟨s₂, (hinit.step trivial hwrite₁).step trivial hwrite₂, h₂.congr fun i => ?_⟩
  simp [lapSlots, or_assoc]

theorem Lapped.reachable (j : Nat) (hj : j ≤ 65533) :
    ∃ s, (assertedRing 32769 1).Reachable s ∧ s.Lapped j := by
  induction j with
  | zero => exact Lapped.start
  | succ j ih =>
      obtain ⟨s, hs, hlapped⟩ := ih (by omega)
      obtain ⟨t, hrun, ht⟩ := hlapped.next (by omega)
      exact ⟨t, Machine.Reachable.run hs hrun, ht⟩

/-! ### A free block that is shown -/

/-- The writer is one block short of losing its block index, the ring seems to be empty, and the
heap is used up. -/
def Exhausted (s : SendRing) : Prop :=
  ∃ brk, 65536 ≤ brk ∧ s.At 65535 32766 brk (lapSlots 65533)

theorem Lapped.exhausted {s : SendRing} (h : s.Lapped 65533) : s.Exhausted :=
  ⟨65536, le_refl _, h⟩

/-- A write of three bytes runs out of memory at the last one. The first one is in block 32767
then. -/
theorem Exhausted.write_fails {s : SendRing} (h : s.Exhausted) (x y z : UInt8) :
    ∃ (t : SendRing) (bf : Block UInt8), s.checked (.write [x, y, z] 3) = some t ∧ t.Exhausted ∧
      t.enqueued = s.enqueued ∧ t.sbuff.buffers 32767 = some bf ∧ bf.data 0 = x := by
  obtain ⟨brk, hbrk, h⟩ := h
  have hs : Spaced 65535 32766 := ⟨by decide, by decide, by decide⟩
  obtain ⟨hH, hL, hRH, hRL⟩ := h.cursors hs
  have hspace : buffGetSpace 32769 1 32766 0 65535 0 = 32769 := hs.space
  -- the header and two bytes go into blocks that are there
  obtain ⟨bf₁, m₁, u₁, hcopy₁, -, -, -, h₁⟩ :=
    h.copyIn_held (i := 32766) (.inr (.inr rfl)) [sizeByte 4 0]
  obtain ⟨bf₂, m₂, u₂, hcopy₂, hslot, -, hdata, h₂⟩ := h₁.copyIn_held (i := 32767) (.inl rfl) [x]
  obtain ⟨bf₃, m₃, u₃, hcopy₃, -, hrest, -, h₃⟩ := h₂.copyIn_held (i := 32768) (.inr (.inl rfl)) [y]
  -- the third byte finds no block
  have hfree : ¬ lapSlots 65533 0 := by
    rw [lapSlots]
    decide
  have hnone : u₃ 0 = none :=
    Option.not_isSome_iff_eq_none.mp fun hsome => hfree ((h₃.slots 0).mp hsome)
  have hcopy₄ := Arena.copyIn_exhausted 0 [z] hnone h₃.pools
    (by rw [h₃.fate, h₃.brk, scarce, if_neg (Nat.not_lt.mpr hbrk)])
  have hword : u32 4 = 4 := by decide
  have hwrite : sendBuffWrite s.mem s.sbuff [x, y, z] 3 =
      (enErrNoMemory, { s.sbuff with buffers := u₃ }, { m₃ with brk := m₃.brk + 1 }) := by
    simp only [] at hcopy₂ hcopy₃ hcopy₄
    simp [sendBuffWrite, sizeRest, h.enByte, EnByteSize.toNat, hH, hL, hRH, hRL, hword, h.poolCnt,
      h.bufferSize, hspace, sendBuffPutHeader, sendBuffPutPayload, sendBuffPutTail,
      sendBuffPutBlocks, h.pool, hcopy₁, hcopy₂, hcopy₃, hcopy₄]
  have hstep : s.step (.write [x, y, z] 3) = some
      { s with
        sbuff := (sendBuffWrite s.mem s.sbuff [x, y, z] 3).2.1
        mem := (sendBuffWrite s.mem s.sbuff [x, y, z] 3).2.2
        enqueued := if (sendBuffWrite s.mem s.sbuff [x, y, z] 3).2.1.write = s.sbuff.write
          then s.enqueued else s.enqueued ++ [[x, y, z]] } := rfl
  rw [hwrite] at hstep
  refine ⟨_, bf₂, checked_eq_some.mpr ⟨h.writeAssert hs 3, hstep⟩, ⟨brk + 1, by omega, h₃.write,
    h₃.read, h₃.freeH, h₃.bufferSize, h₃.poolCnt, h₃.enByte, h₃.pool, h₃.slots,
    congrArg (· + 1) h₃.brk, h₃.fate, h₃.pools⟩, if_pos rfl, ?_, hdata 0 x rfl⟩
  exact (hrest 32767 (by decide)).trans hslot

theorem trace_cons {s t : SendRing} {a : Action} {as : List Action} {o : Observation}
    {obs : List Observation} (hobs : s.observe a = o) (hfine : o ≠ .wrote enErrNoMemory)
    (hstep : s.checked a = some t) (hrest : trace as t = some obs) :
    trace (a :: as) s = some (o :: obs) := by
  rw [trace, hobs, if_neg hfine, hstep, Option.bind_some, hrest, Option.map_some]

/-- One more frame, and the ring seems to hold block 32767. -/
theorem Exhausted.trace_shows {s : SendRing} {bf : Block UInt8} (h : s.Exhausted)
    (hbf : s.sbuff.buffers 32767 = some bf) :
    trace [.write [] 0, .prepare, .consume 1, .prepare] s =
      some [.wrote 0, .prepared 1 [1], .consumed [1], .prepared 1 [bf.data 0]] := by
  obtain ⟨brk, -, h⟩ := h
  obtain ⟨t₁, bf₁, bf', hwrite, hobs₁, hone, hbuf, hkept, -, h₁⟩ :=
    h.write_empty ⟨by decide, by decide, by decide⟩ (.inl (.inr (.inr rfl))) (.inl (.inl rfl))
  obtain rfl := hkept bf hbf
  have hs₁ : Spaced 0 32766 := ⟨by decide, by decide, by decide⟩
  have hslot₁ : 0 % 32769 ≠ 32766 % 32769 := by decide
  have hbf₁ : t₁.sbuff.buffers 32766 = some bf₁ := by
    rw [hbuf, Function.update_of_ne (by decide), Function.update_self]
  have hbf₂ : t₁.sbuff.buffers 32767 = some bf' := by rw [hbuf, Function.update_self]
  obtain ⟨hprepare, hobs₂⟩ := h₁.prepare hs₁ hslot₁ hbf₁
  obtain ⟨t₃, hconsume, hobs₃, hbuf₃, h₃⟩ :=
    (h₁.setPrepared (1, some (32766, 0))).consume hs₁ hslot₁ hbf₁ rfl
  have hs₃ : Spaced 0 32767 := ⟨by decide, by decide, by decide⟩
  have hbf₃ : t₃.sbuff.buffers 32767 = some bf' := by
    rw [hbuf₃, Function.update_of_ne (by decide)]
    exact hbf₂
  obtain ⟨hprepare₄, hobs₄⟩ := h₃.prepare hs₃ (by decide) hbf₃
  rw [hone] at hobs₂ hobs₃
  exact trace_cons hobs₁ (by decide) hwrite <| trace_cons hobs₂ (by decide) hprepare <|
    trace_cons hobs₃ (by decide) hconsume <| trace_cons hobs₄ Observation.noConfusion hprepare₄ rfl

end SendRing

/-- The second of two writes that fail for want of memory changes a byte that a later piece
shows. -/
theorem sendBuff_failed_write_shows :
    ¬ ∀ s, (assertedRing 32769 1).Reachable s → s.AllOrNothing 32769 1 := by
  intro hall
  obtain ⟨s₀, hreach₀, hlapped⟩ := SendRing.Lapped.reachable 65533 (by decide)
  obtain ⟨s, bf, hstep, hs, -, hslot, hdata⟩ := hlapped.exhausted.write_fails 2 0 0
  obtain ⟨t, bf', hstep', ht, henq, hslot', hdata'⟩ := hs.write_fails 3 0 0
  have hreach : (assertedRing 32769 1).Reachable s :=
    Machine.ReachableVia.step hreach₀ trivial hstep
  obtain ⟨hpushed, -⟩ | huntouched := hall s hreach [3, 0, 0] 3 t hstep'
  · rw [henq] at hpushed
    exact absurd hpushed (by simp)
  · have hsame := (huntouched.later s.mem t.mem).1 _ _ (hs.trace_shows hslot)
      (.inr (by rw [ht.trace_shows hslot']; rfl))
    rw [ht.trace_shows hslot', hdata, hdata'] at hsame
    exact absurd hsame (by decide)

end RandServer
