import RandServer.Lib.CheckedHeap
import RandServer.Lib.Machine
import RandServer.Lua.Serialize

/-!
# The output buffer of the serializer

`serialize_init`, `serialize_clean` and `serialize_pack_bytes` of `serialize.c`, over a heap
on which every access is checked. The buffer begins in the memory that the caller provides
and moves to the heap when it gets full. A run of calls refines appending to a list
(`refines_append`), which is what the packer's `serializePackBytes` does.
-/

namespace RandServer.SerializeBuff

/-- `serialize_data`. -/
structure SerializeData where
  data : Option Nat
  size : Nat
  maxSize : Nat
  initBuff : Option Nat
  initSize : Nat
  tableRef : Int
  errorInfo : Int
  error : Int
  supportFlag : Nat

/-- The serializer and the memory it works on. -/
structure State where
  ser : SerializeData
  heap : CheckedHeap UInt8

def errNoMemory : Int := -0xff

/-- `serialize_init`. -/
def serializeInit (supportFlag : Nat) (initBuff : Option Nat) (initSize : Nat) : SerializeData where
  data := initBuff
  size := 0
  maxSize := initSize
  initBuff := initBuff
  initSize := initSize
  tableRef := 0
  errorInfo := 0
  error := 0
  supportFlag := supportFlag

/-- `serialize_clean`. -/
def serializeClean (s : State) : Option State := do
  let heap ← if s.ser.data ≠ s.ser.initBuff then s.heap.free s.ser.data else some s.heap
  some {
    ser := { s.ser with
      size := 0
      error := 0
      errorInfo := 0
      tableRef := 0
      maxSize := s.ser.initSize
      data := s.ser.initBuff }
    heap := heap }

/-- `check_serialize_pack`. The answer of the system is used where memory is asked for. -/
def checkSerializePack (s : State) (answer : Option (Nat × (Nat → UInt8))) (addSize : Nat) :
    Option (State × Int) :=
  let newSize := (s.ser.size + addSize) % 2 ^ 64
  if newSize < s.ser.maxSize then
    some (s, 0)
  else if newSize ≤ s.ser.initSize then do
    let heap ←
      if s.ser.data ≠ s.ser.initBuff then do
        let bytes ← s.heap.load s.ser.data s.ser.size
        let heap ← s.heap.store s.ser.initBuff 0 bytes
        heap.free s.ser.data
      else some s.heap
    some ({ ser := { s.ser with data := s.ser.initBuff, maxSize := s.ser.initSize }
            heap := heap }, 0)
  else do
    let newSize := (newSize + 1024) % 2 ^ 64
    let (heap, data) ←
      if s.ser.data = s.ser.initBuff then do
        let (heap, data) := s.heap.malloc newSize answer
        let bytes ← heap.load s.ser.initBuff s.ser.size
        let heap ← heap.store data 0 bytes
        some (heap, data)
      else s.heap.realloc s.ser.data newSize answer
    match data with
    | none =>
        some ({ ser := { s.ser with data := none, maxSize := 0, size := 0, errorInfo := 0 }
                heap := heap }, -1)
    | some id =>
        some ({ ser := { s.ser with data := some id, maxSize := newSize }, heap := heap }, 0)

/-- `serialize_pack_bytes`. -/
def serializePackBytes (s : State) (answer : Option (Nat × (Nat → UInt8)))
    (bytes : List UInt8) : Option (State × Int) :=
  if s.ser.error ≠ 0 then
    some (s, 0)
  else do
    let (s, failed) ← checkSerializePack s answer bytes.length
    if failed ≠ 0 then
      some ({ s with ser := { s.ser with error := errNoMemory } }, 0)
    else do
      let heap ← s.heap.store s.ser.data s.ser.size bytes
      some ({ ser := { s.ser with size := (s.ser.size + bytes.length) % 2 ^ 64 }
              heap := heap }, 1)

/-! ## Runs of calls -/

/-- The calls. Packing comes with the block that the system provides. -/
inductive SerCall
  | clean
  | packBytes (bytes : List UInt8) (id : Nat) (fill : Nat → UInt8)

/-- What a call does to a list. -/
def SerCall.append (out : List UInt8) : SerCall → List UInt8
  | .clean => []
  | .packBytes bytes _ _ => out ++ bytes

/-- What the system grants to a call that packs. The output, the chunk and the reserve lie in
the address space, and the block is a new one or the one that `realloc` enlarges. -/
def State.Grants (s : State) (addSize id : Nat) : Prop :=
  s.ser.size + addSize + 1024 < 2 ^ 64 ∧
    (s.heap.Fresh id ∨ (s.ser.data = some id ∧ s.ser.data ≠ s.ser.initBuff))

instance (s : State) (addSize id : Nat) : Decidable (s.Grants addSize id) :=
  inferInstanceAs (Decidable (_ ∧ _))

def State.step (s : State) : SerCall → Option State
  | .clean => serializeClean s
  | .packBytes bytes id fill =>
      if s.Grants bytes.length id then
        (serializePackBytes s (some (id, fill)) bytes).map Prod.fst
      else
        none

/-- The caller's memory, of any size or none, is a block of the heap. -/
def State.Fresh (s : State) : Prop :=
  s.heap.freed = [] ∧ ∃ supportFlag initBuff xs, s.heap.cells initBuff = some xs ∧
    s.ser = serializeInit supportFlag initBuff xs.length

def serMachine : Machine State SerCall where
  Init := State.Fresh
  step := State.step

/-! ## The invariant -/

/-- The output lies at the beginning of the block that `data` leads to. -/
structure State.Holds (heap₀ : CheckedHeap UInt8) (s : State) (out : List UInt8) : Prop where
  noError : s.ser.error = 0
  size : s.ser.size = out.length
  init : ∃ xs, s.heap.cells s.ser.initBuff = some xs ∧ xs.length = s.ser.initSize
  data : ∃ xs, s.heap.cells s.ser.data = some xs ∧ xs.length = s.ser.maxSize ∧ out <+: xs
  place : s.ser.data = s.ser.initBuff ∨ ∃ id, s.ser.data = some id ∧
    s.ser.data ≠ s.ser.initBuff ∧ heap₀.live id = none ∧ s.ser.initSize < s.ser.maxSize
  freedOnce : s.heap.FreedOnce
  others : ∀ id, some id ≠ s.ser.initBuff → some id ≠ s.ser.data →
    s.heap.live id = heap₀.live id

namespace State

variable {heap₀ heap : CheckedHeap UInt8} {s t : State} {out bytes xs : List UInt8}
variable {addSize newSize id : Nat} {fill : Nat → UInt8}

namespace Holds

theorem size_le (h : s.Holds heap₀ out) : s.ser.size ≤ s.ser.maxSize := by
  obtain ⟨xs, _, hlen, hpre⟩ := h.data
  rw [h.size, ← hlen]
  exact hpre.length_le

theorem load (h : s.Holds heap₀ out) : s.heap.load s.ser.data s.ser.size = some out := by
  obtain ⟨xs, hcells, _, hpre⟩ := h.data
  rw [CheckedHeap.load_eq hcells (h.size ▸ hpre.length_le), h.size,
    ← List.prefix_iff_eq_take.mp hpre]

/-- A block that the system provides is none of those in use. -/
theorem fresh (h : s.Holds heap₀ out) (hfresh : s.heap.Fresh id) :
    some id ≠ s.ser.initBuff ∧ some id ≠ s.ser.data ∧ heap₀.live id = none := by
  have hnone : s.heap.live id = none := Option.isNone_iff_eq_none.mp hfresh.1
  have hne : ∀ p xs, s.heap.cells p = some xs → some id ≠ p := by
    rintro p xs hcells rfl
    rw [CheckedHeap.cells_some, hnone] at hcells
    cases hcells
  obtain ⟨xs, hinit, _⟩ := h.init
  obtain ⟨ys, hdata, _⟩ := h.data
  refine ⟨hne _ xs hinit, hne _ ys hdata, ?_⟩
  rw [← h.others id (hne _ xs hinit) (hne _ ys hdata), hnone]

/-- The output has moved to a block of its own that is larger than the caller's. -/
theorem moved (h : s.Holds heap₀ out) (hlive : heap.live id = some xs)
    (hlarger : s.ser.initSize < xs.length) (hpre : out <+: xs) (hne : some id ≠ s.ser.initBuff)
    (hnew : heap₀.live id = none) (hinit : heap.cells s.ser.initBuff = s.heap.cells s.ser.initBuff)
    (hfreed : heap.FreedOnce)
    (hothers : ∀ k, some k ≠ s.ser.initBuff → k ≠ id → heap.live k = heap₀.live k) :
    State.Holds heap₀
      { ser := { s.ser with data := some id, maxSize := xs.length }, heap := heap } out where
  noError := h.noError
  size := h.size
  init := by
    obtain ⟨ys, hcells, hlen⟩ := h.init
    exact ⟨ys, hinit.trans hcells, hlen⟩
  data := ⟨xs, hlive, rfl, hpre⟩
  place := .inr ⟨id, rfl, hne, hnew, hlarger⟩
  freedOnce := hfreed
  others := by
    intro k hk hk'
    exact hothers k hk (fun heq => hk' (congrArg some heq))

/-- The caller's memory has the size of the block in use if it is that block. -/
theorem maxSize_eq (h : s.Holds heap₀ out) (hdata : s.ser.data = s.ser.initBuff) :
    s.ser.maxSize = s.ser.initSize := by
  obtain ⟨xs, hinit, hxs⟩ := h.init
  obtain ⟨ys, hcells, hys, _⟩ := h.data
  have heq : some ys = some xs := hcells.symm.trans ((congrArg s.heap.cells hdata).trans hinit)
  rw [← hys, ← hxs, Option.some.inj heq]

/-- Moving back to where the output is changes nothing. -/
theorem back_eq (h : s.Holds heap₀ out) (hdata : s.ser.data = s.ser.initBuff) :
    { s.ser with data := s.ser.initBuff, maxSize := s.ser.initSize } = s.ser := by
  have hmax := h.maxSize_eq hdata
  cases hser : s.ser
  rw [hser] at hdata hmax
  cases hdata
  cases hmax
  rfl

/-- `malloc` and `memcpy`, for output in the caller's memory. -/
theorem malloc (h : s.Holds heap₀ out) (hdata : s.ser.data = s.ser.initBuff)
    (hfresh : s.heap.Fresh id) (hlarger : s.ser.initSize < newSize) :
    ∃ heap, ((s.heap.put id ((List.range newSize).map fill)).load s.ser.initBuff s.ser.size).bind
        ((s.heap.put id ((List.range newSize).map fill)).store (some id) 0) = some heap ∧
      State.Holds heap₀
        { ser := { s.ser with data := some id, maxSize := newSize }, heap := heap } out := by
  obtain ⟨hneInit, hneData, hnew⟩ := h.fresh hfresh
  obtain ⟨ys, hcells, hlen, hpre⟩ := h.data
  have hsize : s.ser.size ≤ ys.length := hlen ▸ h.size_le
  have hmax := h.maxSize_eq hdata
  have hblock : ((List.range newSize).map fill).length = newSize := by
    rw [List.length_map, List.length_range]
  obtain ⟨heap, zs, hcopy, hlive, hzs, hzpre, hother, hfreed⟩ :=
    CheckedHeap.put_copy (hdata ▸ hcells) hneInit hsize (by rw [hblock]; omega)
  rw [hblock] at hzs
  rw [h.size, ← List.prefix_iff_eq_take.mp hpre] at hzpre
  have hlive₀ : ∀ k ∈ s.heap.freed, heap.live k = s.heap.live k :=
    fun k hk => hother k (fun heq => hfresh.2 (heq ▸ hk))
  refine ⟨heap, hcopy, ?_⟩
  rw [← hzs]
  apply h.moved hlive (hzs.symm ▸ hlarger) hzpre hneInit hnew
  · exact CheckedHeap.cells_congr hneInit hother
  · exact h.freedOnce.of_live hfreed hlive₀
  · intro k hk hk'
    rw [hother k hk', h.others k hk (hdata.symm ▸ hk)]

/-- `realloc`, for output on the heap. -/
theorem realloc (h : s.Holds heap₀ out) {id' : Nat} (hdata : s.ser.data = some id')
    (hne : s.ser.data ≠ s.ser.initBuff) (hnew : heap₀.live id' = none)
    (hgrant : s.heap.Fresh id ∨ s.ser.data = some id) (hlarger : s.ser.initSize < newSize)
    (hgrow : s.ser.maxSize ≤ newSize) :
    ∃ heap, s.heap.realloc s.ser.data newSize (some (id, fill)) = some (heap, some id) ∧
      State.Holds heap₀
        { ser := { s.ser with data := some id, maxSize := newSize }, heap := heap } out := by
  obtain ⟨ys, hcells, hlen, hpre⟩ := h.data
  have hlive' : s.heap.live id' = some ys := by
    rw [hdata] at hcells
    exact hcells
  have hid : some id ≠ s.ser.initBuff ∧ heap₀.live id = none ∧ id ∉ s.heap.freed := by
    cases hgrant with
    | inl hfresh =>
        obtain ⟨hneInit, _, hnone⟩ := h.fresh hfresh
        exact ⟨hneInit, hnone, hfresh.2⟩
    | inr hself =>
        obtain rfl := Option.some.inj (hdata.symm.trans hself)
        exact ⟨hself ▸ hne, hnew, fun hmem => h.freedOnce.ne_of_mem hmem hlive' rfl⟩
  obtain ⟨hneInit, hnew', hnot⟩ := hid
  obtain ⟨heap, zs, hcall, hlive, hzs, hzpre, hother, hgone, hfreed⟩ :=
    @CheckedHeap.realloc_eq _ s.heap id id' ys hlive' newSize (hlen ▸ hgrow) fill
  have hnotInit : some id' ≠ s.ser.initBuff := hdata ▸ hne
  have hlive₀ : ∀ k ∈ s.heap.freed, heap.live k = s.heap.live k := fun k hk =>
    hother k (fun heq => hnot (heq ▸ hk)) (h.freedOnce.ne_of_mem hk hlive')
  refine ⟨heap, hdata ▸ hcall, ?_⟩
  rw [← hzs]
  apply h.moved hlive (hzs.symm ▸ hlarger) (hpre.trans hzpre) hneInit hnew'
  · cases hinit : s.ser.initBuff with
    | none => rfl
    | some k =>
        rw [hinit] at hneInit hnotInit
        exact hother k (fun heq => hneInit (congrArg some heq.symm))
          (fun heq => hnotInit (congrArg some heq.symm))
  · by_cases hself : id' = id
    · exact h.freedOnce.of_live (hfreed.trans (if_pos hself)) hlive₀
    · exact h.freedOnce.free hlive' (hfreed.trans (if_neg hself)) (hgone hself) hlive₀
  · intro k hk hk'
    by_cases hold : k = id'
    · rw [hold, hnew]
      exact hgone (fun heq => hk' (hold.trans heq))
    · rw [hother k hk' hold]
      exact h.others k hk (fun heq => hold (Option.some.inj (heq.trans hdata)))

end Holds

/-! ## The calls -/

/-- Whatever a call needs room for, it has it afterwards. -/
theorem checkSerializePack_eq (h : s.Holds heap₀ out) (hgrants : s.Grants addSize id)
    (fill : Nat → UInt8) :
    ∃ t, checkSerializePack s (some (id, fill)) addSize = some (t, 0) ∧ t.Holds heap₀ out ∧
      t.ser.size + addSize ≤ t.ser.maxSize := by
  obtain ⟨hfits, hplaced⟩ := hgrants
  have hsum : (s.ser.size + addSize) % 2 ^ 64 = s.ser.size + addSize :=
    Nat.mod_eq_of_lt (by omega)
  have hreserve : (s.ser.size + addSize + 1024) % 2 ^ 64 = s.ser.size + addSize + 1024 :=
    Nat.mod_eq_of_lt hfits
  simp only [checkSerializePack, hsum, hreserve]
  by_cases hroom : s.ser.size + addSize < s.ser.maxSize
  · exact ⟨s, if_pos hroom, h, Nat.le_of_lt hroom⟩
  rw [if_neg hroom]
  by_cases hinit : s.ser.size + addSize ≤ s.ser.initSize
  · -- a block on the heap is larger than the caller's, so the output is not there
    have hdata : s.ser.data = s.ser.initBuff := by
      cases h.place with
      | inl hdata => exact hdata
      | inr hheap =>
          obtain ⟨_, _, _, _, hlarger⟩ := hheap
          omega
    refine ⟨s, ?_, h, h.maxSize_eq hdata ▸ hinit⟩
    rw [if_pos hinit, if_neg (not_not.mpr hdata), h.back_eq hdata]
    rfl
  rw [if_neg hinit]
  by_cases hdata : s.ser.data = s.ser.initBuff
  · have hfresh : s.heap.Fresh id := hplaced.resolve_right (fun hheap => hheap.2 hdata)
    obtain ⟨heap, hcall, hholds⟩ := @Holds.malloc _ _ _ (s.ser.size + addSize + 1024) _ fill h
      hdata hfresh (by omega)
    obtain ⟨bytes, hload, hstore⟩ := Option.bind_eq_some_iff.mp hcall
    refine ⟨_, ?_, hholds, Nat.le_add_right ..⟩
    rw [if_pos hdata]
    simp only [CheckedHeap.malloc, hload, hstore, Option.bind_eq_bind, Option.bind_some]
  · have hheap := h.place.resolve_left hdata
    obtain ⟨id', hdata', _, hnew, _⟩ := hheap
    obtain ⟨heap, hcall, hholds⟩ := @Holds.realloc _ _ _ (s.ser.size + addSize + 1024) _ fill h id'
      hdata' hdata hnew (hplaced.imp_right And.left) (by omega) (by omega)
    refine ⟨_, ?_, hholds, Nat.le_add_right ..⟩
    rw [if_neg hdata, hcall]
    rfl

/-- A chunk is appended where there is room for it. -/
theorem Holds.store (h : s.Holds heap₀ out) (hroom : s.ser.size + bytes.length ≤ s.ser.maxSize) :
    ∃ heap, s.heap.store s.ser.data s.ser.size bytes = some heap ∧
      State.Holds heap₀
        { ser := { s.ser with size := s.ser.size + bytes.length }, heap := heap }
        (out ++ bytes) := by
  obtain ⟨xs, hcells, hlen, hpre⟩ := h.data
  obtain ⟨heap, hstore, hcells', hother, hfreed⟩ := CheckedHeap.store_eq hcells (hlen ▸ hroom)
  have hout : xs.take s.ser.size = out := by
    rw [h.size, ← List.prefix_iff_eq_take.mp hpre]
  have hlen' : (xs.take s.ser.size ++ bytes ++ xs.drop (s.ser.size + bytes.length)).length =
      s.ser.maxSize := by
    simp only [List.length_append, List.length_take, List.length_drop]
    omega
  refine ⟨heap, hstore, ?_⟩
  constructor
  · exact h.noError
  · simp only [h.size, List.length_append]
  · obtain ⟨ys, hinit, hys⟩ := h.init
    by_cases hdata : s.ser.data = s.ser.initBuff
    · exact ⟨_, hdata ▸ hcells', hlen'.trans (h.maxSize_eq hdata)⟩
    · refine ⟨ys, ?_, hys⟩
      change heap.cells s.ser.initBuff = some ys
      rw [← hinit]
      cases hbuff : s.ser.initBuff with
      | none => rfl
      | some k => exact hother k (fun heq => hdata (heq.symm.trans hbuff.symm))
  · refine ⟨_, hcells', hlen', ?_⟩
    rw [hout]
    exact List.prefix_append ..
  · exact h.place
  · apply h.freedOnce.of_live hfreed
    intro k hk
    apply hother
    intro heq
    rw [← heq] at hcells
    exact h.freedOnce.ne_of_mem hk hcells rfl
  · intro k hk hk'
    rw [hother k hk']
    exact h.others k hk hk'

theorem serializePackBytes_eq (h : s.Holds heap₀ out) (hgrants : s.Grants bytes.length id)
    (fill : Nat → UInt8) :
    ∃ t, serializePackBytes s (some (id, fill)) bytes = some (t, 1) ∧
      t.Holds heap₀ (out ++ bytes) := by
  obtain ⟨mid, hcheck, hmid, hroom⟩ := checkSerializePack_eq h hgrants fill
  obtain ⟨heap, hstore, hholds⟩ := hmid.store hroom
  have hsum : (mid.ser.size + bytes.length) % 2 ^ 64 = mid.ser.size + bytes.length := by
    apply Nat.mod_eq_of_lt
    rw [hmid.size, ← h.size]
    exact Nat.lt_of_le_of_lt (Nat.le_add_right ..) hgrants.1
  refine ⟨_, ?_, hholds⟩
  simp only [serializePackBytes, h.noError, hcheck, hstore, hsum, Option.bind_eq_bind,
    Option.bind_some, ne_eq, not_true_eq_false, if_false]

/-- The output is empty and lies in the caller's memory again. -/
theorem Holds.cleaned (h : s.Holds heap₀ out)
    (hinit : heap.cells s.ser.initBuff = s.heap.cells s.ser.initBuff) (hfreed : heap.FreedOnce)
    (hothers : ∀ k, some k ≠ s.ser.initBuff → heap.live k = heap₀.live k) :
    State.Holds heap₀
      { ser := { s.ser with
          size := 0
          error := 0
          errorInfo := 0
          tableRef := 0
          maxSize := s.ser.initSize
          data := s.ser.initBuff }
        heap := heap } [] := by
  obtain ⟨ys, hcells, hys⟩ := h.init
  have hcells' : heap.cells s.ser.initBuff = some ys := hinit.trans hcells
  exact {
    noError := rfl
    size := rfl
    init := ⟨ys, hcells', hys⟩
    data := ⟨ys, hcells', hys, List.nil_prefix⟩
    place := .inl rfl
    freedOnce := hfreed
    others := fun k hk _ => hothers k hk }

/-- Cleaning releases the block on the heap. -/
theorem serializeClean_eq (h : s.Holds heap₀ out) :
    ∃ t, serializeClean s = some t ∧ t.Holds heap₀ [] := by
  by_cases hdata : s.ser.data = s.ser.initBuff
  · refine ⟨_, ?_, h.cleaned rfl h.freedOnce fun k hk => h.others k hk (hdata ▸ hk)⟩
    rw [serializeClean, if_neg (not_not.mpr hdata)]
    rfl
  · have hheap := h.place.resolve_left hdata
    obtain ⟨id, hid, _, hnew, _⟩ := hheap
    obtain ⟨xs, hcells, _⟩ := h.data
    rw [hid] at hcells hdata
    obtain ⟨heap, hfree, hnone, hother, hfreed⟩ := CheckedHeap.free_eq hcells
    refine ⟨_, ?_, h.cleaned (CheckedHeap.cells_congr hdata hother)
      (h.freedOnce.free hcells hfreed hnone
        fun k hk => hother k (h.freedOnce.ne_of_mem hk hcells)) fun k hk => ?_⟩
    · rw [serializeClean, hid, if_pos hdata, hfree]
      rfl
    · by_cases hself : k = id
      · rw [hself, hnew]
        exact hnone
      · rw [← h.others k hk (fun heq => hself (Option.some.inj (heq.trans hid)))]
        exact hother k hself

/-! ## Runs -/

theorem Fresh.holds (h : s.Fresh) : s.Holds s.heap [] := by
  obtain ⟨hfreed, flag, initBuff, xs, hcells, hser⟩ := h
  cases s with
  | mk ser heap =>
      cases hser
      refine ⟨rfl, rfl, ⟨xs, hcells, rfl⟩, ⟨xs, hcells, rfl, List.nil_prefix⟩, .inl rfl, ?_,
        fun _ _ _ => rfl⟩
      constructor
      · exact hfreed ▸ List.nodup_nil
      · intro k hk
        rw [hfreed] at hk
        exact absurd hk List.not_mem_nil

theorem step_holds {call : SerCall} (h : s.Holds heap₀ out) (hstep : s.step call = some t) :
    t.Holds heap₀ (call.append out) := by
  cases call with
  | clean =>
      obtain ⟨t', ht', hholds⟩ := serializeClean_eq h
      obtain rfl : t' = t := Option.some.inj (ht'.symm.trans hstep)
      exact hholds
  | packBytes bytes id fill =>
      simp only [State.step] at hstep
      split_ifs at hstep with hgrants
      obtain ⟨t', ht', hholds⟩ := serializePackBytes_eq h hgrants fill
      rw [ht'] at hstep
      obtain rfl : t' = t := Option.some.inj hstep
      exact hholds

theorem run_holds {calls : List SerCall} (h : s.Holds heap₀ out)
    (hrun : serMachine.run s calls = some t) :
    t.Holds heap₀ (calls.foldl SerCall.append out) := by
  induction calls generalizing s out with
  | nil =>
      cases hrun
      exact h
  | cons call calls ih =>
      obtain ⟨mid, hstep, hrest⟩ := Option.bind_eq_some_iff.mp hrun
      exact ih (step_holds h hstep) hrest

/-- What a state shows of the output, given the heap before the first call. -/
structure Refines (heap₀ : CheckedHeap UInt8) (s : State) (out : List UInt8) : Prop where
  stored : s.heap.load s.ser.data s.ser.size = some out
  size_le : s.ser.size ≤ s.ser.maxSize
  capacity : (s.heap.cells s.ser.data).map List.length = some s.ser.maxSize
  place : s.ser.data = s.ser.initBuff ∨ ∃ id, s.ser.data = some id ∧ heap₀.live id = none
  others : ∀ id, some id ≠ s.ser.initBuff → some id ≠ s.ser.data →
    s.heap.live id = heap₀.live id
  freedOnce : s.heap.FreedOnce

theorem Holds.refines (h : s.Holds heap₀ out) : s.Refines heap₀ out where
  stored := h.load
  size_le := h.size_le
  capacity := by
    obtain ⟨xs, hcells, hlen, _⟩ := h.data
    rw [hcells, Option.map_some, hlen]
  place := by
    apply h.place.imp_right
    rintro ⟨id, hid, _, hnew, _⟩
    exact ⟨id, hid, hnew⟩
  others := h.others
  freedOnce := h.freedOnce

end State

/-- After every run of calls, the output is what appending gives, and the next call is
defined: it stays inside its blocks, which were not released, and releases none twice. The
copy of a chunk ends before `max_size`. -/
theorem refines_append {s₀ s : State} {calls : List SerCall} (hinit : s₀.Fresh)
    (hrun : serMachine.run s₀ calls = some s) :
    s.Refines s₀.heap (calls.foldl SerCall.append []) ∧
      (∃ t, serializeClean s = some t) ∧
      ∀ bytes id fill, s.Grants bytes.length id →
        ∃ mid t, checkSerializePack s (some (id, fill)) bytes.length = some (mid, 0) ∧
          mid.ser.size + bytes.length ≤ mid.ser.maxSize ∧
          serializePackBytes s (some (id, fill)) bytes = some (t, 1) := by
  have hholds := State.run_holds hinit.holds hrun
  obtain ⟨cleaned, hclean, _⟩ := State.serializeClean_eq hholds
  refine ⟨hholds.refines, ⟨cleaned, hclean⟩, fun bytes id fill hgrants => ?_⟩
  obtain ⟨mid, hcheck, _, hroom⟩ := State.checkSerializePack_eq hholds hgrants fill
  obtain ⟨t, hpack, _⟩ := State.serializePackBytes_eq hholds hgrants fill
  exact ⟨mid, t, hcheck, hroom, hpack⟩

/-- A caller's buffer of four bytes. -/
def State.four : State where
  ser := serializeInit 0 (some 0) 4
  heap := { live := Function.update (fun _ => none) 0 (some [0, 0, 0, 0]), freed := [] }

theorem State.four_fresh : four.Fresh :=
  ⟨rfl, 0, some 0, [0, 0, 0, 0], rfl, rfl⟩

/-- The buffer gets full, the output moves to the heap, where its block is moved, and
cleaning returns to the caller's buffer. -/
theorem refines_append_four : ∃ s, serMachine.run State.four
      [.packBytes [1, 2, 3, 4] 1 (fun _ => 0), .packBytes [5] 1 (fun _ => 9),
        .packBytes (List.replicate 1024 6) 2 (fun _ => 8), .clean,
        .packBytes [7] 3 (fun _ => 0)] = some s ∧
    s.Refines State.four.heap [7] := by
  obtain ⟨s, hrun⟩ := Option.isSome_iff_exists.mp (show (serMachine.run State.four
      [.packBytes [1, 2, 3, 4] 1 (fun _ => 0), .packBytes [5] 1 (fun _ => 9),
        .packBytes (List.replicate 1024 6) 2 (fun _ => 8), .clean,
        .packBytes [7] 3 (fun _ => 0)]).isSome by decide +kernel)
  exact ⟨s, hrun, (refines_append State.four_fresh hrun).1⟩

end RandServer.SerializeBuff
