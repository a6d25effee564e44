import RandServer.Lua.ServiceHeap

/-!
# Calls on the services' heap

What each function does to the heap, with the blocks it leaves alone. A message that is
queued has a node and a block of its own (`Enqueued`).
-/

namespace RandServer

open LinkedQueue (Queue Path valueAt)

/-! ## The serializer -/

/-- The block that a serializer has moved to. -/
def Grown (ser : SerializeBuff.SerializeData) (d : Nat) : Prop :=
  ser.data = some d ∧ ser.data ≠ ser.initBuff

/-- A serializer with its output, on a heap that is in use otherwise too. -/
structure Stands (ser : SerializeBuff.SerializeData) (heap : CheckedHeap UInt8)
    (out : List UInt8) : Prop where
  noError : ser.error = 0
  size : ser.size = out.length
  init : ∃ xs, heap.cells ser.initBuff = some xs ∧ xs.length = ser.initSize
  data : ∃ xs, heap.cells ser.data = some xs ∧ xs.length = ser.maxSize ∧ out <+: xs
  place : ser.data = ser.initBuff ∨ ∃ d, Grown ser d ∧ ser.initSize < ser.maxSize

namespace Stands

open SerializeBuff (State)

variable {ser : SerializeBuff.SerializeData} {heap heap' heap₀ : CheckedHeap UInt8}
variable {out out' : List UInt8} {s t : State}

theorem of_holds (h : s.Holds heap₀ out) : Stands s.ser s.heap out where
  noError := h.noError
  size := h.size
  init := h.init
  data := h.data
  place := h.place.imp_right fun ⟨d, hd, hne, _, hlt⟩ => ⟨d, ⟨hd, hne⟩, hlt⟩

/-- The heap without the block that the serializer has moved to. -/
theorem holds (h : Stands ser heap out) (hfreed : heap.FreedOnce) :
    ∃ heap₀, State.Holds heap₀ { ser := ser, heap := heap } out := by
  obtain heq | ⟨d, hd, hlt⟩ := h.place
  · exact ⟨heap, h.noError, h.size, h.init, h.data, .inl heq, hfreed, fun _ _ _ => rfl⟩
  · refine ⟨{ heap with live := Function.update heap.live d none }, h.noError, h.size, h.init,
      h.data, .inr ⟨d, hd.1, hd.2, Function.update_self .., hlt⟩, hfreed, fun k _ hk => ?_⟩
    exact (Function.update_of_ne (fun heq => hk ((congrArg some heq).trans hd.1.symm)) ..).symm

theorem congr (h : Stands ser heap out) (hinit : heap'.cells ser.initBuff = heap.cells ser.initBuff)
    (hdata : heap'.cells ser.data = heap.cells ser.data) : Stands ser heap' out where
  noError := h.noError
  size := h.size
  init := by
    rw [hinit]
    exact h.init
  data := by
    rw [hdata]
    exact h.data
  place := h.place

theorem load (h : Stands ser heap out) : heap.load ser.data ser.size = some out := by
  obtain ⟨xs, hcells, -, hpre⟩ := h.data
  rw [CheckedHeap.load_eq hcells (h.size ▸ hpre.length_le), h.size,
    ← List.prefix_iff_eq_take.mp hpre]

/-- Besides its first block, the serializer uses what it has moved to and nothing else. -/
theorem live_iff (h : s.Holds heap₀ out) {d : Nat} (hne : some d ≠ s.ser.initBuff) :
    (s.heap.live d).isSome ↔ Grown s.ser d ∨ (heap₀.live d).isSome := by
  by_cases hd : some d = s.ser.data
  · obtain ⟨xs, hcells, -⟩ := h.data
    rw [← hd] at hcells
    have hlive : s.heap.live d = some xs := hcells
    rw [hlive]
    exact iff_of_true rfl (.inl ⟨hd.symm, hd ▸ hne⟩)
  · rw [h.others d hne hd]
    exact ⟨.inr, fun hor => hor.resolve_left fun hgrown => hd hgrown.1.symm⟩

theorem new_of_grown (h : s.Holds heap₀ out) {d : Nat} (hd : Grown s.ser d) :
    heap₀.live d = none := by
  obtain ⟨d', hd', -, hnew, -⟩ := h.place.resolve_left hd.2
  rw [← Option.some.inj (hd'.symm.trans hd.1)]
  exact hnew

/-- A call leaves alone what the serializer does not use. -/
theorem unchanged (h : s.Holds heap₀ out) (h' : t.Holds heap₀ out')
    (hinit : t.ser.initBuff = s.ser.initBuff) {d : Nat} (hlive : (s.heap.live d).isSome)
    (hne : some d ≠ s.ser.initBuff) (hgrown : ¬ Grown s.ser d) :
    t.heap.live d = s.heap.live d := by
  have hout : (heap₀.live d).isSome := ((live_iff h hne).mp hlive).resolve_left hgrown
  have hnot : some d ≠ s.ser.data := fun heq => hgrown ⟨heq.symm, heq ▸ hne⟩
  have hnot' : some d ≠ t.ser.data := by
    intro heq
    rw [new_of_grown h' ⟨heq.symm, heq ▸ hinit ▸ hne⟩] at hout
    cases hout
  rw [h.others d hne hnot, h'.others d (hinit ▸ hne) hnot']

end Stands

/-- The serializer of a service is back in the service's own block, and what it had moved to
is released. -/
structure Cleaned (m : ServiceHeap) (sv : LuaServiceAt) (m' : ServiceHeap) (sv' : LuaServiceAt) :
    Prop where
  service : sv' = { sv with ser := sv'.ser }
  init : sv'.ser.initBuff = sv.ser.initBuff
  data : sv'.ser.data = sv'.ser.initBuff
  bytes : ∀ d, ¬ Grown sv.ser d → m'.bytes.live d = m.bytes.live d
  grown : ∀ d, Grown sv.ser d → d ∈ m'.bytes.freed
  freed : m.bytes.freed ⊆ m'.bytes.freed

theorem cleanSer_cleaned {m m' : ServiceHeap} {sv sv' : LuaServiceAt}
    (ht : cleanSer m sv = some (m', sv')) : Cleaned m sv m' sv' := by
  obtain ⟨c, hclean, heq⟩ := Option.map_eq_some_iff.mp ht
  cases heq
  rw [SerializeBuff.serializeClean] at hclean
  by_cases hplace : sv.ser.data = sv.ser.initBuff
  · rw [if_neg (not_not.mpr hplace)] at hclean
    cases hclean
    exact ⟨rfl, rfl, rfl, fun _ _ => rfl, fun d hd => absurd hplace hd.2, List.Subset.refl _⟩
  rw [if_pos hplace] at hclean
  obtain ⟨bytes, hfree, heq⟩ := Option.bind_eq_some_iff.mp hclean
  cases heq
  cases hdata : sv.ser.data with
  | none =>
      simp only [hdata, CheckedHeap.free, Option.some.injEq] at hfree
      subst hfree
      refine ⟨rfl, rfl, rfl, fun _ _ => rfl, fun d hd => ?_, List.Subset.refl _⟩
      cases hdata.symm.trans hd.1
  | some d₀ =>
      simp only [hdata, CheckedHeap.free] at hfree
      split at hfree
      · cases hfree
        refine ⟨rfl, rfl, rfl, fun d hd => ?_, fun d hd => ?_, List.subset_cons_self ..⟩
        · refine Function.update_of_ne ?_ ..
          rintro rfl
          exact hd ⟨hdata, hplace⟩
        · rw [Option.some.inj (hd.1.symm.trans hdata)]
          exact List.mem_cons_self
      · cases hfree

theorem checkSerializePack_initBuff {s t : SerializeBuff.State} {answer : Answer UInt8}
    {addSize : Nat} {failed : Int}
    (ht : SerializeBuff.checkSerializePack s answer addSize = some (t, failed)) :
    t.ser.initBuff = s.ser.initBuff := by
  simp only [SerializeBuff.checkSerializePack] at ht
  split at ht
  · cases ht
    rfl
  split at ht
  · -- back to the first block
    split at ht
    · simp only [Option.bind_eq_bind, Option.bind_eq_some_iff] at ht
      obtain ⟨xs, -, heap, -, heap', -, heq⟩ := ht
      cases heq
      rfl
    · cases ht
      rfl
  · -- to a new block
    split at ht
    · simp only [Option.bind_eq_bind, Option.bind_eq_some_iff] at ht
      obtain ⟨xs, -, heap, -, ⟨heap', data⟩, -, heq⟩ := ht
      cases data with
      | none =>
          cases heq
          rfl
      | some id =>
          cases heq
          rfl
    · simp only [Option.bind_eq_bind, Option.bind_eq_some_iff] at ht
      obtain ⟨⟨heap, data⟩, -, heq⟩ := ht
      cases data with
      | none =>
          cases heq
          rfl
      | some id =>
          cases heq
          rfl

theorem serializePackBytes_initBuff {s t : SerializeBuff.State} {answer : Answer UInt8}
    {bytes : List UInt8} {ret : Int}
    (ht : SerializeBuff.serializePackBytes s answer bytes = some (t, ret)) :
    t.ser.initBuff = s.ser.initBuff := by
  rw [SerializeBuff.serializePackBytes] at ht
  split at ht
  · cases ht
    rfl
  obtain ⟨⟨mid, failed⟩, hcheck, ht⟩ := Option.bind_eq_some_iff.mp ht
  have hmid := checkSerializePack_initBuff hcheck
  dsimp only at ht
  split at ht
  · cases ht
    exact hmid
  · obtain ⟨heap, -, heq⟩ := Option.bind_eq_some_iff.mp ht
    cases heq
    exact hmid

/-! ## Pushing -/

theorem load_length {α : Type} {heap : CheckedHeap α} {p : Option Nat} {size : Nat} {xs : List α}
    (hload : heap.load p size = some xs) : xs.length = size := by
  obtain ⟨ys, -, hys⟩ := Option.bind_eq_some_iff.mp hload
  split at hys
  · cases hys
    exact List.length_take_of_le ‹_›
  · cases hys

theorem load_congr {α : Type} {heap heap' : CheckedHeap α} {p : Option Nat} {size : Nat}
    (hcells : heap'.cells p = heap.cells p) : heap'.load p size = heap.load p size := by
  rw [CheckedHeap.load, hcells, CheckedHeap.load]

/-- What can be read is no new block. -/
theorem ne_of_load {α : Type} {heap : CheckedHeap α} {d : Nat} {p : Option Nat} {size : Nat}
    {xs : List α} (hd : heap.Fresh d) (hload : heap.load p size = some xs) : some d ≠ p := by
  rintro rfl
  obtain ⟨ys, hcells, -⟩ := Option.bind_eq_some_iff.mp hload
  have hnone : heap.cells (some d) = none := Option.isNone_iff_eq_none.mp hd.1
  rw [hnone] at hcells
  cases hcells

/-- The block `d` with the bytes `x` is queued as the data of the node `id`, both new. -/
structure Enqueued (m : ServiceHeap) (sv : LuaServiceAt) (es : List (Nat × MsgData)) (id d : Nat)
    (x : List UInt8) (m' : ServiceHeap) (sv' : LuaServiceAt) : Prop where
  service : sv' = { sv with head := sv'.head, tail := sv'.tail, nodeSize := sv.nodeSize + 1 }
  queue : Queue m'.nodes sv'.head sv'.tail (es ++ [(id, { data := d, size := x.length })])
  newNode : m.nodes.Fresh id
  newBlock : m.bytes.Fresh d
  nodes : ∀ n, n ≠ id → n ∉ es.map Prod.fst → m'.nodes.live n = m.nodes.live n
  live : ∀ n, (m'.nodes.live n).isSome ↔ n = id ∨ (m.nodes.live n).isSome
  value : ∀ n, n ≠ id → valueAt m'.nodes n = valueAt m.nodes n
  content : m'.bytes.live d = some x
  bytes : ∀ k, k ≠ d → m'.bytes.live k = m.bytes.live k
  nodesFreed : m'.nodes.freed = m.nodes.freed
  bytesFreed : m'.bytes.freed = m.bytes.freed

/-- No message is queued, though a node may have been given out and released. -/
structure Refused (m : ServiceHeap) (sv : LuaServiceAt) (m' : ServiceHeap) (sv' : LuaServiceAt) :
    Prop where
  service : sv' = sv
  bytes : m'.bytes = m.bytes
  live : m'.nodes.live = m.nodes.live
  freed : m'.nodes.freed = m.nodes.freed ∨
    ∃ id, m.nodes.Fresh id ∧ m'.nodes.freed = id :: m.nodes.freed

section Push

variable {m m' : ServiceHeap} {sv sv' : LuaServiceAt} {es : List (Nat × MsgData)} {id d : Nat}
variable {data data2 : Option Nat} {size size2 mallocSize : Nat} {xs ys x : List UInt8}
variable {node : Answer MsgNode} {block : Answer UInt8} {f : Nat → MsgNode} {g : Nat → UInt8}

theorem createAndPushMsgNodeAt_eq (hq : Queue m.nodes sv.head sv.tail es) (hdata : data ≠ none)
    (hid : m.nodes.Fresh id) (hd : m.bytes.Fresh d) (hload : m.bytes.load data size = some xs)
    (hne : some d ≠ data) :
    ∃ m' sv' x, createAndPushMsgNodeAt m sv data size mallocSize (some (id, f)) (some (d, g)) =
        some (some id, m', sv') ∧ xs <+: x ∧
      x.length = (if mallocSize < size then size else mallocSize) ∧
      Enqueued m sv es id d x m' sv' := by
  have hnone : m.nodes.live id = none := Option.isNone_iff_eq_none.mp hid.1
  have hnot : id ∉ es.map Prod.fst := hq.not_mem hnone
  generalize hsize : (if mallocSize < size then size else mallocSize) = capacity
  have hle : size ≤ capacity := by
    rw [← hsize]
    split <;> omega
  have hxs : xs.length = size := load_length hload
  -- the data
  have hload' : (m.bytes.put d ((List.range capacity).map g)).load data size = some xs := by
    rw [load_congr, hload]
    exact CheckedHeap.cells_congr hne fun _ => CheckedHeap.put_live_of_ne
  obtain ⟨bytes, hbytes, hcontent, hother, hfreed⟩ :=
    @CheckedHeap.store_eq _ (m.bytes.put d ((List.range capacity).map g)) 0 (some d) _ xs
      CheckedHeap.put_live_self (by rw [List.length_map, List.length_range]; omega)
  -- the node
  obtain ⟨nodes, hnodes, hlive, hsame, hnfreed⟩ := @LinkedQueue.store_eq _
    (m.nodes.put id ((List.range 1).map f)) id (f 0)
    { value := { data := d, size := capacity }, next := none } CheckedHeap.put_live_self
  have hold : ∀ n, n ≠ id → nodes.live n = m.nodes.live n := fun n hn => by
    rw [hsame n hn, CheckedHeap.put_live_of_ne hn]
  have hq' : Queue nodes sv.head sv.tail es :=
    hq.congr fun k hk => hold k fun heq => hnot (heq ▸ hk)
  obtain ⟨nodes', hlink, hqueue, houtside, hsome, hvalue, hlfreed⟩ := hq'.push hlive hnot
  refine ⟨{ nodes := nodes', bytes := bytes }, { sv with
      head := if sv.tail.isNone then some id else sv.head
      tail := some id
      nodeSize := sv.nodeSize + 1 }, xs ++ ((List.range capacity).map g).drop size, ?_,
    List.prefix_append _ _, ?_, rfl, ?_, hid, hd, fun n hn hes => ?_, fun n => ?_, fun n hn => ?_,
    ?_, fun k hk => ?_, ?_, ?_⟩
  · rw [createAndPushMsgNodeAt, if_neg hdata]
    simp only [CheckedHeap.malloc, hsize, hload', hbytes, hnodes, hlink, Option.bind_some,
      Option.map_some]
  · rw [List.length_append, hxs, List.length_drop, List.length_map, List.length_range]
    omega
  · have hcap : (xs ++ ((List.range capacity).map g).drop size).length = capacity := by
      rw [List.length_append, hxs, List.length_drop, List.length_map, List.length_range]
      omega
    rw [hcap]
    exact hqueue
  · exact (houtside n hes).trans (hold n hn)
  · by_cases heq : n = id
    · subst heq
      rw [hsome, hlive]
      exact iff_of_true rfl (.inl rfl)
    · rw [hsome, hold n heq]
      exact (or_iff_right heq).symm
  · rw [hvalue, LinkedQueue.valueAt_congr (hold n hn)]
  · rw [← hxs]
    simpa using hcontent
  · rw [hother k fun heq => hk (Option.some.inj heq), CheckedHeap.put_live_of_ne hk]
  · rw [hlfreed, hnfreed, CheckedHeap.put_freed]
  · rw [hfreed, CheckedHeap.put_freed]

/-- Without data or memory no message is made. -/
theorem createAndPushMsgNodeAt_refused (hno : data = none ∨ node = none ∨ block = none)
    (hnode : ∀ p ∈ node, m.nodes.Fresh p.1) :
    ∃ m', createAndPushMsgNodeAt m sv data size mallocSize node block = some (none, m', sv) ∧
      Refused m sv m' sv := by
  by_cases hdata : data = none
  · exact ⟨m, by rw [createAndPushMsgNodeAt, if_pos hdata], rfl, rfl, rfl, .inl rfl⟩
  rcases node with _ | ⟨id, f⟩
  · refine ⟨m, ?_, rfl, rfl, rfl, .inl rfl⟩
    simp only [createAndPushMsgNodeAt, if_neg hdata, CheckedHeap.malloc]
  -- the node is released again
  obtain rfl : block = none := (hno.resolve_left hdata).resolve_left (Option.some_ne_none _)
  have hid : m.nodes.Fresh id := hnode _ rfl
  obtain ⟨nodes, hfree, hnone, hother, hfreed⟩ :=
    CheckedHeap.free_eq (@CheckedHeap.put_live_self _ m.nodes id ((List.range 1).map f))
  refine ⟨{ m with nodes := nodes }, ?_, rfl, rfl, funext fun n => ?_, .inr ⟨id, hid, hfreed⟩⟩
  · simp only [createAndPushMsgNodeAt, if_neg hdata, CheckedHeap.malloc, hfree, Option.map_some]
  · by_cases heq : n = id
    · rw [heq, hnone]
      exact (Option.isNone_iff_eq_none.mp hid.1).symm
    · rw [hother n heq, CheckedHeap.put_live_of_ne heq]

theorem createAndPushMsgNodeAt_cases (hq : Queue m.nodes sv.head sv.tail es)
    (hnode : ∀ p ∈ node, m.nodes.Fresh p.1)
    (hblock : ∀ p ∈ block, m.bytes.Fresh p.1 ∧ some p.1 ≠ data) {p : Option Nat}
    (ht : createAndPushMsgNodeAt m sv data size mallocSize node block = some (p, m', sv')) :
    p = none ∧ Refused m sv m' sv' ∨
      ∃ id g xs x, p = some id ∧ block = some g ∧ m.bytes.load data size = some xs ∧ xs <+: x ∧
        x.length = (if mallocSize < size then size else mallocSize) ∧
        Enqueued m sv es id g.1 x m' sv' := by
  by_cases hno : data = none ∨ node = none ∨ block = none
  · obtain ⟨m₁, heq, href⟩ := @createAndPushMsgNodeAt_refused m sv data size mallocSize node block
      hno hnode
    rw [heq] at ht
    cases ht
    exact .inl ⟨rfl, href⟩
  obtain ⟨hdata, hno⟩ := not_or.mp hno
  obtain ⟨hsome, hsome'⟩ := not_or.mp hno
  obtain ⟨⟨id, f⟩, rfl⟩ := Option.ne_none_iff_exists'.mp hsome
  obtain ⟨⟨d, g⟩, rfl⟩ := Option.ne_none_iff_exists'.mp hsome'
  obtain ⟨hd, hne⟩ := hblock _ rfl
  obtain ⟨xs, hload⟩ : ∃ xs, m.bytes.load data size = some xs := by
    have ht' := ht
    rw [createAndPushMsgNodeAt, if_neg hdata] at ht'
    simp only [CheckedHeap.malloc] at ht'
    obtain ⟨xs, hload, -⟩ := Option.bind_eq_some_iff.mp ht'
    rw [load_congr] at hload
    · exact ⟨xs, hload⟩
    · exact CheckedHeap.cells_congr hne fun _ => CheckedHeap.put_live_of_ne
  obtain ⟨m₁, sv₁, x, heq, hxs, hlen, henq⟩ := @createAndPushMsgNodeAt_eq m sv es id d data size
    mallocSize xs f g hq hdata (hnode _ rfl) hd hload hne
  rw [heq] at ht
  cases ht
  exact .inr ⟨id, _, xs, x, rfl, rfl, hload, hxs, hlen, henq⟩

namespace Enqueued

theorem live_node (h : Enqueued m sv es id d x m' sv') :
    ∃ next, m'.nodes.live id = some [{ value := { data := d, size := x.length }, next := next }] :=
  h.queue.path.live (List.mem_append_right _ (List.mem_singleton_self _))

/-- The data is written to. -/
theorem setContent (h : Enqueued m sv es id d x m' sv') {bytes : CheckedHeap UInt8}
    (hcontent : bytes.live d = some ys) (hlen : ys.length = x.length)
    (hother : ∀ k, k ≠ d → bytes.live k = m'.bytes.live k) (hfreed : bytes.freed = m'.bytes.freed) :
    Enqueued m sv es id d ys { m' with bytes := bytes } sv' where
  service := h.service
  queue := by
    rw [hlen]
    exact h.queue
  newNode := h.newNode
  newBlock := h.newBlock
  nodes := h.nodes
  live := h.live
  value := h.value
  content := hcontent
  bytes := fun k hk => (hother k hk).trans (h.bytes k hk)
  nodesFreed := h.nodesFreed
  bytesFreed := hfreed.trans h.bytesFreed

/-- The second part is copied behind the first, if there is room for it. -/
theorem copySecond_eq (h : Enqueued m sv es id d x m' sv')
    (hload : m.bytes.load data2 size2 = some ys) (hne : some d ≠ data2)
    (hfit : size + size2 ≤ x.length) :
    ∃ m₁, copySecond m' id size data2 size2 = some m₁ ∧
      Enqueued m sv es id d (x.take size ++ ys ++ x.drop (size + size2)) m₁ sv' := by
  have hys : ys.length = size2 := load_length hload
  obtain ⟨next, hnode⟩ := h.live_node
  have hload' : m'.bytes.load data2 size2 = some ys := by
    rw [load_congr (CheckedHeap.cells_congr hne h.bytes), hload]
  obtain ⟨bytes, hstore, hcontent, hother, hfreed⟩ :=
    @CheckedHeap.store_eq _ m'.bytes size (some d) x ys h.content (hys ▸ hfit)
  rw [hys] at hcontent
  by_cases hpos : 0 < size2
  · refine ⟨{ m' with bytes := bytes }, ?_, h.setContent hcontent ?_
      (fun k hk => hother k fun heq => hk (Option.some.inj heq)) hfreed⟩
    · rw [copySecond, if_pos hpos, LinkedQueue.node_eq hnode, Option.bind_some, hload',
        Option.bind_some, hstore, Option.map_some]
    · simp only [List.length_append, List.length_take, List.length_drop, hys]
      omega
  · obtain rfl : size2 = 0 := Nat.eq_zero_of_not_pos hpos
    obtain rfl : ys = [] := List.length_eq_zero_iff.mp hys
    refine ⟨m', if_neg hpos, ?_⟩
    rw [List.append_nil, Nat.add_zero, List.take_append_drop]
    exact h

/-- What is copied has been read, and there was room for it. -/
theorem of_copySecond (h : Enqueued m sv es id d x m' sv') (hne : some d ≠ data2)
    (hpos : 0 < size2) {m₁ : ServiceHeap} (ht : copySecond m' id size data2 size2 = some m₁) :
    (∃ ys, m.bytes.load data2 size2 = some ys) ∧ size + size2 ≤ x.length := by
  obtain ⟨next, hnode⟩ := h.live_node
  rw [copySecond, if_pos hpos, LinkedQueue.node_eq hnode, Option.bind_some] at ht
  obtain ⟨ys, hload, ht⟩ := Option.bind_eq_some_iff.mp ht
  obtain ⟨bytes, hstore, -⟩ := Option.map_eq_some_iff.mp ht
  obtain ⟨xs, hcells, hstore⟩ := Option.bind_eq_some_iff.mp hstore
  obtain rfl : x = xs := Option.some.inj (h.content.symm.trans hcells)
  split at hstore
  · rename_i hfit
    rw [load_length hload] at hfit
    rw [load_congr (CheckedHeap.cells_congr hne h.bytes)] at hload
    exact ⟨⟨ys, hload⟩, hfit⟩
  · cases hstore

/-- Once the second part is copied, the message is whole. -/
theorem whole (h : Enqueued m sv es id d (xs ++ x) m' sv') (hxs : xs.length = size)
    (hlen : (xs ++ x).length =
      if (size + size2) % 2 ^ 64 < size then size else (size + size2) % 2 ^ 64)
    (hne : some d ≠ data2) {m₁ : ServiceHeap}
    (hcopy : copySecond m' id size data2 size2 = some m₁) :
    Enqueued m sv es id d (xs ++ (m.bytes.load data2 size2).getD []) m₁ sv' := by
  have hmod := Nat.mod_le (size + size2) (2 ^ 64)
  rw [List.length_append, hxs] at hlen
  by_cases hpos : 0 < size2
  · obtain ⟨⟨ys, hload2⟩, hfit⟩ := h.of_copySecond hne hpos hcopy
    rw [List.length_append, hxs] at hfit
    have hrest : x.length = size2 := by
      split at hlen <;> omega
    have hcapacity : (xs ++ x).length = size + size2 := by
      rw [List.length_append, hxs, hrest]
    obtain ⟨m₂, hcopy', h'⟩ := h.copySecond_eq hload2 hne hcapacity.ge
    obtain rfl : m₂ = m₁ := Option.some.inj (hcopy'.symm.trans hcopy)
    rw [hload2, Option.getD_some]
    rw [List.take_left' hxs, List.drop_eq_nil_of_le hcapacity.le, List.append_nil] at h'
    exact h'
  · obtain rfl : size2 = 0 := Nat.eq_zero_of_not_pos hpos
    have hnil : (m.bytes.load data2 0).getD [] = [] := by
      cases hload2 : m.bytes.load data2 0 with
      | none => rfl
      | some ys => exact List.length_eq_zero_iff.mp (load_length hload2)
    have hrest : x.length = 0 := by
      split at hlen <;> omega
    rw [copySecond, if_neg hpos] at hcopy
    cases hcopy
    rw [hnil, ← List.length_eq_zero_iff.mp hrest]
    exact h

end Enqueued

/-- A message that can be read is queued as a whole. -/
theorem luaServicePushDataAt_eq (hq : Queue m.nodes sv.head sv.tail es) (hflag : sv.flag = false)
    (hstate : sv.state = true) (hdata : data ≠ none) (hload : m.bytes.load data size = some xs)
    (hload2 : m.bytes.load data2 size2 = some ys) (hfit : size + size2 < 2 ^ 64)
    (hid : m.nodes.Fresh id) (hd : m.bytes.Fresh d) :
    ∃ m₁ sv₁, Enqueued m sv es id d (xs ++ ys) m₁ sv₁ ∧
      luaServicePushDataAt m sv data size data2 size2 (some (id, f)) (some (d, g)) =
        (cleanSer m₁ sv₁).map fun c => (true, c.1, c.2) := by
  obtain ⟨m₁, sv₁, x, heq, ⟨rest, rfl⟩, hlen, henq⟩ := @createAndPushMsgNodeAt_eq m sv es id d data
    size ((size + size2) % 2 ^ 64) xs f g hq hdata hid hd hload (ne_of_load hd hload)
  have hxs : xs.length = size := load_length hload
  have hcapacity : (xs ++ rest).length = size + size2 := by
    rw [hlen, Nat.mod_eq_of_lt hfit, if_neg (by omega)]
  obtain ⟨m₂, hcopy, henq'⟩ := henq.copySecond_eq hload2 (ne_of_load hd hload2) hcapacity.ge
  rw [List.take_left' hxs, List.drop_eq_nil_of_le hcapacity.le, List.append_nil] at henq'
  refine ⟨m₂, sv₁, henq', ?_⟩
  rw [luaServicePushDataAt, if_neg (Bool.eq_false_iff.mp hflag),
    if_neg (Bool.eq_false_iff.not_left.mpr hstate), heq, Option.bind_some]
  simp only [hcopy, Option.bind_some]

/-- A message is refused, or queued as a whole. -/
theorem luaServicePushDataAt_cases (hq : Queue m.nodes sv.head sv.tail es)
    (hnode : ∀ p ∈ node, m.nodes.Fresh p.1)
    (hblock : ∀ p ∈ block, m.bytes.Fresh p.1 ∧ some p.1 ≠ data ∧ some p.1 ≠ data2) {ok : Bool}
    (ht : luaServicePushDataAt m sv data size data2 size2 node block = some (ok, m', sv')) :
    sv.flag = false ∧
      (ok = false ∧ Refused m sv m' sv' ∨ ok = true ∧ sv.state = true ∧ ∃ id d m₁ sv₁,
        Enqueued m sv es id d
          ((m.bytes.load data size).getD [] ++ (m.bytes.load data2 size2).getD []) m₁ sv₁ ∧
        cleanSer m₁ sv₁ = some (m', sv')) := by
  rw [luaServicePushDataAt] at ht
  by_cases hflag : sv.flag = true
  · rw [if_pos hflag] at ht
    cases ht
  rw [if_neg hflag] at ht
  refine ⟨Bool.eq_false_of_not_eq_true hflag, ?_⟩
  by_cases hstate : sv.state = false
  · rw [if_pos hstate] at ht
    cases ht
    exact .inl ⟨rfl, rfl, rfl, rfl, .inl rfl⟩
  rw [if_neg hstate] at ht
  obtain ⟨⟨p, m₁, sv₁⟩, hcreate, ht⟩ := Option.bind_eq_some_iff.mp ht
  rcases createAndPushMsgNodeAt_cases hq hnode (fun p hp => ⟨(hblock p hp).1, (hblock p hp).2.1⟩)
    hcreate with ⟨rfl, hrefused⟩ | ⟨id, g, xs, x, rfl, hg, hload, hprefix, hlen, henq⟩
  · cases ht
    exact .inl ⟨rfl, hrefused⟩
  obtain ⟨m₂, hcopy, ht⟩ := Option.bind_eq_some_iff.mp ht
  obtain ⟨⟨m₃, sv₃⟩, hclean, heq⟩ := Option.map_eq_some_iff.mp ht
  cases heq
  obtain ⟨rest, rfl⟩ := hprefix
  refine .inr ⟨rfl, Bool.eq_true_of_not_eq_false hstate, id, g.1, m₂, sv₁, ?_, hclean⟩
  rw [hload, Option.getD_some]
  exact henq.whole (load_length hload) hlen (hblock g hg).2.2 hcopy

end Push

/-! ## Popping -/

/-- The first message has left the queue, and its node and data are released. -/
structure Dequeued (m : ServiceHeap) (sv : LuaServiceAt) (id : Nat) (v : MsgData)
    (es : List (Nat × MsgData)) (m' : ServiceHeap) (sv' : LuaServiceAt) : Prop where
  service : sv'.ser = sv.ser ∧ sv'.flag = sv.flag ∧ sv'.state = sv.state ∧
    sv'.nodeSize = sv.nodeSize - 1
  queue : Queue m'.nodes sv'.head sv'.tail es
  node : (m.nodes.live id).isSome ∧ m'.nodes.live id = none
  nodes : ∀ n, n ≠ id → m'.nodes.live n = m.nodes.live n
  block : (m.bytes.live v.data).isSome ∧ m'.bytes.live v.data = none
  bytes : ∀ k, k ≠ v.data → m'.bytes.live k = m.bytes.live k
  nodesFreed : m'.nodes.freed = id :: m.nodes.freed
  bytesFreed : m'.bytes.freed = v.data :: m.bytes.freed

section Pop

variable {m m' : ServiceHeap} {sv : LuaServiceAt} {es : List (Nat × MsgData)} {id : Nat}
variable {v : MsgData} {x : List UInt8} {L : LuaState} {behind : Nat → List UInt8} {r : PopEndAt}

/-- A message in use can be released. -/
theorem dequeue_eq (hq : Queue m.nodes sv.head sv.tail ((id, v) :: es))
    (hlive : m.bytes.live v.data = some x) :
    ∃ next nodes bytes, sv.head = some id ∧
      LinkedQueue.node m.nodes sv.head = some { value := v, next := next } ∧
      m.bytes.free (some v.data) = some bytes ∧ m.nodes.free sv.head = some nodes ∧
      Queue m.nodes next (if sv.head = sv.tail then none else sv.tail) es ∧
      Dequeued m sv id v es { nodes := nodes, bytes := bytes } { sv with
        head := next
        tail := if sv.head = sv.tail then none else sv.tail
        nodeSize := sv.nodeSize - 1 } := by
  obtain ⟨next, hhead, hnode, hnot, hrest⟩ := hq.pop
  obtain ⟨nodes, hfree, hnone, hother, hfreed⟩ := CheckedHeap.free_eq hnode
  obtain ⟨bytes, hbfree, hbnone, hbother, hbfreed⟩ := CheckedHeap.free_eq hlive
  refine ⟨next, nodes, bytes, hhead, ?_, hbfree, ?_, hrest, ⟨rfl, rfl, rfl, rfl⟩,
    hrest.congr fun k hk => hother k fun heq => hnot (heq ▸ hk),
    ⟨by rw [hnode]; rfl, hnone⟩, hother, ⟨by rw [hlive]; rfl, hbnone⟩, hbother, hfreed, hbfreed⟩
  · rw [hhead, LinkedQueue.node_eq hnode]
  · rw [hhead, hfree]

theorem messageInput_eq (hlive : m.bytes.live v.data = some x) (hsize : x.length = v.size)
    (behind : List UInt8) : messageInput m v behind = some (msgNode x [] behind) := by
  rw [messageInput, hlive, Option.bind_some, dif_pos (Nat.le_of_eq hsize.symm)]
  simp only [msgNode, List.append_nil, List.length_nil, Nat.add_zero, hsize]

/-- A service that is stopped or has no message is left as it is. -/
theorem luaServicePopMsgAt_idle (hq : Queue m.nodes sv.head sv.tail es) (hflag : sv.flag = false)
    (hidle : sv.state = false ∨ es = []) :
    luaServicePopMsgAt m sv L behind =
      some { heap := m, service := sv, lua := L, values := [], raised := false } := by
  rw [luaServicePopMsgAt, if_neg (Bool.eq_false_iff.mp hflag),
    if_pos (hidle.imp_right hq.head_eq_none_iff.mpr)]

/-- Otherwise the first message is unpacked and released. -/
theorem luaServicePopMsgAt_eq (hq : Queue m.nodes sv.head sv.tail ((id, v) :: es))
    (hlive : m.bytes.live v.data = some x) (hsize : x.length = v.size) (hflag : sv.flag = false)
    (hstate : sv.state = true) :
    ∃ next m' sv', Dequeued m sv id v es m' sv' ∧
      Queue m.nodes next (if sv.head = sv.tail then none else sv.tail) es ∧
      luaServicePopMsgAt m sv L behind = afterUnpack
        (fun lua values => some
          { heap := m', service := sv', lua := lua, values := values, raised := false })
        (fun lua =>
          { heap := m
            service := { sv with
              flag := true
              head := next
              tail := if sv.head = sv.tail then none else sv.tail }
            lua := lua, values := [], raised := true })
        (deserializeUnpack (msgNode x [] (behind v.data)) (-1) L) := by
  obtain ⟨next, nodes, bytes, hhead, hnode, hbytes, hnodes, hrest, hdeq⟩ := dequeue_eq hq hlive
  refine ⟨next, _, _, hdeq, hrest, ?_⟩
  have hidle : ¬ (sv.state = false ∨ sv.head = none) := by
    rw [hstate, hhead]
    simp
  rw [luaServicePopMsgAt, if_neg (Bool.eq_false_iff.mp hflag), if_neg hidle, hnode]
  simp only [Option.bind_some, messageInput_eq hlive hsize, hbytes, hnodes, Option.map_some]
  cases sv
  cases hflag
  rfl

/-- A pop leaves the service as it is, releases the first message, or ends with a Lua error
that leaves the lock taken. -/
theorem luaServicePopMsgAt_cases (hq : Queue m.nodes sv.head sv.tail es)
    (hdata : ∀ e ∈ es, ∃ x, m.bytes.live e.2.data = some x ∧ x.length = e.2.size)
    (hpop : luaServicePopMsgAt m sv L behind = some r) :
    sv.flag = false ∧
      (r.heap = m ∧ r.service = sv ∧ r.raised = false ∧ (sv.state = false ∨ es = []) ∨
        sv.state = true ∧ ∃ id v rest, es = (id, v) :: rest ∧
          (r.raised = false ∧ Dequeued m sv id v rest r.heap r.service ∨
            r.raised = true ∧ r.heap = m ∧ ∃ next tail, Queue m.nodes next tail rest ∧
              r.service = { sv with flag := true, head := next, tail := tail })) := by
  have hflag : sv.flag = false := by
    by_contra hne
    rw [luaServicePopMsgAt, if_pos (Bool.eq_true_of_not_eq_false hne)] at hpop
    cases hpop
  refine ⟨hflag, ?_⟩
  by_cases hidle : sv.state = false ∨ es = []
  · rw [luaServicePopMsgAt_idle hq hflag hidle, Option.some.injEq] at hpop
    subst hpop
    exact .inl ⟨rfl, rfl, rfl, hidle⟩
  obtain ⟨hstate, hne⟩ := not_or.mp hidle
  have hstate := Bool.eq_true_of_not_eq_false hstate
  obtain ⟨⟨id, v⟩, rest, rfl⟩ := List.exists_cons_of_ne_nil hne
  obtain ⟨x, hlive, hlen⟩ := hdata (id, v) List.mem_cons_self
  obtain ⟨next, m', sv', hdeq, hrest, heq⟩ :=
    @luaServicePopMsgAt_eq m sv rest id v x L behind hq hlive hlen hflag hstate
  refine .inr ⟨hstate, id, v, rest, rfl, ?_⟩
  rw [heq] at hpop
  cases hrun : deserializeUnpack (msgNode x [] (behind v.data)) (-1) L with
  | ok values d =>
      rw [hrun] at hpop
      cases hpop
      exact .inl ⟨rfl, hdeq⟩
  | error e d =>
      rw [hrun] at hpop
      cases e with
      | error code info =>
          cases hpop
          exact .inl ⟨rfl, hdeq⟩
      | luaError =>
          cases hpop
          exact .inr ⟨rfl, rfl, next, _, hrest, rfl⟩
      | segfault => cases hpop
      | stackOverflow => cases hpop
      | fuel => cases hpop

end Pop

end RandServer
