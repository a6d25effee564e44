import RandServer.Lib.Custody
import RandServer.Lua.ServiceCalls

/-!
# The memory of the services

Every node and every block of bytes in use has one owner, whatever the threads do to the
services and in which order. A service has the block it was created with, the block that its
serializer has moved to and the nodes in its queue, and a node has its data. What Lua errors and
failed calls of `lua_service_run` leave behind stays in use. Blocks are released once, and when
the last service has been joined nothing else is left.
-/

namespace RandServer

open LinkedQueue (Queue valueAt)

namespace Services

/-- Who has a node. -/
inductive NodeOwner
  | queue (k : Nat)
  | lost

def NodeHeld (es : Nat → List (Nat × MsgData)) (lost : List Nat) (n : Nat) : NodeOwner → Prop
  | .queue k => n ∈ (es k).map Prod.fst
  | .lost => n ∈ lost

/-- Who has a block of bytes. -/
inductive ByteOwner
  | own (k : Nat)
  | grown (k : Nat)
  | message (n : Nat)
  | outside

def ByteHeld (s : Services) (d : Nat) : ByteOwner → Prop
  | .own k => ∃ sv, s.service k = some sv ∧ sv.ser.initBuff = some d
  | .grown k => ∃ sv, s.service k = some sv ∧ Grown sv.ser d
  | .message n => ∃ v, valueAt s.heap.nodes n = some v ∧ v.data = d
  | .outside => d ∈ s.outside

/-- `es k` are the messages in the queue of service `k`. -/
structure Inv (es : Nat → List (Nat × MsgData)) (s : Services) : Prop where
  idle : ∀ k, s.service k = none → es k = []
  queue : ∀ k sv, s.service k = some sv → Queue s.heap.nodes sv.head sv.tail (es k)
  count : ∀ k sv, s.service k = some sv →
    sv.nodeSize = (es k).length + if sv.flag then 1 else 0
  ser : ∀ k sv, s.service k = some sv →
    (∃ d, sv.ser.initBuff = some d) ∧ Stands sv.ser s.heap.bytes (s.packed k)
  data : ∀ k, ∀ e ∈ es k, ∃ x, s.heap.bytes.live e.2.data = some x ∧ x.length = e.2.size
  nodes : Exclusive (NodeHeld es s.lost) fun n => (s.heap.nodes.live n).isSome
  bytes : Exclusive s.ByteHeld fun d => (s.heap.bytes.live d).isSome
  nodesOnce : s.heap.nodes.FreedOnce
  bytesOnce : s.heap.bytes.FreedOnce

/-- The bytes of a message. -/
def content (m : ServiceHeap) (e : Nat × MsgData) : List UInt8 :=
  (m.bytes.live e.2.data).getD []

/-- What a service has accepted has been removed, or is in its queue. -/
def Logged (es : Nat → List (Nat × MsgData)) (s : Services) : Prop :=
  ∀ k sv, s.service k = some sv → s.accepted k = s.taken k ++ (es k).map (content s.heap)

variable {es : Nat → List (Nat × MsgData)} {s t : Services} {k k' d id : Nat}
variable {sv sv' : LuaServiceAt} {m : ServiceHeap} {o : ByteOwner} {v : MsgData}
variable {x out : List UInt8} {rest : List (Nat × MsgData)}

/-- What holds of the changed service and of the others. -/
theorem forall_update {α : Type} {f : Nat → Option α} {a : α} {P : Nat → α → Prop} (hk : P k a)
    (hother : ∀ k' a', k' ≠ k → f k' = some a' → P k' a') :
    ∀ k' a', Function.update f k (some a) k' = some a' → P k' a' := by
  intro k' a' ha'
  by_cases heq : k' = k
  · subst heq
    rw [Function.update_self, Option.some.injEq] at ha'
    exact ha' ▸ hk
  · rw [Function.update_of_ne heq] at ha'
    exact hother k' a' heq ha'

theorem of_update_eq_none {α : Type} {f : Nat → Option α} {a : α}
    (hnone : Function.update f k (some a) k' = none) : k' ≠ k ∧ f k' = none := by
  by_cases heq : k' = k
  · subst heq
    rw [Function.update_self] at hnone
    cases hnone
  · rw [Function.update_of_ne heq] at hnone
    exact ⟨heq, hnone⟩

theorem put_same (hk : s.service k = some sv) : s.put k s.heap sv = s := by
  rw [put, Function.update_eq_self_iff.mpr hk.symm]

theorem put_put {m' : ServiceHeap} : (s.put k m sv).put k m' sv' = s.put k m' sv' := by
  simp only [put, Function.update_idem]

/-- Only the queue of service `k` changes. -/
theorem nodeHeld_update {l : List (Nat × MsgData)} {lost : List Nat} {n : Nat} {o : NodeOwner}
    (hne : o ≠ .queue k) :
    NodeHeld (Function.update es k l) lost n o ↔ NodeHeld es lost n o := by
  cases o with
  | queue k' =>
      have hne : k' ≠ k := fun heq => hne (congrArg _ heq)
      simp only [NodeHeld, Function.update_of_ne hne]
  | lost => exact Iff.rfl

/-- A call on a service may change what its serializer has moved to, and the messages. -/
theorem byteHeld_put (hk : s.service k = some sv) (hinit : sv'.ser.initBuff = sv.ser.initBuff)
    (hgrown : o = .grown k → sv'.ser.data = sv.ser.data)
    (hvalue : ∀ n, o = .message n → valueAt m.nodes n = valueAt s.heap.nodes n) :
    (s.put k m sv').ByteHeld d o ↔ s.ByteHeld d o := by
  cases o with
  | own k' =>
      by_cases heq : k' = k
      · simp only [ByteHeld, put, heq, Function.update_self, hk, Option.some.injEq,
          exists_eq_left', hinit]
      · simp only [ByteHeld, put, Function.update_of_ne heq]
  | grown k' =>
      by_cases heq : k' = k
      · simp only [ByteHeld, put, heq, Function.update_self, hk, Option.some.injEq,
          exists_eq_left', Grown, hinit, hgrown (congrArg _ heq)]
      · simp only [ByteHeld, put, Function.update_of_ne heq]
  | message n => simp only [ByteHeld, put, hvalue n rfl]
  | outside => exact Iff.rfl

namespace Inv

/-! ## What belongs to whom -/

theorem live_of_held (h : Inv es s) (hd : s.ByteHeld d o) : ∃ x, s.heap.bytes.live d = some x :=
  Option.isSome_iff_exists.mp (h.bytes.out_of hd)

/-- A new block is nobody's. -/
theorem ne_of_fresh (h : Inv es s) (hid : s.heap.bytes.Fresh id) (hd : s.ByteHeld d o) :
    d ≠ id := by
  rintro rfl
  obtain ⟨y, hlive⟩ := h.live_of_held hd
  rw [Option.isNone_iff_eq_none.mp hid.1] at hlive
  cases hlive

/-- A service and a message have their blocks. -/
theorem held_own (hk : s.service k = some sv) (hd : sv.ser.initBuff = some d) :
    s.ByteHeld d (.own k) := ⟨sv, hk, hd⟩

theorem held_data (h : Inv es s) {e : Nat × MsgData} (he : e ∈ es k) :
    s.ByteHeld e.2.data (.message e.1) := by
  cases hk : s.service k with
  | none =>
      rw [h.idle k hk] at he
      exact absurd he List.not_mem_nil
  | some sv =>
      obtain ⟨next, hlive⟩ := (h.queue k sv hk).path.live he
      exact ⟨e.2, LinkedQueue.valueAt_eq hlive, rfl⟩

theorem node_live (h : Inv es s) {n : Nat} (hn : n ∈ (es k).map Prod.fst) :
    (s.heap.nodes.live n).isSome :=
  h.nodes.out_of (show NodeHeld es s.lost n (.queue k) from hn)

/-- The first message of a queue is in no other place. -/
theorem ne_of_rest (h : Inv es s) (hk : s.service k = some sv) (hes : es k = (id, v) :: rest)
    {e : Nat × MsgData} (he : e ∈ Function.update es k rest k') : e.1 ≠ id := by
  have hheld : NodeHeld es s.lost id (.queue k) := by
    simp only [NodeHeld, hes, List.map_cons, List.mem_cons, true_or]
  by_cases heq : k' = k
  · have hq := h.queue k sv hk
    rw [hes] at hq
    obtain ⟨-, -, -, hnot, -⟩ := hq.pop
    rw [heq, Function.update_self] at he
    rintro rfl
    exact hnot (List.mem_map_of_mem he)
  · rw [Function.update_of_ne heq] at he
    rintro rfl
    exact h.nodes.not_holds hheld (fun hqueue => heq (NodeOwner.queue.inj hqueue).symm)
      (show NodeHeld es s.lost e.1 (.queue k') from List.mem_map_of_mem he)

theorem mem_of_rest (hes : es k = (id, v) :: rest) {e : Nat × MsgData}
    (he : e ∈ Function.update es k rest k') : e ∈ es k' := by
  by_cases heq : k' = k
  · rw [heq, Function.update_self] at he
    rw [heq, hes]
    exact List.mem_cons_of_mem _ he
  · rwa [Function.update_of_ne heq] at he

/-- The serializer of a service stands if its blocks are left alone. -/
theorem stands (h : Inv es s) {bytes : CheckedHeap UInt8} (hk : s.service k = some sv)
    (hown : ∀ d, s.ByteHeld d (.own k) → bytes.live d = s.heap.bytes.live d)
    (hgrown : ∀ d, s.ByteHeld d (.grown k) → bytes.live d = s.heap.bytes.live d) :
    Stands sv.ser bytes (s.packed k) := by
  obtain ⟨⟨d, hd⟩, hstands⟩ := h.ser k sv hk
  have hinit : bytes.cells sv.ser.initBuff = s.heap.bytes.cells sv.ser.initBuff := by
    rw [hd]
    exact hown d (held_own hk hd)
  refine hstands.congr hinit ?_
  obtain heq | ⟨d', hd', -⟩ := hstands.place
  · rw [heq]
    exact hinit
  · rw [hd'.1]
    exact hgrown d' ⟨sv, hk, hd'⟩

/-- The serializers stand if at most messages change. -/
theorem ser_put (h : Inv es s) (hk : s.service k = some sv) (hser : sv'.ser = sv.ser)
    {bytes : CheckedHeap UInt8} (hsame : ∀ d o, (∀ n, o ≠ .message n) → s.ByteHeld d o →
      bytes.live d = s.heap.bytes.live d) :
    ∀ k' sv₁, Function.update s.service k (some sv') k' = some sv₁ →
      (∃ d, sv₁.ser.initBuff = some d) ∧ Stands sv₁.ser bytes (s.packed k') := by
  have hold : ∀ k' sv₁, s.service k' = some sv₁ →
      (∃ d, sv₁.ser.initBuff = some d) ∧ Stands sv₁.ser bytes (s.packed k') := fun k' sv₁ hk' =>
    ⟨(h.ser k' sv₁ hk').1, h.stands hk' (fun d => hsame d _ fun _ => ByteOwner.noConfusion)
      fun d => hsame d _ fun _ => ByteOwner.noConfusion⟩
  refine forall_update ?_ fun k' sv₁ _ => hold k' sv₁
  rw [hser]
  exact hold k sv hk

/-- A call on one serializer. -/
theorem serCall (h : Inv es s) (hk : s.service k = some sv) {c : SerializeBuff.State}
    {heap₀ : CheckedHeap UInt8}
    (hs : SerializeBuff.State.Holds heap₀ { ser := sv.ser, heap := s.heap.bytes } (s.packed k))
    (hc : c.Holds heap₀ out) (hinit : c.ser.initBuff = sv.ser.initBuff) :
    Inv es (s.putSer k sv c out) ∧ ∀ d o, o ≠ .own k → o ≠ .grown k → s.ByteHeld d o →
      c.heap.live d = s.heap.bytes.live d := by
  obtain ⟨⟨d₀, hd₀⟩, -⟩ := h.ser k sv hk
  have hunchanged : ∀ d o, o ≠ .own k → o ≠ .grown k → s.ByteHeld d o →
      c.heap.live d = s.heap.bytes.live d := by
    intro d o hown hgrown hd
    refine Stands.unchanged hs hc hinit (h.bytes.out_of hd) (fun heq => ?_) fun hg => ?_
    · exact h.bytes.not_holds hd hown (held_own hk heq.symm)
    · exact h.bytes.not_holds hd hgrown ⟨sv, hk, hg⟩
  have hgrown : ∀ d, (s.putSer k sv c out).ByteHeld d (.grown k) ↔ Grown c.ser d := by
    intro d
    simp only [ByteHeld, putSer, put, Function.update_self, Option.some.injEq, exists_eq_left']
  have hgrown₀ : ∀ d, s.ByteHeld d (.grown k) ↔ Grown sv.ser d := by
    intro d
    simp only [ByteHeld, hk, Option.some.injEq, exists_eq_left']
  refine ⟨⟨fun k' hnone => h.idle k' (of_update_eq_none hnone).2,
    forall_update (h.queue k sv hk) fun k' sv' _ => h.queue k' sv',
    forall_update (h.count k sv hk) fun k' sv' _ => h.count k' sv', ?_, fun k' e he => ?_,
    h.nodes, ?_, h.nodesOnce, hc.freedOnce⟩, hunchanged⟩
  · refine forall_update ⟨⟨d₀, hinit.trans hd₀⟩, ?_⟩ fun k' sv' hne hk' => ?_
    · simp only [putSer, Function.update_self]
      exact .of_holds hc
    · simp only [putSer, Function.update_of_ne hne]
      refine ⟨(h.ser k' sv' hk').1, h.stands hk' (fun d hd => ?_) fun d hd => ?_⟩
      · exact hunchanged d _ (fun heq => hne (ByteOwner.own.inj heq)) ByteOwner.noConfusion hd
      · exact hunchanged d _ ByteOwner.noConfusion (fun heq => hne (ByteOwner.grown.inj heq)) hd
  · obtain ⟨x, hlive, hlen⟩ := h.data k' e he
    have hsame := hunchanged _ _ ByteOwner.noConfusion ByteOwner.noConfusion (h.held_data he)
    exact ⟨x, hsame.trans hlive, hlen⟩
  · refine @Exclusive.exchange _ _ _ _ _ _ (.grown k) h.bytes
      (fun d o hne => byteHeld_put hk hinit (fun heq => absurd heq hne) fun n _ => rfl)
      (fun d hd => ?_) fun d => ?_
    · rw [hgrown] at hd
      refine or_iff_not_imp_left.mpr fun hnot hlive => ?_
      rw [hgrown₀] at hnot
      have hne : some d ≠ sv.ser.initBuff := fun heq => hd.2 (hd.1.trans (heq.trans hinit.symm))
      have hold := ((Stands.live_iff hs hne).mp hlive).resolve_left hnot
      rw [Stands.new_of_grown hc hd] at hold
      cases hold
    · rw [hgrown, hgrown₀]
      by_cases heq : some d = sv.ser.initBuff
      · -- the first block stays
        obtain ⟨xs, hxs, -⟩ := hc.init
        obtain ⟨ys, hys, -⟩ := hs.init
        rw [hinit, ← heq] at hxs
        rw [← heq] at hys
        refine iff_of_true (Option.isSome_iff_exists.mpr ⟨xs, hxs⟩)
          (.inr ⟨Option.isSome_iff_exists.mpr ⟨ys, hys⟩, fun hg => ?_⟩)
        exact hg.2 (hg.1.trans heq)
      · rw [Stands.live_iff hs heq]
        refine (Stands.live_iff hc (hinit.symm ▸ heq)).trans
          (or_congr_right ⟨fun hold => ⟨.inr hold, fun hg => ?_⟩,
            fun hor => hor.1.resolve_left hor.2⟩)
        rw [Stands.new_of_grown hs hg] at hold
        cases hold

/-! ## Queueing -/

theorem enqueued_same (h : Inv es s) (henq : Enqueued s.heap sv rest id d x m sv') {d' : Nat}
    (hd' : s.ByteHeld d' o) : m.bytes.live d' = s.heap.bytes.live d' :=
  henq.bytes d' (h.ne_of_fresh henq.newBlock hd')

theorem enqueued_nodes (h : Inv es s) (henq : Enqueued s.heap sv (es k) id d x m sv')
    (v : MsgData) :
    Exclusive (NodeHeld (Function.update es k (es k ++ [(id, v)])) s.lost)
      fun n => (m.nodes.live n).isSome := by
  have hid : s.heap.nodes.live id = none := Option.isNone_iff_eq_none.mp henq.newNode.1
  refine @Exclusive.exchange _ _ _ _ _ _ (.queue k) h.nodes (fun n o => nodeHeld_update)
    (fun n hn => ?_) fun n => ?_
  · simp only [NodeHeld, Function.update_self, List.map_append, List.map_singleton,
      List.mem_append, List.mem_singleton] at hn ⊢
    refine hn.imp_right fun heq => ?_
    rw [heq, hid]
    exact Bool.false_ne_true
  · simp only [NodeHeld, Function.update_self, List.map_append, List.map_singleton,
      List.mem_append, List.mem_singleton, henq.live]
    have hmem : n ∈ (es k).map Prod.fst → (s.heap.nodes.live n).isSome := h.node_live
    tauto

theorem enqueued_bytes (h : Inv es s) (hk : s.service k = some sv)
    (henq : Enqueued s.heap sv rest id d x m sv') :
    Exclusive (s.put k m sv').ByteHeld fun d => (m.bytes.live d).isSome := by
  have hid : s.heap.nodes.live id = none := Option.isNone_iff_eq_none.mp henq.newNode.1
  have hd : s.heap.bytes.live d = none := Option.isNone_iff_eq_none.mp henq.newBlock.1
  have hser : sv'.ser = sv.ser := by rw [henq.service]
  have hmessage : ∀ d', (s.put k m sv').ByteHeld d' (.message id) ↔ d' = d := by
    obtain ⟨next, hlive⟩ := henq.live_node
    intro d'
    simp only [ByteHeld, put, LinkedQueue.valueAt_eq hlive, Option.some.injEq, exists_eq_left']
    exact eq_comm
  have hmessage₀ : ∀ d', ¬ s.ByteHeld d' (.message id) := by
    rintro d' ⟨v, hv, -⟩
    rw [LinkedQueue.valueAt_eq_none hid] at hv
    cases hv
  refine @Exclusive.exchange _ _ _ _ _ _ (.message id) h.bytes (fun d' o hne => ?_)
    (fun d' hd' => ?_) fun d' => ?_
  · refine byteHeld_put hk (by rw [hser]) (fun _ => by rw [hser]) fun n hn => ?_
    exact henq.value n fun heq => hne (hn.trans (congrArg _ heq))
  · rw [(hmessage d').mp hd', hd]
    exact .inr Bool.false_ne_true
  · rw [hmessage]
    by_cases heq : d' = d
    · rw [heq]
      exact iff_of_true (Option.isSome_iff_exists.mpr ⟨x, henq.content⟩) (.inl rfl)
    · simp only [henq.bytes d' heq, heq, hmessage₀, false_or, not_false_iff, and_true]

/-- A message is queued. -/
theorem enqueue (h : Inv es s) (hk : s.service k = some sv)
    (henq : Enqueued s.heap sv (es k) id d x m sv') :
    Inv (Function.update es k (es k ++ [(id, { data := d, size := x.length })]))
      (s.put k m sv') := by
  have hnew : ∀ k' n, n ∈ (es k').map Prod.fst → n ≠ id := by
    rintro k' n hn rfl
    have hlive := h.node_live hn
    rw [Option.isNone_iff_eq_none.mp henq.newNode.1] at hlive
    cases hlive
  refine ⟨fun k' hnone => ?_, ?_, ?_, h.ser_put hk (by rw [henq.service])
    fun d' o _ => h.enqueued_same henq, fun k' e he => ?_, h.enqueued_nodes henq _,
    h.enqueued_bytes hk henq, ?_, ?_⟩
  · obtain ⟨hne, hnone⟩ := of_update_eq_none hnone
    rw [Function.update_of_ne hne]
    exact h.idle k' hnone
  · refine forall_update ?_ fun k' sv' hne hk' => ?_
    · rw [Function.update_self]
      exact henq.queue
    · rw [Function.update_of_ne hne]
      refine (h.queue k' sv' hk').congr fun n hn => henq.nodes n (hnew k' n hn) fun hmem => ?_
      have hheld : NodeHeld es s.lost n (.queue k') := hn
      exact h.nodes.not_holds hheld (fun heq => hne (NodeOwner.queue.inj heq))
        (show NodeHeld es s.lost n (.queue k) from hmem)
  · refine forall_update ?_ fun k' sv' hne hk' => ?_
    · rw [Function.update_self, congrArg LuaServiceAt.nodeSize henq.service,
        congrArg LuaServiceAt.flag henq.service, List.length_append, List.length_singleton]
      have hcount := h.count k sv hk
      push_cast
      omega
    · rw [Function.update_of_ne hne]
      exact h.count k' sv' hk'
  · have hold : ∀ k', ∀ e ∈ es k', ∃ x, m.bytes.live e.2.data = some x ∧ x.length = e.2.size := by
      intro k' e he
      obtain ⟨y, hlive, hlen⟩ := h.data k' e he
      exact ⟨y, (h.enqueued_same henq (h.held_data he)).trans hlive, hlen⟩
    by_cases heq : k' = k
    · rw [heq, Function.update_self, List.mem_append, List.mem_singleton] at he
      rcases he with he | rfl
      · exact hold k e he
      · exact ⟨x, henq.content, rfl⟩
    · rw [Function.update_of_ne heq] at he
      exact hold k' e he
  · refine h.nodesOnce.of_live henq.nodesFreed fun n hn => ?_
    have hdead := h.nodesOnce.dead n hn
    have hnot : ¬ (m.nodes.live n).isSome := by
      rw [henq.live, hdead]
      rintro (rfl | hlive)
      · exact henq.newNode.2 hn
      · cases hlive
    rw [hdead]
    exact Option.not_isSome_iff_eq_none.mp hnot
  · refine h.bytesOnce.of_live henq.bytesFreed fun d' hd' => henq.bytes d' ?_
    rintro rfl
    exact henq.newBlock.2 hd'

/-! ## Releasing -/

/-- A message that is released has its block to itself. -/
theorem dequeued_same (h : Inv es s) (hes : es k = (id, v) :: rest)
    (hdeq : Dequeued s.heap sv id v rest m sv') (hne : o ≠ .message id) (hd : s.ByteHeld d o) :
    m.bytes.live d = s.heap.bytes.live d := by
  have hdata : s.ByteHeld v.data (.message id) := h.held_data (hes ▸ List.mem_cons_self)
  refine hdeq.bytes d ?_
  rintro rfl
  exact h.bytes.not_holds hd hne hdata

theorem dequeued_nodes (h : Inv es s) (hk : s.service k = some sv)
    (hes : es k = (id, v) :: rest) (hdeq : Dequeued s.heap sv id v rest m sv') :
    Exclusive (NodeHeld (Function.update es k rest) s.lost) fun n => (m.nodes.live n).isSome := by
  have hq := h.queue k sv hk
  rw [hes] at hq
  obtain ⟨-, -, -, hnot, -⟩ := hq.pop
  refine @Exclusive.exchange _ _ _ _ _ _ (.queue k) h.nodes (fun n o => nodeHeld_update)
    (fun n hn => ?_) fun n => ?_
  · simp only [NodeHeld, Function.update_self, hes, List.map_cons, List.mem_cons] at hn ⊢
    exact .inl (.inr hn)
  · have hmem : n ∈ rest.map Prod.fst → (s.heap.nodes.live n).isSome := by
      intro hn
      refine h.node_live (k := k) ?_
      rw [hes, List.map_cons]
      exact List.mem_cons_of_mem _ hn
    simp only [NodeHeld, Function.update_self, hes, List.map_cons, List.mem_cons]
    by_cases heq : n = id
    · subst heq
      rw [hdeq.node.2]
      simp only [Option.isSome_none, Bool.false_eq_true, hnot, not_true, and_false, or_false]
    · rw [hdeq.nodes n heq]
      tauto

theorem dequeued_bytes (h : Inv es s) (hk : s.service k = some sv)
    (hes : es k = (id, v) :: rest) (hdeq : Dequeued s.heap sv id v rest m sv') :
    Exclusive (s.put k m sv').ByteHeld fun d => (m.bytes.live d).isSome := by
  have hq := h.queue k sv hk
  rw [hes] at hq
  obtain ⟨next, -, hnode, -⟩ := hq.pop
  have hser := hdeq.service.1
  have hmessage₀ : ∀ d, s.ByteHeld d (.message id) ↔ d = v.data := by
    intro d
    simp only [ByteHeld, LinkedQueue.valueAt_eq hnode, Option.some.injEq, exists_eq_left']
    exact eq_comm
  have hmessage : ∀ d, ¬ (s.put k m sv').ByteHeld d (.message id) := by
    rintro d ⟨w, hw, -⟩
    rw [put, LinkedQueue.valueAt_eq_none hdeq.node.2] at hw
    cases hw
  refine @Exclusive.exchange _ _ _ _ _ _ (.message id) h.bytes (fun d o hne => ?_)
    (fun d hd => absurd hd (hmessage d)) fun d => ?_
  · refine byteHeld_put hk (by rw [hser]) (fun _ => by rw [hser]) fun n hn => ?_
    exact LinkedQueue.valueAt_congr
      (hdeq.nodes n fun heq => hne (hn.trans (congrArg _ heq)))
  · rw [hmessage₀, or_iff_right (hmessage d)]
    by_cases heq : d = v.data
    · rw [heq, hdeq.block.2]
      simp
    · simp only [hdeq.bytes d heq, heq, not_false_iff, and_true]

/-- The first message leaves the queue and is released. -/
theorem dequeue (h : Inv es s) (hk : s.service k = some sv) (hes : es k = (id, v) :: rest)
    (hdeq : Dequeued s.heap sv id v rest m sv') :
    Inv (Function.update es k rest) (s.put k m sv') := by
  have hq := h.queue k sv hk
  rw [hes] at hq
  obtain ⟨next, -, hnode, -⟩ := hq.pop
  obtain ⟨hser, hflag, -, hsize⟩ := hdeq.service
  refine ⟨fun k' hnone => ?_, ?_, ?_, h.ser_put hk hser
    fun d o ho => h.dequeued_same hes hdeq (ho id), fun k' e he => ?_,
    h.dequeued_nodes hk hes hdeq, h.dequeued_bytes hk hes hdeq, ?_, ?_⟩
  · obtain ⟨hne, hnone⟩ := of_update_eq_none hnone
    rw [Function.update_of_ne hne]
    exact h.idle k' hnone
  · refine forall_update ?_ fun k' sv' hne hk' => ?_
    · rw [Function.update_self]
      exact hdeq.queue
    · rw [Function.update_of_ne hne]
      refine (h.queue k' sv' hk').congr fun n hn => hdeq.nodes n ?_
      obtain ⟨e, he, rfl⟩ := List.mem_map.mp hn
      refine h.ne_of_rest (k := k) hk hes (?_ : e ∈ Function.update es k rest k')
      rw [Function.update_of_ne hne]
      exact he
  · refine forall_update ?_ fun k' sv' hne hk' => ?_
    · have hcount := h.count k sv hk
      rw [hes, List.length_cons] at hcount
      rw [Function.update_self, hsize, hflag, hcount]
      push_cast
      omega
    · rw [Function.update_of_ne hne]
      exact h.count k' sv' hk'
  · have hold := mem_of_rest hes he
    obtain ⟨y, hlive, hlen⟩ := h.data k' e hold
    have hne : ByteOwner.message e.1 ≠ .message id := fun heq =>
      h.ne_of_rest hk hes he (ByteOwner.message.inj heq)
    exact ⟨y, (h.dequeued_same hes hdeq hne (h.held_data hold)).trans hlive, hlen⟩
  · exact h.nodesOnce.free hnode hdeq.nodesFreed hdeq.node.2 fun n hn =>
      hdeq.nodes n (h.nodesOnce.ne_of_mem hn hnode)
  · obtain ⟨x, hx⟩ := h.live_of_held (h.held_data (hes ▸ List.mem_cons_self))
    exact h.bytesOnce.free hx hdeq.bytesFreed hdeq.block.2 fun d hd =>
      hdeq.bytes d (h.bytesOnce.ne_of_mem hd hx)

/-- A Lua error takes the first message out of the queue, and nobody has it any more. -/
theorem raise (h : Inv es s) (hk : s.service k = some sv) (hes : es k = (id, v) :: rest)
    (hflag : sv.flag = false) {next tail : Option Nat}
    (hrest : Queue s.heap.nodes next tail rest) :
    Inv (Function.update es k rest)
      { s.put k s.heap { sv with flag := true, head := next, tail := tail } with
        lost := id :: s.lost } := by
  have hq := h.queue k sv hk
  rw [hes] at hq
  obtain ⟨-, hhead, hnode, hnot, -⟩ := hq.pop
  have hhead' : NodeHeld es s.lost id (.queue k) := by
    simp only [NodeHeld, hes, List.map_cons, List.mem_cons, true_or]
  refine ⟨fun k' hnone => ?_, ?_, ?_, ?_, fun k' e he => ?_, ?_, ?_, h.nodesOnce, h.bytesOnce⟩
  · obtain ⟨hne, hnone⟩ := of_update_eq_none hnone
    rw [Function.update_of_ne hne]
    exact h.idle k' hnone
  · refine forall_update ?_ fun k' sv' hne hk' => ?_
    · rw [Function.update_self]
      exact hrest
    · rw [Function.update_of_ne hne]
      exact h.queue k' sv' hk'
  · refine forall_update ?_ fun k' sv' hne hk' => ?_
    · have hcount := h.count k sv hk
      rw [hes, List.length_cons, hflag] at hcount
      rw [Function.update_self]
      simpa using hcount
    · rw [Function.update_of_ne hne]
      exact h.count k' sv' hk'
  · exact forall_update (h.ser k sv hk) fun k' sv' _ => h.ser k' sv'
  · by_cases heq : k' = k
    · subst heq
      rw [Function.update_self] at he
      exact h.data k' e (hes ▸ List.mem_cons_of_mem _ he)
    · rw [Function.update_of_ne heq] at he
      exact h.data k' e he
  · refine h.nodes.pass hhead' (b := .lost) fun n o => ?_
    cases o with
    | queue k' =>
        by_cases heq : k' = k
        · simp only [NodeHeld, heq, Function.update_self, hes, List.map_cons, List.mem_cons,
            reduceCtorEq, and_false, false_or]
          constructor
          · intro hn
            refine ⟨?_, .inr hn⟩
            rintro rfl
            exact hnot hn
          · exact fun hn => hn.2.resolve_left hn.1
        · simp only [NodeHeld, Function.update_of_ne heq, reduceCtorEq, and_false, false_or]
          refine ⟨fun hn => ⟨?_, hn⟩, And.right⟩
          rintro rfl
          exact h.nodes.not_holds hhead' (fun hqueue => heq (NodeOwner.queue.inj hqueue).symm)
            (show NodeHeld es s.lost n (.queue k') from hn)
    | lost =>
        simp only [NodeHeld, List.mem_cons, and_true]
        tauto
  · exact h.bytes.congr (fun d o => byteHeld_put hk rfl (fun _ => rfl) fun _ _ => rfl)
      fun _ => Iff.rfl

/-- A call that changes nothing but the state of a service, or releases a new node. -/
theorem refuse (h : Inv es s) (hk : s.service k = some sv) {b : Bool}
    (href : Refused s.heap { sv with state := b } m sv') : Inv es (s.put k m sv') := by
  obtain ⟨rfl, hbytes, hlive, hfreed⟩ := href
  have hvalue : ∀ n, valueAt m.nodes n = valueAt s.heap.nodes n := fun n =>
    LinkedQueue.valueAt_congr (congrFun hlive n)
  refine ⟨fun k' hnone => h.idle k' (of_update_eq_none hnone).2, ?_,
    forall_update (h.count k sv hk) fun k' sv' _ => h.count k' sv', ?_, ?_, ?_, ?_, ?_, ?_⟩
  · exact forall_update ((h.queue k sv hk).congr fun n _ => congrFun hlive n)
      fun k' sv' _ hk' => (h.queue k' sv' hk').congr fun n _ => congrFun hlive n
  · rw [show (s.put k m { sv with state := b }).heap.bytes = s.heap.bytes from hbytes]
    exact forall_update (h.ser k sv hk) fun k' sv' _ => h.ser k' sv'
  · rw [show (s.put k m { sv with state := b }).heap.bytes = s.heap.bytes from hbytes]
    exact h.data
  · refine h.nodes.congr (fun _ _ => Iff.rfl) fun n => ?_
    rw [show (s.put k m { sv with state := b }).heap.nodes.live n = s.heap.nodes.live n from
      congrFun hlive n]
  · refine h.bytes.congr (fun d o => byteHeld_put hk rfl (fun _ => rfl) fun n _ => hvalue n)
      fun d => ?_
    rw [show (s.put k m { sv with state := b }).heap.bytes = s.heap.bytes from hbytes]
  · obtain hsame | ⟨id, hid, hcons⟩ := hfreed
    · exact h.nodesOnce.of_live hsame fun n _ => congrFun hlive n
    · refine ⟨?_, fun n hn => ?_⟩
      · rw [show (s.put k m { sv with state := b }).heap.nodes.freed = _ from hcons]
        exact List.nodup_cons.mpr ⟨hid.2, h.nodesOnce.nodup⟩
      · rw [show (s.put k m { sv with state := b }).heap.nodes.freed = _ from hcons] at hn
        refine (congrFun hlive n).trans ?_
        rcases List.mem_cons.mp hn with rfl | hn
        · exact Option.isNone_iff_eq_none.mp hid.1
        · exact h.nodesOnce.dead n hn
  · rw [show (s.put k m { sv with state := b }).heap.bytes = s.heap.bytes from hbytes]
    exact h.bytesOnce

/-- A new service. -/
theorem create (h : Inv es s) (hk : s.service k = none) (hid : s.heap.bytes.Fresh id)
    (fill : Nat → UInt8) (accepted taken : Nat → List (List UInt8)) :
    Inv es { s.put k
        { s.heap with bytes := s.heap.bytes.put id ((List.range s.serBuffSize).map fill) }
        { ser := SerializeBuff.serializeInit 0 (some id) s.serBuffSize, flag := false, state := true
          nodeSize := 0, head := none, tail := none } with
      packed := Function.update s.packed k []
      accepted := accepted
      taken := taken } := by
  have hnone : s.heap.bytes.live id = none := Option.isNone_iff_eq_none.mp hid.1
  have hunchanged : ∀ d o, s.ByteHeld d o → (s.heap.bytes.put id
      ((List.range s.serBuffSize).map fill)).live d = s.heap.bytes.live d := fun d o hd =>
    CheckedHeap.put_live_of_ne (h.ne_of_fresh hid hd)
  have hnil : es k = [] := h.idle k hk
  refine ⟨fun k' hnone => h.idle k' (of_update_eq_none hnone).2, ?_, ?_, ?_, fun k' e he => ?_,
    h.nodes, ?_, h.nodesOnce, ?_⟩
  · refine forall_update ?_ fun k' sv' _ => h.queue k' sv'
    rw [hnil]
    exact .nil
  · refine forall_update ?_ fun k' sv' _ => h.count k' sv'
    rw [hnil]
    rfl
  · refine forall_update ⟨⟨id, rfl⟩, ?_⟩ fun k' sv' hne hk' => ?_
    · have hblock : (s.heap.bytes.put id ((List.range s.serBuffSize).map fill)).cells (some id) =
          some ((List.range s.serBuffSize).map fill) := CheckedHeap.put_live_self
      have hlen : ((List.range s.serBuffSize).map fill).length = s.serBuffSize := by
        rw [List.length_map, List.length_range]
      simp only [Function.update_self]
      exact ⟨rfl, rfl, ⟨_, hblock, hlen⟩, ⟨_, hblock, hlen, List.nil_prefix⟩, .inl rfl⟩
    · simp only [Function.update_of_ne hne]
      exact ⟨(h.ser k' sv' hk').1,
        h.stands hk' (fun d => hunchanged d _) fun d => hunchanged d _⟩
  · obtain ⟨x, hlive, hlen⟩ := h.data k' e he
    exact ⟨x, (hunchanged _ _ (h.held_data he)).trans hlive, hlen⟩
  · refine @Exclusive.exchange _ _ _ _ _ _ (.own k) h.bytes (fun d o hne => ?_) (fun d hd => ?_)
      fun d => ?_
    · cases o with
      | own k' =>
          have hne : k' ≠ k := fun heq => hne (congrArg _ heq)
          simp only [ByteHeld, put, Function.update_of_ne hne]
      | grown k' =>
          by_cases heq : k' = k
          · simp only [ByteHeld, put, heq, Function.update_self, hk, Option.some.injEq,
              exists_eq_left', reduceCtorEq, false_and, exists_false, iff_false]
            exact fun hgrown => hgrown.2 rfl
          · simp only [ByteHeld, put, Function.update_of_ne heq]
      | message n => exact Iff.rfl
      | outside => exact Iff.rfl
    · simp only [ByteHeld, put, Function.update_self, Option.some.injEq, exists_eq_left',
        SerializeBuff.serializeInit] at hd
      rw [← hd, hnone]
      exact .inr Bool.false_ne_true
    · simp only [ByteHeld, put, Function.update_self, Option.some.injEq, exists_eq_left', hk,
        SerializeBuff.serializeInit, reduceCtorEq, false_and, exists_false, not_false_iff, and_true]
      by_cases heq : id = d
      · rw [← heq, CheckedHeap.put_live_self]
        exact iff_of_true rfl (.inl rfl)
      · rw [CheckedHeap.put_live_of_ne (Ne.symm heq)]
        exact (or_iff_right heq).symm
  · refine h.bytesOnce.of_live rfl fun d hd => CheckedHeap.put_live_of_ne ?_
    rintro rfl
    exact hid.2 hd

/-- A service releases its own block, which its serializer is back in, and loses its messages. -/
theorem drop (h : Inv es s) (hk : s.service k = some sv)
    (hdata : sv.ser.data = sv.ser.initBuff) {bytes : CheckedHeap UInt8}
    (hfree : s.heap.bytes.free sv.ser.initBuff = some bytes) :
    Inv (Function.update es k []) { s with
      heap := { s.heap with bytes := bytes }
      service := Function.update s.service k none
      lost := (es k).map Prod.fst ++ s.lost } ∧
      ∀ d o, o ≠ .own k → s.ByteHeld d o → bytes.live d = s.heap.bytes.live d := by
  obtain ⟨⟨d₀, hd₀⟩, -⟩ := h.ser k sv hk
  have hown : s.ByteHeld d₀ (.own k) := held_own hk hd₀
  obtain ⟨x, hlive⟩ := h.live_of_held hown
  obtain ⟨bytes', hfree', hgone, hother, hfreed⟩ := CheckedHeap.free_eq hlive
  rw [hd₀, hfree', Option.some.injEq] at hfree
  subst hfree
  have hunchanged : ∀ d o, o ≠ .own k → s.ByteHeld d o →
      bytes'.live d = s.heap.bytes.live d := by
    intro d o hne hd
    refine hother d ?_
    rintro rfl
    exact h.bytes.not_holds hd hne hown
  have hservice : ∀ k' sv', Function.update s.service k none k' = some sv' →
      k' ≠ k ∧ s.service k' = some sv' := by
    intro k' sv' hk'
    by_cases heq : k' = k
    · rw [heq, Function.update_self] at hk'
      cases hk'
    · rw [Function.update_of_ne heq] at hk'
      exact ⟨heq, hk'⟩
  refine ⟨⟨fun k' hnone => ?_, fun k' sv' hk' => ?_, fun k' sv' hk' => ?_, fun k' sv' hk' => ?_,
    fun k' e he => ?_, ?_, ?_, h.nodesOnce, ?_⟩, hunchanged⟩
  · by_cases heq : k' = k
    · rw [heq, Function.update_self]
    · rw [Function.update_of_ne heq]
      exact h.idle k' ((Function.update_of_ne heq ..).symm.trans hnone)
  · obtain ⟨hne, hk'⟩ := hservice k' sv' hk'
    rw [Function.update_of_ne hne]
    exact h.queue k' sv' hk'
  · obtain ⟨hne, hk'⟩ := hservice k' sv' hk'
    rw [Function.update_of_ne hne]
    exact h.count k' sv' hk'
  · obtain ⟨hne, hk'⟩ := hservice k' sv' hk'
    refine ⟨(h.ser k' sv' hk').1, h.stands hk' (fun d => hunchanged d _ fun heq => ?_)
      fun d => hunchanged d _ ByteOwner.noConfusion⟩
    exact hne (ByteOwner.own.inj heq)
  · have he : e ∈ es k' := by
      by_cases heq : k' = k
      · rw [heq, Function.update_self] at he
        exact absurd he List.not_mem_nil
      · rwa [Function.update_of_ne heq] at he
    obtain ⟨x, hlive, hlen⟩ := h.data k' e he
    exact ⟨x, (hunchanged _ _ ByteOwner.noConfusion (h.held_data he)).trans hlive, hlen⟩
  · refine h.nodes.merge (a := .queue k) (b := .lost) fun n o => ?_
    cases o with
    | queue k' =>
        by_cases heq : k' = k
        · simp only [NodeHeld, heq, Function.update_self, List.map_nil, List.not_mem_nil, ne_eq,
            not_true, false_and, reduceCtorEq, or_false]
        · simp only [NodeHeld, Function.update_of_ne heq, ne_eq, NodeOwner.queue.injEq, heq,
            not_false_iff, true_and, reduceCtorEq, false_and, or_false]
    | lost =>
        simp only [NodeHeld, List.mem_append, ne_eq, reduceCtorEq, not_false_iff, true_and]
        exact or_comm
  · refine @Exclusive.exchange _ _ _ _ _ _ (.own k) h.bytes (fun d o hne => ?_) (fun d hd => ?_)
      fun d => ?_
    · cases o with
      | own k' =>
          have hne : k' ≠ k := fun heq => hne (congrArg _ heq)
          simp only [ByteHeld, Function.update_of_ne hne]
      | grown k' =>
          by_cases heq : k' = k
          · simp only [ByteHeld, heq, Function.update_self, hk, Option.some.injEq,
              exists_eq_left', reduceCtorEq, false_and, exists_false, false_iff]
            exact fun hgrown => hgrown.2 hdata
          · simp only [ByteHeld, Function.update_of_ne heq]
      | message n => exact Iff.rfl
      | outside => exact Iff.rfl
    · simp only [ByteHeld, Function.update_self, reduceCtorEq, false_and, exists_false] at hd
    · simp only [ByteHeld, Function.update_self, hk, Option.some.injEq, exists_eq_left',
        reduceCtorEq, false_and, exists_false, false_or, hd₀]
      by_cases heq : d = d₀
      · rw [heq, hgone]
        simp
      · rw [hother d heq]
        simp only [Ne.symm heq, not_false_iff, and_true]
  · exact h.bytesOnce.free hlive hfreed hgone fun d hd =>
      hother d (h.bytesOnce.ne_of_mem hd hlive)

/-- Scripts write to their own memory. -/
theorem write (h : Inv es s) (hid : id ∈ s.outside) {ys : List UInt8} {bytes : CheckedHeap UInt8}
    (hstore : s.heap.bytes.store (some id) 0 ys = some bytes) :
    Inv es { s with heap := { s.heap with bytes := bytes } } ∧
      ∀ d o, o ≠ .outside → s.ByteHeld d o → bytes.live d = s.heap.bytes.live d := by
  have hheld : s.ByteHeld id .outside := hid
  obtain ⟨x, hlive⟩ := h.live_of_held hheld
  obtain ⟨xs, hcells, hstore⟩ := Option.bind_eq_some_iff.mp hstore
  split at hstore
  · cases hstore
    have hsome : ∀ d, ((s.heap.bytes.put id
        (xs.take 0 ++ ys ++ xs.drop (0 + ys.length))).live d).isSome =
          (s.heap.bytes.live d).isSome := by
      intro d
      by_cases heq : d = id
      · rw [heq, CheckedHeap.put_live_self, hlive, Option.isSome_some, Option.isSome_some]
      · rw [CheckedHeap.put_live_of_ne heq]
    have hunchanged : ∀ d o, o ≠ .outside → s.ByteHeld d o → (s.heap.bytes.put id
        (xs.take 0 ++ ys ++ xs.drop (0 + ys.length))).live d = s.heap.bytes.live d := by
      intro d o hne hd
      refine CheckedHeap.put_live_of_ne ?_
      rintro rfl
      exact h.bytes.not_holds hd hne hheld
    refine ⟨⟨h.idle, h.queue, h.count, fun k sv hk => ?_, fun k e he => ?_, h.nodes,
      h.bytes.congr (fun _ _ => Iff.rfl) fun d => ?_, h.nodesOnce, ?_⟩, hunchanged⟩
    · exact ⟨(h.ser k sv hk).1, h.stands hk (fun d => hunchanged d _ ByteOwner.noConfusion)
        fun d => hunchanged d _ ByteOwner.noConfusion⟩
    · obtain ⟨y, hy, hlen⟩ := h.data k e he
      exact ⟨y, (hunchanged _ _ ByteOwner.noConfusion (h.held_data he)).trans hy, hlen⟩
    · rw [hsome]
    · refine h.bytesOnce.of_live rfl fun d hd => CheckedHeap.put_live_of_ne ?_
      exact h.bytesOnce.ne_of_mem hd hlive
  · cases hstore

/-! ## The calls of a run -/

theorem content_eq (h : Inv es s) {e : Nat × MsgData} (he : e ∈ es k)
    (hsame : ∀ d, s.ByteHeld d (.message e.1) → m.bytes.live d = s.heap.bytes.live d) :
    content m e = content s.heap e := by
  rw [content, hsame _ (h.held_data he), content]

/-- The other messages keep their bytes. -/
theorem dequeue_content (h : Inv es s) (hk : s.service k = some sv)
    (hes : es k = (id, v) :: rest) (hdeq : Dequeued s.heap sv id v rest m sv') :
    ∀ k', ∀ e ∈ Function.update es k rest k', content m e = content s.heap e := by
  intro k' e he
  refine h.content_eq (mem_of_rest hes he) fun d => h.dequeued_same hes hdeq fun hmessage => ?_
  exact h.ne_of_rest hk hes he (ByteOwner.message.inj hmessage)

/-- Cleaning gives back what the serializer has moved to. -/
theorem clean (h : Inv es s) (hk : s.service k = some sv)
    (ht : cleanSer s.heap sv = some (m, sv')) :
    Inv es ((s.put k m sv').cleaned k) ∧
      ∀ d o, o ≠ .grown k → s.ByteHeld d o → m.bytes.live d = s.heap.bytes.live d := by
  have hcleaned := cleanSer_cleaned ht
  obtain ⟨heap₀, hs⟩ := (h.ser k sv hk).2.holds h.bytesOnce
  obtain ⟨c, hclean, heq⟩ := Option.map_eq_some_iff.mp ht
  cases heq
  obtain ⟨c', hclean', hc⟩ := SerializeBuff.State.serializeClean_eq hs
  obtain rfl : c' = c := Option.some.inj (hclean'.symm.trans hclean)
  refine ⟨(h.serCall hk hs hc hcleaned.init).1, fun d o hne hd => hcleaned.bytes d fun hg => ?_⟩
  exact h.bytes.not_holds hd hne (show s.ByteHeld d (.grown k) from ⟨sv, hk, hg⟩)

end Inv

/-- The messages of service `k` are released, and no other block is. -/
structure Released (es : Nat → List (Nat × MsgData)) (s : Services) (k : Nat) (sv : LuaServiceAt)
    (m : ServiceHeap) (es' : Nat → List (Nat × MsgData)) (sv' : LuaServiceAt) : Prop where
  inv : Inv es' (s.put k m sv')
  empty : es' k = []
  ser : sv'.ser = sv.ser
  others : ∀ k', k' ≠ k → es' k' = es k' ∧ ∀ e ∈ es k', content m e = content s.heap e
  blocks : ∀ d o, (∀ n, o ≠ .message n) → s.ByteHeld d o →
    m.bytes.live d = s.heap.bytes.live d
  freed : s.heap.bytes.freed ⊆ m.bytes.freed

theorem Inv.released_nil (h : Inv es s) (hk : s.service k = some sv) (hes : es k = []) :
    Released es s k sv s.heap es sv where
  inv := by
    rw [put_same hk]
    exact h
  empty := hes
  ser := rfl
  others _ _ := ⟨rfl, fun _ _ => rfl⟩
  blocks _ _ _ _ := rfl
  freed := List.Subset.refl _

/-- The first message is released before the others. -/
theorem Inv.released_cons (h : Inv es s) (hk : s.service k = some sv)
    (hes : es k = (id, v) :: rest) {m₁ : ServiceHeap} {sv₁ : LuaServiceAt}
    (hdeq : Dequeued s.heap sv id v rest m₁ sv₁) {es' : Nat → List (Nat × MsgData)}
    (hrest : Released (Function.update es k rest) (s.put k m₁ sv₁) k sv₁ m es' sv') :
    Released es s k sv m es' sv' where
  inv := by
    have hinv := hrest.inv
    rwa [put_put] at hinv
  empty := hrest.empty
  ser := hrest.ser.trans hdeq.service.1
  others k' hne := by
    obtain ⟨heq, hcontent⟩ := hrest.others k' hne
    have hfirst := h.dequeue_content hk hes hdeq k'
    rw [Function.update_of_ne hne] at heq hcontent hfirst
    exact ⟨heq, fun e he => (hcontent e he).trans (hfirst e he)⟩
  blocks d o ho hd := by
    have hser := hdeq.service.1
    have hheld : (s.put k m₁ sv₁).ByteHeld d o :=
      (byteHeld_put hk (by rw [hser]) (fun _ => by rw [hser])
        fun n hn => absurd hn (ho n)).mpr hd
    exact (hrest.blocks d o ho hheld).trans (h.dequeued_same hes hdeq (ho id) hd)
  freed := by
    refine List.Subset.trans ?_ hrest.freed
    rw [show (s.put k m₁ sv₁).heap.bytes.freed = _ from hdeq.bytesFreed]
    exact List.subset_cons_self ..

namespace Inv

/-- All the messages of a service are released. -/
theorem releaseNodes (h : Inv es s) (hk : s.service k = some sv) {fuel : Nat}
    (ht : RandServer.releaseNodes fuel s.heap sv.head = some m) :
    ∃ es' sv', Released es s k sv m es' sv' := by
  induction fuel generalizing es s sv with
  | zero =>
      cases hhead : sv.head with
      | none =>
          rw [hhead, RandServer.releaseNodes, Option.some.injEq] at ht
          subst ht
          exact ⟨es, sv, h.released_nil hk ((h.queue k sv hk).head_eq_none_iff.mp hhead)⟩
      | some id =>
          rw [hhead, RandServer.releaseNodes] at ht
          cases ht
  | succ fuel ih =>
      have hq := h.queue k sv hk
      cases hes : es k with
      | nil =>
          rw [hq.head_eq_none_iff.mpr hes, RandServer.releaseNodes, Option.some.injEq] at ht
          subst ht
          exact ⟨es, sv, h.released_nil hk hes⟩
      | cons e rest =>
          obtain ⟨id, v⟩ := e
          rw [hes] at hq
          obtain ⟨x, hlive, -⟩ := h.data k (id, v) (hes ▸ List.mem_cons_self)
          obtain ⟨next, nodes, bytes, hhead, hnode, hbytes, hnodes, -, hdeq⟩ := dequeue_eq hq hlive
          rw [hhead] at hnode hnodes
          rw [hhead, RandServer.releaseNodes, hnode, Option.bind_some, hbytes, Option.bind_some,
            hnodes, Option.bind_some] at ht
          obtain ⟨es', sv', hrest⟩ :=
            @ih _ _ _ (h.dequeue hk hes hdeq) (Function.update_self ..) ht
          exact ⟨es', sv', h.released_cons hk hes hdeq hrest⟩

/-- The logs of messages do not matter. -/
theorem relog (h : Inv es s) (accepted taken : Nat → List (List UInt8)) :
    Inv es { s with accepted := accepted, taken := taken } :=
  ⟨h.idle, h.queue, h.count, h.ser, h.data, h.nodes, h.bytes, h.nodesOnce, h.bytesOnce⟩

end Inv

/-! ## The logs -/

theorem service_put (hk : s.service k = some sv)
    (hk' : Function.update s.service k (some sv') k' ≠ none) : s.service k' ≠ none := by
  by_cases heq : k' = k
  · rw [heq, hk]
    exact Option.some_ne_none sv
  · rwa [Function.update_of_ne heq] at hk'

/-- A whole block is read. -/
theorem read_eq (hlive : s.heap.bytes.live d = some x) : s.read (some d) x.length = x := by
  have hcells : s.heap.bytes.cells (some d) = some x := hlive
  rw [read, CheckedHeap.load_eq hcells (Nat.le_refl _), List.take_length, Option.getD_some]

namespace Logged

/-- The queues and logs stay as they are. -/
theorem of_content (hlog : Logged es s) (haccepted : t.accepted = s.accepted)
    (htaken : t.taken = s.taken) (hservice : ∀ k, t.service k ≠ none → s.service k ≠ none)
    (hcontent : ∀ k, ∀ e ∈ es k, content t.heap e = content s.heap e) : Logged es t := by
  intro k sv hk
  obtain ⟨sv', hk'⟩ := Option.ne_none_iff_exists'.mp (hservice k (hk ▸ Option.some_ne_none sv))
  rw [haccepted, htaken, hlog k sv' hk', List.map_congr_left (hcontent k)]

/-- A service accepts the message that comes last in its queue. -/
theorem accept (hlog : Logged es s) (hk : s.service k = some sv) {e : Nat × MsgData}
    (haccepted : t.accepted = Function.update s.accepted k (s.accepted k ++ [x]))
    (htaken : t.taken = s.taken) (hservice : ∀ k, t.service k ≠ none → s.service k ≠ none)
    (hcontent : ∀ k, ∀ e ∈ es k, content t.heap e = content s.heap e)
    (hx : content t.heap e = x) : Logged (Function.update es k (es k ++ [e])) t := by
  intro k' sv' hk'
  obtain ⟨sv₀, hk₀⟩ := Option.ne_none_iff_exists'.mp (hservice k' (hk' ▸ Option.some_ne_none sv'))
  rw [haccepted, htaken]
  by_cases heq : k' = k
  · subst heq
    rw [Function.update_self, Function.update_self, hlog k' sv hk, List.map_append,
      List.map_singleton, hx, List.map_congr_left (hcontent k'), List.append_assoc]
  · rw [Function.update_of_ne heq, Function.update_of_ne heq, hlog k' sv₀ hk₀,
      List.map_congr_left (hcontent k')]

/-- The first message is removed. -/
theorem take (hlog : Logged es s) (hes : es k = (id, v) :: rest)
    (hlive : s.heap.bytes.live v.data = some x) (haccepted : t.accepted = s.accepted)
    (htaken : t.taken = Function.update s.taken k (s.taken k ++ [x]))
    (hservice : ∀ k, t.service k ≠ none → s.service k ≠ none)
    (hcontent : ∀ k', ∀ e ∈ Function.update es k rest k', content t.heap e = content s.heap e) :
    Logged (Function.update es k rest) t := by
  intro k' sv' hk'
  obtain ⟨sv₀, hk₀⟩ := Option.ne_none_iff_exists'.mp (hservice k' (hk' ▸ Option.some_ne_none sv'))
  rw [haccepted, htaken, hlog k' sv₀ hk₀, List.map_congr_left (hcontent k')]
  by_cases heq : k' = k
  · subst heq
    rw [Function.update_self, Function.update_self, hes, List.map_cons, content, hlive,
      Option.getD_some, List.append_assoc, List.singleton_append]
  · rw [Function.update_of_ne heq, Function.update_of_ne heq]

end Logged

end Services

end RandServer
