import RandServer.Lib.Machine
import RandServer.Lua.ServiceAccounts

/-!
# Runs of the services

Each action keeps the accounts and the logs, so every run does. What a service does with its
own memory is defined in every reachable state. The calls of different threads do not overlap,
although `lua_service_run` and `service:pack` take no lock.
-/

namespace RandServer

open LinkedQueue (Queue valueAt)

namespace Services

variable {es : Nat → List (Nat × MsgData)} {s t : Services} {k : Nat} {sv sv' sv'' : LuaServiceAt}
variable {m m' : ServiceHeap} {x : List UInt8} {id d : Nat}

/-! ## One action -/

theorem create_step (h : Inv es s) (hlog : Logged es s) {fill : Nat → UInt8}
    (hkept : s.heap.bytes.Fresh id) (ht : s.step (.create k id fill) = some t) :
    Inv es t ∧ Logged es t := by
  cases hk : s.service k with
  | some sv =>
      simp only [step, hk] at ht
      cases ht
  | none =>
      simp only [step, hk, luaServiceCCreateHelp, CheckedHeap.malloc, Option.some.injEq] at ht
      subst ht
      refine ⟨h.create hk hkept fill _ _, fun k' sv' hk' => ?_⟩
      by_cases heq : k' = k
      · rw [heq, h.idle k hk]
        simp only [Function.update_self]
        rfl
      · simp only [put, Function.update_of_ne heq] at hk'
        simp only [Function.update_of_ne heq]
        rw [hlog k' sv' hk']
        exact congrArg _ (List.map_congr_left fun e he => (h.content_eq he fun d hd =>
          CheckedHeap.put_live_of_ne (h.ne_of_fresh hkept hd)).symm)

theorem pack_step (h : Inv es s) (hlog : Logged es s) (ht : s.step (.pack k) = some t) :
    Inv es t ∧ Logged es t := by
  obtain ⟨sv, hk, ht⟩ := Option.bind_eq_some_iff.mp ht
  obtain ⟨⟨m, sv'⟩, hclean, rfl⟩ := Option.map_eq_some_iff.mp ht
  obtain ⟨hinv, hsame⟩ := h.clean hk hclean
  exact ⟨hinv, hlog.of_content rfl rfl (fun _ => service_put hk) fun k' e he =>
    h.content_eq he fun d => hsame d _ ByteOwner.noConfusion⟩

/-- The bytes are packed, wherever the serializer stands then. -/
theorem Inv.packBytes_eq (h : Inv es s) (hk : s.service k = some sv) {bytes : List UInt8}
    {fill : Nat → UInt8} (hkept : s.Kept (.packBytes k bytes id fill)) {c : SerializeBuff.State}
    {ret : Int} (hpack : SerializeBuff.serializePackBytes { ser := sv.ser, heap := s.heap.bytes }
      (some (id, fill)) bytes = some (c, ret)) :
    Inv es (s.putSer k sv c (s.packed k ++ bytes)) ∧
      ∀ d o, o ≠ .own k → o ≠ .grown k → s.ByteHeld d o → c.heap.live d = s.heap.bytes.live d := by
  obtain ⟨heap₀, hs⟩ := (h.ser k sv hk).2.holds h.bytesOnce
  obtain ⟨c', hpack', hc⟩ := SerializeBuff.State.serializePackBytes_eq hs (hkept sv hk) fill
  rw [hpack, Option.some.injEq, Prod.mk.injEq] at hpack'
  obtain ⟨rfl, -⟩ := hpack'
  exact h.serCall hk hs hc (serializePackBytes_initBuff hpack)

theorem packBytes_step (h : Inv es s) (hlog : Logged es s) {bytes : List UInt8}
    {fill : Nat → UInt8} (hkept : s.Kept (.packBytes k bytes id fill))
    (ht : s.step (.packBytes k bytes id fill) = some t) : Inv es t ∧ Logged es t := by
  obtain ⟨sv, hk, ht⟩ := Option.bind_eq_some_iff.mp ht
  obtain ⟨⟨c, ret⟩, hpack, rfl⟩ := Option.map_eq_some_iff.mp ht
  obtain ⟨hinv, hsame⟩ := h.packBytes_eq hk hkept hpack
  exact ⟨hinv, hlog.of_content rfl rfl (fun _ => service_put hk) fun k' e he =>
    h.content_eq he fun d => hsame d _ ByteOwner.noConfusion ByteOwner.noConfusion⟩

/-- A message is queued and the serializer of the service cleaned. -/
theorem Inv.accept_step (h : Inv es s) (hlog : Logged es s) (hk : s.service k = some sv)
    (henq : Enqueued s.heap sv (es k) id d x m sv') (hclean : cleanSer m sv' = some (m', sv'')) :
    ∃ es', Inv es' (((s.put k m' sv'').cleaned k).accept k x) ∧
      Logged es' (((s.put k m' sv'').cleaned k).accept k x) := by
  have hinv := h.enqueue hk henq
  obtain ⟨hinv', hsame'⟩ := hinv.clean (Function.update_self ..) hclean
  have hcontent : ∀ k', ∀ e ∈ Function.update es k (es k ++ [(id, { data := d, size := x.length })])
      k', content m' e = content m e := fun k' e he =>
    hinv.content_eq he fun d' => hsame' d' _ ByteOwner.noConfusion
  rw [put_put] at hinv'
  refine ⟨_, hinv'.relog _ _, hlog.accept (x := x) hk rfl rfl (fun _ => service_put hk)
    (fun k' e he => ?_) ?_⟩
  · refine (hcontent k' e ?_).trans (h.content_eq he fun d' => h.enqueued_same henq)
    by_cases heq : k' = k
    · rw [heq, Function.update_self]
      exact List.mem_append_left _ (heq ▸ he)
    · rw [Function.update_of_ne heq]
      exact he
  · refine (hcontent k _ ?_).trans ?_
    · rw [Function.update_self]
      exact List.mem_append_right _ (List.mem_singleton_self _)
    · rw [content, henq.content, Option.getD_some]

/-- The arguments of a new thread are queued as a whole, or not at all. -/
theorem Inv.run_cases (h : Inv es s) (hk : s.service k = some sv) {node : Answer MsgNode}
    {block : Answer UInt8} {p : Option Nat} (hkept : s.Kept (.run k node block))
    (ht : createAndPushMsgNodeAt s.heap sv sv.ser.data sv.ser.size sv.ser.size node block =
      some (p, m, sv')) :
    p = none ∧ Refused s.heap sv m sv' ∨
      ∃ id d, p = some id ∧
        Enqueued s.heap sv (es k) id d (s.read sv.ser.data sv.ser.size) m sv' := by
  have hstands := (h.ser k sv hk).2
  have hblock : ∀ p ∈ block, s.heap.bytes.Fresh p.1 ∧ some p.1 ≠ sv.ser.data := fun p hp =>
    ⟨hkept.2 p hp, ne_of_load (hkept.2 p hp) hstands.load⟩
  rcases createAndPushMsgNodeAt_cases (h.queue k sv hk) hkept.1 hblock ht with
    hrefused | ⟨id, g, xs, x, rfl, -, hload, hxs, hlen, henq⟩
  · exact .inl hrefused
  · rw [ite_self] at hlen
    obtain rfl : xs = x := hxs.eq_of_length ((load_length hload).trans hlen.symm)
    rw [read, hload, Option.getD_some]
    exact .inr ⟨id, g.1, rfl, henq⟩

theorem run_step (h : Inv es s) (hlog : Logged es s) {node : Answer MsgNode}
    {block : Answer UInt8} (hkept : s.Kept (.run k node block))
    (ht : s.step (.run k node block) = some t) : ∃ es', Inv es' t ∧ Logged es' t := by
  obtain ⟨sv, hk, ht⟩ := Option.bind_eq_some_iff.mp ht
  obtain ⟨⟨p, m, sv'⟩, hcreate, ht⟩ := Option.bind_eq_some_iff.mp ht
  obtain ⟨⟨m', sv''⟩, hclean, rfl⟩ := Option.map_eq_some_iff.mp ht
  rcases h.run_cases hk hkept hcreate with ⟨rfl, href⟩ | ⟨id, d, rfl, henq⟩
  · have hrefused := h.refuse hk (b := sv.state) href
    obtain ⟨hinv, hsame⟩ := hrefused.clean (Function.update_self ..) hclean
    rw [put_put] at hinv
    refine ⟨es, hinv, hlog.of_content rfl rfl (fun _ => service_put hk) fun k' e he => ?_⟩
    have hcontent := hrefused.content_eq (m := m') he fun d => hsame d _ ByteOwner.noConfusion
    refine hcontent.trans (h.content_eq he fun d _ => ?_)
    exact congrFun (congrArg _ href.bytes) d
  · exact h.accept_step hlog hk henq hclean

/-- A new state of the service. -/
theorem state_step (h : Inv es s) (hlog : Logged es s) (hk : s.service k = some sv) (b : Bool) :
    Inv es (s.put k s.heap { sv with state := b }) ∧
      Logged es (s.put k s.heap { sv with state := b }) :=
  ⟨h.refuse hk ⟨rfl, rfl, rfl, .inl rfl⟩,
    hlog.of_content rfl rfl (fun _ => service_put hk) fun _ _ _ => rfl⟩

theorem push_step (h : Inv es s) (hlog : Logged es s) {data data2 : Option Nat} {size size2 : Nat}
    {node : Answer MsgNode} {block : Answer UInt8}
    (hkept : s.Kept (.push k data size data2 size2 node block))
    (ht : s.step (.push k data size data2 size2 node block) = some t) :
    ∃ es', Inv es' t ∧ Logged es' t := by
  obtain ⟨sv, hk, ht⟩ := Option.bind_eq_some_iff.mp ht
  obtain ⟨⟨ok, m, sv'⟩, hpush, rfl⟩ := Option.map_eq_some_iff.mp ht
  obtain ⟨-, ⟨rfl, href⟩ | ⟨rfl, -, id, d, m₁, sv₁, henq, hclean⟩⟩ :=
    luaServicePushDataAt_cases (h.queue k sv hk) hkept.1 hkept.2 hpush
  · refine ⟨es, h.refuse hk (b := sv.state) href,
      hlog.of_content rfl rfl (fun _ => service_put hk) fun k' e he => ?_⟩
    exact h.content_eq he fun d _ => congrFun (congrArg _ href.bytes) d
  · exact h.accept_step hlog hk henq hclean

/-- Only the outputs of the services matter. -/
theorem Inv.repack (h : Inv es s) (packed : Nat → List UInt8)
    (hpacked : ∀ k sv, s.service k = some sv → packed k = s.packed k) :
    Inv es { s with packed := packed } := by
  refine ⟨h.idle, h.queue, h.count, fun k sv hk => ?_, h.data, h.nodes, h.bytes, h.nodesOnce,
    h.bytesOnce⟩
  have hser := h.ser k sv hk
  rw [← hpacked k sv hk] at hser
  exact hser

theorem join_step (h : Inv es s) (hlog : Logged es s) (ht : s.step (.join k) = some t) :
    ∃ es', Inv es' t ∧ Logged es' t := by
  obtain ⟨sv, hk, ht⟩ := Option.bind_eq_some_iff.mp ht
  obtain ⟨m, hjoin, rfl⟩ := Option.map_eq_some_iff.mp ht
  obtain ⟨⟨m₁, sv₁⟩, hclean, hjoin⟩ := Option.bind_eq_some_iff.mp hjoin
  obtain ⟨m₂, hrelease, hjoin⟩ := Option.bind_eq_some_iff.mp hjoin
  obtain ⟨bytes, hfree, rfl⟩ := Option.map_eq_some_iff.mp hjoin
  have hcleaned := cleanSer_cleaned hclean
  obtain ⟨hinv₁, hsame₁⟩ := h.clean hk hclean
  obtain ⟨es', sv₂, hrel⟩ := hinv₁.releaseNodes (Function.update_self ..) hrelease
  obtain ⟨hinv₃, hsame⟩ := hrel.inv.drop (Function.update_self ..)
    (hrel.ser.symm ▸ hcleaned.data) (hrel.ser.symm ▸ hfree)
  rw [Function.update_eq_self_iff.mpr hrel.empty.symm] at hinv₃
  have hservice : ∀ k' sv', Function.update s.service k none k' = some sv' →
      k' ≠ k ∧ s.service k' = some sv' := by
    intro k' sv' hk'
    by_cases heq : k' = k
    · rw [heq, Function.update_self] at hk'
      cases hk'
    · rw [Function.update_of_ne heq] at hk'
      exact ⟨heq, hk'⟩
  simp only [put, cleaned, Function.update_idem, hrel.empty, List.map_nil, List.nil_append]
    at hinv₃
  refine ⟨es', hinv₃.repack s.packed fun k' sv' hk' => ?_, fun k' sv' hk' => ?_⟩
  · exact (Function.update_of_ne (hservice k' sv' hk').1 ..).symm
  · obtain ⟨hne, hk'⟩ := hservice k' sv' hk'
    obtain ⟨heq, hcontent₂⟩ := hrel.others k' hne
    refine (hlog k' sv' hk').trans (congrArg _ ?_)
    rw [heq]
    refine List.map_congr_left fun e he => ?_
    have hfreed := hrel.inv.content_eq (m := { nodes := m₂.nodes, bytes := bytes }) (heq ▸ he)
      fun d => hsame d _ ByteOwner.noConfusion
    have hcontent₁ := h.content_eq (m := m₁) he fun d => hsame₁ d _ ByteOwner.noConfusion
    exact (hfreed.trans ((hcontent₂ e he).trans hcontent₁)).symm

/-- The messages of a service that could not be started are lost. -/
theorem runFail_step (h : Inv es s) (hlog : Logged es s) (ht : s.step (.runFail k) = some t) :
    ∃ es', Inv es' t ∧ Logged es' t := by
  obtain ⟨sv, hk, ht⟩ := Option.bind_eq_some_iff.mp ht
  simp only [ne_eq, ite_not, Option.ite_none_right_eq_some] at ht
  obtain ⟨hdata, ht⟩ := ht
  obtain ⟨bytes, hfree, rfl⟩ := Option.map_eq_some_iff.mp ht
  have hcount := h.count k sv hk
  obtain ⟨hinv, hsame⟩ := h.drop hk hdata hfree
  rw [(h.queue k sv hk).path.names_eq (by omega)]
  refine ⟨_, hinv, fun k' sv' hk' => ?_⟩
  by_cases heq : k' = k
  · rw [heq] at hk'
    cases (Function.update_self ..).symm.trans hk'
  · have hk' : s.service k' = some sv' := (Function.update_of_ne heq ..).symm.trans hk'
    rw [Function.update_of_ne heq]
    refine (hlog k' sv' hk').trans (congrArg _ (List.map_congr_left fun e he => ?_))
    exact (h.content_eq he fun d => hsame d _ ByteOwner.noConfusion).symm

theorem pop_step (h : Inv es s) (hlog : Logged es s) {L : LuaState} {behind : Nat → List UInt8}
    (ht : s.step (.pop k L behind) = some t) : ∃ es', Inv es' t ∧ Logged es' t := by
  obtain ⟨sv, hk, ht⟩ := Option.bind_eq_some_iff.mp ht
  obtain ⟨r, hpop, rfl⟩ := Option.map_eq_some_iff.mp ht
  have hq := h.queue k sv hk
  obtain ⟨hflag, ⟨hheap, hsv, hraised, hidle⟩ | ⟨hstate, id, v, rest, hes, hend⟩⟩ :=
    luaServicePopMsgAt_cases hq (h.data k) hpop
  · have hfront : s.front sv = none := by
      rcases hidle with hstate | hnil
      · rw [front, hstate, if_neg Bool.false_ne_true]
      · rw [front, hq.head_eq_none_iff.mpr hnil]
        simp [LinkedQueue.node, CheckedHeap.load]
    simp only [hheap, hsv, hraised, hfront, Option.toList_none, List.append_nil,
      Function.update_eq_self, Bool.false_eq_true, if_false, put_same hk]
    exact ⟨es, h, hlog⟩
  rw [hes] at hq
  obtain ⟨x, hlive, hlen⟩ := h.data k (id, v) (hes ▸ List.mem_cons_self)
  obtain ⟨next, hhead, hnode, -⟩ := hq.pop
  have hfront : s.front sv = some x := by
    rw [front, if_pos hstate, hhead, LinkedQueue.node_eq hnode, Option.map_some, ← hlen,
      read_eq hlive]
  refine ⟨Function.update es k rest, ?_⟩
  rcases hend with ⟨hraised, hdeq⟩ | ⟨hraised, hheap, next', tail, hrest, hsv⟩
  · simp only [hfront, Option.toList_some, hraised, Bool.false_eq_true, if_false]
    exact ⟨(h.dequeue hk hes hdeq).relog _ _, hlog.take hes hlive rfl rfl
      (fun _ => service_put hk) (h.dequeue_content hk hes hdeq)⟩
  · simp only [hfront, Option.toList_some, hraised, if_true, hheap, hsv, hhead]
    exact ⟨(h.raise hk hes hflag hrest).relog _ _, hlog.take hes hlive rfl rfl
      (fun _ => service_put hk) fun _ _ _ => rfl⟩

theorem write_step (h : Inv es s) (hlog : Logged es s) {bytes : List UInt8}
    (ht : s.step (.write id bytes) = some t) : Inv es t ∧ Logged es t := by
  simp only [step] at ht
  split at ht
  · rename_i hid
    obtain ⟨heap, hstore, rfl⟩ := Option.map_eq_some_iff.mp ht
    obtain ⟨hinv, hsame⟩ := h.write hid hstore
    exact ⟨hinv, hlog.of_content rfl rfl (fun _ hk => hk) fun k e he =>
      h.content_eq he fun d => hsame d _ ByteOwner.noConfusion⟩
  · cases ht

theorem Inv.step (h : Inv es s) (hlog : Logged es s) {a : Action} (hkept : s.Kept a)
    (ht : s.step a = some t) : ∃ es', Inv es' t ∧ Logged es' t := by
  cases a with
  | create k id fill => exact ⟨es, create_step h hlog hkept ht⟩
  | pack k => exact ⟨es, pack_step h hlog ht⟩
  | packBytes k bytes id fill => exact ⟨es, packBytes_step h hlog hkept ht⟩
  | run k node block => exact run_step h hlog hkept ht
  | runEnd k =>
      obtain ⟨sv, hk, rfl⟩ := Option.map_eq_some_iff.mp ht
      exact ⟨es, state_step h hlog hk true⟩
  | runFail k => exact runFail_step h hlog ht
  | push k data size data2 size2 node block => exact push_step h hlog hkept ht
  | pop k L behind => exact pop_step h hlog ht
  | stop k =>
      obtain ⟨sv, hk, ht⟩ := Option.bind_eq_some_iff.mp ht
      split at ht
      · cases ht
      · cases ht
        exact ⟨es, state_step h hlog hk false⟩
  | join k => exact join_step h hlog ht
  | write id bytes => exact ⟨es, write_step h hlog ht⟩

theorem Init.inv (h : s.Init) : Inv (fun _ => []) s where
  idle _ _ := rfl
  queue k sv hk := by
    rw [h.service] at hk
    cases hk
  count k sv hk := by
    rw [h.service] at hk
    cases hk
  ser k sv hk := by
    rw [h.service] at hk
    cases hk
  data _ _ he := absurd he List.not_mem_nil
  nodes := by
    refine ⟨fun n => ?_, fun n o o' ho => ?_⟩
    · rw [h.nodes]
      refine iff_of_false Bool.false_ne_true ?_
      rintro ⟨o, ho⟩
      cases o with
      | queue k => exact absurd ho List.not_mem_nil
      | lost => exact absurd (h.lost ▸ ho) List.not_mem_nil
    · cases o with
      | queue k => exact absurd ho List.not_mem_nil
      | lost => exact absurd (h.lost ▸ ho) List.not_mem_nil
  bytes := by
    have hheld : ∀ d o, s.ByteHeld d o ↔ o = .outside ∧ d ∈ s.outside := by
      intro d o
      cases o with
      | own k => simp [ByteHeld, h.service]
      | grown k => simp [ByteHeld, h.service]
      | message n => simp [ByteHeld, LinkedQueue.valueAt_eq_none (h.nodes n)]
      | outside => simp [ByteHeld]
    refine ⟨fun d => ?_, fun d o o' ho ho' => ?_⟩
    · simp only [hheld, exists_eq_left, h.bytes]
    · rw [((hheld d o).mp ho).1, ((hheld d o').mp ho').1]
  nodesOnce := ⟨h.nodesFreed ▸ List.nodup_nil, by simp [h.nodesFreed]⟩
  bytesOnce := ⟨h.bytesFreed ▸ List.nodup_nil, by simp [h.bytesFreed]⟩

/-- The accounts and the logs hold in every reachable state. -/
theorem inv (h : services.ReachableVia Services.Kept s) : ∃ es, Inv es s ∧ Logged es s := by
  induction h with
  | init hs =>
      refine ⟨_, Init.inv hs, fun k sv hk => ?_⟩
      rw [hs.service] at hk
      cases hk
  | step _ hkept ht ih =>
      obtain ⟨es, hinv, hlog⟩ := ih
      exact hinv.step hlog hkept ht

/-! ## The calls of one service -/

namespace Inv

theorem clean_eq (h : Inv es s) (hk : s.service k = some sv) :
    ∃ m sv', cleanSer s.heap sv = some (m, sv') := by
  obtain ⟨heap₀, hs⟩ := (h.ser k sv hk).2.holds h.bytesOnce
  obtain ⟨c, hclean, -⟩ := SerializeBuff.State.serializeClean_eq hs
  exact ⟨_, _, by rw [cleanSer, hclean, Option.map_some]⟩

theorem releaseNodes_eq (h : Inv es s) (hk : s.service k = some sv) (fuel : Nat)
    (hfuel : (es k).length ≤ fuel) :
    ∃ m, RandServer.releaseNodes fuel s.heap sv.head = some m := by
  induction fuel generalizing es s sv with
  | zero =>
      have hnil : es k = [] := List.length_eq_zero_iff.mp (Nat.le_zero.mp hfuel)
      rw [(h.queue k sv hk).head_eq_none_iff.mpr hnil]
      exact ⟨s.heap, rfl⟩
  | succ fuel ih =>
      have hq := h.queue k sv hk
      cases hes : es k with
      | nil =>
          rw [hq.head_eq_none_iff.mpr hes]
          exact ⟨s.heap, rfl⟩
      | cons e rest =>
          obtain ⟨id, v⟩ := e
          rw [hes] at hq hfuel
          obtain ⟨x, hlive, -⟩ := h.data k (id, v) (hes ▸ List.mem_cons_self)
          obtain ⟨next, nodes, bytes, hhead, hnode, hbytes, hnodes, -, hdeq⟩ := dequeue_eq hq hlive
          obtain ⟨m, hm⟩ := @ih _ _ _ (h.dequeue hk hes hdeq) (Function.update_self ..) (by
            rw [Function.update_self]
            exact Nat.le_of_succ_le_succ hfuel)
          refine ⟨m, ?_⟩
          rw [hhead] at hnode hnodes
          rw [hhead, RandServer.releaseNodes, hnode, Option.bind_some, hbytes, Option.bind_some,
            hnodes, Option.bind_some]
          exact hm

/-- The rounds that the count of the nodes allows are enough, and no block is released
twice. -/
theorem join_eq (h : Inv es s) (hk : s.service k = some sv) :
    ∃ m, luaServiceJoinAt s.heap sv = some m := by
  obtain ⟨m₁, sv₁, hclean⟩ := h.clean_eq hk
  have hinv₁ := (h.clean hk hclean).1
  have hcount := hinv₁.count k sv₁ (Function.update_self ..)
  obtain ⟨m₂, hrelease⟩ := hinv₁.releaseNodes_eq (Function.update_self ..) sv₁.nodeSize.toNat
    (by omega)
  obtain ⟨es', sv₂, hrel⟩ := hinv₁.releaseNodes (Function.update_self ..) hrelease
  have hk₂ : ((s.put k m₁ sv₁).cleaned k |>.put k m₂ sv₂).service k = some sv₂ :=
    Function.update_self ..
  obtain ⟨⟨d, hd⟩, -⟩ := hrel.inv.ser k sv₂ hk₂
  obtain ⟨x, hlive⟩ := hrel.inv.live_of_held (held_own hk₂ hd)
  obtain ⟨bytes, hfree, -⟩ := CheckedHeap.free_eq hlive
  refine ⟨{ m₂ with bytes := bytes }, ?_⟩
  have hfree' : m₂.bytes.free sv₁.ser.initBuff = some bytes := by
    rw [← hrel.ser, hd]
    exact hfree
  have hrelease' : RandServer.releaseNodes sv₁.nodeSize.toNat m₁ sv₁.head = some m₂ := hrelease
  rw [luaServiceJoinAt, hclean, Option.bind_some]
  simp only [hrelease', hfree', Option.bind_some, Option.map_some]

end Inv

/-- `es k` are the nodes in the queue of service `k`. -/
structure Accounts (s : Services) (es : Nat → List (Nat × MsgData)) : Prop where
  queue : ∀ k sv, s.service k = some sv → Queue s.heap.nodes sv.head sv.tail (es k)
  nodes : Exclusive (NodeHeld es s.lost) fun n => (s.heap.nodes.live n).isSome
  bytes : Exclusive s.ByteHeld fun d => (s.heap.bytes.live d).isSome
  once : s.heap.nodes.FreedOnce ∧ s.heap.bytes.FreedOnce
  calls : ∀ k sv, s.service k = some sv →
    (cleanSer s.heap sv).isSome ∧ (luaServiceJoinAt s.heap sv).isSome
  rest : (∀ k, s.service k = none) →
    (∀ n, (s.heap.nodes.live n).isSome ↔ n ∈ s.lost) ∧
    ∀ d, (s.heap.bytes.live d).isSome ↔ d ∈ s.outside ∨
      ∃ n ∈ s.lost, (valueAt s.heap.nodes n).map MsgData.data = some d

namespace Inv

theorem node_of_rest (h : Inv es s) (hnone : ∀ k, s.service k = none) (n : Nat) :
    (s.heap.nodes.live n).isSome ↔ n ∈ s.lost := by
  rw [h.nodes.held n]
  constructor
  · rintro ⟨o, ho⟩
    cases o with
    | queue k =>
        simp only [NodeHeld, h.idle k (hnone k), List.map_nil] at ho
        exact absurd ho List.not_mem_nil
    | lost => exact ho
  · exact fun hn => ⟨.lost, hn⟩

theorem byte_of_rest (h : Inv es s) (hnone : ∀ k, s.service k = none) (d : Nat) :
    (s.heap.bytes.live d).isSome ↔ d ∈ s.outside ∨
      ∃ n ∈ s.lost, (valueAt s.heap.nodes n).map MsgData.data = some d := by
  rw [h.bytes.held d]
  constructor
  · rintro ⟨o, ho⟩
    cases o with
    | own k =>
        obtain ⟨sv, hk, -⟩ := ho
        rw [hnone] at hk
        cases hk
    | grown k =>
        obtain ⟨sv, hk, -⟩ := ho
        rw [hnone] at hk
        cases hk
    | message n =>
        obtain ⟨v, hv, hd⟩ := ho
        refine .inr ⟨n, (h.node_of_rest hnone n).mp ?_, by rw [hv, Option.map_some, hd]⟩
        by_contra hdead
        rw [LinkedQueue.valueAt_eq_none (Option.not_isSome_iff_eq_none.mp hdead)] at hv
        cases hv
    | outside => exact .inl ho
  · rintro (hd | ⟨n, -, hv⟩)
    · exact ⟨.outside, hd⟩
    · obtain ⟨v, hv, hd⟩ := Option.map_eq_some_iff.mp hv
      exact ⟨.message n, v, hv, hd⟩

theorem accounts (h : Inv es s) : s.Accounts es where
  queue := h.queue
  nodes := h.nodes
  bytes := h.bytes
  once := ⟨h.nodesOnce, h.bytesOnce⟩
  calls k sv hk := by
    obtain ⟨m, sv', hclean⟩ := h.clean_eq hk
    obtain ⟨m', hjoin⟩ := h.join_eq hk
    rw [hclean, hjoin]
    exact ⟨rfl, rfl⟩
  rest hnone := ⟨h.node_of_rest hnone, h.byte_of_rest hnone⟩

end Inv

end Services

/-- Whatever the threads do, as long as their calls do not overlap, each node and each block of
bytes in use has one owner and none is released twice. Once all services are gone, only what Lua
errors and failed starts left behind remains. -/
theorem services_accounted {s : Services} (h : services.ReachableVia Services.Kept s) :
    ∃ es, s.Accounts es := by
  obtain ⟨es, hinv, -⟩ := Services.inv h
  exact ⟨es, hinv.accounts⟩

namespace Services

/-- The memory of the scripts holds a table with the key nil. -/
def scripts : Services where
  heap :=
    { nodes := { live := fun _ => none, freed := [] }
      bytes := { live := fun d => if d = 0 then some nilKey.mem else none, freed := [] } }
  service := fun _ => none
  serBuffSize := 1
  outside := [0]
  packed := fun _ => []
  accepted := fun _ => []
  taken := fun _ => []
  lost := []

theorem init_scripts : scripts.Init := by
  refine ⟨fun _ => rfl, fun _ => rfl, fun d => ?_, rfl, rfl, rfl⟩
  simp only [scripts, List.mem_singleton]
  by_cases hd : d = 0
  · rw [if_pos hd]
    exact iff_of_true rfl hd
  · rw [if_neg hd]
    exact iff_of_false Bool.false_ne_true hd

/-- A service packs more than its own buffer holds, gets a message that raises a Lua error
and is joined. -/
def raising : List Action :=
  [.create 0 1 fun _ => 0, .packBytes 0 [7, 8] 2 fun _ => 0,
    .push 0 (some 0) 4 none 0
      (some (5, fun _ => { value := { data := 0, size := 0 }, next := none }))
      (some (3, fun _ => 0)),
    .pop 0 { tables := [], userdata := [], metatables := [] } fun _ => [], .join 0]

end Services

theorem services_accounted_raise : ∃ s : Services, (s.lost = [5] ∧ s.heap.bytes.freed = [1, 2]) ∧
    ∃ es, s.Accounts es := by
  have hrun : (services.runVia Services.Kept Services.scripts Services.raising).map
      (fun s => (s.lost, s.heap.bytes.freed)) = some ([5], [1, 2]) := by decide +kernel
  obtain ⟨s, hrun, hlost⟩ := Option.map_eq_some_iff.mp hrun
  obtain ⟨hlost, hfreed⟩ := Prod.mk.inj hlost
  exact ⟨s, ⟨hlost, hfreed⟩, services_accounted (.runVia (.init Services.init_scripts) hrun)⟩

end RandServer
