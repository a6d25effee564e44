import RandServer.Lua.ServiceRuns

/-!
# Pointers to packed messages

`service:pack` answers with a pointer and a size, which a script passes on to another service.
Whoever pushes a message to the script's own service cleans its serializer, and releases the
block that the serializer has moved to. So the pointer stays valid as long as the message lies
in the service's own block or nobody pushes to the service.
-/

namespace RandServer

open LinkedQueue (Queue valueAt)

namespace Services

variable {es : Nat → List (Nat × MsgData)} {s t : Services} {k k' : Nat}
variable {sv sv' sv₁ sv₁' : LuaServiceAt} {m m' : ServiceHeap} {x : List UInt8} {id d : Nat}

/-- The script of service `k` does not pack again, and the service is not run or joined. -/
def Action.Leaves (k : Nat) : Action → Prop
  | .pack k' | .packBytes k' _ _ _ | .run k' _ _ | .runFail k' | .join k' => k' ≠ k
  | _ => True

/-- The serializer of service `k` with its blocks is left as it is. -/
structure Spared (s : Services) (k : Nat) (sv : LuaServiceAt) (t : Services) : Prop where
  service : ∃ sv', t.service k = some sv' ∧ sv'.ser = sv.ser
  packed : t.packed k = s.packed k
  accepted : t.accepted k = s.accepted k
  blocks : ∀ d o, o = .own k ∨ o = .grown k → s.ByteHeld d o →
    t.heap.bytes.live d = s.heap.bytes.live d

/-- Service `k` accepts a message, and its serializer is cleaned. -/
structure Emptied (s : Services) (k : Nat) (sv : LuaServiceAt) (t : Services) : Prop where
  service : ∃ sv', t.service k = some sv' ∧ sv'.ser.initBuff = sv.ser.initBuff ∧
    sv'.ser.data = sv'.ser.initBuff
  accepted : ∃ x, t.accepted k = s.accepted k ++ [x]
  own : ∀ d, s.ByteHeld d (.own k) → t.heap.bytes.live d = s.heap.bytes.live d
  grown : ∀ d, Grown sv.ser d → d ∈ t.heap.bytes.freed

/-- A call on another service, or one that leaves the serializer alone. -/
theorem Spared.of_put (hk : s.service k = some sv) (hsv : k' = k → sv'.ser = sv.ser)
    (ht : t.service = Function.update s.service k' (some sv')) (hpacked : t.packed k = s.packed k)
    (haccepted : t.accepted k = s.accepted k)
    (hblocks : ∀ d o, o = .own k ∨ o = .grown k → s.ByteHeld d o →
      t.heap.bytes.live d = s.heap.bytes.live d) : Spared s k sv t := by
  refine ⟨?_, hpacked, haccepted, hblocks⟩
  rw [ht]
  by_cases heq : k' = k
  · exact ⟨sv', by rw [heq, Function.update_self], hsv heq⟩
  · exact ⟨sv, by rw [Function.update_of_ne (Ne.symm heq), hk], rfl⟩

/-! ## Blocks that were released -/

theorem free_freed {heap heap' : CheckedHeap UInt8} {p : Option Nat}
    (ht : heap.free p = some heap') : heap.freed ⊆ heap'.freed := by
  cases p with
  | none =>
      cases ht
      exact List.Subset.refl _
  | some d =>
      rw [CheckedHeap.free] at ht
      split at ht
      · cases ht
        exact List.subset_cons_self ..
      · cases ht

theorem store_freed {heap heap' : CheckedHeap UInt8} {p : Option Nat} {off : Nat}
    {xs : List UInt8} (ht : heap.store p off xs = some heap') : heap'.freed = heap.freed := by
  obtain ⟨ys, -, ht⟩ := Option.bind_eq_some_iff.mp ht
  split at ht
  · cases p with
    | none =>
        cases ht
        rfl
    | some d =>
        cases ht
        rfl
  · cases ht

theorem malloc_freed (heap : CheckedHeap UInt8) (size : Nat) (answer : Answer UInt8) :
    (heap.malloc size answer).1.freed = heap.freed := by
  cases answer with
  | none => rfl
  | some p => rfl

theorem realloc_freed {heap heap' : CheckedHeap UInt8} {p q : Option Nat} {size : Nat}
    {answer : Answer UInt8} (ht : heap.realloc p size answer = some (heap', q)) :
    heap.freed ⊆ heap'.freed := by
  cases answer with
  | none =>
      cases ht
      exact List.Subset.refl _
  | some a =>
      obtain ⟨old, -, ht⟩ := Option.bind_eq_some_iff.mp ht
      dsimp only at ht
      split at ht
      · cases ht
        exact List.Subset.refl _
      · obtain ⟨mid, hfree, heq⟩ := Option.map_eq_some_iff.mp ht
        cases heq
        have hmid := free_freed hfree
        exact hmid

theorem checkSerializePack_freed {c c' : SerializeBuff.State} {answer : Answer UInt8}
    {addSize : Nat} {failed : Int}
    (ht : SerializeBuff.checkSerializePack c answer addSize = some (c', failed)) :
    c.heap.freed ⊆ c'.heap.freed := by
  simp only [SerializeBuff.checkSerializePack] at ht
  split at ht
  · cases ht
    exact List.Subset.refl _
  split at ht
  · -- back to the first block
    split at ht
    · simp only [Option.bind_eq_bind, Option.bind_eq_some_iff] at ht
      obtain ⟨xs, -, heap, hstore, heap', hfree, heq⟩ := ht
      cases heq
      exact store_freed hstore ▸ free_freed hfree
    · cases ht
      exact List.Subset.refl _
  · -- to a new block
    split at ht
    · simp only [Option.bind_eq_bind, Option.bind_eq_some_iff] at ht
      obtain ⟨xs, -, heap, hstore, ⟨heap', data⟩, hpair, heq⟩ := ht
      obtain rfl : heap = heap' := (Prod.mk.inj (Option.some.inj hpair)).1
      have hfreed : heap.freed = c.heap.freed := (store_freed hstore).trans (malloc_freed ..)
      cases data with
      | none =>
          cases heq
          exact hfreed ▸ List.Subset.refl _
      | some id =>
          cases heq
          exact hfreed ▸ List.Subset.refl _
    · simp only [Option.bind_eq_bind, Option.bind_eq_some_iff] at ht
      obtain ⟨⟨heap, data⟩, hrealloc, heq⟩ := ht
      cases data with
      | none =>
          cases heq
          exact realloc_freed hrealloc
      | some id =>
          cases heq
          exact realloc_freed hrealloc

theorem serializePackBytes_freed {c c' : SerializeBuff.State} {answer : Answer UInt8}
    {bytes : List UInt8} {ret : Int}
    (ht : SerializeBuff.serializePackBytes c answer bytes = some (c', ret)) :
    c.heap.freed ⊆ c'.heap.freed := by
  rw [SerializeBuff.serializePackBytes] at ht
  split at ht
  · cases ht
    exact List.Subset.refl _
  obtain ⟨⟨mid, failed⟩, hcheck, ht⟩ := Option.bind_eq_some_iff.mp ht
  have hmid := checkSerializePack_freed hcheck
  dsimp only at ht
  split at ht
  · cases ht
    exact hmid
  · obtain ⟨heap, hstore, heq⟩ := Option.bind_eq_some_iff.mp ht
    cases heq
    rw [store_freed hstore]
    exact hmid

/-! ## One action -/

/-- What an action that leaves service `k` alone does to its serializer. -/
def Effect (s : Services) (k : Nat) (sv : LuaServiceAt) (t : Services) : Prop :=
  (Spared s k sv t ∨ Emptied s k sv t) ∧ s.heap.bytes.freed ⊆ t.heap.bytes.freed

/-- The blocks of the serializer belong to no other service. -/
theorem other_owner {o : ByteOwner} (ho : o = .own k ∨ o = .grown k) (hne : k' ≠ k) :
    o ≠ .own k' ∧ o ≠ .grown k' := by
  rcases ho with rfl | rfl
  · exact ⟨fun heq => hne (ByteOwner.own.inj heq).symm, ByteOwner.noConfusion⟩
  · exact ⟨ByteOwner.noConfusion, fun heq => hne (ByteOwner.grown.inj heq).symm⟩

theorem not_message {o : ByteOwner} (ho : o = .own k ∨ o = .grown k) (n : Nat) :
    o ≠ .message n := by
  rcases ho with rfl | rfl
  · exact ByteOwner.noConfusion
  · exact ByteOwner.noConfusion

theorem not_outside {o : ByteOwner} (ho : o = .own k ∨ o = .grown k) : o ≠ .outside := by
  rcases ho with rfl | rfl
  · exact ByteOwner.noConfusion
  · exact ByteOwner.noConfusion

/-- Cleaning a serializer leaves alone what others have. -/
theorem cleaned_blocks (h : Inv es s) (hk' : s.service k' = some sv₁) (hser : sv'.ser = sv₁.ser)
    (hcleaned : Cleaned m sv' m' sv₁') {o : ByteOwner} (hne : o ≠ .grown k')
    (hd : s.ByteHeld d o) : m'.bytes.live d = m.bytes.live d := by
  refine hcleaned.bytes d fun hg => ?_
  rw [hser] at hg
  exact h.bytes.not_holds hd hne (show s.ByteHeld d (.grown k') from ⟨sv₁, hk', hg⟩)

namespace Effect

/-- A call that does not use the serializer. -/
theorem of_ser (hk : s.service k = some sv) (hk' : s.service k' = some sv₁)
    (hser : sv'.ser = sv₁.ser) (ht : t.service = Function.update s.service k' (some sv'))
    (hpacked : t.packed = s.packed) (haccepted : t.accepted = s.accepted)
    (hblocks : ∀ d o, o = .own k ∨ o = .grown k → s.ByteHeld d o →
      t.heap.bytes.live d = s.heap.bytes.live d)
    (hfreed : s.heap.bytes.freed ⊆ t.heap.bytes.freed) : Effect s k sv t := by
  refine ⟨.inl (.of_put hk (fun heq => ?_) ht (by rw [hpacked]) (by rw [haccepted]) hblocks),
    hfreed⟩
  subst heq
  rw [hser, Option.some.inj (hk'.symm.trans hk)]

theorem create (h : Inv es s) (hk : s.service k = some sv) {fill : Nat → UInt8}
    (hkept : s.heap.bytes.Fresh id) (ht : s.step (.create k' id fill) = some t) :
    Effect s k sv t := by
  cases hk' : s.service k' with
  | some sv₁ =>
      simp only [step, hk'] at ht
      cases ht
  | none =>
      simp only [step, hk', luaServiceCCreateHelp, CheckedHeap.malloc, Option.some.injEq] at ht
      subst ht
      have hne : k' ≠ k := by
        rintro rfl
        rw [hk] at hk'
        cases hk'
      exact ⟨.inl (.of_put hk (fun heq => absurd heq hne) rfl (Function.update_of_ne hne.symm ..)
        (Function.update_of_ne hne.symm ..) fun d o _ hd =>
          CheckedHeap.put_live_of_ne (h.ne_of_fresh hkept hd)), List.Subset.refl _⟩

theorem pack (h : Inv es s) (hk : s.service k = some sv) (hne : k' ≠ k)
    (ht : s.step (.pack k') = some t) : Effect s k sv t := by
  obtain ⟨sv₁, hk', ht⟩ := Option.bind_eq_some_iff.mp ht
  obtain ⟨⟨m, sv'⟩, hclean, rfl⟩ := Option.map_eq_some_iff.mp ht
  exact ⟨.inl (.of_put hk (fun heq => absurd heq hne) rfl (Function.update_of_ne hne.symm ..) rfl
    fun d o ho => (h.clean hk' hclean).2 d o (other_owner ho hne).2),
    (cleanSer_cleaned hclean).freed⟩

theorem packBytes (h : Inv es s) (hk : s.service k = some sv) (hne : k' ≠ k) {bytes : List UInt8}
    {fill : Nat → UInt8} (hkept : s.Kept (.packBytes k' bytes id fill))
    (ht : s.step (.packBytes k' bytes id fill) = some t) : Effect s k sv t := by
  obtain ⟨sv₁, hk', ht⟩ := Option.bind_eq_some_iff.mp ht
  obtain ⟨⟨c, ret⟩, hpack, rfl⟩ := Option.map_eq_some_iff.mp ht
  have hsame := (h.packBytes_eq hk' hkept hpack).2
  exact ⟨.inl (.of_put hk (fun heq => absurd heq hne) rfl (Function.update_of_ne hne.symm ..) rfl
    fun d o ho => hsame d o (other_owner ho hne).1 (other_owner ho hne).2),
    serializePackBytes_freed hpack⟩

/-- A message is queued and the serializer of its service cleaned. -/
theorem accept (h : Inv es s) (hk : s.service k = some sv) (hk' : s.service k' = some sv₁)
    (henq : Enqueued s.heap sv₁ (es k') id d x m sv') (hclean : cleanSer m sv' = some (m', sv₁')) :
    Effect s k sv (((s.put k' m' sv₁').cleaned k').accept k' x) := by
  have hcleaned := cleanSer_cleaned hclean
  have hser : sv'.ser = sv₁.ser := by rw [henq.service]
  have hblocks : ∀ d o, o ≠ .grown k' → s.ByteHeld d o →
      m'.bytes.live d = s.heap.bytes.live d := fun d o hne hd =>
    (cleaned_blocks h hk' hser hcleaned hne hd).trans (h.enqueued_same henq hd)
  refine ⟨?_, henq.bytesFreed ▸ hcleaned.freed⟩
  by_cases heq : k' = k
  · subst heq
    obtain rfl : sv₁ = sv := Option.some.inj (hk'.symm.trans hk)
    refine .inr ⟨⟨sv₁', Function.update_self .., ?_, hcleaned.data⟩, ⟨x, Function.update_self ..⟩,
      fun d hd => hblocks d _ ByteOwner.noConfusion hd, fun d hg => hcleaned.grown d (hser ▸ hg)⟩
    rw [hcleaned.init, hser]
  · exact .inl (.of_put hk (fun h => absurd h heq) rfl (Function.update_of_ne (Ne.symm heq) ..)
      (Function.update_of_ne (Ne.symm heq) ..) fun d o ho => hblocks d o (other_owner ho heq).2)

theorem run (h : Inv es s) (hk : s.service k = some sv) (hne : k' ≠ k) {node : Answer MsgNode}
    {block : Answer UInt8} (hkept : s.Kept (.run k' node block))
    (ht : s.step (.run k' node block) = some t) : Effect s k sv t := by
  obtain ⟨sv₁, hk', ht⟩ := Option.bind_eq_some_iff.mp ht
  obtain ⟨⟨p, m, sv'⟩, hcreate, ht⟩ := Option.bind_eq_some_iff.mp ht
  obtain ⟨⟨m', sv₁'⟩, hclean, rfl⟩ := Option.map_eq_some_iff.mp ht
  rcases h.run_cases hk' hkept hcreate with ⟨rfl, href⟩ | ⟨id, d, rfl, henq⟩
  · have hcleaned := cleanSer_cleaned hclean
    refine ⟨.inl (.of_put hk (fun heq => absurd heq hne) rfl (Function.update_of_ne hne.symm ..) rfl
      fun d o ho hd => ?_), href.bytes ▸ hcleaned.freed⟩
    rw [← href.bytes]
    exact cleaned_blocks h hk' (by rw [href.service]) hcleaned (other_owner ho hne).2 hd
  · exact accept h hk hk' henq hclean

theorem push (h : Inv es s) (hk : s.service k = some sv) {data data2 : Option Nat}
    {size size2 : Nat} {node : Answer MsgNode} {block : Answer UInt8}
    (hkept : s.Kept (.push k' data size data2 size2 node block))
    (ht : s.step (.push k' data size data2 size2 node block) = some t) : Effect s k sv t := by
  obtain ⟨sv₁, hk', ht⟩ := Option.bind_eq_some_iff.mp ht
  obtain ⟨⟨ok, m, sv'⟩, hpush, rfl⟩ := Option.map_eq_some_iff.mp ht
  obtain ⟨-, ⟨rfl, href⟩ | ⟨rfl, -, id, d, m₁, sv₁', henq, hclean⟩⟩ :=
    luaServicePushDataAt_cases (h.queue k' sv₁ hk') hkept.1 hkept.2 hpush
  · exact of_ser hk hk' (by rw [href.service]) rfl rfl rfl
      (fun d _ _ _ => congrFun (congrArg _ href.bytes) d) (href.bytes ▸ List.Subset.refl _)
  · exact accept h hk hk' henq hclean

theorem pop (h : Inv es s) (hk : s.service k = some sv) {L : LuaState} {behind : Nat → List UInt8}
    (ht : s.step (.pop k' L behind) = some t) : Effect s k sv t := by
  obtain ⟨sv₁, hk', ht⟩ := Option.bind_eq_some_iff.mp ht
  obtain ⟨⟨m, sv', L', values, raised⟩, hpop, rfl⟩ := Option.map_eq_some_iff.mp ht
  obtain ⟨-, ⟨rfl, rfl, -⟩ | ⟨-, id, v, rest, hes, ⟨-, hdeq⟩ | ⟨-, rfl, next, tail, -, rfl⟩⟩⟩ :=
    luaServicePopMsgAt_cases (h.queue k' sv₁ hk') (h.data k') hpop
  · exact of_ser hk hk' rfl rfl rfl rfl (fun _ _ _ _ => rfl) (List.Subset.refl _)
  · refine of_ser hk hk' hdeq.service.1 rfl rfl rfl
      (fun d o ho => h.dequeued_same hes hdeq (not_message ho id)) ?_
    have hfreed : m.bytes.freed = v.data :: s.heap.bytes.freed := hdeq.bytesFreed
    exact hfreed ▸ List.subset_cons_self ..
  · refine of_ser hk hk' ?_ rfl rfl rfl (fun _ _ _ _ => rfl) (List.Subset.refl _)
    rfl

theorem join (h : Inv es s) (hk : s.service k = some sv) (hne : k' ≠ k)
    (ht : s.step (.join k') = some t) : Effect s k sv t := by
  obtain ⟨sv₁, hk', ht⟩ := Option.bind_eq_some_iff.mp ht
  obtain ⟨m, hjoin, rfl⟩ := Option.map_eq_some_iff.mp ht
  obtain ⟨⟨m₁, sv₁'⟩, hclean, hjoin⟩ := Option.bind_eq_some_iff.mp hjoin
  obtain ⟨m₂, hrelease, hjoin⟩ := Option.bind_eq_some_iff.mp hjoin
  obtain ⟨bytes, hfree, rfl⟩ := Option.map_eq_some_iff.mp hjoin
  have hcleaned := cleanSer_cleaned hclean
  obtain ⟨es', sv₂, hrel⟩ := (h.clean hk' hclean).1.releaseNodes (Function.update_self ..) hrelease
  have hdrop := (hrel.inv.drop (Function.update_self ..)
    (hrel.ser.symm ▸ hcleaned.data) (hrel.ser.symm ▸ hfree)).2
  refine ⟨.inl ⟨⟨sv, (Function.update_of_ne hne.symm ..).trans hk, rfl⟩, rfl, rfl,
    fun d o ho hd => ?_⟩,
    List.Subset.trans hcleaned.freed (List.Subset.trans hrel.freed (free_freed hfree))⟩
  obtain ⟨hown, hgrown⟩ := other_owner ho hne
  have hmessage := not_message ho
  have hd₁ : ((s.put k' m₁ sv₁').cleaned k').ByteHeld d o :=
    (byteHeld_put hk' hcleaned.init (fun heq => absurd heq hgrown)
      fun n hn => absurd hn (hmessage n)).mpr hd
  have hd₂ : (((s.put k' m₁ sv₁').cleaned k').put k' m₂ sv₂).ByteHeld d o :=
    (byteHeld_put (Function.update_self ..) (by rw [hrel.ser]) (fun _ => by rw [hrel.ser])
      fun n hn => absurd hn (hmessage n)).mpr hd₁
  exact (hdrop d o hown hd₂).trans ((hrel.blocks d o hmessage hd₁).trans
    ((h.clean hk' hclean).2 d o hgrown hd))

theorem runFail (h : Inv es s) (hk : s.service k = some sv) (hne : k' ≠ k)
    (ht : s.step (.runFail k') = some t) : Effect s k sv t := by
  obtain ⟨sv₁, hk', ht⟩ := Option.bind_eq_some_iff.mp ht
  simp only [ne_eq, ite_not, Option.ite_none_right_eq_some] at ht
  obtain ⟨hdata, ht⟩ := ht
  obtain ⟨bytes, hfree, rfl⟩ := Option.map_eq_some_iff.mp ht
  have hsame := (h.drop hk' hdata hfree).2
  exact ⟨.inl ⟨⟨sv, (Function.update_of_ne hne.symm ..).trans hk, rfl⟩, rfl, rfl,
    fun d o ho => hsame d o (other_owner ho hne).1⟩, free_freed hfree⟩

theorem write (h : Inv es s) (hk : s.service k = some sv) {bytes : List UInt8}
    (ht : s.step (.write id bytes) = some t) : Effect s k sv t := by
  simp only [step] at ht
  split at ht
  · rename_i hid
    obtain ⟨heap, hstore, rfl⟩ := Option.map_eq_some_iff.mp ht
    have hsame := (h.write hid hstore).2
    exact ⟨.inl ⟨⟨sv, hk, rfl⟩, rfl, rfl, fun d o ho => hsame d o (not_outside ho)⟩,
      store_freed hstore ▸ List.Subset.refl _⟩
  · cases ht

theorem step (h : Inv es s) (hk : s.service k = some sv) {a : Action} (hkept : s.Kept a)
    (hleaves : a.Leaves k) (ht : s.step a = some t) : Effect s k sv t := by
  cases a with
  | create k' id fill => exact create h hk hkept ht
  | pack k' => exact pack h hk hleaves ht
  | packBytes k' bytes id fill => exact packBytes h hk hleaves hkept ht
  | run k' node block => exact run h hk hleaves hkept ht
  | runEnd k' =>
      obtain ⟨sv₁, hk', rfl⟩ := Option.map_eq_some_iff.mp ht
      refine of_ser hk hk' ?_ rfl rfl rfl (fun _ _ _ _ => rfl) (List.Subset.refl _)
      rfl
  | runFail k' => exact runFail h hk hleaves ht
  | push k' data size data2 size2 node block => exact push h hk hkept ht
  | pop k' L behind => exact pop h hk ht
  | stop k' =>
      obtain ⟨sv₁, hk', ht⟩ := Option.bind_eq_some_iff.mp ht
      split at ht
      · cases ht
      · cases ht
        refine of_ser hk hk' ?_ rfl rfl rfl (fun _ _ _ _ => rfl) (List.Subset.refl _)
        rfl
  | join k' => exact join h hk hleaves ht
  | write id bytes => exact write h hk ht

end Effect

/-! ## Runs -/

/-- What has become of the serializer that service `k` had in `s`. -/
structure Since (s : Services) (k : Nat) (sv : LuaServiceAt) (t : Services) : Prop where
  service : ∃ sv', t.service k = some sv' ∧ sv'.ser.initBuff = sv.ser.initBuff
  own : sv.ser.data = sv.ser.initBuff →
    t.heap.bytes.cells sv.ser.data = s.heap.bytes.cells sv.ser.data
  moved : ∀ d, Grown sv.ser d →
    t.accepted k = s.accepted k ∧ t.heap.bytes.live d = s.heap.bytes.live d ∧
      (∃ sv', t.service k = some sv' ∧ sv'.ser = sv.ser) ∨
    (s.accepted k).length < (t.accepted k).length ∧ d ∈ t.heap.bytes.freed

theorem Since.refl (hk : s.service k = some sv) : Since s k sv s where
  service := ⟨sv, hk, rfl⟩
  own _ := rfl
  moved _ _ := .inl ⟨rfl, rfl, sv, hk, rfl⟩

theorem Effect.own (h : Effect s k sv t) (hd : s.ByteHeld d (.own k)) :
    t.heap.bytes.live d = s.heap.bytes.live d :=
  h.1.elim (fun hspared => hspared.blocks d _ (.inl rfl) hd) fun hemptied => hemptied.own d hd

theorem Effect.service (h : Effect s k sv t) :
    ∃ sv', t.service k = some sv' ∧ sv'.ser.initBuff = sv.ser.initBuff := by
  rcases h.1 with hspared | hemptied
  · obtain ⟨sv', hk', hser⟩ := hspared.service
    exact ⟨sv', hk', by rw [hser]⟩
  · obtain ⟨sv', hk', hinit, -⟩ := hemptied.service
    exact ⟨sv', hk', hinit⟩

theorem Effect.accepted_le (h : Effect s k sv t) :
    (s.accepted k).length ≤ (t.accepted k).length := by
  rcases h.1 with hspared | hemptied
  · rw [hspared.accepted]
  · obtain ⟨x, hx⟩ := hemptied.accepted
    rw [hx, List.length_append]
    exact Nat.le_add_right ..

theorem Since.step {u : Services} (h : Since s k sv u) (hinv : Inv es u)
    (hu : u.service k = some sv₁) (heffect : Effect u k sv₁ t) : Since s k sv t := by
  obtain ⟨sv₂, hu', hinit⟩ := h.service
  obtain rfl : sv₂ = sv₁ := Option.some.inj (hu'.symm.trans hu)
  obtain ⟨⟨d₀, hd₀⟩, -⟩ := hinv.ser k sv₂ hu
  refine ⟨?_, fun hdata => ?_, fun d hd => ?_⟩
  · obtain ⟨sv', hk', hinit'⟩ := heffect.service
    exact ⟨sv', hk', hinit'.trans hinit⟩
  · rw [← h.own hdata, hdata, ← hinit, hd₀]
    exact heffect.own (Inv.held_own hu hd₀)
  rcases h.moved d hd with ⟨haccepted, hlive, sv', hk', hser⟩ | ⟨hlt, hfreed⟩
  · obtain rfl : sv' = sv₂ := Option.some.inj (hk'.symm.trans hu)
    have hgrown : Grown sv'.ser d := hser.symm ▸ hd
    rcases heffect.1 with hspared | hemptied
    · obtain ⟨sv₃, hk₃, hser₃⟩ := hspared.service
      refine .inl ⟨hspared.accepted.trans haccepted, ?_, sv₃, hk₃, hser₃.trans hser⟩
      exact (hspared.blocks d _ (.inr rfl) ⟨sv', hu, hgrown⟩).trans hlive
    · obtain ⟨x, hx⟩ := hemptied.accepted
      refine .inr ⟨?_, hemptied.grown d hgrown⟩
      rw [hx, haccepted, List.length_append, List.length_singleton]
      exact Nat.lt_succ_self _
  · exact .inr ⟨hlt.trans_le heffect.accepted_le, heffect.2 hfreed⟩

theorem since (h : services.ReachableVia Services.Kept s) (hk : s.service k = some sv)
    (hrun : (services.startingAt s).ReachableVia (fun u a => u.Kept a ∧ a.Leaves k) t) :
    Since s k sv t := by
  induction hrun with
  | init ht =>
      obtain rfl : _ = s := ht
      exact .refl hk
  | step hreach hok hstep ih =>
      obtain ⟨es, hinv, -⟩ := inv (h.trans (hreach.mono fun _ _ => And.left))
      obtain ⟨sv₁, hu, -⟩ := ih.service
      exact ih.step hinv hu (.step hinv hu hok.1 hok.2 hstep)

end Services

/-- As long as its script does not pack again and calls do not overlap, what a service has packed
can be read through the returned pointer exactly if it lies in the service's own block or nobody
has pushed a message to the service. -/
theorem packed_survives_iff {s t : Services} (h : services.ReachableVia Services.Kept s) {k : Nat}
    {sv : LuaServiceAt} (hk : s.service k = some sv)
    (hrun : (services.startingAt s).ReachableVia (fun u a => u.Kept a ∧ a.Leaves k) t) :
    t.heap.bytes.load sv.ser.data sv.ser.size = some (s.packed k) ↔
      sv.ser.data = sv.ser.initBuff ∨ t.accepted k = s.accepted k := by
  have hsince := Services.since h hk hrun
  obtain ⟨es, hinv, -⟩ := Services.inv h
  obtain ⟨es', hinv', -⟩ := Services.inv (h.trans (hrun.mono fun _ _ => And.left))
  have hstands := (hinv.ser k sv hk).2
  by_cases hdata : sv.ser.data = sv.ser.initBuff
  · rw [load_congr (hsince.own hdata)]
    exact iff_of_true hstands.load (.inl hdata)
  obtain ⟨d, hgrown, -⟩ := hstands.place.resolve_left hdata
  rcases hsince.moved d hgrown with ⟨haccepted, hlive, -⟩ | ⟨hlt, hfreed⟩
  · refine iff_of_true ?_ (.inr haccepted)
    have hcells : t.heap.bytes.cells sv.ser.data = s.heap.bytes.cells sv.ser.data := by
      rw [hgrown.1]
      exact hlive
    rw [load_congr hcells]
    exact hstands.load
  · refine iff_of_false (fun hload => ?_) ?_
    · -- the block is not in use any more
      have hdead : t.heap.bytes.cells sv.ser.data = none := by
        rw [hgrown.1]
        exact hinv'.bytesOnce.dead d hfreed
      rw [CheckedHeap.load, hdead] at hload
      cases hload
    · rintro (heq | haccepted)
      · exact hdata heq
      · rw [haccepted] at hlt
        exact Nat.lt_irrefl _ hlt

namespace Services

/-- A service packs more than its own block holds. -/
def packing : List Action :=
  [.create 0 1 fun _ => 0, .packBytes 0 [7, 8] 2 fun _ => 0]

/-- A script pushes a message to it. -/
def pushing : Action :=
  .push 0 (some 0) 1 none 0
    (some (5, fun _ => { value := { data := 0, size := 0 }, next := none }))
    (some (3, fun _ => 0))

end Services

/-- A message that comes in between takes the packed one away. -/
theorem packed_survives_iff_lost : ∃ s t : Services, ∃ sv : LuaServiceAt,
    s.service 0 = some sv ∧ s.packed 0 = [7, 8] ∧ services.step s Services.pushing = some t ∧
      t.heap.bytes.load sv.ser.data sv.ser.size ≠ some (s.packed 0) := by
  have hrun : (services.runVia Services.Kept Services.scripts Services.packing).bind (fun s =>
      (s.service 0).bind fun sv => (services.step s Services.pushing).map fun t =>
        (s.packed 0, decide (s.Kept Services.pushing), decide (sv.ser.data = sv.ser.initBuff),
          decide (t.accepted 0 = s.accepted 0))) = some ([7, 8], true, false, false) := by
    decide +kernel
  obtain ⟨s, hrun, hrest⟩ := Option.bind_eq_some_iff.mp hrun
  obtain ⟨sv, hk, hrest⟩ := Option.bind_eq_some_iff.mp hrest
  obtain ⟨t, hstep, hend⟩ := Option.map_eq_some_iff.mp hrest
  simp only [Prod.mk.injEq, decide_eq_true_eq, decide_eq_false_iff_not] at hend
  obtain ⟨hpacked, hkept, hdata, haccepted⟩ := hend
  have hreach : services.ReachableVia Services.Kept s :=
    .runVia (.init Services.init_scripts) hrun
  refine ⟨s, t, sv, hk, hpacked, hstep, fun hload => ?_⟩
  rcases (packed_survives_iff hreach hk
    (.step (i := Services.pushing) (.init rfl) ⟨hkept, trivial⟩ hstep)).mp hload with h | h
  · exact hdata h
  · exact haccepted h

end RandServer
