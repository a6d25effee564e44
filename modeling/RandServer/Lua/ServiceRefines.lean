import RandServer.Lua.ServiceRuns

/-!
# The queue of a service as a list

On the heap, a service has its messages in linked nodes, each with a block of data. The list
of their contents is the state that `luaServicePushData` and `luaServicePopMsg` work on. In
every reachable state the functions on the heap do to this list what those do.
-/

namespace RandServer

open LinkedQueue (Queue valueAt)

/-- The service on the heap has the messages of `q`, each in front of the memory that
`behind` gives for its block. -/
structure LuaServiceAt.Represents (m : ServiceHeap) (behind : Nat → List UInt8)
    (sv : LuaServiceAt) (q : LuaService) : Prop where
  flag : q.flag = sv.flag
  state : q.state = sv.state
  nodeSize : q.nodeSize = sv.nodeSize
  nodes : ∃ es, Queue m.nodes sv.head sv.tail es ∧
    List.Forall₂ (fun e inp => ∃ x, m.bytes.live e.2.data = some x ∧ x.length = e.2.size ∧
      inp = msgNode x [] (behind e.2.data)) es q.nodes

/-- Two pops end alike. -/
structure SamePop (behind : Nat → List UInt8) (r : PopEndAt) (r' : PopEnd) : Prop where
  service : r.service.Represents r.heap behind r'.service
  lua : r.lua = r'.lua
  values : r.values = r'.values
  raised : r.raised = r'.raised

/-- Two pushes end alike. -/
def SamePush (behind : Nat → List UInt8) (r : Bool × ServiceHeap × LuaServiceAt)
    (r' : Bool × LuaService) : Prop :=
  r.1 = r'.1 ∧ r.2.2.Represents r.2.1 behind r'.2

/-- The bytes of a message, without the memory behind it. -/
def Input.bytes (inp : Input) : List UInt8 := inp.mem.take inp.size

namespace Services

variable {es : Nat → List (Nat × MsgData)} {s t : Services} {k : Nat} {sv sv' : LuaServiceAt}
variable {m m' : ServiceHeap} {x xs ys : List UInt8} {id d : Nat} {behind : Nat → List UInt8}
variable {data data2 : Option Nat} {size size2 : Nat} {node : Answer MsgNode}
variable {block : Answer UInt8}

/-- The list of the messages `es`. -/
def asList (m : ServiceHeap) (behind : Nat → List UInt8) (sv : LuaServiceAt)
    (es : List (Nat × MsgData)) : LuaService where
  flag := sv.flag
  state := sv.state
  nodeSize := sv.nodeSize
  nodes := es.map fun e => msgNode (content m e) [] (behind e.2.data)

theorem asList_bytes (es : List (Nat × MsgData)) :
    (asList m behind sv es).nodes.map Input.bytes = es.map (content m) := by
  simp only [asList, List.map_map]
  refine List.map_congr_left fun e _ => ?_
  simp only [Function.comp_apply, Input.bytes, msgNode, List.append_nil, List.length_nil,
    Nat.add_zero]
  exact List.take_left

theorem Inv.represents (h : Inv es s) (hk : s.service k = some sv) (behind : Nat → List UInt8) :
    sv.Represents s.heap behind (asList s.heap behind sv (es k)) := by
  refine ⟨rfl, rfl, rfl, es k, h.queue k sv hk, ?_⟩
  simp only [asList, List.forall₂_map_right_iff, List.forall₂_same]
  intro e he
  obtain ⟨x, hlive, hlen⟩ := h.data k e he
  refine ⟨x, hlive, hlen, ?_⟩
  rw [content, hlive, Option.getD_some]

/-! ## Popping -/

/-- A service that is stopped or has no message is left as it is. -/
theorem luaServicePopMsg_idle {q : LuaService} (hflag : q.flag = false)
    (hidle : q.state = false ∨ q.nodes = []) (L : LuaState) :
    luaServicePopMsg q L =
      some { service := q, lua := L, values := [], raised := false } := by
  rw [luaServicePopMsg, luaServicePopMsgWith, if_neg (Bool.eq_false_iff.mp hflag)]
  by_cases hstate : q.state = false
  · rw [if_pos hstate]
  · rw [if_neg hstate, hidle.resolve_left hstate]

theorem pop_refines (h : Inv es s) (hk : s.service k = some sv) (L : LuaState) :
    Option.Rel (SamePop behind) (luaServicePopMsgAt s.heap sv L behind)
      (luaServicePopMsg (asList s.heap behind sv (es k)) L) := by
  have hq := h.queue k sv hk
  by_cases hflag : sv.flag = true
  · rw [luaServicePopMsgAt, if_pos hflag, luaServicePopMsg, luaServicePopMsgWith, asList,
      if_pos hflag]
    exact .none
  have hflag := Bool.eq_false_of_not_eq_true hflag
  by_cases hidle : sv.state = false ∨ es k = []
  · rw [luaServicePopMsgAt_idle hq hflag hidle]
    have hlist : (asList s.heap behind sv (es k)).state = false ∨
        (asList s.heap behind sv (es k)).nodes = [] :=
      hidle.imp_right fun hnil => by rw [asList, hnil, List.map_nil]
    rw [luaServicePopMsg_idle hflag hlist]
    exact .some ⟨h.represents hk behind, rfl, rfl, rfl⟩
  obtain ⟨hstate, hne⟩ := not_or.mp hidle
  have hstate := Bool.eq_true_of_not_eq_false hstate
  obtain ⟨⟨id, v⟩, rest, hes⟩ := List.exists_cons_of_ne_nil hne
  rw [hes] at hq
  obtain ⟨x, hlive, hlen⟩ := h.data k (id, v) (hes ▸ List.mem_cons_self)
  obtain ⟨next, m, sv', hdeq, hrest, heq⟩ :=
    @luaServicePopMsgAt_eq s.heap sv rest id v x L behind hq hlive hlen hflag hstate
  -- what is left of the queue in either case
  have hreleased : sv'.Represents m behind
      { flag := false, state := true, nodeSize := sv.nodeSize - 1
        nodes := rest.map fun e => msgNode (content s.heap e) [] (behind e.2.data) } := by
    have hrep := (h.dequeue hk hes hdeq).represents (Function.update_self ..) behind
    have hcontent := h.dequeue_content hk hes hdeq k
    rw [Function.update_self] at hrep hcontent
    obtain ⟨-, hsflag, hsstate, hsize⟩ := hdeq.service
    simp only [asList, put, hsflag, hsstate, hsize, hflag, hstate] at hrep
    rw [List.map_congr_left fun e he => by rw [hcontent e he]] at hrep
    exact hrep
  have hraised : LuaServiceAt.Represents s.heap behind
      { sv with
        flag := true
        state := true
        head := next
        tail := if sv.head = sv.tail then none else sv.tail }
      { flag := true, state := true, nodeSize := sv.nodeSize
        nodes := rest.map fun e => msgNode (content s.heap e) [] (behind e.2.data) } := by
    have hrep := (h.raise hk hes hflag hrest).represents (Function.update_self ..) behind
    simp only [Function.update_self, asList, put, hstate] at hrep
    exact hrep
  have hx : content s.heap (id, v) = x := by
    rw [content, hlive, Option.getD_some]
  rw [heq]
  simp only [luaServicePopMsg, luaServicePopMsgWith, asList, hflag, hstate, hes, List.map_cons, hx,
    Bool.false_eq_true, reduceCtorEq, if_false]
  cases hrun : deserializeUnpack (msgNode x [] (behind v.data)) (-1) L with
  | ok values d => exact .some ⟨hreleased, rfl, rfl, rfl⟩
  | error e d =>
      cases e with
      | error code info => exact .some ⟨hreleased, rfl, rfl, rfl⟩
      | luaError => exact .some ⟨hraised, rfl, rfl, rfl⟩
      | segfault => exact .none
      | stackOverflow => exact .none
      | fuel => exact .none

/-! ## Pushing -/

theorem asList_congr {l : List (Nat × MsgData)}
    (hsv : sv'.flag = sv.flag ∧ sv'.state = sv.state ∧ sv'.nodeSize = sv.nodeSize)
    (hcontent : ∀ e ∈ l, content m' e = content m e) :
    asList m' behind sv' l = asList m behind sv l := by
  rw [asList, asList, hsv.1, hsv.2.1, hsv.2.2,
    List.map_congr_left fun e he => by rw [hcontent e he]]

theorem refused_refines (h : Inv es s) (hk : s.service k = some sv)
    (href : Refused s.heap sv m sv') :
    sv'.Represents m behind (asList s.heap behind sv (es k)) := by
  have hrep := (h.refuse hk (b := sv.state) href).represents (Function.update_self ..) behind
  have hsame : asList m behind sv' (es k) = asList s.heap behind sv (es k) := by
    refine asList_congr ?_ fun e _ => ?_
    · rw [href.service]
      exact ⟨rfl, rfl, rfl⟩
    · rw [content, href.bytes, content]
  rw [← hsame]
  exact hrep

theorem clean_refines (h : Inv es s) (hk : s.service k = some sv)
    (hclean : cleanSer s.heap sv = some (m, sv')) (behind : Nat → List UInt8) :
    sv'.Represents m behind (asList s.heap behind sv (es k)) := by
  obtain ⟨hinv, hsame⟩ := h.clean hk hclean
  have hrep := hinv.represents (Function.update_self ..) behind
  have heq : asList m behind sv' (es k) = asList s.heap behind sv (es k) := by
    refine asList_congr ?_ fun e he => h.content_eq he fun d => hsame d _ ByteOwner.noConfusion
    rw [(cleanSer_cleaned hclean).service]
    exact ⟨rfl, rfl, rfl⟩
  rw [← heq]
  exact hrep

/-- The message stands behind the others. -/
theorem asList_enqueued (h : Inv es s)
    (henq : Enqueued s.heap sv (es k) id d x m sv') (behind : Nat → List UInt8) :
    asList m behind sv' (es k ++ [(id, { data := d, size := x.length })]) =
      createAndPushMsgNode (asList s.heap behind sv (es k)) (msgNode x [] (behind d)) := by
  have hold : ∀ e ∈ es k, content m e = content s.heap e := fun e he =>
    h.content_eq he fun d => h.enqueued_same henq
  have hnew : content m (id, { data := d, size := x.length }) = x := by
    rw [content, henq.content, Option.getD_some]
  rw [asList, henq.service, List.map_append, List.map_singleton, hnew,
    List.map_congr_left fun e he => by rw [hold e he]]
  rfl

theorem push_refines (h : Inv es s) (hk : s.service k = some sv)
    (hkept : s.Kept (.push k data size data2 size2 node block))
    (hload : s.heap.bytes.load data size = some xs)
    (hload2 : s.heap.bytes.load data2 size2 = some ys) (hfit : size + size2 < 2 ^ 64) :
    Option.Rel (SamePush behind) (luaServicePushDataAt s.heap sv data size data2 size2 node block)
      (luaServicePushData (asList s.heap behind sv (es k)) xs ys
        ((block.map fun p => behind p.1).getD [])
        (data.isSome && node.isSome && block.isSome)) := by
  have hq := h.queue k sv hk
  by_cases hflag : sv.flag = true
  · have hlist : (asList s.heap behind sv (es k)).flag = true := hflag
    rw [luaServicePushDataAt, if_pos hflag, luaServicePushData, if_pos hlist]
    exact .none
  have hlist : ¬ (asList s.heap behind sv (es k)).flag = true := hflag
  by_cases hstate : sv.state = false
  · have hstopped : (asList s.heap behind sv (es k)).state = false := hstate
    rw [luaServicePushDataAt, if_neg hflag, if_pos hstate, luaServicePushData, if_neg hlist,
      if_pos hstopped]
    exact .some ⟨rfl, h.represents hk behind⟩
  have hruns : ¬ (asList s.heap behind sv (es k)).state = false := hstate
  by_cases hno : data = none ∨ node = none ∨ block = none
  · obtain ⟨m, heq, href⟩ := @createAndPushMsgNodeAt_refused s.heap sv data size
      ((size + size2) % 2 ^ 64) node block hno hkept.1
    have halloc : (data.isSome && node.isSome && block.isSome) = false := by
      rcases hno with rfl | rfl | rfl <;> simp
    rw [luaServicePushDataAt, if_neg hflag, if_neg hstate, heq, Option.bind_some,
      luaServicePushData, if_neg hlist, if_neg hruns, if_pos halloc]
    exact .some ⟨rfl, refused_refines h hk href⟩
  obtain ⟨hdata, hno⟩ := not_or.mp hno
  obtain ⟨hsome, hsome'⟩ := not_or.mp hno
  obtain ⟨⟨id, f⟩, rfl⟩ := Option.ne_none_iff_exists'.mp hsome
  obtain ⟨⟨d, g⟩, rfl⟩ := Option.ne_none_iff_exists'.mp hsome'
  obtain ⟨p, rfl⟩ := Option.ne_none_iff_exists'.mp hdata
  obtain ⟨m₁, sv₁, henq, heq⟩ := luaServicePushDataAt_eq (f := f) (g := g) hq
    (Bool.eq_false_of_not_eq_true hflag) (Bool.of_not_eq_false hstate) hdata hload hload2 hfit
    (hkept.1 _ rfl) (hkept.2 _ rfl).1
  have hinv := h.enqueue hk henq
  obtain ⟨m₂, sv₂, hclean⟩ := hinv.clean_eq (Function.update_self ..)
  have hrep := clean_refines hinv (Function.update_self ..) hclean behind
  rw [Function.update_self] at hrep
  have hnode : msgNode xs ys (behind d) = msgNode (xs ++ ys) [] (behind d) := by
    simp only [msgNode, List.append_nil, List.length_append, List.length_nil, Nat.add_zero]
  have hclean' : cleanSer m₁ sv₁ = some (m₂, sv₂) := hclean
  have hlist₁ := asList_enqueued h henq behind
  rw [heq, hclean', Option.map_some, luaServicePushData, if_neg hlist, if_neg hruns]
  refine .some ⟨rfl, ?_⟩
  simp only [Option.map_some, Option.getD_some, hnode, ← hlist₁]
  exact hrep

end Services

/-- In every state that calls reach which do not overlap, the queue of a service is a list of
messages, and the service has accepted these after those that were removed. Popping and pushing
on the heap do to the list what they do in `LuaService`. -/
theorem services_refine {s : Services} (h : services.ReachableVia Services.Kept s) {k : Nat}
    {sv : LuaServiceAt} (hk : s.service k = some sv) (behind : Nat → List UInt8) :
    ∃ q : LuaService, sv.Represents s.heap behind q ∧
      s.accepted k = s.taken k ++ q.nodes.map Input.bytes ∧
      (∀ L, Option.Rel (SamePop behind) (luaServicePopMsgAt s.heap sv L behind)
        (luaServicePopMsg q L)) ∧
      ∀ data size xs data2 size2 ys node block,
        s.heap.bytes.load data size = some xs → s.heap.bytes.load data2 size2 = some ys →
        size + size2 < 2 ^ 64 → s.Kept (.push k data size data2 size2 node block) →
        Option.Rel (SamePush behind)
          (luaServicePushDataAt s.heap sv data size data2 size2 node block)
          (luaServicePushData q xs ys ((block.map fun p => behind p.1).getD [])
            (data.isSome && node.isSome && block.isSome)) := by
  obtain ⟨es, hinv, hlog⟩ := Services.inv h
  refine ⟨Services.asList s.heap behind sv (es k), hinv.represents hk behind, ?_,
    Services.pop_refines hinv hk, fun data size xs data2 size2 ys node block hload hload2 hfit
      hkept => Services.push_refines hinv hk hkept hload hload2 hfit⟩
  rw [Services.asList_bytes]
  exact hlog k sv hk

namespace Services

/-- Of two messages, the first in two parts, one is popped. -/
def popping : List Action :=
  [.create 0 1 fun _ => 0,
    .push 0 (some 0) 1 (some 0) 2
      (some (5, fun _ => { value := { data := 0, size := 0 }, next := none }))
      (some (3, fun _ => 0)),
    .push 0 (some 0) 3 none 0
      (some (6, fun _ => { value := { data := 0, size := 0 }, next := none }))
      (some (4, fun _ => 0)),
    .pop 0 { tables := [], userdata := [], metatables := [] } fun _ => []]

end Services

theorem services_refine_two : ∃ s : Services, s.taken 0 = [[12, 12, 1]] ∧ ∃ sv : LuaServiceAt,
    ∃ q : LuaService, sv.Represents s.heap (fun _ => []) q ∧
      s.accepted 0 = s.taken 0 ++ q.nodes.map Input.bytes := by
  have hrun : (services.runVia Services.Kept Services.scripts Services.popping).map
      (fun s => (s.taken 0, (s.service 0).isSome)) = some ([[12, 12, 1]], true) := by decide +kernel
  obtain ⟨s, hrun, hend⟩ := Option.map_eq_some_iff.mp hrun
  obtain ⟨htaken, hservice⟩ := Prod.mk.inj hend
  obtain ⟨sv, hk⟩ := Option.isSome_iff_exists.mp hservice
  obtain ⟨q, hrep, hlog, -⟩ :=
    services_refine (.runVia (.init Services.init_scripts) hrun) hk fun _ => []
  exact ⟨s, htaken, sv, q, hrep, hlog⟩

end RandServer
