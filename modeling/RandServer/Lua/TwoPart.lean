import RandServer.Lib.Machine
import RandServer.Lua.LuaServer
import RandServer.Lua.RoundTrip

/-!
# Messages of two parts

A service queues messages whose two parts have been packed separately, and unpacks each of
them as one input. The decoder numbers the tables of the second part behind those of the
first, while its references count from one. They are resolved rightly if the first part
has no tables, and it does not matter if the second part has no references.
-/

namespace RandServer

/-- A list of values that round-trip, and what `service:pack` makes of it. -/
structure Part where
  lua : LuaState
  args : List LuaValue
  flag : Nat
  message : SerializeData
  packed : serializePack lua flag args = .ok message
  scalars : ∀ v, lua.Occurs args v → v.isTable = false → RoundTrips v

structure TwoPart where
  first : Part
  second : Part

/-- No table has two places among the values and in the tables that can be reached. -/
def LuaState.Unshared (L : LuaState) (vs : List LuaValue) : Prop :=
  ∀ ts : List Nat, ts.Nodup → (∀ t ∈ ts, L.Reach vs t) →
    (tablesIn vs ++ ts.flatMap L.children).Nodup

/-- The references of the second part are resolved rightly. -/
def TwoPart.Composes (m : TwoPart) : Prop :=
  (∀ t, .table t ∉ m.first.args) ∨ m.second.lua.Unshared m.second.args

/-- The values of both parts, one after another, as copies without a common table. -/
def TwoPart.Arrives (m : TwoPart) (L : LuaState) (values : List LuaValue) : Prop :=
  ∃ xs ys f g, values = xs ++ ys ∧
    m.first.lua.Isomorphic L m.first.args xs f ∧ m.second.lua.Isomorphic L m.second.args ys g ∧
    ∀ t u, m.first.lua.Reach m.first.args t → m.second.lua.Reach m.second.args u → f t ≠ g u

namespace Part

variable (p : Part)

theorem supported {v : LuaValue} (h : p.lua.Occurs p.args v) : v.supported = true := by
  cases htable : v.isTable with
  | false => exact (p.scalars v h htable).supported
  | true =>
      cases v with
      | table id => rfl
      | _ => cases htable

theorem form : ∃ linked depth, Packed p.lua (p.lua.Occurs p.args) .empty (.values p.args)
    p.message.data linked depth p.message.numbering :=
  serializePack_packed (plain_of_supported p.flag fun _ hv _ => p.supported hv) p.packed

theorem keysSupported : p.lua.KeysSupported p.args :=
  fun _ ht _ he => p.supported (.key ht he)

/-- Without tables among the values no table gets a number. -/
theorem tableRef_eq_zero (h : ∀ t, .table t ∉ p.args) : p.message.tableRef = 0 := by
  have hreach : ∀ t, ¬ p.lua.Reach p.args t := by
    intro t ht
    induction ht with
    | root hmem => exact h _ hmem
    | key _ _ ih => exact ih
    | value _ _ ih => exact ih
  obtain ⟨linked, depth, hpacked⟩ := p.form
  obtain ⟨ts, hvisit⟩ := hpacked.visit
  by_contra hne
  obtain ⟨t, ht⟩ := (hpacked.valid Numbering.empty_valid).surj (Nat.le_refl 1)
    (Nat.pos_of_ne_zero hne)
  have hmem := (hvisit.mem t).mpr ⟨rfl, by rw [ht]; exact nofun⟩
  exact hreach t (hvisit.holds t hmem).reach

end Part

theorem Packed.unlinked {L : LuaState} {args : List LuaValue} {bytes : List UInt8} {linked : Bool}
    {depth : Nat} {N : Numbering}
    (h : Packed L (L.Occurs args) .empty (.values args) bytes linked depth N)
    (hunshared : L.Unshared args) : linked = false := by
  obtain ⟨ts, hvisit⟩ := h.visit
  exact hvisit.unlinked (fun _ _ => rfl)
    (hunshared ts hvisit.nodup fun t ht => (hvisit.holds t ht).reach)

theorem Reads.append {inp : Input} {fuel : Nat} {d d₁ d' : Deser} {vs ws : List LuaValue}
    (h : Reads inp fuel d vs d₁) (h' : Reads inp fuel d₁ ws d') :
    Reads inp fuel d (vs ++ ws) d' := by
  induction h with
  | nil => exact h'
  | cons hrun hser _ ih => exact .cons hrun hser (ih h')

theorem Sync.copyId_lt {L : LuaState} {pre : List Nat} {base t : Nat} {N : Numbering} {d : Deser}
    (hsync : Sync pre base N d) (hN : Final L N) (ht : N.refs t ≠ none) :
    copyId base N t < d.lua.tables.length := by
  obtain ⟨n, hn, hlt⟩ := hN.number ht
  rw [copyId_eq hn, hsync.tables]
  omega

/-- Behind any tables, the numbers of another part start afresh. -/
theorem sync_again (d : Deser) : Sync d.refs d.lua.tables.length .empty d :=
  ⟨(List.append_nil _).symm, rfl⟩

/-- A message of two parts is unpacked if its references can be resolved. -/
theorem unpack_twoPart {m : TwoPart} (hm : m.Composes) (behind : List UInt8) (L : LuaState) :
    ∃ values d, deserializeUnpack (msgNode m.first.message.data m.second.message.data behind) (-1)
      L = .ok values d ∧ m.Arrives d.lua values := by
  obtain ⟨linked, depth, hfirst⟩ := m.first.form
  obtain ⟨linked', depth', hsecond⟩ := m.second.form
  generalize hinp : msgNode m.first.message.data m.second.message.data behind = inp
  have hcarries : inp.Carries (m.first.message.data ++ m.second.message.data) := by
    rw [← hinp]
    show List.take (m.first.message.data.length + m.second.message.data.length) (_ ++ _ ++ _) = _
    rw [← List.length_append, List.take_left]
  obtain ⟨hhas₁, hhas₂⟩ := Input.has_append.mp (Input.Has.whole hcarries)
  have hsize := hcarries.length
  rw [List.length_append] at hsize
  have hclean₁ := hfirst.clean_iff.mpr m.first.keysSupported
  have hclean₂ := hsecond.clean_iff.mpr m.second.keysSupported
  have hle₁ : m.first.args.length ≤ _ := hfirst.length_le
  have hle₂ : m.second.args.length ≤ _ := hsecond.length_le
  have hdepth₁ := hfirst.depth_le
  have hdepth₂ := hsecond.depth_le
  -- The first part is read as if it were alone.
  obtain ⟨d₁, hreads₁, hrebuilt₁⟩ := hfirst.readsBack
    (fun v hv htable _ => m.first.scalars v hv htable) hfirst.final Numbering.empty_valid
    (.refl _) hclean₁ (.inl rfl) (sync_init L) hhas₁
    (show depth < inp.size + 1 by omega)
  have hpos₁ : d₁.pos = m.first.message.data.length := by
    rw [hrebuilt₁.pos]
    exact Nat.zero_add _
  -- The second part finds references in front of its own.
  have hlink : d₁.refs = [] ∨ linked' = false := by
    rcases hm with hnone | hunshared
    · left
      rw [hrebuilt₁.sync.refs, show m.first.message.numbering.tableRef = 0 from
        m.first.tableRef_eq_zero hnone]
      rfl
    · exact .inr (hsecond.unlinked hunshared)
  obtain ⟨d₂, hreads₂, hrebuilt₂⟩ := hsecond.readsBack
    (fun v hv htable _ => m.second.scalars v hv htable) hsecond.final Numbering.empty_valid
    (.refl _) hclean₂ hlink (sync_again d₁)
    (by rw [hpos₁, ← Nat.zero_add m.first.message.data.length]; exact hhas₂)
    (show depth' < inp.size + 1 by omega)
  have hend : inp.size ≤ d₂.pos := by
    rw [hrebuilt₂.pos, hpos₁, hsize]
  have hreads := hreads₁.append hreads₂
  obtain ⟨n, hn⟩ : ∃ n, inp.size + 1 = m.first.args.length + m.second.args.length + (n + 1) :=
    ⟨inp.size - (m.first.args.length + m.second.args.length), by omega⟩
  have hrun := @Reads.unpackValues _ (fun _ => inp.size + 1) (-1) _ _ _ _ [] hreads hend
    (fun _ _ => Nat.le_refl _) (fun hpos => by omega) n
  rw [List.length_append, List.length_map, List.length_map, ← hn] at hrun
  have hkept : ∀ t, m.first.message.numbering.refs t ≠ none →
      d₂.lua.entries (copyId L.tables.length m.first.message.numbering t) =
        imageEntries (copyId L.tables.length m.first.message.numbering)
          (m.first.lua.entries t) := by
    intro t ht
    rw [hrebuilt₂.entries_eq (hrebuilt₁.sync.copyId_lt hfirst.final ht) nofun,
      hrebuilt₁.fresh t rfl ht]
  have hcopies₁ := hfirst.copies hkept
  have hcopies₂ := hsecond.copies fun t ht => hrebuilt₂.fresh t rfl ht
  refine ⟨_, d₂, hrun, _, _, _, _, ?_, hcopies₁.isomorphic fun v => m.first.supported,
    hcopies₂.isomorphic fun v => m.second.supported, fun t u ht hu heq => ?_⟩
  · rfl
  have hlt := hrebuilt₁.sync.copyId_lt hfirst.final (hfirst.reach_covered ht)
  obtain ⟨k, hk, -⟩ := hsecond.final.number (hsecond.reach_covered hu)
  rw [heq, copyId_eq hk] at hlt
  omega

/-! ## Runs of the queue -/

/-- A service, the messages that it has accepted, and the results of its pops so far. -/
structure Mailbox where
  service : LuaService
  pushed : List TwoPart
  popped : List PopEnd

namespace Mailbox

/-- A push says what lies in memory behind the node and whether the node is allocated. A
pop unpacks into a Lua state that the receiver may have changed since the last pop. -/
inductive Action
  | push (m : TwoPart) (behind : List UInt8) (alloc : Bool)
  | pop (L : LuaState)

def push (s : Mailbox) (m : TwoPart) (behind : List UInt8) (alloc : Bool) : Option Mailbox :=
  match luaServicePushData s.service m.first.message.data m.second.message.data behind alloc with
  | none => none
  | some (queued, service) =>
      some { s with service := service, pushed := if queued then s.pushed ++ [m] else s.pushed }

def pop (s : Mailbox) (L : LuaState) : Option Mailbox :=
  match luaServicePopMsg s.service L with
  | none => none
  | some r =>
      some { s with
        service := r.service
        popped := if s.service.nodes.isEmpty then s.popped else s.popped ++ [r] }

end Mailbox

def mailbox : Machine Mailbox Mailbox.Action where
  Init s := s.service = { flag := false, state := true, nodeSize := 0, nodes := [] } ∧
    s.pushed = [] ∧ s.popped = []
  step s
    | .push m behind alloc => s.push m behind alloc
    | .pop L => s.pop L

/-- The pops have delivered the first messages in order, the others wait, and the service
can be used. -/
structure Mailbox.InOrder (s : Mailbox) : Prop where
  count : s.popped.length + s.service.nodes.length = s.pushed.length
  arrives : List.Forall₂ (fun m r => r.raised = false ∧ m.Arrives r.lua r.values)
    (s.pushed.take s.popped.length) s.popped
  ready : s.service.flag = false ∧ ∀ L, s.pop L ≠ none

/-- The node of a message, given what lies behind it. -/
def TwoPart.node (w : TwoPart × List UInt8) : Input :=
  msgNode w.1.first.message.data w.1.second.message.data w.2

/-- The messages that wait are those behind the delivered ones. -/
structure Mailbox.Inv (s : Mailbox) (done : List TwoPart) (waiting : List (TwoPart × List UInt8)) :
    Prop where
  flag : s.service.flag = false
  state : s.service.state = true
  nodes : s.service.nodes = waiting.map TwoPart.node
  pushed : s.pushed = done ++ waiting.map Prod.fst
  arrives : List.Forall₂ (fun m r => r.raised = false ∧ m.Arrives r.lua r.values) done s.popped
  composes : ∀ w ∈ waiting, w.1.Composes

namespace Mailbox.Inv

variable {s t : Mailbox} {done : List TwoPart} {waiting : List (TwoPart × List UInt8)}

theorem push (h : s.Inv done waiting) {m : TwoPart} (hm : m.Composes) {behind : List UInt8}
    {alloc : Bool} (ht : s.push m behind alloc = some t) :
    ∃ waiting', t.Inv done waiting' := by
  rw [Mailbox.push, luaServicePushData, h.flag, h.state] at ht
  cases alloc with
  | false =>
      cases ht
      exact ⟨waiting, h.flag, h.state, h.nodes, h.pushed, h.arrives, h.composes⟩
  | true =>
      cases ht
      refine ⟨waiting ++ [(m, behind)], h.flag, h.state, ?_, ?_, h.arrives, ?_⟩
      · rw [List.map_append, ← h.nodes]
        rfl
      · show s.pushed ++ [m] = _
        rw [h.pushed, List.append_assoc, List.map_append]
        rfl
      · exact List.forall_mem_append.mpr ⟨h.composes, List.forall_mem_singleton.mpr hm⟩

/-- A pop delivers the first message that waits. -/
theorem pop (h : s.Inv done waiting) (L : LuaState) :
    ∃ t done' waiting', s.pop L = some t ∧ t.Inv done' waiting' := by
  cases waiting with
  | nil =>
      have hnodes : s.service.nodes = [] := h.nodes
      refine ⟨s, done, [], ?_, h⟩
      simp only [Mailbox.pop, luaServicePopMsg, luaServicePopMsgWith, h.flag, h.state, hnodes,
        Bool.false_eq_true, reduceCtorEq, if_false, List.isEmpty_nil, if_true]
  | cons w waiting =>
      obtain ⟨m, behind⟩ := w
      have hnodes : s.service.nodes = TwoPart.node (m, behind) :: waiting.map TwoPart.node :=
        h.nodes
      obtain ⟨values, d, hrun, harrives⟩ :=
        unpack_twoPart (h.composes _ List.mem_cons_self) behind L
      let service := { s.service with
        nodes := waiting.map TwoPart.node
        nodeSize := s.service.nodeSize - 1 }
      let r : PopEnd := { service := service, lua := d.lua, values := values, raised := false }
      refine ⟨{ s with service := service, popped := s.popped ++ [r] }, done ++ [m], waiting, ?_,
        h.flag, h.state, rfl, ?_, ?_, fun w hw => h.composes w (List.mem_cons_of_mem _ hw)⟩
      · simp only [Mailbox.pop, luaServicePopMsg, luaServicePopMsgWith, h.flag, h.state, hnodes,
          Bool.false_eq_true, reduceCtorEq, if_false, TwoPart.node, hrun, List.isEmpty_cons, r,
          service]
      · rw [List.append_assoc]
        exact h.pushed
      · exact List.rel_append h.arrives (.cons ⟨rfl, harrives⟩ .nil)

theorem inOrder (h : s.Inv done waiting) : s.InOrder := by
  have hlen := h.arrives.length_eq
  refine ⟨?_, ?_, h.flag, fun L hnone => ?_⟩
  · rw [h.nodes, h.pushed, List.length_append, List.length_map, List.length_map, hlen]
  · rw [h.pushed, ← hlen, List.take_left]
    exact h.arrives
  · obtain ⟨t, done', waiting', ht, -⟩ := h.pop L
    rw [hnone] at ht
    cases ht

end Mailbox.Inv

/-- The condition on a step: the message that is pushed composes. -/
def Mailbox.Pushes (_ : Mailbox) : Mailbox.Action → Prop
  | .push m _ _ => m.Composes
  | .pop _ => True

/-- The state after a message has been pushed to a new service and popped. -/
def Mailbox.once (m : TwoPart) (values : List LuaValue) (d : Deser) : Mailbox :=
  let service := { flag := false, state := true, nodeSize := 0, nodes := [] }
  { service := service
    pushed := [m]
    popped := [{ service := service, lua := d.lua, values := values, raised := false }] }

theorem mailbox_once {ok : Mailbox → Mailbox.Action → Prop} {m : TwoPart} {L : LuaState}
    {values : List LuaValue} {d : Deser} (hpush : ∀ s, ok s (.push m [] true))
    (hpop : ∀ s, ok s (.pop L))
    (hrun : deserializeUnpack (msgNode m.first.message.data m.second.message.data []) (-1) L =
      .ok values d) : mailbox.ReachableVia ok (.once m values d) := by
  have hinit : mailbox.Init
      { service := { flag := false, state := true, nodeSize := 0, nodes := [] }
        pushed := []
        popped := [] } := ⟨rfl, rfl, rfl⟩
  refine ((Machine.ReachableVia.init hinit).step (hpush _) rfl).step (hpop _) ?_
  show Mailbox.pop _ L = _
  simp only [Mailbox.pop, luaServicePopMsg, luaServicePopMsgWith, createAndPushMsgNode,
    Bool.false_eq_true, reduceCtorEq, if_false, if_true, List.nil_append, hrun, List.isEmpty_cons]
  rfl

/-- Values that are nil or empty tables. -/
def emptyPart (args : List LuaValue) (message : SerializeData)
    (packed : serializePack (emptyTables 1) 0 args = .ok message)
    (hargs : ∀ v ∈ args, v = .nil ∨ v.isTable = true) : Part where
  lua := emptyTables 1
  args := args
  flag := 0
  message := message
  packed := packed
  scalars v hv htable := by
    have hnone : ∀ t, ¬ (emptyTables 1).entries t ≠ [] := fun t h => h (emptyTables_entries 1 t)
    cases hv with
    | root hmem =>
        rcases hargs v hmem with rfl | h
        · exact roundTrips_nil
        · rw [htable] at h
          cases h
    | key _ he => exact absurd (List.ne_nil_of_mem he) (hnone _)
    | value _ he => exact absurd (List.ne_nil_of_mem he) (hnone _)

end RandServer
