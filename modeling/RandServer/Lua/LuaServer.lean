import RandServer.Lua.UnpackFormat

/-!
# The message queue of a service

`lua_service_push_data` and `lua_service_pop_msg` of `lua_server.c`. The linked list of
nodes is a list, whose last node is the tail. Both functions hold the spin lock
`service->flag` while they run. A Lua error in the decoder skips the rest of the caller.
-/

namespace RandServer

/-- `struct lua_service`. -/
structure LuaService where
  flag : Bool
  state : Bool
  nodeSize : Int
  nodes : List Input

/-- A node with two parts, in front of other memory. -/
def msgNode (data data2 behind : List UInt8) : Input where
  mem := data ++ data2 ++ behind
  size := data.length + data2.length
  size_le := by
    rw [List.length_append, List.length_append]
    exact Nat.le_add_right _ _

/-- `create_and_push_msg_node`, once the node has been allocated and filled. -/
def createAndPushMsgNode (s : LuaService) (node : Input) : LuaService :=
  { s with nodes := s.nodes ++ [node], nodeSize := s.nodeSize + 1 }

/-- `lua_service_push_data`: whether the message is queued. It waits for the lock. -/
def luaServicePushData (s : LuaService) (data data2 behind : List UInt8) (alloc : Bool) :
    Option (Bool × LuaService) :=
  if s.flag then none
  else if s.state = false then some (false, s)
  else if alloc = false then some (false, s)
  else some (true, createAndPushMsgNode s (msgNode data data2 behind))

/-- How a call ends. -/
structure PopEnd where
  service : LuaService
  lua : LuaState
  values : List LuaValue
  raised : Bool

/-- `lua_service_pop_msg`, given how a node is unpacked. It waits for the lock, and a memory
fault ends the process. -/
def luaServicePopMsgWith (unpack : Input → EStateM.Result Stop Deser (List LuaValue))
    (s : LuaService) (L : LuaState) : Option PopEnd :=
  if s.flag then none
  else if s.state = false then some { service := s, lua := L, values := [], raised := false }
  else
    match s.nodes with
    | [] => some { service := s, lua := L, values := [], raised := false }
    | node :: nodes =>
        let s := { s with flag := true, nodes := nodes }
        let released := { s with flag := false, nodeSize := s.nodeSize - 1 }
        match unpack node with
        | .ok values d =>
            some { service := released, lua := d.lua, values := values, raised := false }
        | .error (.error _ _) d =>
            some { service := released, lua := d.lua, values := [], raised := false }
        | .error .luaError d =>
            some { service := s, lua := d.lua, values := [], raised := true }
        | .error _ _ => none

/-- `lua_service_pop_msg` with so much room on the stacks. -/
def luaServicePopMsgWithin (room : Nat → Nat) (s : LuaService) (L : LuaState) : Option PopEnd :=
  luaServicePopMsgWith (fun node => deserializeUnpackWithin room node (-1) L) s L

/-- `lua_service_pop_msg` with room for every node. -/
def luaServicePopMsg (s : LuaService) (L : LuaState) : Option PopEnd :=
  luaServicePopMsgWith (fun node => deserializeUnpack node (-1) L) s L

/-- Whenever a running service pops `node`, the call returns, has released the lock and has
removed just that node. -/
def PopReleases (room : Nat → Nat) (node : Input) (L : LuaState) : Prop :=
  ∀ s nodes, s.flag = false → s.state = true → s.nodes = node :: nodes →
    ∃ t, luaServicePopMsgWithin room s L = some t ∧ t.service.flag = false ∧
      t.service.nodes = nodes

/-- A decoder that returns to its caller, with values or with an error code. -/
def Returns {α : Type} (r : EStateM.Result Stop Deser α) : Prop :=
  ∀ stop d, r = .error stop d → ∃ code info, stop = .error code info

theorem popReleases_iff (room : Nat → Nat) (node : Input) (L : LuaState) :
    PopReleases room node L ↔ Returns (deserializeUnpackWithin room node (-1) L) := by
  constructor
  · intro h stop d hrun
    obtain ⟨t, hpop, hflag, -⟩ :=
      h { flag := false, state := true, nodeSize := 1, nodes := [node] } [] rfl rfl rfl
    simp only [luaServicePopMsgWithin, luaServicePopMsgWith, Bool.false_eq_true, if_false,
      reduceCtorEq, hrun] at hpop
    cases stop with
    | error code info => exact ⟨code, info, rfl⟩
    | luaError =>
        cases hpop
        cases hflag
    | segfault => cases hpop
    | stackOverflow => cases hpop
    | fuel => cases hpop
  · rintro h s nodes hflag hstate hnodes
    simp only [luaServicePopMsgWithin, luaServicePopMsgWith, hflag, hstate, hnodes,
      Bool.false_eq_true, reduceCtorEq, if_false]
    cases hrun : deserializeUnpackWithin room node (-1) L with
    | ok values d => exact ⟨_, rfl, rfl, rfl⟩
    | error stop d =>
        obtain ⟨code, info, rfl⟩ := h stop d hrun
        exact ⟨_, rfl, rfl, rfl⟩

/-- Decoding comes across no complete entry with a nil or NaN key, no item that is nested
too deep for the stacks, and no userdata record for which it leaves the memory. -/
def Harmless (room : Nat → Nat) (inp : Input) (resCount : Int) (L : LuaState) : Prop :=
  ¬ Visited inp resCount L .badKey ∧
    ∀ below depth pos, Visited inp resCount L (.call below depth pos) →
      depth < room below ∧ ¬ SticksOut inp L.metatables inp.mem.length pos

theorem returns_iff (room : Nat → Nat) (inp : Input) (resCount : Int) (L : LuaState) :
    Returns (deserializeUnpackWithin room inp resCount L) ↔ Harmless room inp resCount L := by
  have hnot : ∀ {stop : Stop}, Returns (deserializeUnpackWithin room inp resCount L) →
      (∃ d, deserializeUnpackWithin room inp resCount L = .error stop d) →
      ∃ code info, stop = .error code info := fun hreturns ⟨d, hrun⟩ => hreturns _ d hrun
  constructor
  · intro hreturns
    refine ⟨fun hvisit => ?_, fun below depth pos hvisit => ?_⟩
    · rcases deserializeUnpackWithin_visits inp resCount room L hvisit with hover | ⟨-, hbad, -⟩
      · obtain ⟨_, _, heq⟩ := hnot hreturns hover
        cases heq
      · obtain ⟨_, _, heq⟩ := hnot hreturns (hbad rfl)
        cases heq
    · rcases deserializeUnpackWithin_visits inp resCount room L hvisit with
        hover | ⟨hdeep, -, hplace⟩
      · obtain ⟨_, _, heq⟩ := hnot hreturns hover
        cases heq
      · refine ⟨Nat.lt_of_not_le hdeep, fun hout => ?_⟩
        obtain ⟨_, _, heq⟩ := hnot hreturns ((hplace pos rfl).2 hout)
        cases heq
  · rintro ⟨hbad, hall⟩ stop d hrun
    refine ((deserializeUnpackWithin_follows inp resCount room L).stop stop d hrun).resolve_right ?_
    rintro ⟨e, hvisit, hcause⟩
    cases e with
    | badKey => exact hbad hvisit
    | call below depth pos =>
        obtain ⟨hroom, hout⟩ := hall below depth pos hvisit
        cases stop with
        | error code info => exact hcause
        | luaError => cases hcause
        | segfault =>
            obtain ⟨pos', heq, hsticks⟩ := hcause
            cases heq
            exact hout hsticks
        | stackOverflow => exact Nat.not_lt_of_le hcause hroom
        | fuel => exact hcause

/-- A table with the key nil. -/
def nilKey : Input where
  mem := [12, 1, 1, 13]
  size := 4
  size_le := Nat.le_refl 4

theorem nilKey_badKey (resCount : Int) (L : LuaState) : Visited nilKey resCount L .badKey := by
  refine .first (e := .badKey) (by decide) (.table (e := .badKey) (by decide) rfl ?_)
  exact .badKey (.leaf (by decide) rfl) (.leaf (by decide) rfl)

end RandServer
