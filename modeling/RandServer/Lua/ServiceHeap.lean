import RandServer.Lib.LinkedQueue
import RandServer.Lua.LuaServer
import RandServer.Lua.SerializeBuff

/-!
# Services on the heap

The functions of `lua_server.c` on what they allocate. A service owns a block that its
serializer starts in, the block its serializer may have moved to, and a linked queue of
message nodes, each with a block of data. Scripts pass pointers from one function to another,
so a pointer may have become invalid in between, and then its use is undefined.

The answers of `malloc` and `realloc` are arguments. The Lua states and threads of the
services are left out. Calls do not overlap: `service:pack` takes no lock, so a thread that pushes
to a service may act between two pieces that the service packs, but not within one.
-/

namespace RandServer

/-- The fields of `struct msg_node` besides its link. -/
structure MsgData where
  data : Nat
  size : Nat

/-- `struct msg_node`. -/
abbrev MsgNode := LinkedNode MsgData

/-- `struct lua_service`. -/
structure LuaServiceAt where
  ser : SerializeBuff.SerializeData
  flag : Bool
  state : Bool
  nodeSize : Int
  head : Option Nat
  tail : Option Nat

/-- The heap, whose blocks are message nodes or bytes. -/
structure ServiceHeap where
  nodes : CheckedHeap MsgNode
  bytes : CheckedHeap UInt8

/-- The answer of `malloc`: a block and what lies in it, or nothing. -/
abbrev Answer (α : Type) := Option (Nat × (Nat → α))

/-! ## The functions -/

/-- `lua_service_c_create_help`. The serializer starts in a part of the service's own
block. -/
def luaServiceCCreateHelp (m : ServiceHeap) (serBuffSize : Nat) (answer : Answer UInt8) :
    Option LuaServiceAt × ServiceHeap :=
  match m.bytes.malloc serBuffSize answer with
  | (_, none) => (none, m)
  | (bytes, some id) =>
      (some {
        ser := SerializeBuff.serializeInit 0 (some id) serBuffSize
        flag := false
        state := true
        nodeSize := 0
        head := none
        tail := none }, { m with bytes := bytes })

/-- `create_and_push_msg_node`: the new node, or null. -/
def createAndPushMsgNodeAt (m : ServiceHeap) (sv : LuaServiceAt) (data : Option Nat)
    (size mallocSize : Nat) (node : Answer MsgNode) (block : Answer UInt8) :
    Option (Option Nat × ServiceHeap × LuaServiceAt) :=
  if data = none then some (none, m, sv)
  else
    let mallocSize := if mallocSize < size then size else mallocSize
    match m.nodes.malloc 1 node with
    | (_, none) => some (none, m, sv)
    | (nodes, some id) =>
        match m.bytes.malloc mallocSize block with
        | (_, none) => (nodes.free (some id)).map fun nodes => (none, { m with nodes := nodes }, sv)
        | (bytes, some d) =>
            (bytes.load data size).bind fun xs =>
            (bytes.store (some d) 0 xs).bind fun bytes =>
            (nodes.store (some id) 0 [{ value := { data := d, size := mallocSize }
                                        next := none }]).bind fun nodes =>
            (LinkedQueue.link nodes id sv.tail).map fun nodes =>
              (some id, { nodes := nodes, bytes := bytes },
                { sv with
                  head := if sv.tail.isNone then some id else sv.head
                  tail := some id
                  nodeSize := sv.nodeSize + 1 })

/-- Copy the second part of a message behind the first. -/
def copySecond (m : ServiceHeap) (id size : Nat) (data2 : Option Nat) (size2 : Nat) :
    Option ServiceHeap :=
  if 0 < size2 then
    (LinkedQueue.node m.nodes (some id)).bind fun node =>
    (m.bytes.load data2 size2).bind fun ys =>
    (m.bytes.store (some node.value.data) size ys).map fun bytes => { m with bytes := bytes }
  else some m

/-- `serialize_clean(&service->ser)`. -/
def cleanSer (m : ServiceHeap) (sv : LuaServiceAt) : Option (ServiceHeap × LuaServiceAt) :=
  (SerializeBuff.serializeClean { ser := sv.ser, heap := m.bytes }).map fun c =>
    ({ m with bytes := c.heap }, { sv with ser := c.ser })

/-- `lua_service_push_data`: whether the message is queued. It waits for the lock, and cleans
the serializer of the service that gets the message. -/
def luaServicePushDataAt (m : ServiceHeap) (sv : LuaServiceAt) (data : Option Nat) (size : Nat)
    (data2 : Option Nat) (size2 : Nat) (node : Answer MsgNode) (block : Answer UInt8) :
    Option (Bool × ServiceHeap × LuaServiceAt) :=
  if sv.flag then none
  else if sv.state = false then some (false, m, sv)
  else
    (createAndPushMsgNodeAt m sv data size ((size + size2) % 2 ^ 64) node block).bind
      fun (p, m, sv) =>
        match p with
        | none => some (false, m, sv)
        | some id =>
            (copySecond m id size data2 size2).bind fun m =>
            (cleanSer m sv).map fun (m, sv) => (true, m, sv)

/-- How a call of `lua_service_pop_msg` ends. -/
structure PopEndAt where
  heap : ServiceHeap
  service : LuaServiceAt
  lua : LuaState
  values : List LuaValue
  raised : Bool

/-- The block of a message as the decoder sees it, in front of other memory. -/
def messageInput (m : ServiceHeap) (v : MsgData) (behind : List UInt8) : Option Input :=
  (m.bytes.live v.data).bind fun xs =>
    if h : v.size ≤ xs.length then
      some {
        mem := xs ++ behind
        size := v.size
        size_le := by
          rw [List.length_append]
          exact Nat.le_trans h (Nat.le_add_right _ _) }
    else none

/-- What follows the decoder: a Lua error skips the release of the message. -/
def afterUnpack (released : LuaState → List LuaValue → Option PopEndAt)
    (raised : LuaState → PopEndAt) : EStateM.Result Stop Deser (List LuaValue) → Option PopEndAt
  | .ok values d => released d.lua values
  | .error (.error _ _) d => released d.lua []
  | .error .luaError d => some (raised d.lua)
  | .error _ _ => none

/-- `lua_service_pop_msg`. It waits for the lock. A Lua error leaves the lock taken and the
node with its data where they are. -/
def luaServicePopMsgAt (m : ServiceHeap) (sv : LuaServiceAt) (L : LuaState)
    (behind : Nat → List UInt8) : Option PopEndAt :=
  if sv.flag then none
  else if sv.state = false ∨ sv.head = none then
    some { heap := m, service := sv, lua := L, values := [], raised := false }
  else
    (LinkedQueue.node m.nodes sv.head).bind fun node =>
    let sv' := { sv with
      flag := true
      head := node.next
      tail := if sv.head = sv.tail then none else sv.tail }
    (messageInput m node.value (behind node.value.data)).bind fun inp =>
      afterUnpack
        (fun lua values =>
          (m.bytes.free (some node.value.data)).bind fun bytes =>
          (m.nodes.free sv.head).map fun nodes =>
            { heap := { nodes := nodes, bytes := bytes }
              service := { sv' with flag := false, nodeSize := sv.nodeSize - 1 }
              lua := lua, values := values, raised := false })
        (fun lua => { heap := m, service := sv', lua := lua, values := [], raised := true })
        (deserializeUnpack inp (-1) L)

/-- The loop of `lua_service_join` over the nodes. `fuel` bounds its rounds. -/
def releaseNodes : Nat → ServiceHeap → Option Nat → Option ServiceHeap
  | _, m, none => some m
  | 0, _, some _ => none
  | fuel + 1, m, some id =>
      (LinkedQueue.node m.nodes (some id)).bind fun node =>
      (m.bytes.free (some node.value.data)).bind fun bytes =>
      (m.nodes.free (some id)).bind fun nodes =>
        releaseNodes fuel { nodes := nodes, bytes := bytes } node.next

/-- The end of `lua_service_join`, once the thread has ended and its results have been
passed on through the serializer. -/
def luaServiceJoinAt (m : ServiceHeap) (sv : LuaServiceAt) : Option ServiceHeap :=
  (cleanSer m sv).bind fun (m, sv) =>
  (releaseNodes sv.nodeSize.toNat m sv.head).bind fun m =>
  (m.bytes.free sv.ser.initBuff).map fun bytes => { m with bytes := bytes }

/-! ## Runs -/

/-- The services of a process, and logs of each: the bytes packed since its serializer was
last cleaned, the messages accepted and those removed. `outside` are the other blocks that
scripts use, and `lost` are the nodes that Lua errors and failed calls of `lua_service_run` have
left behind. -/
structure Services where
  heap : ServiceHeap
  service : Nat → Option LuaServiceAt
  serBuffSize : Nat
  outside : List Nat
  packed : Nat → List UInt8
  accepted : Nat → List (List UInt8)
  taken : Nat → List (List UInt8)
  lost : List Nat

namespace Services

/-- What happens to service `k`. `serialize_pack` begins with `pack` and then writes one piece
after another, while other threads may act. `run` is `lua_service_run` up to the start of
the thread, which queues the packed arguments without the lock, `runEnd` its last assignment, and
`runFail` its end if `pthread_create` fails. -/
inductive Action
  | create (k id : Nat) (fill : Nat → UInt8)
  | pack (k : Nat)
  | packBytes (k : Nat) (bytes : List UInt8) (id : Nat) (fill : Nat → UInt8)
  | run (k : Nat) (node : Answer MsgNode) (block : Answer UInt8)
  | runEnd (k : Nat)
  | runFail (k : Nat)
  | push (k : Nat) (data : Option Nat) (size : Nat) (data2 : Option Nat) (size2 : Nat)
      (node : Answer MsgNode) (block : Answer UInt8)
  | pop (k : Nat) (L : LuaState) (behind : Nat → List UInt8)
  | stop (k : Nat)
  | join (k : Nat)
  | write (id : Nat) (bytes : List UInt8)

/-- What a pointer leads to when it is read. -/
def read (s : Services) (p : Option Nat) (size : Nat) : List UInt8 :=
  (s.heap.bytes.load p size).getD []

/-- The message that the next pop takes. -/
def front (s : Services) (sv : LuaServiceAt) : Option (List UInt8) :=
  if sv.state then
    (LinkedQueue.node s.heap.nodes sv.head).map fun n => s.read (some n.value.data) n.value.size
  else none

/-- Service `k` and the heap after a call. -/
def put (s : Services) (k : Nat) (heap : ServiceHeap) (sv : LuaServiceAt) : Services :=
  { s with heap := heap, service := Function.update s.service k (some sv) }

/-- Service `k` after a call of its serializer, which holds `out` now. -/
def putSer (s : Services) (k : Nat) (sv : LuaServiceAt) (c : SerializeBuff.State)
    (out : List UInt8) : Services :=
  { s.put k { s.heap with bytes := c.heap } { sv with ser := c.ser } with
    packed := Function.update s.packed k out }

/-- The serializer of service `k` is empty again. -/
def cleaned (s : Services) (k : Nat) : Services :=
  { s with packed := Function.update s.packed k [] }

/-- Service `k` has accepted a message. -/
def accept (s : Services) (k : Nat) (x : List UInt8) : Services :=
  { s with accepted := Function.update s.accepted k (s.accepted k ++ [x]) }

def step (s : Services) : Action → Option Services
  | .create k id fill =>
      match s.service k, luaServiceCCreateHelp s.heap s.serBuffSize (some (id, fill)) with
      | none, (some sv, heap) =>
          some { s.put k heap sv with
            packed := Function.update s.packed k []
            accepted := Function.update s.accepted k []
            taken := Function.update s.taken k [] }
      | _, _ => none
  | .pack k =>
      (s.service k).bind fun sv =>
      (cleanSer s.heap sv).map fun (heap, sv) => (s.put k heap sv).cleaned k
  | .packBytes k bytes id fill =>
      (s.service k).bind fun sv =>
      (SerializeBuff.serializePackBytes { ser := sv.ser, heap := s.heap.bytes } (some (id, fill))
        bytes).map fun (c, _) => s.putSer k sv c (s.packed k ++ bytes)
  | .run k node block =>
      (s.service k).bind fun sv =>
      (createAndPushMsgNodeAt s.heap sv sv.ser.data sv.ser.size sv.ser.size node block).bind
        fun (p, heap, sv') =>
      (cleanSer heap sv').map fun (heap, sv') =>
        let t := (s.put k heap sv').cleaned k
        if p.isSome then t.accept k (s.read sv.ser.data sv.ser.size) else t
  | .runEnd k => (s.service k).map fun sv => s.put k s.heap { sv with state := true }
  | .runFail k =>
      -- the service is freed without its messages, and without a serializer that has grown, but
      -- only its own script, which has not started, packs again after `run`
      (s.service k).bind fun sv =>
        if sv.ser.data ≠ sv.ser.initBuff then none
        else (s.heap.bytes.free sv.ser.initBuff).map fun bytes =>
          { s with
            heap := { s.heap with bytes := bytes }
            service := Function.update s.service k none
            lost := LinkedQueue.names s.heap.nodes sv.nodeSize.toNat sv.head ++ s.lost }
  | .push k data size data2 size2 node block =>
      (s.service k).bind fun sv =>
      (luaServicePushDataAt s.heap sv data size data2 size2 node block).map fun (ok, heap, sv) =>
        let t := s.put k heap sv
        if ok then (t.cleaned k).accept k (s.read data size ++ s.read data2 size2) else t
  | .pop k L behind =>
      (s.service k).bind fun sv =>
      (luaServicePopMsgAt s.heap sv L behind).map fun r =>
        { s.put k r.heap r.service with
          taken := Function.update s.taken k (s.taken k ++ (s.front sv).toList)
          lost := if r.raised then sv.head.toList ++ s.lost else s.lost }
  | .stop k =>
      (s.service k).bind fun sv =>
        if sv.flag then none else some (s.put k s.heap { sv with state := false })
  | .join k =>
      (s.service k).bind fun sv =>
      (luaServiceJoinAt s.heap sv).map fun heap =>
        { s with heap := heap, service := Function.update s.service k none }
  | .write id bytes =>
      if id ∈ s.outside then
        (s.heap.bytes.store (some id) 0 bytes).map fun bytes =>
          { s with heap := { s.heap with bytes := bytes } }
      else none

/-- No service runs, and no memory is in use but that of the scripts. -/
structure Init (s : Services) : Prop where
  service : ∀ k, s.service k = none
  nodes : ∀ n, s.heap.nodes.live n = none
  bytes : ∀ d, (s.heap.bytes.live d).isSome ↔ d ∈ s.outside
  nodesFreed : s.heap.nodes.freed = []
  bytesFreed : s.heap.bytes.freed = []
  lost : s.lost = []

/-- The system gives out new blocks, which nobody points to yet, and grants the memory that
packing asks for. -/
def Kept (s : Services) : Action → Prop
  | .create _ id _ => s.heap.bytes.Fresh id
  | .packBytes k bytes id _ =>
      ∀ sv ∈ s.service k,
        SerializeBuff.State.Grants { ser := sv.ser, heap := s.heap.bytes } bytes.length id
  | .run _ node block =>
      (∀ p ∈ node, s.heap.nodes.Fresh p.1) ∧ ∀ p ∈ block, s.heap.bytes.Fresh p.1
  | .push _ data _ data2 _ node block =>
      (∀ p ∈ node, s.heap.nodes.Fresh p.1) ∧
        ∀ p ∈ block, s.heap.bytes.Fresh p.1 ∧ some p.1 ≠ data ∧ some p.1 ≠ data2
  | _ => True

instance (s : Services) : (a : Action) → Decidable (s.Kept a)
  | .create _ id _ => inferInstanceAs (Decidable (s.heap.bytes.Fresh id))
  | .packBytes k bytes id _ =>
      inferInstanceAs (Decidable (∀ sv ∈ s.service k, SerializeBuff.State.Grants
        { ser := sv.ser, heap := s.heap.bytes } bytes.length id))
  | .run _ node block =>
      inferInstanceAs (Decidable ((∀ p ∈ node, s.heap.nodes.Fresh p.1) ∧
        ∀ p ∈ block, s.heap.bytes.Fresh p.1))
  | .push _ data _ data2 _ node block =>
      inferInstanceAs (Decidable ((∀ p ∈ node, s.heap.nodes.Fresh p.1) ∧
        ∀ p ∈ block, s.heap.bytes.Fresh p.1 ∧ some p.1 ≠ data ∧ some p.1 ≠ data2))
  | .pack _ | .runEnd _ | .runFail _ | .pop _ _ _ | .stop _ | .join _ | .write _ _ =>
      inferInstanceAs (Decidable True)

end Services

def services : Machine Services Services.Action where
  Init := Services.Init
  step := Services.step

end RandServer
