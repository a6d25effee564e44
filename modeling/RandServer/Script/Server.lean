import RandServer.Lib.Machine
import RandServer.Lua.Table

/-!
# The logic server scripts

`network.lua`, `role_session.lua` and the login of `RoleLogin.lua`. The tables of a Lua
state are objects with an identity and maybe a metatable. The two modules and their tables
`sessions` and `all_roles` have the first identities, and their contents are fields of
`World`. The handlers that are registered in a module stand apart from its own fields:
nothing is registered under the name of one.

A script can raise an error, which `try_catch` stops. It can also do what is not described
here, such as decoding memory that a peer points to. Counters that are only printed,
and what is sent to clients and to the database, are left out.
-/

namespace RandServer.Script

/-! ## Names -/

/-- The fields of session objects. -/
inductive Field
  | type
  | listenFd
  | fd
  | ip
  | port
  | who
  | relogin
  | roleId
  | roleName
  | cnt
  | enByte
  | readMsgCnt
  | writeBuffCnt
  deriving DecidableEq, Repr

def Field.name : Field → String
  | .type => "type"
  | .listenFd => "listen_fd"
  | .fd => "fd"
  | .ip => "ip"
  | .port => "port"
  | .who => "who"
  | .relogin => "relogin"
  | .roleId => "role_id"
  | .roleName => "role_name"
  | .cnt => "cnt"
  | .enByte => "enByte"
  | .readMsgCnt => "read_msg_cnt"
  | .writeBuffCnt => "write_buff_cnt"

def Field.key (f : Field) : LuaValue := luaString f.name

theorem Field.key_inj {f g : Field} : f.key = g.key ↔ f = g := by
  refine ⟨fun h => ?_, fun h => by rw [h]⟩
  cases f <;> cases g <;> first | rfl | exact absurd h (by decide)

@[simp] theorem Field.luaKey_key (f : Field) : luaKey f.key = some f.key := rfl

/-- The functions of the two modules, and the handlers of `RoleLogin.lua`. -/
inductive ServerFunction
  | regSession
  | delSession
  | netRound
  | regWho
  | handleError
  | handleMsg
  | handleAccept
  | sendMsg
  | netListen
  | clientRequestLogin
  | helloRandom
  | roleHandleError
  | roleHandleMsg
  | roleClose
  | roleRegMsg
  deriving DecidableEq, Repr

namespace ServerFunction

def all : List ServerFunction :=
  [.regSession, .delSession, .netRound, .regWho, .handleError, .handleMsg, .handleAccept,
    .sendMsg, .netListen, .clientRequestLogin, .helloRandom, .roleHandleError, .roleHandleMsg,
    .roleClose, .roleRegMsg]

def value (f : ServerFunction) : LuaValue := .function (all.idxOf f)

theorem all_idxOf (f : ServerFunction) : all[all.idxOf f]? = some f := by
  cases f <;> rfl

end ServerFunction

/-- The identities of the modules and of their tables. -/
def networkId : Nat := 0
def sessionsId : Nat := 1
def roleSessionId : Nat := 2
def allRolesId : Nat := 3

/-! ## The state -/

/-- A received message: its length, what it decodes to, and the tables among that. -/
structure Message where
  size : BitVec 64
  values : List LuaValue
  tables : List LuaTable

/-- The state of the scripts and of their sockets. `rounds` are the calls of `do_round`
that are running: those that have not asked for an event yet, and those that read messages
for a session. -/
structure World where
  sessions : LuaTable
  count : Int
  whos : LuaTable
  allRoles : LuaTable
  msgs : LuaTable
  objs : Nat → LuaTable
  metas : Nat → Option Nat
  next : Nat
  sockets : List (BitVec 32)
  listeners : List (BitVec 32)
  addrs : BitVec 32 → LuaValue × LuaValue
  mail : BitVec 64 → Option Message
  rounds : List (Option (BitVec 32 × Nat))

def fdValue (fd : BitVec 32) : LuaValue := .integer (fd.setWidth 64)

namespace World

/-! ## Looking up -/

/-- The own fields of `network.lua`. -/
def networkFields (w : World) : List (String × LuaValue) :=
  [("__index", .table networkId),
    ("name", luaString "network"),
    ("sessions", .table sessionsId),
    ("count", .integer (BitVec.ofInt 64 w.count)),
    ("reg_session", ServerFunction.regSession.value),
    ("del_session", ServerFunction.delSession.value),
    ("net_round", ServerFunction.netRound.value),
    ("reg_who", ServerFunction.regWho.value),
    ("handle_error", ServerFunction.handleError.value),
    ("handle_msg", ServerFunction.handleMsg.value),
    ("handle_accept", ServerFunction.handleAccept.value),
    ("send_msg", ServerFunction.sendMsg.value),
    ("net_listen", ServerFunction.netListen.value)]

/-- The own fields of `role_session.lua`. The counters are some integers. -/
def roleSessionFields : List (String × LuaValue) :=
  [("name", luaString "role_session"),
    ("handle_error", ServerFunction.roleHandleError.value),
    ("msg_cnt", .integer 0),
    ("close_cnt", .integer 0),
    ("handle_msg", ServerFunction.roleHandleMsg.value),
    ("close", ServerFunction.roleClose.value),
    ("reg_msg", ServerFunction.roleRegMsg.value),
    ("send_msg", ServerFunction.sendMsg.value),
    ("all_roles", .table allRolesId)]

/-- A module table: the registered handlers and the own fields. -/
def moduleGet (registered : LuaTable) (fields : List (String × LuaValue)) (key : LuaValue) :
    LuaValue :=
  match registered.get key with
  | .nil => ((fields.find? fun e => luaString e.1 = key).map Prod.snd).getD .nil
  | v => v

def networkGet (w : World) (key : LuaValue) : LuaValue := moduleGet w.whos w.networkFields key

def roleSessionGet (w : World) (key : LuaValue) : LuaValue := moduleGet w.msgs roleSessionFields key

/-- `rawget`. -/
def get (w : World) (id : Nat) (key : LuaValue) : LuaValue :=
  if id = networkId then w.networkGet key
  else if id = sessionsId then w.sessions.get key
  else if id = roleSessionId then w.roleSessionGet key
  else if id = allRolesId then w.allRoles.get key
  else (w.objs id).get key

/-- `luaV_finishget`, or none where it raises an error. No metatable here has a function
as its `__index`. No key that the scripts look up is a name of the string library, which
is the metatable of strings. -/
def index (w : World) : Nat → LuaValue → LuaValue → Option LuaValue
  | 0, _, _ => none
  | fuel + 1, v, key =>
      match v with
      | .table id =>
          match w.get id key with
          | .nil =>
              match w.metas id with
              | none => some .nil
              | some mt =>
                  match w.get mt (luaString "__index") with
                  | .nil => some .nil
                  | next => w.index fuel next key
          | v => some v
      | .string _ => some .nil
      | _ => none

end World

/-- `MAXTAGLOOP`. -/
def maxTagLoop : Nat := 2000

/-! ## Scripts -/

/-- Why a script stops: with a Lua error, or with something that is not described here. -/
inductive ScriptStop
  | error
  | outside
  deriving DecidableEq, Repr

abbrev LuaM := EStateM ScriptStop World

def raise {α : Type} : LuaM α := throw .error

def leave {α : Type} : LuaM α := throw .outside

/-- `v[key]`. -/
def getIndex (v key : LuaValue) : LuaM LuaValue := do
  match (← get).index maxTagLoop v key with
  | some x => return x
  | none => raise

/-- `v[key] = x`. The tables of the modules are only written under their own names. -/
def setIndex (v key x : LuaValue) : LuaM Unit := do
  match v with
  | .table id =>
      if id ≤ allRolesId then leave
      else
        match ((← get).objs id).rawset key x with
        | none => raise
        | some t => modify fun w => { w with objs := Function.update w.objs id t }
  | _ => raise

/-- `setmetatable`. -/
def setMetatable (v : LuaValue) (mt : Option Nat) : LuaM Unit := do
  match v with
  | .table id =>
      if id ≤ allRolesId then leave
      else modify fun w => { w with metas := Function.update w.metas id mt }
  | _ => raise

/-- A table constructor. -/
def newTable : LuaM Nat := do
  let w ← get
  set { w with
    objs := Function.update w.objs w.next .empty
    metas := Function.update w.metas w.next none
    next := w.next + 1 }
  return w.next

/-- `luaL_checkinteger`. -/
def checkInteger : LuaValue → LuaM (BitVec 64)
  | .integer i => return i
  | .number bits =>
      match numIsInteger bits with
      | some i => return i
      | none => raise
  | .string _ => leave
  | _ => raise

/-- `v + d`. -/
def addInteger (v : LuaValue) (d : BitVec 64) : LuaM LuaValue :=
  match v with
  | .integer i => return .integer (i + d)
  | .number _ | .string _ => leave
  | _ => raise

/-- `xpcall` with a handler that returns: whether the call went well. -/
def tryCatch (x : LuaM Unit) : LuaM Bool := fun w =>
  match x w with
  | .ok _ w' => .ok true w'
  | .error .error w' => .ok false w'
  | .error .outside w' => .error .outside w'

/-! ## Sockets and messages -/

/-- `net.socket_close`. -/
def socketClose (fd : LuaValue) : LuaM Unit := do
  let i ← checkInteger fd
  modify fun w => { w with sockets := w.sockets.filter (· ≠ i.setWidth 32) }

/-- `net.socket_cfg`, whose result nobody looks at. -/
def socketCfg (fd enByte readMsgCnt writeBuffCnt : LuaValue) : LuaM Unit := do
  let _ ← checkInteger fd
  let _ ← checkInteger enByte
  let _ ← checkInteger readMsgCnt
  let _ ← checkInteger writeBuffCnt

/-- `net.ip_port`. -/
def ipPort (fd : LuaValue) : LuaM (LuaValue × LuaValue) := do
  let i ← checkInteger fd
  return (← get).addrs (i.setWidth 32)

/-- `service:unpack`. Behind any other pointer than that of a received message there is
unknown memory, or none. -/
def unpack (msg size : LuaValue) : LuaM (List LuaValue) := do
  let n ← checkInteger size
  if n = 0 then return []
  match msg with
  | .lightuserdata ptr =>
      match (← get).mail ptr with
      | some m => if n = m.size then return m.values else leave
      | none => leave
  | _ => leave

/-! ## `network.lua` -/

section Network

variable (call : LuaValue → List LuaValue → LuaM Unit)

def regSession (fd session : LuaValue) : LuaM Unit := do
  setIndex session Field.fd.key fd
  modify fun w =>
    { w with count := if truthy (w.sessions.get fd) then w.count else w.count + 1 }
  match (← get).sessions.rawset fd session with
  | none => raise
  | some t => modify fun w => { w with sessions := t }

def delSession (fd : LuaValue) : LuaM Unit := do
  socketClose fd
  modify fun w =>
    { w with count := if truthy (w.sessions.get fd) then w.count - 1 else w.count }
  match (← get).sessions.rawset fd .nil with
  | none => raise
  | some t => modify fun w => { w with sessions := t }

def regWho (msgType who : LuaValue) : LuaM Unit := do
  match (← get).whos.rawset msgType who with
  | none => raise
  | some t => modify fun w => { w with whos := t }

def networkHandleError (session : LuaValue) : LuaM Unit := do
  if truthy session then delSession (← getIndex session Field.fd.key)

/-- What `handle_msg` does with a message type. -/
inductive Dispatch
  | noHandler
  | metatable (id : Nat)
  | call (who : LuaValue)
  deriving DecidableEq, Repr

def World.networkDispatch (w : World) (msgType : LuaValue) : Dispatch :=
  if truthy msgType then
    match w.networkGet msgType with
    | .table id => .metatable id
    | who => if truthy who then .call who else .noHandler
  else .noHandler

/-- The call of the session's `handle_error` when there is no handler. -/
def networkNoHandler (session : LuaValue) : LuaM Unit := do
  call (← getIndex session (luaString "handle_error")) [session]

def networkHandleMsg (session msgSize msg : LuaValue) : LuaM Unit := do
  let values ← unpack msg msgSize
  let msgType := values.headD .nil
  match (← get).networkDispatch msgType with
  | .noHandler => networkNoHandler call session
  | .metatable id =>
      setMetatable session none
      setIndex session Field.who.key msgType
      setMetatable session (some id)
  | .call who =>
      setMetatable session none
      setIndex session Field.who.key msgType
      let _ ← tryCatch (call who (session :: values.tail))

def handleAccept (lsession newfd : LuaValue) : LuaM Unit := do
  let session := .table (← newTable)
  setIndex session Field.type.key (luaString "accept")
  setIndex session Field.listenFd.key (← getIndex lsession Field.fd.key)
  setMetatable session (some networkId)
  regSession newfd session
  socketCfg newfd (← getIndex lsession Field.enByte.key)
    (← getIndex lsession Field.readMsgCnt.key) (← getIndex lsession Field.writeBuffCnt.key)
  let addr ← ipPort newfd
  setIndex session Field.ip.key addr.1
  setIndex session Field.port.key addr.2

/-- `send_msg`, up to the packing and sending. -/
def sendMsg (session : LuaValue) : LuaM Unit := do
  let _ ← checkInteger (← getIndex session Field.fd.key)

/-- `net_listen`, which starts with `luaL_checkstring` of the address. -/
def netListen : LuaValue → LuaM Unit
  | .string _ | .integer _ | .number _ => leave
  | _ => raise

/-- `net_round` starts another `do_round`, which runs in the following steps. -/
def netRound : LuaM Unit := modify fun w => { w with rounds := none :: w.rounds }

/-! ## `role_session.lua` -/

def World.roleDispatch (w : World) (msgType : LuaValue) : Dispatch :=
  if truthy (w.roleSessionGet msgType) then .call (w.roleSessionGet msgType) else .noHandler

def roleHandleMsg (session msgSize msg : LuaValue) : LuaM Unit := do
  let values ← unpack msg msgSize
  match (← get).roleDispatch (values.headD .nil) with
  | .call fn => call fn (session :: values.tail)
  | _ => return

def roleHandleError (session : LuaValue) : LuaM Unit := do
  if truthy session then call (← getIndex session (luaString "close")) [session]

def roleClose (session : LuaValue) : LuaM Unit := do
  delSession (← getIndex session Field.fd.key)
  let roleId ← getIndex session Field.roleId.key
  match (← get).allRoles.rawset roleId .nil with
  | none => raise
  | some t => modify fun w => { w with allRoles := t }

def roleRegMsg (msgType fn : LuaValue) : LuaM Unit := do
  match (← get).msgs.rawset msgType fn with
  | none => raise
  | some t => modify fun w => { w with msgs := t }

/-! ## `RoleLogin.lua` -/

/-- `for k, v in pairs(role) do session[k] = v end`, over the entries of `role`. -/
def copyEntries (session : LuaValue) : List (LuaValue × LuaValue) → LuaM Unit
  | [] => return
  | e :: es => do
      setIndex session e.1 e.2
      copyEntries session es

/-- The old connection of a role is closed, and the new one takes its fields. -/
def takeOver (session role : LuaValue) : LuaM Unit := do
  delSession (← getIndex role Field.fd.key)
  match role with
  | .table id => copyEntries session ((← get).objs id).entries
  | _ => raise

/-- The assignments of a login to its session. -/
def identify (session loginInfo newfd : LuaValue) : LuaM Unit := do
  setIndex session Field.fd.key newfd
  setIndex session Field.roleId.key (← getIndex loginInfo Field.roleId.key)
  setIndex session Field.roleName.key (← getIndex loginInfo Field.roleName.key)
  setIndex session Field.relogin.key (← addInteger (← getIndex session Field.relogin.key) 1)

/-- `all_roles[role_id] = session`, and the metatable of role sessions. -/
def enterRole (session roleId : LuaValue) : LuaM Unit := do
  match (← get).allRoles.rawset roleId session with
  | none => raise
  | some t => modify fun w => { w with allRoles := t }
  setMetatable session none
  let mt ← newTable
  setIndex (.table mt) (luaString "__index") (.table roleSessionId)
  setMetatable session (some mt)

/-- `ClientRequestLogin`, up to the request to the database at its end. -/
def clientRequestLogin (session loginInfo : LuaValue) : LuaM Unit := do
  let roleId ← getIndex loginInfo Field.roleId.key
  if !truthy roleId then
    call (← getIndex session (luaString "close")) [session]
  else
    let role := (← get).allRoles.get roleId
    let newfd ← getIndex session Field.fd.key
    if !truthy role then
      setIndex session Field.relogin.key (.integer (-1))
      setIndex session Field.type.key (luaString "role")
    else takeOver session role
    identify session loginInfo newfd
    enterRole session roleId
    call (← getIndex session (luaString "send_msg")) [session]

/-- `hello_random`, up to its request to the database. -/
def helloRandom (session : LuaValue) : LuaM Unit := do
  call (← getIndex session (luaString "send_msg")) [session]

/-! ## Calls -/

/-- Call a function of the server. Arguments that are missing are nil. -/
def runFunction (f : ServerFunction) (args : List LuaValue) : LuaM Unit :=
  let a := args.getD 0 .nil
  let b := args.getD 1 .nil
  let c := args.getD 2 .nil
  match f with
  | .regSession => regSession a b
  | .delSession => delSession a
  | .netRound => netRound
  | .regWho => regWho a b
  | .handleError => networkHandleError a
  | .handleMsg => networkHandleMsg call a b c
  | .handleAccept => handleAccept a b
  | .sendMsg => sendMsg a
  | .netListen => netListen a
  | .clientRequestLogin => clientRequestLogin call a b
  | .helloRandom => helloRandom call a
  | .roleHandleError => roleHandleError call a
  | .roleHandleMsg => roleHandleMsg call a b c
  | .roleClose => roleClose a
  | .roleRegMsg => roleRegMsg a b

end Network

/-- Call a value, with at most so many calls inside each other. Only functions can be
called. -/
def callValue : Nat → LuaValue → List LuaValue → LuaM Unit
  | 0, _, _ => raise
  | depth + 1, .function n, args =>
      match ServerFunction.all[n]? with
      | some f => runFunction (callValue depth) f args
      | none => leave
  | _ + 1, _, _ => raise

/-- `LUAI_MAXCCALLS`. -/
def maxCCalls : Nat := 200

/-! ## Rounds -/

/-- The branches of `do_round` for a socket that was accepted or that listens. -/
inductive RoundEvent
  | accept (newfds : List (BitVec 32))
  | error
  | read

/-- `net.accept` until there is no new connection. -/
def acceptLoop (session : LuaValue) : List (BitVec 32) → LuaM Unit
  | [] => return
  | newfd :: newfds => do
      modify fun w => { w with sockets := newfd :: w.sockets }
      callValue maxCCalls (← getIndex session (luaString "handle_accept"))
        [session, fdValue newfd]
      acceptLoop session newfds

/-- `do_round`, up to the loop that reads messages. -/
def startRound (fd : BitVec 32) (event : RoundEvent) : LuaM Unit := do
  match (← get).sessions.get (fdValue fd) with
  | .table id =>
      match event with
      | .accept newfds => acceptLoop (.table id) newfds
      | .error => callValue maxCCalls (← getIndex (.table id) (luaString "handle_error")) [.table id]
      | .read => modify fun w => { w with rounds := some (fd, id) :: w.rounds }
  | _ => return

/-- One message of the loop. -/
def readMessage (session : Nat) (ptr size : BitVec 64) : LuaM Unit := do
  let handleMsg ← getIndex (.table session) (luaString "handle_msg")
  let _ ← tryCatch
    (callValue maxCCalls handleMsg [.table session, .integer size, .lightuserdata ptr])

/-- The loop ends with an error of `net.socket_read`. -/
def readError (session : Nat) : LuaM Unit := do
  callValue maxCCalls (← getIndex (.table session) (luaString "handle_error")) [.table session]

/-! ## The server -/

namespace World

/-- The end of a script under `try_catch`, if it is described here. -/
def after {α : Type} (w : World) (x : LuaM α) : Option World :=
  match x w with
  | .ok _ w' => some w'
  | .error .error w' => some w'
  | .error .outside _ => none

/-- A value that can be decoded, whose tables have identities from `lo` up to `hi`. -/
def decodable (lo hi : Nat) : LuaValue → Bool
  | .table id => lo ≤ id && id < hi
  | .function _ | .thread _ => false
  | _ => true

/-- The tables of a message are new, and it only refers to them. -/
def decodes (w : World) (m : Message) : Bool :=
  m.size ≠ 0 && m.values.all (decodable w.next (w.next + m.tables.length)) &&
    m.tables.all fun t => t.entries.all fun e =>
      decodable w.next (w.next + m.tables.length) e.1 &&
        decodable w.next (w.next + m.tables.length) e.2

/-- Put a message at an address. -/
def receive (w : World) (ptr : BitVec 64) (m : Message) : World :=
  { w with
    mail := Function.update w.mail ptr (some m)
    objs := fun id => if id < w.next then w.objs id else (m.tables[id - w.next]?).getD .empty
    metas := fun id => if id < w.next then w.metas id else none
    next := w.next + m.tables.length }

/-- `net.free`. -/
def free (w : World) (ptr : BitVec 64) : World :=
  { w with mail := Function.update w.mail ptr none }

/-- What the sockets can report. Only listening sockets accept connections and do not
report messages, and the descriptor of a new connection is not in use. -/
def occurs (w : World) (fd : BitVec 32) : RoundEvent → Bool
  | .accept newfds =>
      fd ∈ w.listeners && newfds.Nodup && newfds.all fun newfd => newfd ∉ w.sockets && newfd ≠ 0
  | .error => true
  | .read => fd ∉ w.listeners

inductive Action
  | event (fd : BitVec 32) (event : RoundEvent)
  | idle
  | message (ptr : BitVec 64) (m : Message)
  | stop (size : Int)
  | close (fd : BitVec 32)

/-- `do_round` runs step by step. It starts with an event, or with none, when no other
one is running or when it was called by one. Then it handles one message after the other,
until `net.socket_read` returns 0 or, as it always does for a closed socket, an error.
Between the rounds the server may close a session. -/
def step (w : World) : Action → Option World
  | .event fd event =>
      if fd ≠ 0 ∧ w.occurs fd event then
        match w.rounds with
        | [] => w.after (startRound fd event)
        | none :: rounds => ({ w with rounds := rounds } : World).after (startRound fd event)
        | some _ :: _ => none
      else none
  | .idle =>
      match w.rounds with
      | none :: rounds => some { w with rounds := rounds }
      | _ => none
  | .message ptr m =>
      match w.rounds with
      | some (fd, session) :: _ =>
          if fd ∈ w.sockets ∧ w.mail ptr = none ∧ w.decodes m then
            ((w.receive ptr m).after (readMessage session ptr m.size)).map fun w => w.free ptr
          else none
      | _ => none
  | .stop size =>
      match w.rounds with
      | some (fd, session) :: rounds =>
          if size = 0 ∧ fd ∈ w.sockets then some { w with rounds := rounds }
          else if size < 0 then ({ w with rounds := rounds } : World).after (readError session)
          else none
      | _ => none
  | .close fd =>
      match w.rounds, w.sessions.get (fdValue fd) with
      | [], .table id =>
          w.after (do callValue maxCCalls (← getIndex (.table id) (luaString "close")) [.table id])
      | _, _ => none

/-- The server after `net_listen` and the registrations of `RoleLogin.lua`. -/
def start (fd : BitVec 32) (ip port cnt enByte readMsgCnt writeBuffCnt : LuaValue)
    (addrs : BitVec 32 → LuaValue × LuaValue) : World where
  sessions := LuaTable.empty.set (fdValue fd) (.table (allRolesId + 1))
  count := 1
  whos := LuaTable.empty.set (.integer 1) ServerFunction.clientRequestLogin.value
  allRoles := .empty
  msgs := LuaTable.empty.set (.integer 999) ServerFunction.helloRandom.value
  objs := Function.update (fun _ => .empty) (allRolesId + 1)
    ((((((((LuaTable.empty.set Field.type.key (luaString "listen")).set Field.ip.key ip).set
      Field.port.key port).set Field.cnt.key cnt).set Field.enByte.key enByte).set
      Field.readMsgCnt.key readMsgCnt).set Field.writeBuffCnt.key writeBuffCnt).set
      Field.fd.key (fdValue fd))
  metas := Function.update (fun _ => none) (allRolesId + 1) (some networkId)
  next := allRolesId + 2
  sockets := [fd]
  listeners := [fd]
  addrs := addrs
  mail := fun _ => none
  rounds := []

/-- The server that `logic_server.lua` starts. -/
def listening : World :=
  start 1 (luaString "0.0.0.0") (.integer 3214) (.integer 5) (.integer 2) (.integer 1024)
    (.integer 64) fun _ => (luaString "127.0.0.1", .integer 40000)

end World

def server : Machine World World.Action where
  Init w := ∃ fd ip port cnt enByte readMsgCnt writeBuffCnt addrs, fd ≠ 0 ∧
    w = World.start fd ip port cnt enByte readMsgCnt writeBuffCnt addrs
  step := World.step

theorem World.listening_init : server.Init listening :=
  ⟨_, _, _, _, _, _, _, _, by decide, rfl⟩

end RandServer.Script
