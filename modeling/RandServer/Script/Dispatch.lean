import RandServer.Script.ServerSpec

/-!
# Message types and handlers

`network.lua` and `role_session.lua` look the type of a message up in their module tables.
The handlers are there, and so are the functions and variables of the modules, under
strings that a peer can send.

That a message leads to no handler is said for every meaning of a call. So no function is
called but the `handle_error` of the session, and no metatable is changed.
-/

namespace RandServer.Script

open StateError

namespace World

variable {w : World} {registered : LuaTable} {fields : List (String × LuaValue)} {k v : LuaValue}

/-! ## Module tables -/

/-- A type that is not registered finds an own field, or nothing. -/
theorem truthy_moduleGet_iff (hfields : ∀ e ∈ fields, truthy e.2) (hnil : registered.get k = .nil) :
    truthy (moduleGet registered fields k) ↔ ∃ e ∈ fields, k = luaString e.1 := by
  simp only [moduleGet, hnil]
  cases hfind : fields.find? fun e => luaString e.1 = k with
  | none =>
      have hnot := List.find?_eq_none.mp hfind
      constructor
      · intro htrue
        cases htrue
      · rintro ⟨e, he, rfl⟩
        exact absurd (decide_eq_true rfl) (hnot e he)
  | some e =>
      have hmem := List.mem_of_find?_eq_some hfind
      have hkey : luaString e.1 = k := by simpa using List.find?_some hfind
      exact ⟨fun _ => ⟨e, hmem, hkey.symm⟩, fun _ => hfields e hmem⟩

theorem networkFields_truthy (w : World) : ∀ e ∈ w.networkFields, truthy e.2 := by
  simp [networkFields, truthy, luaString, ServerFunction.value]

theorem roleSessionFields_truthy : ∀ e ∈ roleSessionFields, truthy e.2 := by
  simp [roleSessionFields, truthy, luaString, ServerFunction.value]

theorem networkDispatch_eq_noHandler_iff :
    w.networkDispatch v = .noHandler ↔ ¬ (truthy v ∧ truthy (w.networkGet v)) := by
  rw [networkDispatch]
  split
  · rename_i htrue
    split
    · rename_i id hget
      simp [htrue, hget]
    · split <;> simp_all
  · simp_all

theorem roleDispatch_eq_noHandler_iff :
    w.roleDispatch v = .noHandler ↔ ¬ truthy (w.roleSessionGet v) := by
  rw [roleDispatch]
  split <;> simp_all

/-- A type that is not registered is dispatched exactly if it names a field of
`network.lua`. -/
theorem networkDispatch_field_iff (hnil : w.whos.get v = .nil) :
    w.networkDispatch v ≠ .noHandler ↔ ∃ e ∈ w.networkFields, v = luaString e.1 := by
  rw [ne_eq, networkDispatch_eq_noHandler_iff, not_not, networkGet,
    truthy_moduleGet_iff w.networkFields_truthy hnil]
  refine and_iff_right_of_imp ?_
  rintro ⟨e, -, rfl⟩
  rfl

theorem roleDispatch_field_iff (hnil : w.msgs.get v = .nil) :
    w.roleDispatch v ≠ .noHandler ↔ ∃ e ∈ roleSessionFields, v = luaString e.1 := by
  rw [ne_eq, roleDispatch_eq_noHandler_iff, not_not, roleSessionGet,
    truthy_moduleGet_iff roleSessionFields_truthy hnil]

end World

/-! ## The two levels -/

/-- A message that `network.lua` has no registered handler for leads to no handler. -/
def NetworkOnlyRegistered (w : World) (session : Nat) (msgSize msg msgType : LuaValue) : Prop :=
  w.whos.get msgType = .nil → ∀ call,
    networkHandleMsg call (.table session) msgSize msg w = networkNoHandler call (.table session) w

/-- A message that `role_session.lua` has no registered handler for is ignored. -/
def RoleOnlyRegistered (w : World) (session : Nat) (msgSize msg msgType : LuaValue) : Prop :=
  w.msgs.get msgType = .nil → ∀ call, roleHandleMsg call (.table session) msgSize msg w = .ok () w

section Levels

variable {w : World} {session : Nat} {msgSize msg : LuaValue} {values : List LuaValue}

theorem networkHandleMsg_noHandler (call : LuaValue → List LuaValue → LuaM Unit)
    (hunpack : unpack msg msgSize w = .ok values w)
    (hnone : w.networkDispatch (values.headD .nil) = .noHandler) :
    networkHandleMsg call (.table session) msgSize msg w = networkNoHandler call (.table session) w := by
  rw [networkHandleMsg, bind_ok hunpack, get_bind]
  simp only [hnone]

theorem roleHandleMsg_noHandler (call : LuaValue → List LuaValue → LuaM Unit)
    (hunpack : unpack msg msgSize w = .ok values w)
    (hnone : w.roleDispatch (values.headD .nil) = .noHandler) :
    roleHandleMsg call (.table session) msgSize msg w = .ok () w := by
  rw [roleHandleMsg, bind_ok hunpack, get_bind]
  simp only [hnone]
  rfl

/-- What is dispatched on an unidentified connection strips its metatable, which no call
of `handle_error` does. -/
theorem networkHandleMsg_ne (hid : allRolesId < session) (hmeta : w.metas session = some networkId)
    (hunpack : unpack msg msgSize w = .ok values w)
    (hsome : w.networkDispatch (values.headD .nil) ≠ .noHandler) :
    networkHandleMsg (fun _ _ => leave) (.table session) msgSize msg w ≠
      networkNoHandler (fun _ _ => leave) (.table session) w := by
  have hfail : ∃ e, networkNoHandler (fun _ _ => leave) (.table session) w = .error e w := by
    obtain ⟨x, -, hget⟩ | hraise := getIndex_cases w (.table session) (luaString "handle_error")
    · exact ⟨.outside, by rw [networkNoHandler, bind_ok hget]; rfl⟩
    · exact ⟨.error, by rw [networkNoHandler, bind_error hraise]⟩
  obtain ⟨e, hfail⟩ := hfail
  rw [hfail, networkHandleMsg, bind_ok hunpack, get_bind]
  have hkey : luaKey Field.who.key = some Field.who.key := rfl
  cases hdispatch : w.networkDispatch (values.headD .nil) with
  | noHandler => exact absurd hdispatch hsome
  | metatable id =>
      dsimp only
      rw [bind_ok (setMetatable_eq hid none), bind_ok (setIndex_eq hid hkey),
        setMetatable_eq hid]
      exact nofun
  | call who =>
      dsimp only
      rw [bind_ok (setMetatable_eq hid none), bind_ok (setIndex_eq hid hkey)]
      intro heq
      obtain ⟨w', hw'⟩ : ∃ w', w' = (w.setMeta session none).setObj session
        (((w.setMeta session none).objs session).set Field.who.key (values.headD .nil)) := ⟨_, rfl⟩
      have hstripped : w'.metas session = none := by
        rw [hw']
        exact Function.update_self ..
      rw [← hw'] at heq
      have hleft : (tryCatch leave >>= fun _ => pure ()) w' = .error .outside w' := rfl
      rw [hleft] at heq
      have hsame : w' = w := by
        injection heq
      rw [hsame, hmeta] at hstripped
      cases hstripped

end Levels

/-- On both levels, a message leads to a handler only if its type is registered, exactly
if its type is registered or does not name a field of the module. -/
theorem dispatch_iff {w : World} {session : Nat} {msgSize msg : LuaValue} {values : List LuaValue}
    (hid : allRolesId < session) (hmeta : w.metas session = some networkId)
    (hunpack : unpack msg msgSize w = .ok values w) :
    (NetworkOnlyRegistered w session msgSize msg (values.headD .nil) ↔
      w.whos.get (values.headD .nil) ≠ .nil ∨
        ∀ e ∈ w.networkFields, values.headD .nil ≠ luaString e.1) ∧
    ∀ role, RoleOnlyRegistered w role msgSize msg (values.headD .nil) ↔
      w.msgs.get (values.headD .nil) ≠ .nil ∨
        ∀ e ∈ World.roleSessionFields, values.headD .nil ≠ luaString e.1 := by
  constructor
  · constructor
    · intro h
      by_contra hnot
      rw [not_or, not_not] at hnot
      obtain ⟨hnil, hfield⟩ := hnot
      push Not at hfield
      exact networkHandleMsg_ne hid hmeta hunpack ((World.networkDispatch_field_iff hnil).mpr hfield)
        (h hnil _)
    · rintro hor hnil call
      apply networkHandleMsg_noHandler call hunpack
      by_contra hsome
      obtain ⟨e, he, heq⟩ := (World.networkDispatch_field_iff hnil).mp hsome
      exact (hor.resolve_left (not_not.mpr hnil)) e he heq
  · intro role
    constructor
    · intro h
      by_contra hnot
      rw [not_or, not_not] at hnot
      obtain ⟨hnil, hfield⟩ := hnot
      push Not at hfield
      have hcall := h hnil fun _ _ => leave
      have hsome := (World.roleDispatch_field_iff hnil).mpr hfield
      rw [roleHandleMsg, bind_ok hunpack, get_bind] at hcall
      rw [ne_eq, World.roleDispatch_eq_noHandler_iff, not_not] at hsome
      simp only [World.roleDispatch, hsome, if_true] at hcall
      cases hcall
    · rintro hor hnil call
      apply roleHandleMsg_noHandler call hunpack
      by_contra hsome
      obtain ⟨e, he, heq⟩ := (World.roleDispatch_field_iff hnil).mp hsome
      exact (hor.resolve_left (not_not.mpr hnil)) e he heq

/-- The state in which a message with one value is handled. -/
def World.greeted (w : World) (v : LuaValue) : World :=
  w.receive 0 { size := 1, values := [v], tables := [] }

theorem World.unpack_greeted (w : World) (v : LuaValue) :
    unpack (.lightuserdata 0) (.integer 1) (w.greeted v) = .ok [v] (w.greeted v) := by
  have hmail : (w.greeted v).mail 0 = some { size := 1, values := [v], tables := [] } := by
    simp only [World.greeted, World.receive, Function.update_self]
  exact World.unpack_eq hmail (show (1 : BitVec 64) ≠ 0 by decide)

/-- On a new connection, the type 3 finds no handler. -/
theorem dispatch_integer : ∃ w, server.run World.listening [.event 1 (.accept [7]), .event 7 .read] =
    some w ∧
      NetworkOnlyRegistered (w.greeted (.integer 3)) 5 (.integer 1) (.lightuserdata 0) (.integer 3) ∧
      ∀ role, RoleOnlyRegistered (w.greeted (.integer 3)) role (.integer 1) (.lightuserdata 0)
        (.integer 3) := by
  obtain ⟨w, hrun, hw⟩ := (Option.any_eq_true
    (fun w : World => (w.greeted (.integer 3)).metas 5 = some networkId)
    (server.run World.listening [.event 1 (.accept [7]), .event 7 .read])).mp (by decide +kernel)
  have hmeta := of_decide_eq_true hw
  obtain ⟨hnetwork, hrole⟩ := dispatch_iff (by decide) hmeta (w.unpack_greeted _)
  refine ⟨w, hrun, hnetwork.mpr (.inr ?_), fun role => (hrole role).mpr (.inr ?_)⟩
  · exact fun e _ => nofun
  · exact fun e _ => nofun

/-- On a new connection, the type "sessions" makes the table of all connections the
metatable of the session. After a login, the type "close" calls `close`. -/
theorem dispatch_fields :
    (¬ ∀ w session v, server.Reachable w → w.metas session = some networkId →
      NetworkOnlyRegistered (w.greeted v) session (.integer 1) (.lightuserdata 0) v) ∧
    ¬ ∀ w session v, server.Reachable w →
      w.index maxTagLoop (.table session) (luaString "handle_msg") =
        some ServerFunction.roleHandleMsg.value →
      RoleOnlyRegistered (w.greeted v) session (.integer 1) (.lightuserdata 0) v := by
  constructor
  · intro h
    obtain ⟨w, hrun, hw⟩ := (Option.any_eq_true
      (fun w : World => w.metas 5 = some networkId ∧
        (w.greeted (luaString "sessions")).metas 5 = some networkId ∧
        (w.greeted (luaString "sessions")).whos.get (luaString "sessions") = .nil)
      (server.run World.listening [.event 1 (.accept [7]), .event 7 .read])).mp (by decide +kernel)
    obtain ⟨hmeta, hmeta', hwhos⟩ := of_decide_eq_true hw
    have hreach := Machine.Reachable.run (.init World.listening_init) hrun
    have hsome : (w.greeted (luaString "sessions")).networkDispatch (luaString "sessions") ≠
        .noHandler := by
      apply (World.networkDispatch_field_iff hwhos).mpr
      exact ⟨("sessions", .table sessionsId), by simp [World.networkFields], rfl⟩
    exact networkHandleMsg_ne (by decide) hmeta' (w.unpack_greeted _) hsome
      (h w 5 (luaString "sessions") hreach hmeta hwhos fun _ _ => leave)
  · intro h
    obtain ⟨w, hrun, hw⟩ := (Option.any_eq_true
      (fun w : World => w.index maxTagLoop (.table 5) (luaString "handle_msg") =
          some ServerFunction.roleHandleMsg.value ∧
        (w.greeted (luaString "close")).msgs.get (luaString "close") = .nil ∧
        (w.greeted (luaString "close")).roleDispatch (luaString "close") =
          .call ServerFunction.roleClose.value)
      (server.run World.listening [.event 1 (.accept [7]), .event 7 .read,
        .message 0 { size := 9, values := [.integer 1, .table 6],
                     tables := [LuaTable.empty.set Field.roleId.key (.integer 33)] }])).mp
      (by decide +kernel)
    obtain ⟨hindex, hmsgs, hdispatch⟩ := of_decide_eq_true hw
    have hreach := Machine.Reachable.run (.init World.listening_init) hrun
    have hnothing := h w 5 (luaString "close") hreach hindex hmsgs fun _ _ => leave
    rw [roleHandleMsg, bind_ok (w.unpack_greeted _), get_bind] at hnothing
    simp only [List.headD_cons, hdispatch] at hnothing
    cases hnothing

end RandServer.Script
