import RandServer.Script.Sound

/-!
# Handlers of a session

What the calls of `handle_error`, `close` and `send_msg` do for a session. Which function is
called depends on the metatable of the session, and so on its `Kind`.
-/

namespace RandServer.Script

open StateError

namespace World

variable {w w' : World} {fd : BitVec 32} {id mt : Nat} {k r : LuaValue} {s : String}

/-! ## Ends of scripts -/

section After

variable {α β : Type} {x : LuaM α} {f : α → LuaM β} {a : α}

theorem after_ok (h : x w = .ok a w') : w.after x = some w' := by
  rw [after, h]

theorem after_raise (h : x w = .error .error w') : w.after x = some w' := by
  rw [after, h]

theorem after_bind (h : x w = .ok a w') : w.after (x >>= f) = w'.after (f a) := by
  rw [after, bind_ok h]
  rfl

theorem after_get_bind {g : World → LuaM β} : w.after (MonadState.get >>= g) = w.after (g w) :=
  after_bind rfl

theorem after_bind_raise (h : x w = .error .error w') : w.after (x >>= f) = some w' := by
  rw [after, bind_error h]

theorem after_modify_bind {g : World → World} {f : PUnit → LuaM β} :
    w.after (modify g >>= f) = (g w).after (f ⟨⟩) :=
  after_bind rfl

/-- A sequence ends in its first part or goes through it. -/
theorem after_bind_cases (h : w.after (x >>= f) = some w') :
    w.after x = some w' ∨ ∃ a u, w.after x = some u ∧ u.after (f a) = some w' := by
  cases hx : x w with
  | ok a u =>
      rw [after_bind hx] at h
      exact .inr ⟨a, u, after_ok hx, h⟩
  | error e u =>
      cases e with
      | error =>
          rw [after_bind_raise hx] at h
          exact .inl ((after_raise hx).trans h)
      | outside =>
          rw [after, bind_error hx] at h
          cases h

theorem after_tryCatch (x : LuaM Unit) : w.after (do let _ ← tryCatch x) = w.after x := by
  cases h : x w with
  | ok a w₁ =>
      have htry : tryCatch x w = .ok true w₁ := by
        simp only [tryCatch, h]
      rw [after_ok h, after_bind htry]
      rfl
  | error e w₁ =>
      cases e with
      | error =>
          have htry : tryCatch x w = .ok false w₁ := by
            simp only [tryCatch, h]
          rw [after_raise h, after_bind htry]
          rfl
      | outside =>
          have htry : tryCatch x w = .error .outside w₁ := by
            simp only [tryCatch, h]
          rw [after, after, bind_error htry, h]

/-- A call of something else than a function raises an error. -/
theorem after_call_raise {v : LuaValue} (depth : Nat) (hv : ∀ n, v ≠ .function n)
    (args : List LuaValue) : w.after (callValue depth v args) = some w :=
  after_raise (callValue_raise depth hv args)

end After

/-! ## Looking up -/

theorem Sound.whos_luaString (h : w.Sound) (s : String) : w.whos.get (luaString s) = .nil := by
  have hne : luaKey (luaString s) ≠ some (.integer 1) := by
    rw [luaKey_luaString]
    exact nofun
  rw [h.whos, LuaTable.get_set_ne (luaKey_integer 1) _ _ hne, LuaTable.get_empty]

theorem Sound.msgs_luaString (h : w.Sound) (s : String) : w.msgs.get (luaString s) = .nil := by
  by_contra hne
  obtain heq | ⟨id, -, heq⟩ := h.msgs _
    (LuaTable.mem_entries_iff.mpr ⟨luaKey_luaString s, hne, rfl⟩)
  · cases congrArg Prod.fst heq
  · cases heq

/-- An own field of `network.lua`. -/
theorem Sound.networkGet_luaString (h : w.Sound) (s : String) : w.networkGet (luaString s) =
    ((w.networkFields.find? fun e => luaString e.1 = luaString s).map Prod.snd).getD .nil := by
  rw [networkGet, moduleGet, h.whos_luaString]

/-- An own field of `role_session.lua`. -/
theorem Sound.roleSessionGet_luaString (h : w.Sound) (s : String) :
    w.roleSessionGet (luaString s) =
      ((roleSessionFields.find? fun e => luaString e.1 = luaString s).map Prod.snd).getD .nil := by
  rw [roleSessionGet, moduleGet, h.msgs_luaString]

/-- Behind the metatable of a module there is nothing. -/
theorem Sound.index_module (h : w.Sound) (hid : id ≤ allRolesId) (k : LuaValue) (fuel : Nat) :
    w.index (fuel + 1) (.table id) k = some (w.get id k) := by
  by_cases hnil : w.get id k = .nil
  · rw [hnil]
    exact index_none hnil (h.metas id hid)
  · exact index_own hnil

section Index

variable (hs : w.Session fd id)
include hs

theorem Session.get_luaString (hfield : ∀ f : Field, luaString s ≠ f.key) :
    w.get id (luaString s) = .nil := by
  rw [get_obj hs.low]
  exact hs.plain.get hfield

theorem Session.index_stripped (hmeta : w.metas id = none)
    (hfield : ∀ f : Field, luaString s ≠ f.key) :
    w.index maxTagLoop (.table id) (luaString s) = some .nil :=
  index_none (hs.get_luaString hfield) hmeta

theorem Session.index_network (h : w.Sound) (hmeta : w.metas id = some networkId)
    (hfield : ∀ f : Field, luaString s ≠ f.key) :
    w.index maxTagLoop (.table id) (luaString s) = some (w.networkGet (luaString s)) := by
  have hindex : w.get networkId (luaString "__index") = .table networkId := by
    show w.networkGet (luaString "__index") = _
    rw [h.networkGet_luaString]
    rfl
  rw [maxTagLoop, index_meta (hs.get_luaString hfield) hmeta hindex nofun]
  exact h.index_module (Nat.zero_le _) _ _

theorem Session.index_role (h : w.Sound) (hmeta : w.metas id = some mt) (hmt : w.RoleMeta mt)
    (hfield : ∀ f : Field, luaString s ≠ f.key) :
    w.index maxTagLoop (.table id) (luaString s) = some (w.roleSessionGet (luaString s)) := by
  have hindex : w.get mt (luaString "__index") = .table roleSessionId := by
    rw [get_obj hmt.low]
    exact hmt.index
  rw [maxTagLoop, index_meta (hs.get_luaString hfield) hmeta hindex nofun]
  exact h.index_module (by decide) _ _

theorem Session.getIndex_fd : getIndex (.table id) Field.fd.key w = .ok (fdValue fd) w := by
  have hown : w.get id Field.fd.key = fdValue fd := by
    rw [get_obj hs.low]
    exact hs.fd
  apply getIndex_eq
  rw [maxTagLoop, index_own (by rw [hown]; exact nofun), hown]

end Index

/-! ## Calls -/

/-- A call of a function of a session with the session. -/
def callMethod (depth id : Nat) (name : String) : LuaM Unit := do
  let f ← getIndex (.table id) (luaString name)
  callValue depth f [.table id]

/-- What `handle_error` does to a session. -/
def hangUp (w : World) (fd : BitVec 32) (id : Nat) : World :=
  match w.metas id with
  | none => w
  | some mt =>
      if mt = networkId then w.dropSession fd
      else w.closeRole fd ((w.objs id).get Field.roleId.key)

theorem hangUp_stripped (hmeta : w.metas id = none) : w.hangUp fd id = w := by
  rw [hangUp, hmeta]

theorem hangUp_network (hmeta : w.metas id = some networkId) :
    w.hangUp fd id = w.dropSession fd := by
  rw [hangUp, hmeta]
  exact if_pos rfl

theorem hangUp_role (hmeta : w.metas id = some mt) (hmt : w.RoleMeta mt) :
    w.hangUp fd id = w.closeRole fd ((w.objs id).get Field.roleId.key) := by
  have hne : mt ≠ networkId := Nat.ne_of_gt (Nat.lt_of_le_of_lt (Nat.zero_le _) hmt.low)
  rw [hangUp, hmeta]
  exact if_neg hne

theorem handleError_ne : ∀ f : Field, luaString "handle_error" ≠ f.key := by
  intro f
  cases f <;> decide

theorem handleMsg_ne : ∀ f : Field, luaString "handle_msg" ≠ f.key := by
  intro f
  cases f <;> decide

theorem close_ne : ∀ f : Field, luaString "close" ≠ f.key := by
  intro f
  cases f <;> decide

theorem sendMsg_ne : ∀ f : Field, luaString "send_msg" ≠ f.key := by
  intro f
  cases f <;> decide

section Calls

variable (hs : w.Session fd id)
include hs

theorem Session.sendMsg : sendMsg (.table id) w = .ok () w := by
  rw [Script.sendMsg, bind_ok hs.getIndex_fd]
  rfl

theorem Session.networkHandleError :
    networkHandleError (.table id) w = .ok () (w.dropSession fd) := by
  show (getIndex (.table id) Field.fd.key >>= delSession) w = _
  rw [bind_ok hs.getIndex_fd, delSession_eq]

theorem Session.roleClose (hrole : w.role id = some k) :
    roleClose (.table id) w =
      .ok () (w.closeRole fd ((w.objs id).get Field.roleId.key)) := by
  have hown : (w.dropSession fd).get id Field.roleId.key = (w.objs id).get Field.roleId.key :=
    get_obj hs.low _
  have hne : (w.objs id).get Field.roleId.key ≠ .nil := by
    intro hnil
    rw [World.role, hnil] at hrole
    cases hrole
  have hindex : getIndex (.table id) Field.roleId.key (w.dropSession fd) =
      .ok ((w.objs id).get Field.roleId.key) (w.dropSession fd) := by
    apply getIndex_eq
    rw [maxTagLoop, index_own (by rw [hown]; exact hne), hown]
  have hset := LuaTable.rawset_eq hrole w.allRoles .nil
  have hroles : (w.dropSession fd).allRoles = w.allRoles := rfl
  rw [Script.roleClose, bind_ok hs.getIndex_fd, bind_ok delSession_eq, bind_ok hindex, get_bind,
    hroles, hset]
  rfl

/-- An error of the connection is handled according to the metatable. -/
theorem Session.after_handleError (h : w.Sound) (depth : Nat) :
    w.after (callMethod (depth + 3) id "handle_error") = some (w.hangUp fd id) := by
  cases hs.kind with
  | stripped hmeta _ =>
      rw [callMethod, after_bind (getIndex_eq (hs.index_stripped hmeta handleError_ne)),
        after_call_raise (v := .nil) _ nofun, hangUp_stripped hmeta]
  | network hmeta _ =>
      have hget : w.networkGet (luaString "handle_error") = ServerFunction.handleError.value := by
        rw [h.networkGet_luaString]
        simp [networkFields, luaString]
      rw [callMethod, after_bind (getIndex_eq (hs.index_network h hmeta handleError_ne)), hget,
        callValue_function, hangUp_network hmeta]
      exact after_ok hs.networkHandleError
  | role hmeta hmt hrole _ =>
      have hget : w.roleSessionGet (luaString "handle_error") =
          ServerFunction.roleHandleError.value := by
        rw [h.roleSessionGet_luaString]
        rfl
      have hclose : w.roleSessionGet (luaString "close") = ServerFunction.roleClose.value := by
        rw [h.roleSessionGet_luaString]
        rfl
      rw [callMethod, after_bind (getIndex_eq (hs.index_role h hmeta hmt handleError_ne)), hget,
        callValue_function, hangUp_role hmeta hmt]
      show w.after (callMethod (depth + 2) id "close") = _
      rw [callMethod, after_bind (getIndex_eq (hs.index_role h hmeta hmt close_ne)), hclose,
        callValue_function]
      exact after_ok (hs.roleClose hrole)

/-- Only role sessions have a `close`. -/
theorem Session.after_close (h : w.Sound) (depth : Nat) :
    w.after (callMethod (depth + 1) id "close") =
      some (if w.metas id = some networkId then w else w.hangUp fd id) := by
  cases hs.kind with
  | stripped hmeta _ =>
      rw [callMethod, after_bind (getIndex_eq (hs.index_stripped hmeta close_ne)),
        after_call_raise (v := .nil) _ nofun, hmeta, hangUp_stripped hmeta]
      rfl
  | network hmeta _ =>
      have hget : w.networkGet (luaString "close") = .nil := by
        rw [h.networkGet_luaString]
        simp [networkFields, luaString]
      rw [callMethod, after_bind (getIndex_eq (hs.index_network h hmeta close_ne)), hget,
        after_call_raise (v := .nil) _ nofun, if_pos hmeta]
  | role hmeta hmt hrole _ =>
      have hget : w.roleSessionGet (luaString "close") = ServerFunction.roleClose.value := by
        rw [h.roleSessionGet_luaString]
        rfl
      have hne : w.metas id ≠ some networkId := by
        rw [hmeta]
        rintro ⟨⟩
        exact absurd hmt.low (by decide)
      rw [callMethod, after_bind (getIndex_eq (hs.index_role h hmeta hmt close_ne)), hget,
        callValue_function, if_neg hne, hangUp_role hmeta hmt]
      exact after_ok (hs.roleClose hrole)

end Calls

/-! ## Sessions that hang up -/

theorem Kind.role_network (h : w.Kind id) (hmeta : w.metas id = some networkId) :
    w.role id = none := by
  cases h with
  | stripped _ hrole => exact hrole
  | network _ hrole => exact hrole
  | role hm hmt _ _ =>
      rw [hm, Option.some_inj] at hmeta
      exact absurd hmt.low (by rw [hmeta]; decide)

theorem RoleMeta.ne_network (hmt : w.RoleMeta mt) (hmeta : w.metas id = some mt) :
    w.metas id ≠ some networkId := by
  rw [hmeta]
  rintro ⟨⟩
  exact absurd hmt.low (by decide)

theorem Kind.role_of_roleMeta (h : w.Kind id) (hmeta : w.metas id = some mt)
    (hmt : w.RoleMeta mt) : ∃ k, w.role id = some k := by
  cases h with
  | stripped hm _ =>
      rw [hmeta] at hm
      cases hm
  | network hm _ => exact absurd hm (hmt.ne_network hmeta)
  | role _ _ hrole _ => exact ⟨_, hrole⟩

theorem Sound.hangUp (h : w.Sound) (hconn : w.conn fd = some id) : (w.hangUp fd id).Sound := by
  cases (h.session hconn).2.kind with
  | stripped hmeta _ =>
      rw [hangUp_stripped hmeta]
      exact h
  | network hmeta hrole =>
      rw [hangUp_network hmeta]
      apply h.dropSession
      intro id' hconn'
      rw [hconn, Option.some_inj] at hconn'
      rw [← hconn', hrole]
  | role hmeta hmt hrole _ =>
      rw [hangUp_role hmeta hmt]
      exact h.closeRole hconn hrole hrole

/-- A session that was closed, with its role. -/
structure Gone (w : World) (fd : BitVec 32) (id : Nat) : Prop where
  session : w.Session fd id
  conn : w.conn fd = none
  shut : fd ∉ w.sockets
  owner : ∀ r, w.role id = some r → w.owner r = none

theorem dropSession_gone (h : w.Sound) (hgone : w.Gone fd id) : w.dropSession fd = w := by
  have hnil := h.get_eq_nil hgone.conn
  have hsockets : w.sockets.filter (· ≠ fd) = w.sockets := by
    apply List.filter_eq_self.mpr
    intro fd' hfd'
    have hne : fd' ≠ fd := by
      rintro rfl
      exact hgone.shut hfd'
    simpa using hne
  rw [dropSession, hsockets, LuaTable.set_nil_of_get (luaKey_fdValue fd) hnil, hnil]
  rfl

/-- A second error changes nothing. -/
theorem hangUp_gone (h : w.Sound) (hgone : w.Gone fd id) : w.hangUp fd id = w := by
  cases hgone.session.kind with
  | stripped hmeta _ => exact hangUp_stripped hmeta
  | network hmeta _ => rw [hangUp_network hmeta, dropSession_gone h hgone]
  | @role _ r _ hmeta hmt hrole _ =>
      have hfree := hgone.owner r hrole
      have hnormal := luaKey_normal hrole
      have hnil : w.allRoles.get ((w.objs id).get Field.roleId.key) = .nil := by
        rw [LuaTable.get_congr hrole]
        by_contra hne
        obtain ⟨id', heq⟩ := h.allRoles _ (LuaTable.mem_entries_iff.mpr ⟨hnormal, hne, rfl⟩)
        have heq : w.allRoles.get r = .table id' := heq
        rw [World.owner, if_pos hnormal, heq] at hfree
        cases hfree
      rw [hangUp_role hmeta hmt, closeRole, dropSession_gone h hgone,
        LuaTable.set_nil_of_get hrole hnil]

theorem gone_dropSession (h : w.Sound) (hconn : w.conn fd = some id) (hrole : w.role id = none) :
    (w.dropSession fd).Gone fd id := by
  obtain ⟨-, hsession⟩ := h.session hconn
  refine ⟨hsession.dropSession fd, conn_dropSession_self, not_mem_sockets_dropSession, ?_⟩
  intro r hr
  have hr : w.role id = some r := hr
  rw [hrole] at hr
  cases hr

/-- After an error, a session is closed or had lost its metatable before. -/
theorem gone_hangUp (h : w.Sound) (hconn : w.conn fd = some id) (hmeta : w.metas id ≠ none) :
    (w.hangUp fd id).Gone fd id := by
  obtain ⟨-, hsession⟩ := h.session hconn
  cases hsession.kind with
  | stripped hm _ => exact absurd hm hmeta
  | network hm hrole =>
      rw [hangUp_network hm]
      exact gone_dropSession h hconn hrole
  | role hm hmt hrole _ =>
      rw [hangUp_role hm hmt]
      refine ⟨hsession.same rfl rfl rfl, conn_dropSession_self (w := w),
        not_mem_sockets_dropSession (w := w), ?_⟩
      intro r hr
      have hr : w.role id = some r := hr
      have howner : (w.closeRole fd ((w.objs id).get Field.roleId.key)).owner =
          Function.update w.owner _ none := owner_set hrole ..
      rw [hrole, Option.some_inj] at hr
      rw [howner, hr, Function.update_self]

end World

end RandServer.Script
