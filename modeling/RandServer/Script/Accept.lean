import RandServer.Script.Messages

/-!
# Accepted connections

`handle_accept` registers a session for a new connection before it configures the socket,
so the session stays when the configuration raises an error.
-/

namespace RandServer.Script

open StateError

namespace World

variable {w w' : World} {fd newfd : BitVec 32} {id : Nat} {t t' : LuaTable}

/-! ## The socket library -/

/-- A script that only looks things up. -/
def Looks {α : Type} (x : LuaM α) : Prop := ∀ w, (∃ a, x w = .ok a w) ∨ ∃ e, x w = .error e w

theorem Looks.bind {α β : Type} {x : LuaM α} {f : α → LuaM β} (hx : Looks x)
    (hf : ∀ a, Looks (f a)) : Looks (x >>= f) := by
  intro w
  obtain ⟨a, ha⟩ | ⟨e, he⟩ := hx w
  · rw [bind_ok ha]
    exact hf a w
  · exact .inr ⟨e, bind_error he⟩

theorem looks_pure {α : Type} (a : α) : Looks (pure a) := fun _ => .inl ⟨a, rfl⟩

theorem looks_checkInteger (v : LuaValue) : Looks (checkInteger v) :=
  fun _ => checkInteger_cases v

theorem looks_getIndex (v k : LuaValue) : Looks (getIndex v k) := by
  intro w
  obtain ⟨x, -, hx⟩ | hx := getIndex_cases w v k
  · exact .inl ⟨x, hx⟩
  · exact .inr ⟨_, hx⟩

theorem looks_socketCfg (fd enByte readMsgCnt writeBuffCnt : LuaValue) :
    Looks (socketCfg fd enByte readMsgCnt writeBuffCnt) :=
  (looks_checkInteger fd).bind fun _ => (looks_checkInteger enByte).bind fun _ =>
    (looks_checkInteger readMsgCnt).bind fun _ => (looks_checkInteger writeBuffCnt).bind fun _ =>
      looks_pure _

theorem looks_ipPort (fd : LuaValue) : Looks (ipPort fd) := by
  apply (looks_checkInteger fd).bind
  exact fun i w => .inl ⟨w.addrs (i.setWidth 32), rfl⟩

/-- After a look, the script goes on in the same state, or ends there. -/
theorem Looks.after {α β : Type} {x : LuaM α} {f : α → LuaM β} (hx : Looks x)
    (hafter : w.after (x >>= f) = some w') : w' = w ∨ ∃ a, w.after (f a) = some w' := by
  obtain ⟨a, ha⟩ | ⟨e, he⟩ := hx w
  · rw [after_bind ha] at hafter
    exact .inr ⟨a, hafter⟩
  · cases e with
    | error =>
        rw [after_bind_raise he, Option.some_inj] at hafter
        exact .inl hafter.symm
    | outside =>
        rw [World.after, bind_error he] at hafter
        cases hafter

/-! ## One connection -/

theorem connect_setIndex (hnext : allRolesId < w.next) (f : Field) (v : LuaValue) :
    setIndex (.table w.next) f.key v (w.connect fd t) = .ok () (w.connect fd (t.set f.key v)) := by
  rw [setIndex_eq hnext (Field.luaKey_key f)]
  simp only [connect, setObj, Function.update_self, Function.update_idem]

/-- The fields of a session that is accepted. -/
structure NewFields (fd : BitVec 32) (t : LuaTable) : Prop extends Fields fd t where
  no_role : luaKey (t.get Field.roleId.key) = none

theorem NewFields.set (h : NewFields fd t) {f : Field} (hfd : f ≠ .fd) (hrole : f ≠ .roleId)
    (v : LuaValue) : NewFields fd (t.set f.key v) := by
  refine ⟨h.toFields.set hfd v, ?_⟩
  have hkey : luaKey Field.roleId.key ≠ some f.key := by
    rw [Field.luaKey_key, ne_eq, Option.some_inj, Field.key_inj]
    exact Ne.symm hrole
  rw [LuaTable.get_set_ne (Field.luaKey_key f) _ _ hkey, h.no_role]

/-- The fields at the registration. -/
def acceptFields (newfd : BitVec 32) (listenFd : LuaValue) : LuaTable :=
  ((LuaTable.empty.set Field.type.key (luaString "accept")).set Field.listenFd.key listenFd).set
    Field.fd.key (fdValue newfd)

theorem acceptFields_new (newfd : BitVec 32) (listenFd : LuaValue) :
    NewFields newfd (acceptFields newfd listenFd) := by
  refine ⟨⟨?_, LuaTable.get_set_self (Field.luaKey_key .fd) _ _⟩, ?_⟩
  · exact ((Plain.empty.set .type _).set .listenFd _).set .fd _
  · rw [acceptFields, LuaTable.get_set_ne (Field.luaKey_key .fd) _ _ (by decide),
      LuaTable.get_set_ne (Field.luaKey_key .listenFd) _ _ (by decide),
      LuaTable.get_set_ne (Field.luaKey_key .type) _ _ (by decide), LuaTable.get_empty]
    rfl

/-- The configuration of a new connection, whose session is registered. -/
theorem after_configure (hnext : allRolesId < w.next) (lsession : LuaValue)
    (ht : NewFields newfd t)
    (hafter : (w.connect newfd t).after (do
      socketCfg (fdValue newfd) (← getIndex lsession Field.enByte.key)
        (← getIndex lsession Field.readMsgCnt.key) (← getIndex lsession Field.writeBuffCnt.key)
      let addr ← ipPort (fdValue newfd)
      setIndex (.table w.next) Field.ip.key addr.1
      setIndex (.table w.next) Field.port.key addr.2) = some w') :
    ∃ t', NewFields newfd t' ∧ w' = w.connect newfd t' := by
  obtain rfl | ⟨enByte, hafter⟩ := (looks_getIndex _ _).after hafter
  · exact ⟨t, ht, rfl⟩
  obtain rfl | ⟨readMsgCnt, hafter⟩ := (looks_getIndex _ _).after hafter
  · exact ⟨t, ht, rfl⟩
  obtain rfl | ⟨writeBuffCnt, hafter⟩ := (looks_getIndex _ _).after hafter
  · exact ⟨t, ht, rfl⟩
  obtain rfl | ⟨-, hafter⟩ := (looks_socketCfg _ _ _ _).after hafter
  · exact ⟨t, ht, rfl⟩
  obtain rfl | ⟨addr, hafter⟩ := (looks_ipPort _).after hafter
  · exact ⟨t, ht, rfl⟩
  rw [after_bind (connect_setIndex hnext .ip addr.1), after_ok (connect_setIndex hnext .port addr.2),
    Option.some_inj] at hafter
  exact ⟨_, (ht.set (by decide) (by decide) _).set (by decide) (by decide) _, hafter.symm⟩

theorem Session.after_handleAccept (hs : w.Session fd id) (hnext : allRolesId < w.next)
    (hafter : (w.openSocket newfd).after (handleAccept (.table id) (fdValue newfd)) = some w') :
    ∃ t, NewFields newfd t ∧ w' = w.connect newfd t := by
  obtain ⟨u, hu⟩ : ∃ u, u = w.openSocket newfd := ⟨_, rfl⟩
  have hne : id ≠ w.next := Nat.ne_of_lt hs.old
  have hlisten : ∀ t, getIndex (.table id) Field.fd.key ((u.newObj).setObj w.next t) =
      .ok (fdValue fd) ((u.newObj).setObj w.next t) := by
    intro t
    have hobj : ((u.newObj).setObj w.next t).objs id = w.objs id := by
      rw [hu]
      show Function.update (Function.update w.objs w.next _) w.next t id = _
      rw [Function.update_of_ne hne, Function.update_of_ne hne]
    have hown : ((u.newObj).setObj w.next t).get id Field.fd.key = fdValue fd := by
      rw [get_obj hs.low, hobj, hs.fd]
    apply getIndex_eq
    rw [maxTagLoop, index_own (by rw [hown]; exact fdValue_ne_nil fd), hown]
  have hconnect : ((((u.newObj).setObj w.next ((LuaTable.empty.set Field.type.key
      (luaString "accept")).set Field.listenFd.key (fdValue fd))).setMeta w.next
        (some networkId)).addSession newfd w.next) =
      w.connect newfd (acceptFields newfd (fdValue fd)) := by
    rw [hu]
    simp only [openSocket, newObj, setObj, setMeta, addSession, connect, Function.update_self,
      Function.update_idem, acceptFields]
  have hnewTable : newTable u = .ok w.next u.newObj := by
    rw [hu]
    rfl
  have htype : setIndex (.table w.next) Field.type.key (luaString "accept") u.newObj =
      .ok () ((u.newObj).setObj w.next (LuaTable.empty.set Field.type.key (luaString "accept"))) := by
    rw [setIndex_eq hnext (Field.luaKey_key .type), hu]
    show EStateM.Result.ok () (setObj _ _ ((Function.update w.objs w.next .empty w.next).set _ _)) = _
    rw [Function.update_self]
  have hlistenFd : ∀ (t : LuaTable) v, setIndex (.table w.next) Field.listenFd.key v
      ((u.newObj).setObj w.next t) =
      .ok () ((u.newObj).setObj w.next (t.set Field.listenFd.key v)) := by
    intro t v
    rw [setIndex_eq hnext (Field.luaKey_key .listenFd)]
    simp only [setObj, Function.update_self, Function.update_idem]
  rw [← hu, handleAccept, after_bind hnewTable, after_bind htype, after_bind (hlisten _),
    after_bind (hlistenFd _ _), after_bind (setMetatable_eq hnext _),
    after_bind (regSession_eq hnext), hconnect] at hafter
  exact after_configure hnext (.table id) (acceptFields_new newfd _) hafter

/-! ## All connections -/

/-- The calls of `handle_accept` of a session, one for each new connection. A session before
its login connects them, and the other ones have no `handle_accept`. -/
theorem after_accept (h : w.Sound) (hs : w.Session fd id) (newfd : BitVec 32) :
    ∃ v, getIndex (.table id) (luaString "handle_accept") (w.openSocket newfd) =
      .ok v (w.openSocket newfd) ∧
        (w.metas id = some networkId → v = ServerFunction.handleAccept.value) ∧
        (w.metas id ≠ some networkId → v = .nil) := by
  have hfield : ∀ f : Field, luaString "handle_accept" ≠ f.key := by
    intro f
    cases f <;> decide
  have hu : (w.openSocket newfd).Sound := h.openSocket newfd
  have hsu : (w.openSocket newfd).Session fd id := hs.same rfl rfl rfl
  cases hs.kind with
  | stripped hmeta _ =>
      refine ⟨.nil, getIndex_eq (hsu.index_stripped hmeta hfield), ?_, fun _ => rfl⟩
      intro hm
      rw [hmeta] at hm
      cases hm
  | network hmeta _ =>
      have hget : (w.openSocket newfd).networkGet (luaString "handle_accept") =
          ServerFunction.handleAccept.value := by
        rw [hu.networkGet_luaString]
        simp [networkFields, luaString]
      refine ⟨_, getIndex_eq (hsu.index_network hu hmeta hfield), fun _ => hget, ?_⟩
      intro hm
      exact absurd hmeta hm
  | role hmeta hmt _ _ =>
      have hget : (w.openSocket newfd).roleSessionGet (luaString "handle_accept") = .nil := by
        rw [hu.roleSessionGet_luaString]
        rfl
      have hmt' : (w.openSocket newfd).RoleMeta _ := ⟨hmt.low, hmt.old, hmt.index⟩
      refine ⟨_, getIndex_eq (hsu.index_role hu hmeta hmt' hfield), ?_, fun _ => hget⟩
      intro hm
      exact absurd hm (hmt.ne_network hmeta)

/-- A property that connecting a session and opening a socket keep is kept by
`net.accept` and `handle_accept`. -/
theorem after_acceptLoop {P : World → Prop} (hs : w.Session fd id)
    (hconnect : ∀ u newfd t, P u → u.Sound → newfd ∉ u.sockets → NewFields newfd t →
      P (u.connect newfd t))
    (hopen : ∀ u newfd, w.metas id ≠ some networkId → P u → P (u.openSocket newfd))
    {newfds : List (BitVec 32)} (hnodup : newfds.Nodup) (hfree : ∀ newfd ∈ newfds, newfd ∉ w.sockets)
    (h : w.Sound) (hP : P w) (hafter : w.after (acceptLoop (.table id) newfds) = some w') :
    w'.Sound ∧ P w' := by
  induction newfds generalizing w with
  | nil =>
      have hafter : some w = some w' := hafter
      rw [← Option.some.inj hafter]
      exact ⟨h, hP⟩
  | cons newfd newfds ih =>
      obtain ⟨hnew, hnodup⟩ := List.nodup_cons.mp hnodup
      have hnot := hfree newfd List.mem_cons_self
      have hdepth : maxCCalls = 199 + 1 := rfl
      rw [acceptLoop, after_modify_bind, hdepth] at hafter
      obtain ⟨v, hv, hnetwork, hother⟩ := after_accept h hs newfd
      have hafter : (w.openSocket newfd).after (getIndex (.table id) (luaString "handle_accept") >>=
        fun f => callValue (199 + 1) f [.table id, fdValue newfd] >>=
          fun _ => acceptLoop (.table id) newfds) = some w' := hafter
      rw [after_bind hv] at hafter
      by_cases hmeta : w.metas id = some networkId
      · rw [hnetwork hmeta, callValue_function] at hafter
        have hstep : ∀ {u}, (w.openSocket newfd).after
            (handleAccept (.table id) (fdValue newfd)) = some u →
              ∃ t, NewFields newfd t ∧ u = w.connect newfd t :=
          fun hu => hs.after_handleAccept h.next hu
        obtain hend | ⟨-, u, hu, hrest⟩ := after_bind_cases hafter
        · obtain ⟨t, ht, rfl⟩ := hstep hend
          exact ⟨h.connect hnot ht.plain ht.fd ht.no_role, hconnect w newfd t hP h hnot ht⟩
        · obtain ⟨t, ht, rfl⟩ := hstep hu
          have hold : (w.connect newfd t).Session fd id :=
            hs.only (only_connect w newfd t) (Nat.ne_of_lt hs.old)
          have hmeta' : (w.connect newfd t).metas id = some networkId := by
            rw [(only_connect w newfd t).metas id hs.old (Nat.ne_of_lt hs.old), hmeta]
          refine ih hold ?_ hnodup ?_ (h.connect hnot ht.plain ht.fd ht.no_role)
            (hconnect w newfd t hP h hnot ht) hrest
          · exact fun _ _ hne => absurd hmeta' hne
          · intro newfd' hmem hopen'
            obtain heq | hold' := List.mem_cons.mp hopen'
            · exact hnew (heq ▸ hmem)
            · exact hfree newfd' (List.mem_cons_of_mem _ hmem) hold'
      · rw [hother hmeta, after_bind_raise (callValue_raise (v := .nil) _ nil_ne_function _),
          Option.some_inj] at hafter
        rw [← hafter]
        exact ⟨h.openSocket newfd, hopen w newfd hmeta hP⟩

end World

end RandServer.Script
