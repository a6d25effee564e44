import RandServer.Script.Handlers

/-!
# The login

`ClientRequestLogin` runs for a session that `handle_msg` has just taken the metatable from.
The session gets a role and the metatable of role sessions, or it stays without one.
-/

namespace RandServer.Script

open StateError

namespace World

variable {w u : World} {fd fd' : BitVec 32} {id id' j : Nat} {m : Option Nat} {t t' : LuaTable}
variable {k r v : LuaValue}

/-! ## Assignments -/

theorem objs_rewrite : (w.rewrite id m t).objs id = t := Function.update_self ..

theorem setObj_rewrite : (w.rewrite id m t).setObj id t' = w.rewrite id m t' := by
  simp only [rewrite, setObj, Function.update_idem]

theorem setMeta_rewrite {m' : Option Nat} :
    (w.rewrite id m t).setMeta id m' = w.rewrite id m' t := by
  simp only [rewrite, setObj, setMeta, Function.update_idem]

theorem setIndex_rewrite (hid : allRolesId < id) (f : Field) :
    setIndex (.table id) f.key v (w.rewrite id m t) = .ok () (w.rewrite id m (t.set f.key v)) := by
  rw [setIndex_eq hid (Field.luaKey_key f), objs_rewrite, setObj_rewrite]

theorem getIndex_rewrite (hid : allRolesId < id) {f : Field} (hf : t.get f.key = v) (hv : v ≠ .nil) :
    getIndex (.table id) f.key (w.rewrite id m t) = .ok v (w.rewrite id m t) := by
  have hown : (w.rewrite id m t).get id f.key = v := by
    rw [get_obj hid, objs_rewrite, hf]
  apply getIndex_eq
  rw [maxTagLoop, index_own (by rw [hown]; exact hv), hown]

/-- A table without a metatable. -/
theorem getIndex_plain (hj : allRolesId < j) (hmeta : w.metas j = none) (k : LuaValue) :
    getIndex (.table j) k w = .ok ((w.objs j).get k) w := by
  apply getIndex_eq
  rw [← get_obj hj]
  by_cases hnil : w.get j k = .nil
  · rw [hnil]
    exact index_none hnil hmeta
  · exact index_own hnil

theorem copyEntries_eq (hid : allRolesId < id) (es : List (LuaValue × LuaValue))
    (hkeys : ∀ e ∈ es, luaKey e.1 = some e.1) (t : LuaTable) :
    copyEntries (.table id) es (w.rewrite id m t) =
      .ok () (w.rewrite id m (es.foldl (fun t e => t.set e.1 e.2) t)) := by
  induction es generalizing t with
  | nil => rfl
  | cons e es ih =>
      rw [copyEntries, bind_ok (setIndex_eq hid (hkeys e List.mem_cons_self)), objs_rewrite,
        setObj_rewrite]
      exact ih (fun e' he' => hkeys e' (List.mem_cons_of_mem e he')) _

/-! ## The parts of a login -/

theorem takeOver_eq (hid : allRolesId < id) (hold : w.Session fd' id')
    (honly : w.Only (w.rewrite id none t) id) (hne : id' ≠ id) :
    takeOver (.table id) (.table id') (w.rewrite id none t) =
      .ok () ((w.dropSession fd').rewrite id none (t.update (w.objs id'))) := by
  have hobj := honly.objs id' hold.old hne
  rw [takeOver, bind_ok (hold.only honly hne).getIndex_fd, bind_ok delSession_eq,
    get_bind]
  show copyEntries (.table id) ((w.rewrite id none t).objs id').entries _ = _
  rw [hobj]
  exact copyEntries_eq (w := w.dropSession fd') hid _ (w.objs id').keys_normal t

/-- The fields of a session after its login. -/
def loginFields (t info : LuaTable) (newfd : LuaValue) (i : BitVec 64) : LuaTable :=
  (((t.set Field.fd.key newfd).set Field.roleId.key (info.get Field.roleId.key)).set
    Field.roleName.key (info.get Field.roleName.key)).set Field.relogin.key (.integer (i + 1))

theorem identify_eq {i : BitVec 64} (hid : allRolesId < id) (hj : allRolesId < j) (hne : j ≠ id)
    (hmeta : w.metas j = none) (hrelogin : t.get Field.relogin.key = .integer i)
    (newfd : LuaValue) :
    identify (.table id) (.table j) newfd (w.rewrite id none t) =
      .ok () (w.rewrite id none (loginFields t (w.objs j) newfd i)) := by
  have hinfo : ∀ (t : LuaTable) (f : Field),
      getIndex (.table j) f.key (w.rewrite id none t) =
        .ok ((w.objs j).get f.key) (w.rewrite id none t) := by
    intro t f
    have hmeta' : (w.rewrite id none t).metas j = none := by
      show Function.update w.metas id none j = none
      rw [Function.update_of_ne hne, hmeta]
    have hobj : (w.rewrite id none t).objs j = w.objs j := Function.update_of_ne hne ..
    rw [getIndex_plain hj hmeta', hobj]
  have hkept : (((t.set Field.fd.key newfd).set Field.roleId.key
      ((w.objs j).get Field.roleId.key)).set Field.roleName.key
        ((w.objs j).get Field.roleName.key)).get Field.relogin.key = .integer i := by
    rw [LuaTable.get_set_ne (Field.luaKey_key .roleName) _ _ (by decide),
      LuaTable.get_set_ne (Field.luaKey_key .roleId) _ _ (by decide),
      LuaTable.get_set_ne (Field.luaKey_key .fd) _ _ (by decide), hrelogin]
  rw [identify, bind_ok (setIndex_rewrite hid .fd), bind_ok (hinfo _ .roleId),
    bind_ok (setIndex_rewrite hid .roleId), bind_ok (hinfo _ .roleName),
    bind_ok (setIndex_rewrite hid .roleName), bind_ok (getIndex_rewrite hid hkept integer_ne_nil)]
  show (pure (LuaValue.integer (i + 1)) >>= setIndex (.table id) Field.relogin.key) _ = _
  rw [pure_bind]
  exact setIndex_rewrite hid .relogin

theorem enterRole_eq (hid : allRolesId < id) (hnew : id < w.next) (hr : luaKey r = some k) :
    enterRole (.table id) r (w.rewrite id none t) = .ok () (w.enter id t r) := by
  have hset := LuaTable.rawset_eq hr w.allRoles (.table id)
  have hlow : allRolesId < w.next := Nat.lt_trans hid hnew
  have hroles : (w.rewrite id none t).allRoles = w.allRoles := rfl
  rw [enterRole, get_bind, hroles, hset]
  dsimp only
  rw [modify_bind, bind_ok (setMetatable_eq hid none), bind_ok newTable_eq]
  show (setIndex (.table w.next) (luaString "__index") (.table roleSessionId) >>= _) _ = _
  rw [bind_ok (setIndex_eq hlow (luaKey_luaString "__index")), setMetatable_eq hid]
  have hmetas : Function.update (Function.update (Function.update w.metas id none) w.next none) id
      (some w.next) = Function.update (Function.update w.metas w.next none) id (some w.next) := by
    rw [Function.update_comm (Nat.ne_of_lt hnew), Function.update_idem]
  simp only [enter, rewrite, setObj, setMeta, newObj, Function.update_idem, Function.update_self,
    hmetas]

theorem enterRole_raise (hr : luaKey r = none) : enterRole (.table id) r w = .error .error w := by
  have hset : w.allRoles.rawset r (.table id) = none := by
    unfold LuaTable.rawset
    split
    · rfl
    · rename_i hsome
      rw [hr] at hsome
      cases hsome
  rw [enterRole, get_bind]
  simp only [hset]
  rfl

/-! ## What a message does -/

/-- The fields of a session object of a connection. -/
structure Fields (fd : BitVec 32) (t : LuaTable) : Prop where
  plain : Plain t
  fd : t.get Field.fd.key = fdValue fd

theorem Session.fields (h : w.Session fd id) : Fields fd (w.objs id) := ⟨h.plain, h.fd⟩

theorem Fields.set (h : Fields fd t) {f : Field} (hne : f ≠ .fd) (v : LuaValue) :
    Fields fd (t.set f.key v) := by
  refine ⟨h.plain.set f v, ?_⟩
  have hkey : luaKey Field.fd.key ≠ some f.key := by
    rw [Field.luaKey_key, ne_eq, Option.some_inj, Field.key_inj]
    exact Ne.symm hne
  rw [LuaTable.get_set_ne (Field.luaKey_key f) _ _ hkey, h.fd]

/-- What becomes of the session of a connection when a message is handled. It can only lose
its metatable where the message `fails`. -/
inductive Outcome (fails : Prop) (w : World) (fd : BitVec 32) (id : Nat) : World → Prop
  | same : Outcome fails w fd id w
  | hungUp : Outcome fails w fd id (w.hangUp fd id)
  | regMsg (v : LuaValue) : Outcome fails w fd id { w with msgs := w.msgs.set (.table id) v }
  | rewritten {m : Option Nat} {t : LuaTable} (hrole : w.role id = none) (ht : Fields fd t)
      (hnone : luaKey (t.get Field.roleId.key) = none) (hm : m = some networkId ∨ m = none ∧ fails) :
      Outcome fails w fd id (w.rewrite id m t)
  | left {t : LuaTable} (hrole : w.role id = none) (ht : Fields fd t)
      (hnone : luaKey (t.get Field.roleId.key) = none) :
      Outcome fails w fd id ((w.rewrite id none t).dropSession fd)
  | entered {t : LuaTable} {r k : LuaValue} {i : BitVec 64} (hrole : w.role id = none)
      (ht : Fields fd t) (hkey : luaKey (t.get Field.roleId.key) = some k)
      (hrelogin : t.get Field.relogin.key = .integer i) (hr : luaKey r = some k)
      (hfree : w.owner k = none) : Outcome fails w fd id (w.enter id t r)
  | tookOver {t : LuaTable} {r k : LuaValue} {i : BitVec 64} {fd' : BitVec 32} {id' : Nat}
      (hrole : w.role id = none) (ht : Fields fd t)
      (hkey : luaKey (t.get Field.roleId.key) = some k)
      (hrelogin : t.get Field.relogin.key = .integer i) (hr : luaKey r = some k)
      (hconn : w.conn fd' = some id') (hrole' : w.role id' = some k) :
      Outcome fails w fd id ((w.closeRole fd' r).enter id t r)

theorem Outcome.mono {fails fails' : Prop} {w' : World} (ho : Outcome fails w fd id w')
    (h : fails → fails') : Outcome fails' w fd id w' := by
  cases ho with
  | same => exact .same
  | hungUp => exact .hungUp
  | regMsg v => exact .regMsg v
  | rewritten hrole ht hnone hm => exact .rewritten hrole ht hnone (hm.imp_right (And.imp_right h))
  | left hrole ht hnone => exact .left hrole ht hnone
  | entered hrole ht hkey hrelogin hr hfree => exact .entered hrole ht hkey hrelogin hr hfree
  | tookOver hrole ht hkey hrelogin hr hconn hrole' =>
      exact .tookOver hrole ht hkey hrelogin hr hconn hrole'

theorem conn_closeRole_iff :
    (w.closeRole fd r).conn fd' = some id ↔ fd' ≠ fd ∧ w.conn fd' = some id :=
  conn_dropSession_iff (w := w)

/-- A connection that is taken over is not the one that takes it over. -/
theorem ne_of_role (hrole : w.role id = none) (hrole' : w.role id' = some k) : id' ≠ id := by
  rintro rfl
  rw [hrole] at hrole'
  cases hrole'

theorem conn_closeRole_of_ne (hconn : w.conn fd = some id) (hconn' : w.conn fd' = some id')
    (hne : id' ≠ id) : (w.closeRole fd' r).conn fd = some id := by
  refine conn_closeRole_iff.mpr ⟨?_, hconn⟩
  rintro rfl
  exact hne (Option.some.inj (hconn'.symm.trans hconn))

theorem Outcome.sound {fails : Prop} {w' : World} (h : w.Sound) (hconn : w.conn fd = some id)
    (ho : Outcome fails w fd id w') : w'.Sound := by
  cases ho with
  | same => exact h
  | hungUp => exact h.hangUp hconn
  | regMsg v => exact h.regMsg (h.session hconn).2.old v
  | rewritten hrole ht hnone hm =>
      exact h.rewrite hconn hrole (hm.symm.imp_left And.left) ht.plain ht.fd hnone
  | @left t hrole ht hnone =>
      apply (h.rewrite hconn hrole (.inl rfl) ht.plain ht.fd hnone).dropSession
      intro j hj
      have hj : w.conn fd = some j := hj
      rw [hconn, Option.some_inj] at hj
      rw [← hj, World.role, objs_rewrite, hnone]
  | entered hrole ht hkey hrelogin hr hfree =>
      exact h.enter hconn hrole ht.plain ht.fd hkey hrelogin hr hfree
  | @tookOver t r k i fd' id' hrole ht hkey hrelogin hr hconn' hrole' =>
      have hclosed := h.closeRole hconn' hrole' hr
      have hkept : (w.closeRole fd' r).conn fd = some id :=
        conn_closeRole_of_ne hconn hconn' (ne_of_role hrole hrole')
      have hfree : (w.closeRole fd' r).owner k = none := by
        have howner : (w.closeRole fd' r).owner = Function.update w.owner k none := owner_set hr ..
        rw [howner, Function.update_self]
      exact hclosed.enter hkept hrole ht.plain ht.fd hkey hrelogin hr hfree

/-- What a call of `send_msg` does, if there is one. -/
theorem Session.after_sendMsg (hs : w.Session fd id) (h : w.Sound) (depth : Nat) :
    w.after (callMethod (depth + 1) id "send_msg") = some w := by
  cases hs.kind with
  | stripped hmeta _ =>
      rw [callMethod, after_bind (getIndex_eq (hs.index_stripped hmeta sendMsg_ne)),
        after_call_raise (v := .nil) _ nil_ne_function]
  | network hmeta _ =>
      have hget : w.networkGet (luaString "send_msg") = ServerFunction.sendMsg.value := by
        rw [h.networkGet_luaString]
        simp [networkFields, luaString]
      rw [callMethod, after_bind (getIndex_eq (hs.index_network h hmeta sendMsg_ne)), hget,
        callValue_function]
      exact after_ok hs.sendMsg
  | role hmeta hmt _ _ =>
      have hget : w.roleSessionGet (luaString "send_msg") = ServerFunction.sendMsg.value := by
        rw [h.roleSessionGet_luaString]
        rfl
      rw [callMethod, after_bind (getIndex_eq (hs.index_role h hmeta hmt sendMsg_ne)), hget,
        callValue_function]
      exact after_ok hs.sendMsg

/-! ## The login as a whole -/

/-- A login message has a table with a role. -/
def LogsIn (w : World) (loginInfo : LuaValue) : Prop :=
  ∃ j k, loginInfo = .table j ∧ truthy ((w.objs j).get Field.roleId.key) ∧
    luaKey ((w.objs j).get Field.roleId.key) = some k

theorem logsIn_table_iff : w.LogsIn (.table j) ↔ truthy ((w.objs j).get Field.roleId.key) ∧
    (luaKey ((w.objs j).get Field.roleId.key)).isSome := by
  constructor
  · rintro ⟨j', k, heq, htrue, hk⟩
    obtain rfl := LuaValue.table.inj heq
    exact ⟨htrue, by rw [hk]; rfl⟩
  · rintro ⟨htrue, hsome⟩
    obtain ⟨k, hk⟩ := Option.isSome_iff_exists.mp hsome
    exact ⟨j, k, rfl, htrue, hk⟩

instance (w : World) : ∀ loginInfo, Decidable (w.LogsIn loginInfo)
  | .table _ => decidable_of_iff' _ logsIn_table_iff
  | .nil | .boolean _ | .integer _ | .number _ | .string _ | .function _ | .thread _ | .userdata _
  | .lightuserdata _ =>
      .isFalse fun ⟨_, _, heq, _⟩ => nomatch heq

theorem loginFields_fields {info : LuaTable} {i : BitVec 64} (hplain : Plain t) :
    Fields fd (loginFields t info (fdValue fd) i) := by
  have hfd : Fields fd (t.set Field.fd.key (fdValue fd)) :=
    ⟨hplain.set .fd _, LuaTable.get_set_self (Field.luaKey_key .fd) _ _⟩
  exact ((hfd.set (f := .roleId) (by decide) _).set (f := .roleName) (by decide) _).set
    (f := .relogin) (by decide) _

theorem loginFields_roleId {info : LuaTable} {i : BitVec 64} :
    (loginFields t info v i).get Field.roleId.key = info.get Field.roleId.key := by
  rw [loginFields, LuaTable.get_set_ne (Field.luaKey_key .relogin) _ _ (by decide),
    LuaTable.get_set_ne (Field.luaKey_key .roleName) _ _ (by decide),
    LuaTable.get_set_self (Field.luaKey_key .roleId)]

theorem loginFields_relogin {info : LuaTable} {i : BitVec 64} :
    (loginFields t info v i).get Field.relogin.key = .integer (i + 1) :=
  LuaTable.get_set_self (Field.luaKey_key .relogin) _ _

/-- The end of a login: the assignments, the place in `all_roles`, and the answer. -/
def loginEnd (depth id j : Nat) (newfd roleId : LuaValue) : LuaM Unit := do
  identify (.table id) (.table j) newfd
  enterRole (.table id) roleId
  callMethod (depth + 1) id "send_msg"

section LoginEnd

variable {i : BitVec 64} (hid : allRolesId < id) (hj : allRolesId < j) (hne : j ≠ id)
  (hmeta : w.metas j = none) (hrelogin : t.get Field.relogin.key = .integer i)
include hid hj hne hmeta hrelogin

theorem after_loginEnd (hnew : id < w.next) (hr : luaKey r = some k)
    (hsound : (w.enter id (loginFields t (w.objs j) v i) r).Sound)
    (hsession : (w.enter id (loginFields t (w.objs j) v i) r).Session fd id) (depth : Nat) :
    (w.rewrite id none t).after (loginEnd depth id j v r) =
      some (w.enter id (loginFields t (w.objs j) v i) r) := by
  rw [loginEnd, after_bind (identify_eq hid hj hne hmeta hrelogin v),
    after_bind (enterRole_eq hid hnew hr)]
  exact hsession.after_sendMsg hsound depth

/-- Not-a-number has no place in `all_roles`. -/
theorem after_loginEnd_raise (hr : luaKey r = none) (depth : Nat) :
    (w.rewrite id none t).after (loginEnd depth id j v r) =
      some (w.rewrite id none (loginFields t (w.objs j) v i)) := by
  rw [loginEnd, after_bind (identify_eq hid hj hne hmeta hrelogin v)]
  exact after_bind_raise (enterRole_raise hr)

end LoginEnd

/-- The fields of a first login. -/
def firstFields (t : LuaTable) : LuaTable :=
  (t.set Field.relogin.key (.integer (-1))).set Field.type.key (luaString "role")

theorem firstFields_fields (ht : Fields fd t) : Fields fd (firstFields t) :=
  (ht.set (f := .relogin) (by decide) _).set (f := .type) (by decide) _

theorem firstFields_relogin : (firstFields t).get Field.relogin.key = .integer (-1) := by
  rw [firstFields, LuaTable.get_set_ne (Field.luaKey_key .type) _ _ (by decide),
    LuaTable.get_set_self (Field.luaKey_key .relogin)]

/-- The roles that are taken have a session. -/
theorem Sound.allRoles_cases (h : w.Sound) (r : LuaValue) :
    w.allRoles.get r = .nil ∨ ∃ fd' id' k, w.allRoles.get r = .table id' ∧ luaKey r = some k ∧
      w.conn fd' = some id' ∧ w.role id' = some k := by
  by_cases hnil : w.allRoles.get r = .nil
  · exact .inl hnil
  · refine .inr ?_
    cases hk : luaKey r with
    | none =>
        rw [LuaTable.get, hk] at hnil
        exact absurd rfl hnil
    | some k =>
        have hnormal := luaKey_normal hk
        rw [LuaTable.get_congr hk] at hnil ⊢
        obtain ⟨id', heq⟩ := h.allRoles _ (LuaTable.mem_entries_iff.mpr ⟨hnormal, hnil, rfl⟩)
        have heq : w.allRoles.get k = .table id' := heq
        have howner : w.owner k = some id' := by
          rw [World.owner, if_pos hnormal, heq]
          rfl
        obtain ⟨⟨fd', hconn⟩, hrole⟩ := h.valid.owner_iff.mp howner
        exact ⟨fd', id', k, heq, rfl, hconn, hrole⟩

theorem owner_eq_none (hr : luaKey r = some k) (hnil : w.allRoles.get r = .nil) :
    w.owner k = none := by
  rw [World.owner, if_pos (luaKey_normal hr), ← LuaTable.get_congr hr, hnil]
  rfl

section Login

variable (h : w.Sound) (hconn : w.conn fd = some id) (hrole : w.role id = none) (ht : Fields fd t)
include h hconn hrole ht

/-- The first login for a role. -/
theorem Sound.after_loginEnd_first (hj : allRolesId < j) (hne : j ≠ id) (hmeta : w.metas j = none)
    (hnil : w.allRoles.get ((w.objs j).get Field.roleId.key) = .nil) (depth : Nat) :
    ∃ w', (w.rewrite id none (firstFields t)).after
      (loginEnd depth id j (fdValue fd) ((w.objs j).get Field.roleId.key)) = some w' ∧
        Outcome (luaKey ((w.objs j).get Field.roleId.key) = none) w fd id w' := by
  obtain ⟨-, hs⟩ := h.session hconn
  have hfields := firstFields_fields ht
  have hlogin : Fields fd (loginFields (firstFields t) (w.objs j) (fdValue fd) (-1)) :=
    loginFields_fields hfields.plain
  cases hr : luaKey ((w.objs j).get Field.roleId.key) with
  | none =>
      refine ⟨_, after_loginEnd_raise hs.low hj hne hmeta firstFields_relogin hr depth, ?_⟩
      exact .rewritten hrole hlogin (by rw [loginFields_roleId, hr]) (.inr ⟨rfl, rfl⟩)
  | some k =>
      have hkey : luaKey ((loginFields (firstFields t) (w.objs j) (fdValue fd) (-1)).get
          Field.roleId.key) = some k := by rw [loginFields_roleId, hr]
      have hfree := owner_eq_none hr hnil
      refine ⟨_, after_loginEnd hs.low hj hne hmeta firstFields_relogin hs.old hr
        (h.enter hconn hrole hlogin.plain hlogin.fd hkey loginFields_relogin hr hfree)
        (h.session_enter hconn hlogin.plain hlogin.fd hkey loginFields_relogin) depth, ?_⟩
      exact .entered hrole hlogin hkey loginFields_relogin hr hfree

/-- A login for a role that another connection has. -/
theorem Sound.after_loginEnd_again (hj : allRolesId < j) (hne : j ≠ id) (hmeta : w.metas j = none)
    (hconn' : w.conn fd' = some id') (hrole' : w.role id' = some k)
    (hr : luaKey ((w.objs j).get Field.roleId.key) = some k) (depth : Nat) :
    ∃ w', ((w.dropSession fd').rewrite id none (t.update (w.objs id'))).after
      (loginEnd depth id j (fdValue fd) ((w.objs j).get Field.roleId.key)) = some w' ∧
        Outcome False w fd id w' := by
  obtain ⟨-, hs⟩ := h.session hconn
  obtain ⟨-, hs'⟩ := h.session hconn'
  obtain ⟨i, hi⟩ : ∃ i, (w.objs id').get Field.relogin.key = .integer i := by
    cases hs'.kind with
    | stripped _ hnone' => rw [hrole'] at hnone'; cases hnone'
    | network _ hnone' => rw [hrole'] at hnone'; cases hnone'
    | role _ _ _ hi => exact ⟨_, hi⟩
  have hrelogin : (t.update (w.objs id')).get Field.relogin.key = .integer i := by
    rw [LuaTable.get_update, hi]
    exact if_neg integer_ne_nil
  have hlogin : Fields fd (loginFields (t.update (w.objs id')) (w.objs j) (fdValue fd) i) :=
    loginFields_fields (ht.plain.update hs'.plain)
  have hkey : luaKey ((loginFields (t.update (w.objs id')) (w.objs j) (fdValue fd) i).get
      Field.roleId.key) = some k := by rw [loginFields_roleId, hr]
  have ho : Outcome False w fd id (((w.closeRole fd' ((w.objs j).get Field.roleId.key))).enter id
      (loginFields (t.update (w.objs id')) (w.objs j) (fdValue fd) i)
      ((w.objs j).get Field.roleId.key)) :=
    .tookOver hrole hlogin hkey loginFields_relogin hr hconn' hrole'
  -- that `all_roles` keeps the old session until the new one is there makes no difference
  have heq : (w.closeRole fd' ((w.objs j).get Field.roleId.key)).enter id
      (loginFields (t.update (w.objs id')) (w.objs j) (fdValue fd) i)
      ((w.objs j).get Field.roleId.key) = (w.dropSession fd').enter id
      (loginFields (t.update (w.objs id')) (w.objs j) (fdValue fd) i)
      ((w.objs j).get Field.roleId.key) := by
    simp only [World.enter, World.closeRole, World.dropSession, LuaTable.set_nil_set hr]
  have hclosed := h.closeRole hconn' hrole' hr
  have hkept := conn_closeRole_of_ne (r := (w.objs j).get Field.roleId.key) hconn hconn'
    (ne_of_role hrole hrole')
  have hsession := hclosed.session_enter (r := (w.objs j).get Field.roleId.key) hkept hlogin.plain
    hlogin.fd hkey loginFields_relogin
  have hsound := ho.sound h hconn
  rw [heq] at ho hsession hsound
  exact ⟨_, after_loginEnd (w := w.dropSession fd') hs.low hj hne hmeta hrelogin hs.old hr hsound
    hsession depth, ho⟩

/-- A login without a role: a session without a metatable has no `close`. -/
theorem Sound.after_clientRequestLogin_falsy {info : LuaValue}
    (hnone : luaKey (t.get Field.roleId.key) = none)
    (hinfo : getIndex info Field.roleId.key (w.rewrite id none t) = .ok r (w.rewrite id none t))
    (hr : truthy r = false) (depth : Nat) :
    (w.rewrite id none t).after (clientRequestLogin (callValue depth) (.table id) info) =
      some (w.rewrite id none t) := by
  have hs : (w.rewrite id none t).Session fd id :=
    ((h.rewrite hconn hrole (.inl rfl) ht.plain ht.fd hnone).session hconn).2
  rw [clientRequestLogin, after_bind hinfo]
  simp only [hr, Bool.not_false, if_true]
  rw [after_bind (getIndex_eq (hs.index_stripped (Function.update_self ..) close_ne)),
    after_call_raise (v := .nil) _ nil_ne_function]

theorem Sound.after_clientRequestLogin {info : LuaValue}
    (hnone : luaKey (t.get Field.roleId.key) = none)
    (hinfo : ∀ j, info = .table j → allRolesId < j ∧ j ≠ id ∧ w.metas j = none) (depth : Nat) :
    ∃ w', (w.rewrite id none t).after
      (clientRequestLogin (callValue (depth + 1)) (.table id) info) = some w' ∧
        Outcome (¬ w.LogsIn info) w fd id w' := by
  obtain ⟨-, hs⟩ := h.session hconn
  have hfails : ¬ w.LogsIn info → Outcome (¬ w.LogsIn info) w fd id (w.rewrite id none t) :=
    fun hnot => .rewritten hrole ht hnone (.inr ⟨rfl, hnot⟩)
  cases info with
  | table j =>
      obtain ⟨hj, hne, hmeta⟩ := hinfo j rfl
      have hmeta' : (w.rewrite id none t).metas j = none := by
        show Function.update w.metas id none j = none
        rw [Function.update_of_ne hne, hmeta]
      have hobj : (w.rewrite id none t).objs j = w.objs j := Function.update_of_ne hne ..
      have hindex := getIndex_plain hj hmeta' Field.roleId.key
      rw [hobj] at hindex
      cases htrue : truthy ((w.objs j).get Field.roleId.key) with
      | false =>
          refine ⟨_, h.after_clientRequestLogin_falsy hconn hrole ht hnone hindex htrue _, ?_⟩
          apply hfails
          rintro ⟨j', k, heq, htrue', -⟩
          obtain rfl := LuaValue.table.inj heq
          rw [htrue] at htrue'
          cases htrue'
      | true =>
          have hfd := getIndex_rewrite (w := w) (m := none) hs.low ht.fd (fdValue_ne_nil fd)
          rw [clientRequestLogin, after_bind hindex]
          simp only [htrue, Bool.not_true, Bool.false_eq_true, if_false]
          rw [after_get_bind, after_bind hfd]
          obtain hnil | ⟨fd', id', k, heq, hr, hconn', hrole'⟩ :=
            h.allRoles_cases ((w.objs j).get Field.roleId.key)
          · have hrole₀ : truthy ((w.rewrite id none t).allRoles.get
                ((w.objs j).get Field.roleId.key)) = false := by
              show truthy (w.allRoles.get _) = false
              rw [hnil]
              rfl
            simp only [hrole₀, Bool.not_false, if_true]
            rw [after_bind (setIndex_rewrite hs.low .relogin),
              after_bind (setIndex_rewrite hs.low .type)]
            obtain ⟨w', hafter, ho⟩ :=
              h.after_loginEnd_first hconn hrole ht hj hne hmeta hnil depth
            refine ⟨w', hafter, ho.mono ?_⟩
            rintro hnan ⟨j', k, heq, -, hk⟩
            obtain rfl := LuaValue.table.inj heq
            rw [hnan] at hk
            cases hk
          · have hrole₁ : (w.rewrite id none t).allRoles.get ((w.objs j).get Field.roleId.key) =
                .table id' := heq
            simp only [hrole₁, truthy_table, Bool.not_true, Bool.false_eq_true, if_false]
            rw [after_bind (takeOver_eq hs.low (h.session hconn').2 (hs.only_rewrite none t)
              (ne_of_role hrole hrole'))]
            obtain ⟨w', hafter, ho⟩ :=
              h.after_loginEnd_again hconn hrole ht hj hne hmeta hconn' hrole' hr depth
            exact ⟨w', hafter, ho.mono False.elim⟩
  | string bytes =>
      have hindex : getIndex (.string bytes) Field.roleId.key (w.rewrite id none t) =
          .ok .nil (w.rewrite id none t) := getIndex_eq rfl
      refine ⟨_, h.after_clientRequestLogin_falsy hconn hrole ht hnone hindex rfl _, ?_⟩
      apply hfails
      rintro ⟨j, k, heq, -⟩
      cases heq
  | _ =>
      refine ⟨_, after_bind_raise (getIndex_raise rfl), ?_⟩
      apply hfails
      rintro ⟨j, k, heq, -⟩
      cases heq

end Login

end World

end RandServer.Script
