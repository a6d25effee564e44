import RandServer.Script.Dispatch
import RandServer.Script.Login

/-!
# Messages

What the messages of a connection do to its session, on both levels. Before the login, a
message type can name any field of `network.lua`. This is said for the types that are
registered and for two of the fields. The other fields are functions and values that no
message is meant for.
-/

namespace RandServer.Script

open StateError

namespace World

variable {w w' : World} {fd : BitVec 32} {id mt : Nat} {v info : LuaValue} {m : Message}
variable {ptr : BitVec 64}

/-! ## Received messages -/

theorem checkInteger_cases (v : LuaValue) :
    (∃ i, checkInteger v w = .ok i w) ∨ ∃ e, checkInteger v w = .error e w := by
  cases v with
  | integer i => exact .inl ⟨i, rfl⟩
  | number bits =>
      cases hbits : numIsInteger bits with
      | some i => exact .inl ⟨i, by simp only [checkInteger, hbits]; rfl⟩
      | none => exact .inr ⟨.error, by simp only [checkInteger, hbits]; rfl⟩
  | string bytes => exact .inr ⟨.outside, rfl⟩
  | _ => exact .inr ⟨.error, rfl⟩

/-- What is unpacked is a received message, or nothing. -/
theorem unpack_cases (msg size : LuaValue) :
    (∃ e, unpack msg size w = .error e w) ∨ ∃ values, unpack msg size w = .ok values w ∧
      (values = [] ∨ ∃ p m, w.mail p = some m ∧ values = m.values) := by
  obtain ⟨n, hn⟩ | ⟨e, he⟩ := checkInteger_cases (w := w) size
  · rw [unpack, bind_ok hn]
    by_cases hzero : n = 0
    · rw [if_pos hzero]
      exact .inr ⟨[], rfl, .inl rfl⟩
    · rw [if_neg hzero]
      cases msg with
      | lightuserdata p =>
          dsimp only
          rw [get_bind]
          cases hmail : w.mail p with
          | none => exact .inl ⟨.outside, rfl⟩
          | some m =>
              dsimp only
              split
              · exact .inr ⟨m.values, rfl, .inr ⟨p, m, hmail, rfl⟩⟩
              · exact .inl ⟨.outside, rfl⟩
      | _ => exact .inl ⟨.outside, rfl⟩
  · exact .inl ⟨e, by rw [unpack, bind_error he]⟩

/-! ## Before the login -/

/-- A message type that is registered, or that finds no field of `network.lua` but two. -/
def Ordinary (w : World) (msgType : LuaValue) : Prop :=
  w.whos.get msgType ≠ .nil ∨
    ∀ e ∈ w.networkFields, msgType = luaString e.1 → e.1 = "__index" ∨ e.1 = "handle_error"

instance (w : World) (msgType : LuaValue) : Decidable (w.Ordinary msgType) :=
  inferInstanceAs (Decidable (_ ∨ _))

theorem Sound.whos_registered (h : w.Sound) (hv : w.whos.get v ≠ .nil) :
    truthy v ∧ w.whos.get v = ServerFunction.clientRequestLogin.value := by
  rw [h.whos, LuaTable.get_set (luaKey_integer 1)] at hv ⊢
  split at hv
  · rename_i hkey
    rw [if_pos hkey]
    refine ⟨?_, rfl⟩
    cases v with
    | nil => cases hkey
    | boolean b => cases hkey
    | _ => rfl
  · rw [LuaTable.get_empty] at hv
    exact absurd rfl hv

theorem Sound.networkDispatch_cases (h : w.Sound) (hord : w.Ordinary v) :
    w.networkDispatch v = .noHandler ∨ w.networkDispatch v = .metatable networkId ∨
      w.networkDispatch v = .call ServerFunction.handleError.value ∨
      w.whos.get v ≠ .nil ∧ w.networkDispatch v = .call ServerFunction.clientRequestLogin.value := by
  by_cases hnil : w.whos.get v = .nil
  · by_cases hnone : w.networkDispatch v = .noHandler
    · exact .inl hnone
    · obtain ⟨e, he, rfl⟩ := (networkDispatch_field_iff hnil).mp hnone
      obtain hname | hname := hord.resolve_left (not_not.mpr hnil) e he rfl
      · refine .inr (.inl ?_)
        have hget : w.networkGet (luaString "__index") = .table networkId := by
          rw [h.networkGet_luaString]
          rfl
        rw [hname, networkDispatch, hget]
        rfl
      · refine .inr (.inr (.inl ?_))
        have hget : w.networkGet (luaString "handle_error") = ServerFunction.handleError.value := by
          rw [h.networkGet_luaString]
          simp [networkFields, luaString]
        rw [hname, networkDispatch, hget]
        rfl
  · refine .inr (.inr (.inr ⟨hnil, ?_⟩))
    obtain ⟨htrue, hget⟩ := h.whos_registered hnil
    have hnetwork : w.networkGet v = ServerFunction.clientRequestLogin.value := by
      rw [networkGet, moduleGet, hget]
      rfl
    rw [networkDispatch, if_pos htrue, hnetwork]
    rfl

/-- The tables of a message are no objects of the server. -/
def Fresh (w : World) (id : Nat) (v : LuaValue) : Prop :=
  ∀ j, v = .table j → allRolesId < j ∧ j ≠ id ∧ w.metas j = none

/-- What is done with the session before a handler is called. -/
theorem Session.after_who (hs : w.Session fd id) (x : LuaM Unit) :
    w.after (do setMetatable (.table id) none; setIndex (.table id) Field.who.key v; x) =
      (w.rewrite id none ((w.objs id).set Field.who.key v)).after x := by
  have hmeta : setMetatable (.table id) none w = .ok () (w.rewrite id none (w.objs id)) := by
    rw [setMetatable_eq hs.low, World.rewrite, setObj]
    show _ = EStateM.Result.ok () { w.setMeta id none with
      objs := Function.update w.objs id (w.objs id) }
    rw [Function.update_eq_self]
    rfl
  rw [after_bind hmeta, after_bind (setIndex_rewrite hs.low .who)]

section Network

variable (h : w.Sound) (hconn : w.conn fd = some id) (hmeta : w.metas id = some networkId)
include h hconn hmeta

theorem Sound.after_networkHandleMsg (hmail : w.mail ptr = some m) (hsize : m.size ≠ 0)
    (hfresh : w.Fresh id (m.values.tail.headD .nil)) (hord : w.Ordinary (m.values.headD .nil))
    (depth : Nat) :
    ∃ w', w.after (networkHandleMsg (callValue (depth + 3)) (.table id) (.integer m.size)
      (.lightuserdata ptr)) = some w' ∧
        Outcome (w.whos.get (m.values.headD .nil) ≠ .nil ∧
          ¬ w.LogsIn (m.values.tail.headD .nil)) w fd id w' := by
  obtain ⟨-, hs⟩ := h.session hconn
  have hrole : w.role id = none := hs.kind.role_network hmeta
  have ht : Fields fd ((w.objs id).set Field.who.key (m.values.headD .nil)) :=
    hs.fields.set (f := .who) (by decide) _
  have hnone : luaKey (((w.objs id).set Field.who.key (m.values.headD .nil)).get
      Field.roleId.key) = none := by
    rw [LuaTable.get_set_ne (Field.luaKey_key .who) _ _ (by decide)]
    exact hrole
  rw [networkHandleMsg, after_bind (unpack_eq hmail hsize), after_get_bind]
  obtain hd | hd | hd | ⟨hreg, hd⟩ := h.networkDispatch_cases hord
  · simp only [hd]
    exact ⟨_, hs.after_handleError h depth, .hungUp⟩
  · simp only [hd]
    rw [hs.after_who, after_ok (setMetatable_eq hs.low _), setMeta_rewrite]
    exact ⟨_, rfl, .rewritten hrole ht hnone (.inl rfl)⟩
  · simp only [hd]
    rw [hs.after_who, after_tryCatch, callValue_function]
    have hsession : (w.rewrite id none _).Session fd id :=
      ((h.rewrite hconn hrole (.inl rfl) ht.plain ht.fd hnone).session hconn).2
    exact ⟨_, after_ok hsession.networkHandleError, .left hrole ht hnone⟩
  · simp only [hd]
    rw [hs.after_who, after_tryCatch, callValue_function]
    obtain ⟨w', hafter, ho⟩ :=
      h.after_clientRequestLogin hconn hrole ht hnone hfresh (depth + 1)
    have hinfo : (.table id :: m.values.tail : List LuaValue).getD 1 .nil =
        m.values.tail.headD .nil := by
      cases m.values.tail <;> rfl
    refine ⟨w', ?_, ho.mono fun hnot => ⟨hreg, hnot⟩⟩
    rw [← hafter]
    show (w.rewrite id none _).after (clientRequestLogin _ (.table id) _) = _
    rw [hinfo]

end Network

/-! ## After the login -/

theorem luaKey_table_inj {j : Nat} (h : luaKey v = some (.table j)) : v = .table j := by
  cases v with
  | table i => exact Option.some.inj h
  | number bits =>
      simp only [luaKey] at h
      split at h
      · cases h
      · split at h <;> cases h
  | _ => cases h

/-- The handlers of role sessions are those that are registered for numbers. -/
theorem Sound.msgs_cases (h : w.Sound) (hv : ∀ j, v = .table j → w.next ≤ j) :
    w.msgs.get v = .nil ∨ w.msgs.get v = ServerFunction.helloRandom.value := by
  by_cases hnil : w.msgs.get v = .nil
  · exact .inl hnil
  · refine .inr ?_
    cases hk : luaKey v with
    | none =>
        rw [LuaTable.get, hk] at hnil
        exact absurd rfl hnil
    | some k =>
        rw [LuaTable.get_congr hk] at hnil ⊢
        obtain heq | ⟨j, hj, heq⟩ := h.msgs _
          (LuaTable.mem_entries_iff.mpr ⟨luaKey_normal hk, hnil, rfl⟩)
        · exact congrArg Prod.snd heq
        · have hkey : k = .table j := heq
          have htable : v = .table j := luaKey_table_inj (hkey ▸ hk)
          exact absurd hj (Nat.not_lt.mpr (hv j htable))

theorem roleSessionGet_cases
    (hv : w.msgs.get v = .nil ∨ w.msgs.get v = ServerFunction.helloRandom.value) :
    w.roleSessionGet v = ServerFunction.helloRandom.value ∨ w.roleSessionGet v = .nil ∨
      ∃ e ∈ roleSessionFields, v = luaString e.1 ∧ w.roleSessionGet v = e.2 := by
  rw [roleSessionGet, moduleGet]
  obtain hmsg | hmsg := hv
  · refine .inr ?_
    rw [hmsg]
    cases hfind : roleSessionFields.find? fun e => luaString e.1 = v with
    | none => exact .inl rfl
    | some e =>
        have hkey : luaString e.1 = v := by simpa using List.find?_some hfind
        exact .inr ⟨e, List.mem_of_find?_eq_some hfind, hkey.symm, rfl⟩
  · rw [hmsg]
    exact .inl rfl

/-- The message that calls `handle_msg` again can only refer to itself, and never ends. -/
theorem after_handleMsg_again (hmail : ∀ p m, w.mail p = some m →
      m.values.headD .nil = luaString "handle_msg")
    (hget : w.roleSessionGet (luaString "handle_msg") = ServerFunction.roleHandleMsg.value)
    (depth : Nat) (args : List LuaValue)
    (hafter : w.after (callValue depth ServerFunction.roleHandleMsg.value args) = some w') :
    w' = w := by
  induction depth generalizing args with
  | zero =>
      have hraise : w.after (callValue 0 ServerFunction.roleHandleMsg.value args) = some w := rfl
      exact (Option.some.inj (hraise.symm.trans hafter)).symm
  | succ depth ih =>
      rw [callValue_function] at hafter
      have hafter : w.after (roleHandleMsg (callValue depth) (args.getD 0 .nil) (args.getD 1 .nil)
        (args.getD 2 .nil)) = some w' := hafter
      rw [roleHandleMsg] at hafter
      obtain ⟨e, he⟩ | ⟨values, hvalues, hempty | ⟨p, m, hm, rfl⟩⟩ :=
        unpack_cases (w := w) (args.getD 2 .nil) (args.getD 1 .nil)
      · cases e with
        | error =>
            rw [after_bind_raise he, Option.some_inj] at hafter
            exact hafter.symm
        | outside =>
            rw [after, bind_error he] at hafter
            cases hafter
      · have hnone : w.roleDispatch .nil = .noHandler := rfl
        subst hempty
        rw [after_bind hvalues, after_get_bind, List.headD_nil, hnone] at hafter
        exact (Option.some.inj hafter).symm
      · have hcall : w.roleDispatch (luaString "handle_msg") =
            .call ServerFunction.roleHandleMsg.value := by
          rw [roleDispatch, hget]
          rfl
        rw [after_bind hvalues, after_get_bind, hmail p m hm, hcall] at hafter
        exact ih _ hafter

theorem Sound.after_roleHandleMsg (h : w.Sound) (hs : w.Session fd id)
    (hmeta : w.metas id = some mt) (hmt : w.RoleMeta mt) (hmail : w.mail ptr = some m)
    (honly : ∀ p m', w.mail p = some m' → m' = m) (hsize : m.size ≠ 0)
    (hv : w.msgs.get (m.values.headD .nil) = .nil ∨
      w.msgs.get (m.values.headD .nil) = ServerFunction.helloRandom.value) (depth : Nat)
    (hafter : w.after (roleHandleMsg (callValue (depth + 3)) (.table id) (.integer m.size)
      (.lightuserdata ptr)) = some w') : Outcome False w fd id w' := by
  obtain ⟨k, hrole⟩ : ∃ k, w.role id = some k := hs.kind.role_of_roleMeta hmeta hmt
  rw [roleHandleMsg, after_bind (unpack_eq hmail hsize), after_get_bind] at hafter
  have hcall : truthy (w.roleSessionGet (m.values.headD .nil)) →
      w.after (callValue (depth + 3) (w.roleSessionGet (m.values.headD .nil))
        (.table id :: m.values.tail)) = some w' := by
    intro htrue
    rw [roleDispatch, if_pos htrue] at hafter
    exact hafter
  have hsame : ∀ {w'}, some w = some w' → Outcome False w fd id w' := by
    intro w' heq
    rw [← Option.some.inj heq]
    exact .same
  have hraise : ∀ {v args}, w.after (callValue (depth + 3) v args) = some w' →
      (∀ n, v ≠ .function n) → Outcome False w fd id w' := by
    intro v args hcall hv
    exact hsame ((after_call_raise _ hv args).symm.trans hcall)
  have hclose : ∀ {w'}, some (w.hangUp fd id) = some w' → Outcome False w fd id w' := by
    intro w' heq
    rw [← Option.some.inj heq]
    exact .hungUp
  have hroleClose := after_ok (hs.roleClose hrole)
  rw [← hangUp_role hmeta hmt] at hroleClose
  obtain hget | hget | ⟨e, he, hname, hget⟩ := roleSessionGet_cases hv
  · rw [hget] at hcall
    have hafter := hcall rfl
    rw [callValue_function] at hafter
    exact hsame ((hs.after_sendMsg h (depth + 1)).symm.trans hafter)
  · rw [roleDispatch, hget] at hafter
    exact hsame hafter
  · rw [hget] at hcall
    simp only [roleSessionFields, List.mem_cons, List.not_mem_nil, or_false] at he
    obtain rfl | rfl | rfl | rfl | rfl | rfl | rfl | rfl | rfl := he
    · exact hraise (hcall rfl) (by rintro n ⟨⟩)
    · have hafter := hcall rfl
      rw [callValue_function] at hafter
      have hhang := hs.after_close h (depth + 1)
      have hne : w.metas id ≠ some networkId := hmt.ne_network hmeta
      rw [if_neg hne] at hhang
      exact hclose (hhang.symm.trans hafter)
    · exact hraise (hcall rfl) (by rintro n ⟨⟩)
    · exact hraise (hcall rfl) (by rintro n ⟨⟩)
    · have hafter := hcall rfl
      have hagain := after_handleMsg_again (fun p m' hm' => by rw [honly p m' hm', hname])
        (by rw [← hname, hget]) _ _ hafter
      rw [hagain]
      exact .same
    · have hafter := hcall rfl
      rw [callValue_function] at hafter
      exact hclose (hroleClose.symm.trans hafter)
    · have hafter := hcall rfl
      rw [callValue_function] at hafter
      obtain ⟨x, hx⟩ : ∃ x, (.table id :: m.values.tail : List LuaValue).getD 1 .nil = x := ⟨_, rfl⟩
      have hset := LuaTable.rawset_eq (luaKey_table id) w.msgs x
      have hreg : roleRegMsg (.table id) x w =
          .ok () { w with msgs := w.msgs.set (.table id) x } := by
        rw [roleRegMsg, get_bind]
        simp only [hset]
        rfl
      have hafter : w.after (roleRegMsg (.table id)
        ((.table id :: m.values.tail : List LuaValue).getD 1 .nil)) = some w' := hafter
      rw [hx, after_ok hreg, Option.some_inj] at hafter
      rw [← hafter]
      exact .regMsg x
    · have hafter := hcall rfl
      rw [callValue_function] at hafter
      exact hsame ((after_ok hs.sendMsg).symm.trans hafter)
    · exact hraise (hcall rfl) (by rintro n ⟨⟩)

/-! ## One message of the loop -/

theorem fresh_of_decodable {lo hi j : Nat} (h : decodable lo hi (.table j) = true) : lo ≤ j := by
  simp only [decodable, Bool.and_eq_true, decide_eq_true_eq] at h
  exact h.1

/-- The messages that take the metatable of an unidentified connection for good. -/
def Strands (w : World) (id : Nat) (ptr : BitVec 64) (m : Message) : Prop :=
  w.metas id = some networkId ∧ w.whos.get (m.values.headD .nil) ≠ .nil ∧
    ¬ (w.receive ptr m).LogsIn (m.values.tail.headD .nil)

theorem Sound.after_readMessage (h : w.Sound) (hconn : w.conn fd = some id)
    (hdecodes : w.decodes m) (hmail : ∀ p, w.mail p = none)
    (hord : w.metas id = some networkId → w.Ordinary (m.values.headD .nil))
    (hafter : (w.receive ptr m).after (readMessage id ptr m.size) = some w') :
    Outcome (w.Strands id ptr m) (w.receive ptr m) fd id w' := by
  obtain ⟨-, hold⟩ := h.session hconn
  have hu : (w.receive ptr m).Sound := h.receive ptr m
  have hconn' : (w.receive ptr m).conn fd = some id := hconn
  obtain ⟨-, hs⟩ := hu.session hconn'
  have hmetas : (w.receive ptr m).metas id = w.metas id := if_pos hold.old
  have hmail' : ∀ p, (w.receive ptr m).mail p = if p = ptr then some m else none := by
    intro p
    show Function.update w.mail ptr (some m) p = _
    rw [Function.update_apply, hmail]
  have hown : (w.receive ptr m).mail ptr = some m := by
    rw [hmail', if_pos rfl]
  simp only [decodes, Bool.and_eq_true, decide_eq_true_eq, List.all_eq_true, ne_eq] at hdecodes
  obtain ⟨⟨hsize, hvalues⟩, -⟩ := hdecodes
  have hnew : ∀ v ∈ m.values, ∀ j, v = .table j → w.next ≤ j := by
    rintro v hv j rfl
    exact fresh_of_decodable (hvalues _ hv)
  have hstep : ∀ {f}, (w.receive ptr m).index maxTagLoop (.table id) (luaString "handle_msg") = some f →
      (w.receive ptr m).after (callValue (199 + 1) f
        [.table id, .integer m.size, .lightuserdata ptr]) = some w' := by
    intro f hf
    rw [readMessage, after_bind (getIndex_eq hf), after_tryCatch] at hafter
    exact hafter
  cases hs.kind with
  | stripped hm _ =>
      have hcall := hstep (hs.index_stripped hm handleMsg_ne)
      rw [after_call_raise (v := .nil) _ nofun, Option.some_inj] at hcall
      rw [← hcall]
      exact .same
  | network hm _ =>
      have hget : (w.receive ptr m).networkGet (luaString "handle_msg") =
          ServerFunction.handleMsg.value := by
        rw [hu.networkGet_luaString]
        simp [networkFields, luaString]
      have hcall := hstep (hs.index_network hu hm handleMsg_ne)
      rw [hget, callValue_function] at hcall
      have hfresh : (w.receive ptr m).Fresh id (m.values.tail.headD .nil) := by
        intro j hj
        have hmem : LuaValue.table j ∈ m.values := by
          cases htail : m.values.tail with
          | nil =>
              rw [htail] at hj
              cases hj
          | cons x xs =>
              rw [htail, List.headD_cons] at hj
              rw [← hj]
              exact List.mem_of_mem_tail (htail ▸ List.mem_cons_self)
        have hle := hnew _ hmem j rfl
        refine ⟨Nat.lt_of_lt_of_le h.next hle, Nat.ne_of_gt (Nat.lt_of_lt_of_le hold.old hle), ?_⟩
        exact if_neg (Nat.not_lt.mpr hle)
      obtain ⟨u, hafter', ho⟩ := hu.after_networkHandleMsg hconn' hm hown hsize hfresh
        (hord (hmetas ▸ hm)) 196
      have heq : some u = some w' := hafter'.symm.trans hcall
      rw [← Option.some.inj heq]
      exact ho.mono fun hbad => ⟨hmetas ▸ hm, hbad.1, hbad.2⟩
  | role hm hmt _ _ =>
      have hget : (w.receive ptr m).roleSessionGet (luaString "handle_msg") =
          ServerFunction.roleHandleMsg.value := by
        rw [hu.roleSessionGet_luaString]
        rfl
      have hcall := hstep (hs.index_role hu hm hmt handleMsg_ne)
      rw [hget, callValue_function] at hcall
      have honly : ∀ p m', (w.receive ptr m).mail p = some m' → m' = m := by
        intro p m' hp
        rw [hmail'] at hp
        split at hp
        · exact (Option.some.inj hp).symm
        · cases hp
      have hhead : ∀ j, m.values.headD .nil = .table j → w.next ≤ j := by
        intro j hj
        cases hv : m.values with
        | nil =>
            rw [hv] at hj
            cases hj
        | cons x xs =>
            rw [hv, List.headD_cons] at hj
            exact hnew x (hv ▸ List.mem_cons_self) j hj
      exact (hu.after_roleHandleMsg hs hm hmt hown honly hsize (h.msgs_cases hhead) 196 hcall).mono
        False.elim

end World

end RandServer.Script
