import RandServer.Lib.Directory
import RandServer.Script.ServerSpec

/-!
# The tables of the scripts

The invariant of `World`. The connections, the roles of their sessions and `all_roles` are a
directory, and the session objects have the fields and metatables that the scripts give to
them. Each effect of a script keeps the invariant.
-/

namespace RandServer.Script

/-- The object that a value refers to. -/
def tableId : LuaValue → Option Nat
  | .table id => some id
  | _ => none

theorem tableId_eq_some {v : LuaValue} {id : Nat} : tableId v = some id ↔ v = .table id := by
  cases v <;> simp [tableId]

/-- A table without other fields than those of sessions. -/
def Plain (t : LuaTable) : Prop := ∀ k, t.get k ≠ .nil → ∃ f : Field, luaKey k = some f.key

theorem Plain.empty : Plain .empty := fun k h => absurd (LuaTable.get_empty k) h

theorem Plain.set {t : LuaTable} (h : Plain t) (f : Field) (v : LuaValue) :
    Plain (t.set f.key v) := by
  intro k hk
  rw [LuaTable.get_set (Field.luaKey_key f)] at hk
  split at hk
  · exact ⟨f, by assumption⟩
  · exact h k hk

theorem Plain.update {t u : LuaTable} (ht : Plain t) (hu : Plain u) : Plain (t.update u) := by
  intro k hk
  rw [LuaTable.get_update] at hk
  split at hk
  · exact ht k hk
  · exact hu k hk

theorem Plain.get {t : LuaTable} (h : Plain t) {s : String} (hs : ∀ f : Field, luaString s ≠ f.key) :
    t.get (luaString s) = .nil := by
  by_contra hne
  obtain ⟨f, hf⟩ := h _ hne
  exact hs f (Option.some.inj hf)

namespace World

variable {w : World} {fd fd' : BitVec 32} {id j mt : Nat} {t : LuaTable} {r k v : LuaValue}

/-! ## The directory -/

/-- The session of a connection. -/
def conn (w : World) (fd : BitVec 32) : Option Nat := tableId (w.sessions.get (fdValue fd))

/-- The role of a session. -/
def role (w : World) (id : Nat) : Option LuaValue := luaKey ((w.objs id).get Field.roleId.key)

/-- The session that `all_roles` has for a role. -/
def owner (w : World) (r : LuaValue) : Option Nat :=
  if luaKey r = some r then tableId (w.allRoles.get r) else none

def directory (w : World) : Directory (BitVec 32) Nat LuaValue := ⟨w.conn, w.role, w.owner⟩

theorem conn_eq_some : w.conn fd = some id ↔ w.sessions.get (fdValue fd) = .table id :=
  tableId_eq_some

theorem get_set_fdValue (s : LuaTable) (fd fd' : BitVec 32) (v : LuaValue) :
    tableId ((s.set (fdValue fd) v).get (fdValue fd')) =
      Function.update (fun fd => tableId (s.get (fdValue fd))) fd (tableId v) fd' := by
  rw [LuaTable.get_set (luaKey_fdValue fd), Function.update_apply]
  simp only [luaKey_fdValue, Option.some_inj, fdValue_inj]
  split <;> rfl

theorem owner_set (hr : luaKey r = some k) (s : LuaTable) (v : LuaValue) :
    ({ w with allRoles := s.set r v } : World).owner =
      Function.update ({ w with allRoles := s } : World).owner k (tableId v) := by
  funext q
  rw [Function.update_apply]
  simp only [owner, LuaTable.get_set hr]
  split
  · rename_i hq
    simp only [hq, Option.some_inj]
    split <;> rfl
  · rename_i hq
    rw [if_neg]
    rintro rfl
    exact hq (luaKey_normal hr)

/-! ## The invariant -/

/-- A metatable of role sessions. -/
structure RoleMeta (w : World) (mt : Nat) : Prop where
  low : allRolesId < mt
  old : mt < w.next
  index : (w.objs mt).get (luaString "__index") = .table roleSessionId

theorem RoleMeta.not_plain (h : w.RoleMeta mt) : ¬ Plain (w.objs mt) := by
  intro hplain
  have hfield : ∀ f : Field, luaString "__index" ≠ f.key := by
    intro f
    cases f <;> decide
  have hindex := h.index
  rw [hplain.get hfield] at hindex
  cases hindex

/-- The metatables of sessions: none after a failed login, that of the module before a
login, and one for role sessions after it. -/
inductive Kind (w : World) (id : Nat) : Prop
  | stripped (hmeta : w.metas id = none) (hrole : w.role id = none)
  | network (hmeta : w.metas id = some networkId) (hrole : w.role id = none)
  | role {mt : Nat} {r : LuaValue} {i : BitVec 64} (hmeta : w.metas id = some mt)
      (hmt : w.RoleMeta mt) (hrole : w.role id = some r)
      (hrelogin : (w.objs id).get Field.relogin.key = .integer i)

/-- A session object of a connection. -/
structure Session (w : World) (fd : BitVec 32) (id : Nat) : Prop where
  low : allRolesId < id
  old : id < w.next
  plain : Plain (w.objs id)
  fd : (w.objs id).get Field.fd.key = fdValue fd
  kind : w.Kind id

structure Sound (w : World) : Prop where
  whos : w.whos = LuaTable.empty.set (.integer 1) ServerFunction.clientRequestLogin.value
  msgs : ∀ e ∈ w.msgs.entries, e = (.integer 999, ServerFunction.helloRandom.value) ∨
    ∃ id < w.next, e.1 = .table id
  next : allRolesId < w.next
  metas : ∀ id ≤ allRolesId, w.metas id = none
  count : w.count = w.sessions.size
  sessions : ∀ e ∈ w.sessions.entries, ∃ fd id, e = (fdValue fd, .table id)
  allRoles : ∀ e ∈ w.allRoles.entries, ∃ id, e.2 = .table id
  session : ∀ {fd id}, w.conn fd = some id → fd ∈ w.sockets ∧ w.Session fd id
  valid : w.directory.Valid

/-- Only one object changes, which is no metatable, and there may be new ones. -/
structure Only (w w' : World) (id : Nat) : Prop where
  next : w.next ≤ w'.next
  objs : ∀ j < w.next, j ≠ id → w'.objs j = w.objs j
  metas : ∀ j < w.next, j ≠ id → w'.metas j = w.metas j
  not_meta : ¬ w.RoleMeta id

theorem Only.not_old {w' : World} (hnext : w.next ≤ w'.next)
    (hobjs : ∀ j < w.next, w'.objs j = w.objs j) (hmetas : ∀ j < w.next, w'.metas j = w.metas j) :
    w.Only w' w.next where
  next := hnext
  objs j hj _ := hobjs j hj
  metas j hj _ := hmetas j hj
  not_meta hmt := Nat.lt_irrefl _ hmt.old

/-- Other objects do not matter to a session. -/
theorem Session.only {w' : World} (h : w.Session fd j) (hw : w.Only w' id) (hne : j ≠ id) :
    w'.Session fd j := by
  have hobj := hw.objs j h.old hne
  have hmeta := hw.metas j h.old hne
  have hrole : w'.role j = w.role j := by
    rw [World.role, World.role, hobj]
  constructor
  · exact h.low
  · exact Nat.lt_of_lt_of_le h.old hw.next
  · rw [hobj]
    exact h.plain
  · rw [hobj]
    exact h.fd
  · cases h.kind with
    | stripped hm hr => exact .stripped (hmeta.trans hm) (hrole.trans hr)
    | network hm hr => exact .network (hmeta.trans hm) (hrole.trans hr)
    | role hm hmt hr hrelogin =>
        have hindex := hw.objs _ hmt.old fun heq => hw.not_meta (heq ▸ hmt)
        have hmt' : w'.RoleMeta _ :=
          ⟨hmt.low, Nat.lt_of_lt_of_le hmt.old hw.next, by rw [hindex]; exact hmt.index⟩
        exact .role (hmeta.trans hm) hmt' (hrole.trans hr) (by rw [hobj]; exact hrelogin)

/-- The objects do not change. -/
theorem Session.same {w' : World} (h : w.Session fd j) (hnext : w'.next = w.next)
    (hobjs : w'.objs = w.objs) (hmetas : w'.metas = w.metas) : w'.Session fd j := by
  apply h.only (Only.not_old (Nat.le_of_eq hnext.symm) _ _) (Nat.ne_of_lt h.old)
  · rw [hobjs]
    exact fun _ _ => rfl
  · rw [hmetas]
    exact fun _ _ => rfl

/-! ## Effects -/

theorem Sound.conn_inj (h : w.Sound) (hfd : w.conn fd = some id) (hfd' : w.conn fd' = some id) :
    fd = fd' :=
  h.valid.conn_inj hfd hfd'

/-- A value in the table of connections is a session. -/
theorem Sound.get_eq_nil (h : w.Sound) (hconn : w.conn fd = none) :
    w.sessions.get (fdValue fd) = .nil := by
  by_contra hne
  obtain ⟨fd', id, he⟩ := h.sessions _
    (LuaTable.mem_entries_iff.mpr ⟨luaKey_fdValue fd, hne, rfl⟩)
  rw [Prod.mk.injEq] at he
  have hsome := conn_eq_some.mpr he.2
  rw [hconn] at hsome
  cases hsome

theorem Sound.conn_of_not_mem (h : w.Sound) (hfd : fd ∉ w.sockets) : w.conn fd = none := by
  cases hconn : w.conn fd with
  | none => rfl
  | some id => exact absurd (h.session hconn).1 hfd

/-- The calls that run and the received messages do not matter. -/
theorem Sound.congr (h : w.Sound) (mail : BitVec 64 → Option Message)
    (rounds : List (Option (BitVec 32 × Nat))) : ({ w with mail := mail, rounds := rounds } : World).Sound where
  whos := h.whos
  msgs := h.msgs
  next := h.next
  metas := h.metas
  count := h.count
  sessions := h.sessions
  allRoles := h.allRoles
  session hconn := by
    obtain ⟨hopen, hsession⟩ := h.session hconn
    exact ⟨hopen, hsession.same rfl rfl rfl⟩
  valid := h.valid

theorem Sound.receive (h : w.Sound) (ptr : BitVec 64) (m : Message) : (w.receive ptr m).Sound := by
  have hobj : ∀ j < w.next, (w.receive ptr m).objs j = w.objs j := fun j hj => if_pos hj
  have hmeta : ∀ j < w.next, (w.receive ptr m).metas j = w.metas j := fun j hj => if_pos hj
  have hnext : w.next ≤ (w.receive ptr m).next := Nat.le_add_right ..
  constructor
  · exact h.whos
  · intro e he
    obtain heq | ⟨id, hid, heq⟩ := h.msgs e he
    · exact .inl heq
    · exact .inr ⟨id, Nat.lt_of_lt_of_le hid hnext, heq⟩
  · exact Nat.lt_of_lt_of_le h.next hnext
  · intro id hid
    rw [hmeta id (Nat.lt_of_le_of_lt hid h.next)]
    exact h.metas id hid
  · exact h.count
  · exact h.sessions
  · exact h.allRoles
  · intro fd id hconn
    obtain ⟨hopen, hsession⟩ := h.session hconn
    exact ⟨hopen, hsession.only (Only.not_old hnext hobj hmeta) (Nat.ne_of_lt hsession.old)⟩
  · refine h.valid.congr rfl rfl ?_
    intro fd id hconn
    show luaKey (((w.receive ptr m).objs id).get _) = luaKey ((w.objs id).get _)
    rw [hobj id (h.session hconn).2.old]

/-- A session registers a handler for messages, under itself. -/
theorem Sound.regMsg (h : w.Sound) (hid : id < w.next) (v : LuaValue) :
    ({ w with msgs := w.msgs.set (.table id) v } : World).Sound where
  whos := h.whos
  msgs := by
    intro e he
    have he : e ∈ (w.msgs.set (.table id) v).entries := he
    rw [LuaTable.set_entries (luaKey_table id)] at he
    obtain he | he := List.mem_append.mp he
    · exact h.msgs e (List.mem_filter.mp he).1
    · split at he
      · cases he
      · obtain rfl := List.mem_singleton.mp he
        exact .inr ⟨id, hid, rfl⟩
  next := h.next
  metas := h.metas
  count := h.count
  sessions := h.sessions
  allRoles := h.allRoles
  session hconn := by
    obtain ⟨hopen, hsession⟩ := h.session hconn
    exact ⟨hopen, hsession.same rfl rfl rfl⟩
  valid := h.valid

/-! ### Changing a session -/

/-- Give a session other fields and another metatable. -/
def rewrite (w : World) (id : Nat) (mt : Option Nat) (t : LuaTable) : World :=
  (w.setMeta id mt).setObj id t

theorem Session.not_meta (h : w.Session fd id) : ¬ w.RoleMeta id :=
  fun hmt => hmt.not_plain h.plain

theorem Session.only_rewrite (h : w.Session fd id) (mt : Option Nat) (t : LuaTable) :
    w.Only (w.rewrite id mt t) id where
  next := Nat.le_refl _
  objs _ _ hne := Function.update_of_ne hne ..
  metas _ _ hne := Function.update_of_ne hne ..
  not_meta := h.not_meta

/-- A session before its login is changed, or loses its metatable. -/
theorem Sound.rewrite (h : w.Sound) {m : Option Nat} (hconn : w.conn fd = some id)
    (hrole : w.role id = none) (hm : m = none ∨ m = some networkId) (hplain : Plain t)
    (hfd : t.get Field.fd.key = fdValue fd) (hnone : luaKey (t.get Field.roleId.key) = none) :
    (w.rewrite id m t).Sound := by
  obtain ⟨hopen, hsession⟩ := h.session hconn
  have hobj : (w.rewrite id m t).objs id = t := Function.update_self ..
  have hmeta : (w.rewrite id m t).metas id = m := Function.update_self ..
  have hrole' : (w.rewrite id m t).role id = none := by
    rw [World.role, hobj, hnone]
  have honly := hsession.only_rewrite m t
  constructor
  · exact h.whos
  · exact h.msgs
  · exact h.next
  · intro j hj
    have hne : j ≠ id := Nat.ne_of_lt (Nat.lt_of_le_of_lt hj hsession.low)
    rw [honly.metas j (Nat.lt_of_le_of_lt hj h.next) hne]
    exact h.metas j hj
  · exact h.count
  · exact h.sessions
  · exact h.allRoles
  · intro fd' j hconn'
    have hold : w.conn fd' = some j := hconn'
    obtain ⟨hopen', hsession'⟩ := h.session hold
    refine ⟨hopen', ?_⟩
    by_cases hj : j = id
    · subst hj
      obtain rfl := h.conn_inj hold hconn
      refine ⟨hsession.low, hsession.old, ?_, ?_, ?_⟩
      · rw [hobj]
        exact hplain
      · rw [hobj]
        exact hfd
      · obtain rfl | rfl := hm
        · exact .stripped hmeta hrole'
        · exact .network hmeta hrole'
    · exact hsession'.only honly hj
  · refine h.valid.congr rfl rfl ?_
    intro fd' j hconn'
    show (w.rewrite id m t).role j = w.role j
    by_cases hj : j = id
    · rw [hj, hrole, hrole']
    · rw [World.role, World.role, honly.objs j (h.session hconn').2.old hj]

/-! ### Closing a connection -/

theorem directory_dropSession : (w.dropSession fd).directory = w.directory.drop fd := by
  have hconn : (w.dropSession fd).conn = Function.update w.conn fd none := by
    funext fd'
    exact get_set_fdValue w.sessions fd fd' .nil
  rw [directory, Directory.drop, hconn]
  rfl

theorem conn_dropSession_iff :
    (w.dropSession fd).conn fd' = some id ↔ fd' ≠ fd ∧ w.conn fd' = some id := by
  have hdrop := Directory.drop_conn_iff (d := w.directory) (a := fd) (b := fd') (j := id)
  rw [← directory_dropSession] at hdrop
  exact hdrop

theorem conn_dropSession_self : (w.dropSession fd).conn fd = none := by
  cases hdrop : (w.dropSession fd).conn fd with
  | none => rfl
  | some id => exact absurd rfl (conn_dropSession_iff.mp hdrop).1

theorem not_mem_sockets_dropSession : fd ∉ (w.dropSession fd).sockets := by
  intro hmem
  simpa using (List.mem_filter.mp hmem).2

theorem Session.dropSession (h : w.Session fd id) (fd' : BitVec 32) :
    (w.dropSession fd').Session fd id := h.same rfl rfl rfl

theorem Sound.session_dropSession (h : w.Sound) (hconn : (w.dropSession fd).conn fd' = some id) :
    fd' ∈ (w.dropSession fd).sockets ∧ (w.dropSession fd).Session fd' id := by
  obtain ⟨hne, hconn⟩ := conn_dropSession_iff.mp hconn
  obtain ⟨hopen, hsession⟩ := h.session hconn
  refine ⟨?_, hsession.dropSession fd⟩
  apply List.mem_filter.mpr
  exact ⟨hopen, by simpa using hne⟩

theorem Sound.count_dropSession (h : w.Sound) (fd : BitVec 32) :
    (w.dropSession fd).count = (w.dropSession fd).sessions.size := by
  have hsize := LuaTable.size_set_nil (luaKey_fdValue fd) w.sessions
  have hcount := h.count
  simp only [World.dropSession]
  cases hconn : w.conn fd with
  | none =>
      rw [h.get_eq_nil hconn] at hsize ⊢
      simp at hsize ⊢
      omega
  | some id =>
      rw [conn_eq_some.mp hconn] at hsize ⊢
      simp at hsize ⊢
      omega

theorem sessions_dropSession (h : w.Sound) :
    ∀ e ∈ (w.dropSession fd).sessions.entries, ∃ fd id, e = (fdValue fd, .table id) := by
  intro e he
  have he : e ∈ (w.sessions.set (fdValue fd) .nil).entries := he
  rw [LuaTable.set_entries (luaKey_fdValue fd), if_pos rfl, List.append_nil] at he
  exact h.sessions e (List.mem_filter.mp he).1

/-- A connection without a role is closed. -/
theorem Sound.dropSession (h : w.Sound) (hrole : ∀ id, w.conn fd = some id → w.role id = none) :
    (w.dropSession fd).Sound where
  whos := h.whos
  msgs := h.msgs
  next := h.next
  metas := h.metas
  count := h.count_dropSession fd
  sessions := sessions_dropSession h
  allRoles := h.allRoles
  session := h.session_dropSession
  valid := by
    rw [directory_dropSession]
    exact h.valid.drop hrole

/-- Close the connection of a role. -/
def closeRole (w : World) (fd : BitVec 32) (r : LuaValue) : World :=
  { w.dropSession fd with allRoles := w.allRoles.set r .nil }

theorem Sound.closeRole (h : w.Sound) (hconn : w.conn fd = some id) (hrole : w.role id = some k)
    (hr : luaKey r = some k) : (w.closeRole fd r).Sound where
  whos := h.whos
  msgs := h.msgs
  next := h.next
  metas := h.metas
  count := h.count_dropSession fd
  sessions := sessions_dropSession h
  allRoles := by
    intro e he
    have he : e ∈ (w.allRoles.set r .nil).entries := he
    rw [LuaTable.set_entries hr, if_pos rfl, List.append_nil] at he
    exact h.allRoles e (List.mem_filter.mp he).1
  session hconn' := by
    obtain ⟨hopen, hsession⟩ := h.session_dropSession hconn'
    exact ⟨hopen, hsession.same rfl rfl rfl⟩
  valid := by
    have howner : (w.closeRole fd r).owner = Function.update w.owner k none := owner_set hr ..
    have hdirectory : (w.closeRole fd r).directory = w.directory.release fd k := by
      rw [Directory.release, ← directory_dropSession, directory, howner]
      rfl
    rw [hdirectory]
    exact h.valid.release hconn hrole

/-! ### Entering a role -/

/-- Give a session other fields, the metatable of role sessions, and its place in
`all_roles`. -/
def enter (w : World) (id : Nat) (t : LuaTable) (r : LuaValue) : World :=
  { w with
    allRoles := w.allRoles.set r (.table id)
    objs := Function.update (Function.update w.objs id t) w.next
      (LuaTable.empty.set (luaString "__index") (.table roleSessionId))
    metas := Function.update (Function.update w.metas w.next none) id (some w.next)
    next := w.next + 1 }

section Enter

variable (h : w.Sound) (hconn : w.conn fd = some id)
include h hconn

theorem Sound.only_enter : w.Only (w.enter id t r) id where
  next := Nat.le_succ _
  objs j hj hne := by
    show Function.update (Function.update w.objs id t) w.next _ j = _
    rw [Function.update_of_ne (Nat.ne_of_lt hj), Function.update_of_ne hne]
  metas j hj hne := by
    show Function.update (Function.update w.metas w.next none) id _ j = _
    rw [Function.update_of_ne hne, Function.update_of_ne (Nat.ne_of_lt hj)]
  not_meta := (h.session hconn).2.not_meta

theorem Sound.objs_enter : (w.enter id t r).objs id = t := by
  show Function.update (Function.update w.objs id t) w.next _ id = _
  rw [Function.update_of_ne (Nat.ne_of_lt (h.session hconn).2.old), Function.update_self]

/-- After its login, a session has the metatable of role sessions. -/
theorem Sound.session_enter {i : BitVec 64} (hplain : Plain t)
    (hfd : t.get Field.fd.key = fdValue fd) (hkey : luaKey (t.get Field.roleId.key) = some k)
    (hrelogin : t.get Field.relogin.key = .integer i) : (w.enter id t r).Session fd id := by
  obtain ⟨-, hsession⟩ := h.session hconn
  have hobj : (w.enter id t r).objs id = t := h.objs_enter hconn
  have hnew : (w.enter id t r).RoleMeta w.next := by
    refine ⟨h.next, Nat.lt_succ_self _, ?_⟩
    simp only [World.enter, Function.update_self]
    rfl
  have hrole : (w.enter id t r).role id = some k := by
    rw [World.role, hobj, hkey]
  refine ⟨hsession.low, Nat.lt_succ_of_lt hsession.old, ?_, ?_, ?_⟩
  · rw [hobj]
    exact hplain
  · rw [hobj]
    exact hfd
  · exact .role (Function.update_self ..) hnew hrole (by rw [hobj]; exact hrelogin)

/-- A session without a role logs in to a free one. -/
theorem Sound.enter {i : BitVec 64} (hrole : w.role id = none) (hplain : Plain t)
    (hfd : t.get Field.fd.key = fdValue fd) (hkey : luaKey (t.get Field.roleId.key) = some k)
    (hrelogin : t.get Field.relogin.key = .integer i) (hr : luaKey r = some k)
    (hfree : w.owner k = none) : (w.enter id t r).Sound := by
  obtain ⟨hopen, hsession⟩ := h.session hconn
  have honly : w.Only (w.enter id t r) id := h.only_enter hconn
  constructor
  · exact h.whos
  · intro e he
    obtain heq | ⟨j, hj, heq⟩ := h.msgs e he
    · exact .inl heq
    · exact .inr ⟨j, Nat.lt_succ_of_lt hj, heq⟩
  · exact Nat.lt_succ_of_lt h.next
  · intro j hj
    have hne : j ≠ id := Nat.ne_of_lt (Nat.lt_of_le_of_lt hj hsession.low)
    rw [honly.metas j (Nat.lt_of_le_of_lt hj h.next) hne]
    exact h.metas j hj
  · exact h.count
  · exact h.sessions
  · intro e he
    have he : e ∈ (w.allRoles.set r (.table id)).entries := he
    rw [LuaTable.set_entries hr] at he
    obtain he | he := List.mem_append.mp he
    · exact h.allRoles e (List.mem_filter.mp he).1
    · obtain rfl := List.mem_singleton.mp he
      exact ⟨id, rfl⟩
  · intro fd' j hconn'
    have hold : w.conn fd' = some j := hconn'
    obtain ⟨hopen', hsession'⟩ := h.session hold
    refine ⟨hopen', ?_⟩
    by_cases hj : j = id
    · subst hj
      obtain rfl := h.conn_inj hold hconn
      exact h.session_enter hconn hplain hfd hkey hrelogin
    · exact hsession'.only honly hj
  · have howner : (w.enter id t r).owner = Function.update w.owner k (some id) := owner_set hr ..
    refine (h.valid.enter hconn hrole hfree).congr rfl howner ?_
    intro fd' j hconn'
    show (w.enter id t r).role j = Function.update w.role id (some k) j
    by_cases hj : j = id
    · rw [hj, Function.update_self, World.role, h.objs_enter hconn, hkey]
    · rw [Function.update_of_ne hj, World.role, World.role,
        honly.objs j (h.session hconn').2.old hj]

end Enter

/-! ### Accepting a connection -/

/-- Open a socket. -/
def openSocket (w : World) (fd : BitVec 32) : World := { w with sockets := fd :: w.sockets }

theorem Sound.openSocket (h : w.Sound) (fd : BitVec 32) : (w.openSocket fd).Sound where
  whos := h.whos
  msgs := h.msgs
  next := h.next
  metas := h.metas
  count := h.count
  sessions := h.sessions
  allRoles := h.allRoles
  session hconn := by
    obtain ⟨hopen, hsession⟩ := h.session hconn
    exact ⟨List.mem_cons_of_mem _ hopen, hsession.same rfl rfl rfl⟩
  valid := h.valid

/-- Open a socket and register a new session for it. -/
def connect (w : World) (fd : BitVec 32) (t : LuaTable) : World :=
  { w with
    sockets := fd :: w.sockets
    objs := Function.update w.objs w.next t
    metas := Function.update w.metas w.next (some networkId)
    next := w.next + 1
    count := if truthy (w.sessions.get (fdValue fd)) then w.count else w.count + 1
    sessions := w.sessions.set (fdValue fd) (.table w.next) }

theorem only_connect (w : World) (fd : BitVec 32) (t : LuaTable) :
    w.Only (w.connect fd t) w.next := by
  apply Only.not_old (Nat.le_succ _)
  · exact fun j hj => Function.update_of_ne (Nat.ne_of_lt hj) ..
  · exact fun j hj => Function.update_of_ne (Nat.ne_of_lt hj) ..

theorem conn_connect : (w.connect fd t).conn = Function.update w.conn fd (some w.next) := by
  funext fd'
  exact get_set_fdValue w.sessions fd fd' (.table w.next)

theorem Sound.connect (h : w.Sound) (hfree : fd ∉ w.sockets) (hplain : Plain t)
    (hfd : t.get Field.fd.key = fdValue fd) (hnone : luaKey (t.get Field.roleId.key) = none) :
    (w.connect fd t).Sound := by
  have hnil := h.conn_of_not_mem hfree
  have honly := only_connect w fd t
  have hobj : (w.connect fd t).objs w.next = t := Function.update_self ..
  have hrole : (w.connect fd t).role w.next = none := by
    rw [World.role, hobj, hnone]
  have hnew : ∀ fd', w.conn fd' ≠ some w.next :=
    fun fd' hconn => Nat.lt_irrefl _ (h.session hconn).2.old
  constructor
  · exact h.whos
  · intro e he
    obtain heq | ⟨j, hj, heq⟩ := h.msgs e he
    · exact .inl heq
    · exact .inr ⟨j, Nat.lt_succ_of_lt hj, heq⟩
  · exact Nat.lt_succ_of_lt h.next
  · intro j hj
    have hlt := Nat.lt_of_le_of_lt hj h.next
    rw [honly.metas j hlt (Nat.ne_of_lt hlt)]
    exact h.metas j hj
  · have hsize := LuaTable.size_set (luaKey_fdValue fd) w.sessions (v := .table w.next) nofun
    have hcount := h.count
    simp only [World.connect]
    rw [h.get_eq_nil hnil] at hsize ⊢
    simp at hsize ⊢
    omega
  · intro e he
    have he : e ∈ (w.sessions.set (fdValue fd) (.table w.next)).entries := he
    rw [LuaTable.set_entries (luaKey_fdValue fd)] at he
    obtain he | he := List.mem_append.mp he
    · exact h.sessions e (List.mem_filter.mp he).1
    · exact ⟨fd, w.next, List.mem_singleton.mp he⟩
  · exact h.allRoles
  · intro fd' j hconn
    rw [conn_connect, Function.update_apply] at hconn
    split at hconn
    · rename_i heq
      obtain rfl := Option.some.inj hconn
      subst heq
      refine ⟨List.mem_cons_self, h.next, Nat.lt_succ_self _, ?_, ?_, ?_⟩
      · rw [hobj]
        exact hplain
      · rw [hobj]
        exact hfd
      · exact .network (Function.update_self ..) hrole
    · obtain ⟨hopen, hsession⟩ := h.session hconn
      exact ⟨List.mem_cons_of_mem _ hopen, hsession.only honly (Nat.ne_of_lt hsession.old)⟩
  · have hdirectory : (w.connect fd t).directory = w.directory.connect fd w.next := by
      have hname : (w.connect fd t).role = Function.update w.role w.next none := by
        funext j
        rw [Function.update_apply]
        split
        · rename_i heq
          rw [heq, hrole]
        · rename_i hne
          show luaKey ((Function.update w.objs w.next t j).get _) = _
          rw [Function.update_of_ne hne]
          rfl
      rw [directory, conn_connect, hname]
      rfl
    rw [hdirectory]
    exact h.valid.connect hnil hnew

end World

end RandServer.Script
