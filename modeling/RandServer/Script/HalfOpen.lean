import RandServer.Script.Roles

/-!
# Sessions without handlers

`network.handle_msg` takes the metatable of a session before it calls a handler. A login
that fails leaves the session registered without one, so no later event of its connection
is handled. Otherwise every open connection has a session with both handlers.
-/

namespace RandServer.Script

namespace World

variable {w w' u : World} {fd : BitVec 32} {id : Nat} {m : Message} {ptr : BitVec 64}

/-- Both handlers of a session are functions of the server. -/
def Supplies (w : World) (id : Nat) : Prop :=
  ∃ f g : ServerFunction, w.index maxTagLoop (.table id) (luaString "handle_msg") = some f.value ∧
    w.index maxTagLoop (.table id) (luaString "handle_error") = some g.value

/-- The message of an unidentified connection is registered and a login with a role, or it
finds no field of `network.lua` but `__index` and `handle_error`. -/
def ProperStep (w : World) : World.Action → Prop
  | .message ptr m => ∀ q ∈ w.rounds.head?.join, w.metas q.2 = some networkId →
      w.Ordinary (m.values.headD .nil) ∧
        (w.whos.get (m.values.headD .nil) ≠ .nil →
          (w.receive ptr m).LogsIn (m.values.tail.headD .nil))
  | _ => True

instance (w : World) : ∀ a, Decidable (w.ProperStep a)
  | .message ptr m => inferInstanceAs (Decidable (∀ q ∈ w.rounds.head?.join,
      w.metas q.2 = some networkId → w.Ordinary (m.values.headD .nil) ∧
        (w.whos.get (m.values.headD .nil) ≠ .nil →
          (w.receive ptr m).LogsIn (m.values.tail.headD .nil))))
  | .event _ _ | .idle | .stop _ | .close _ => inferInstanceAs (Decidable True)

theorem ProperStep.ordinary {a : World.Action} (h : w.ProperStep a) : w.OrdinaryStep a := by
  cases a with
  | message ptr m => exact fun q hq hmeta => (h q hq hmeta).1
  | _ => trivial

/-- Every registered session has a metatable, and every open socket a session. Sockets that
listen have a session that can accept, and messages are read from the other ones. -/
structure Whole (w : World) : Prop where
  kept : ∀ {fd id}, w.conn fd = some id → w.metas id ≠ none
  opened : ∀ fd ∈ w.sockets, ∃ id, w.conn fd = some id
  listens : ∀ {fd id}, fd ∈ w.listeners → w.conn fd = some id → w.metas id = some networkId
  reads : ∀ fd id, some (fd, id) ∈ w.rounds → fd ∉ w.listeners

/-- The sessions that stay registered keep their metatables. -/
theorem Whole.mono (h : w.Whole) (hconn : ∀ {fd id}, w'.conn fd = some id →
      w.conn fd = some id ∧ w'.metas id = w.metas id)
    (hopened : ∀ fd ∈ w'.sockets, ∃ id, w'.conn fd = some id) (hlisten : w'.listeners = w.listeners)
    (hrounds : ∀ fd id, some (fd, id) ∈ w'.rounds → fd ∉ w.listeners) : w'.Whole := by
  refine ⟨?_, hopened, ?_, by rw [hlisten]; exact hrounds⟩
  · intro fd id hreg
    obtain ⟨hold, hmeta⟩ := hconn hreg
    rw [hmeta]
    exact h.kept hold
  · intro fd id hmem hreg
    obtain ⟨hold, hmeta⟩ := hconn hreg
    rw [hmeta]
    exact h.listens (hlisten ▸ hmem) hold

theorem Whole.dropSession (h : w.Whole) (fd : BitVec 32) : (w.dropSession fd).Whole := by
  refine h.mono (fun hreg => ⟨(conn_dropSession_iff.mp hreg).2, rfl⟩) ?_ rfl h.reads
  intro fd' hmem
  obtain ⟨hopen, hne⟩ := List.mem_filter.mp hmem
  obtain ⟨id, hreg⟩ := h.opened fd' hopen
  exact ⟨id, conn_dropSession_iff.mpr ⟨by simpa using hne, hreg⟩⟩

theorem Whole.closeRole (h : w.Whole) (fd : BitVec 32) (r : LuaValue) : (w.closeRole fd r).Whole :=
  ⟨(h.dropSession fd).kept, (h.dropSession fd).opened, (h.dropSession fd).listens, h.reads⟩

theorem Whole.hangUp (h : w.Whole) (fd : BitVec 32) (id : Nat) : (w.hangUp fd id).Whole := by
  rw [World.hangUp]
  split
  · exact h
  · split
    · exact h.dropSession fd
    · exact h.closeRole fd _

theorem Whole.no_rounds (h : w.Whole) : ({ w with rounds := [] } : World).Whole :=
  ⟨h.kept, h.opened, h.listens, nofun⟩

theorem Whole.connect (h : w.Whole) (hsound : w.Sound) (newfd : BitVec 32) (t : LuaTable) :
    (w.connect newfd t).Whole := by
  have hnew : (w.connect newfd t).metas w.next = some networkId := Function.update_self ..
  have hconn : ∀ {fd id}, (w.connect newfd t).conn fd = some id →
      (w.connect newfd t).metas id = some networkId ∨
        w.conn fd = some id ∧ (w.connect newfd t).metas id = w.metas id := by
    intro fd id hreg
    rw [conn_connect, Function.update_apply] at hreg
    split at hreg
    · rw [← Option.some.inj hreg]
      exact .inl hnew
    · have hold := (hsound.session hreg).2.old
      exact .inr ⟨hreg, (only_connect w newfd t).metas id hold (Nat.ne_of_lt hold)⟩
  constructor
  · intro fd id hreg
    obtain hnetwork | ⟨hold, hmeta⟩ := hconn hreg
    · rw [hnetwork]
      exact nofun
    · rw [hmeta]
      exact h.kept hold
  · intro fd hmem
    rw [conn_connect, Function.update_apply]
    split
    · exact ⟨w.next, rfl⟩
    · rename_i hne
      exact h.opened fd ((List.mem_cons.mp hmem).resolve_left hne)
  · intro fd id hmem hreg
    obtain hnetwork | ⟨hold, hmeta⟩ := hconn hreg
    · exact hnetwork
    · rw [hmeta]
      exact h.listens hmem hold
  · exact h.reads

/-! ## Messages -/

theorem Whole.receive (h : w.Whole) (hsound : w.Sound) (ptr : BitVec 64) (m : Message) :
    (w.receive ptr m).Whole :=
  h.mono (fun hreg => ⟨hreg, if_pos (hsound.session hreg).2.old⟩) h.opened rfl h.reads

/-- Another metatable is given to the session that messages are read for. -/
theorem Whole.enter (h : w.Whole) (hsound : w.Sound) (hconn : w.conn fd = some id)
    (hlisten : fd ∉ w.listeners) (t : LuaTable) (r : LuaValue) : (w.enter id t r).Whole := by
  have honly : w.Only (w.enter id t r) id := hsound.only_enter hconn
  have hself : (w.enter id t r).metas id = some w.next := Function.update_self ..
  have hother : ∀ {fd' j}, w.conn fd' = some j → j ≠ id → (w.enter id t r).metas j = w.metas j :=
    fun hreg hne => honly.metas _ (hsound.session hreg).2.old hne
  refine ⟨?_, h.opened, ?_, h.reads⟩
  · intro fd' j hreg
    by_cases hj : j = id
    · rw [hj, hself]
      exact nofun
    · rw [hother hreg hj]
      exact h.kept hreg
  · intro fd' j hmem hreg
    have hj : j ≠ id := by
      rintro rfl
      obtain rfl := hsound.conn_inj hreg hconn
      exact hlisten hmem
    rw [hother hreg hj]
    exact h.listens hmem hreg

theorem Whole.rewrite_network (h : w.Whole) (id : Nat) (t : LuaTable) :
    (w.rewrite id (some networkId) t).Whole := by
  have hmeta : ∀ j, (w.rewrite id (some networkId) t).metas j = some networkId ∨
      (w.rewrite id (some networkId) t).metas j = w.metas j := by
    intro j
    show Function.update w.metas id (some networkId) j = _ ∨ Function.update w.metas id _ j = _
    rw [Function.update_apply]
    split
    · exact .inl rfl
    · exact .inr rfl
  refine ⟨?_, h.opened, ?_, h.reads⟩
  · intro fd j hreg
    obtain hnetwork | hsame := hmeta j
    · rw [hnetwork]
      exact nofun
    · rw [hsame]
      exact h.kept hreg
  · intro fd j hmem hreg
    obtain hnetwork | hsame := hmeta j
    · exact hnetwork
    · rw [hsame]
      exact h.listens hmem hreg

theorem Outcome.whole {fails : Prop} (ho : Outcome fails w fd id u) (h : w.Sound) (hw : w.Whole)
    (hconn : w.conn fd = some id) (hlisten : fd ∉ w.listeners) (hfails : ¬ fails) : u.Whole := by
  cases ho with
  | same => exact hw
  | hungUp => exact hw.hangUp fd id
  | regMsg v => exact ⟨hw.kept, hw.opened, hw.listens, hw.reads⟩
  | rewritten hrole ht hnone hm =>
      obtain rfl | ⟨-, hfail⟩ := hm
      · exact hw.rewrite_network id _
      · exact absurd hfail hfails
  | @left t hrole ht hnone =>
      have hdrop := hw.dropSession fd
      refine hdrop.mono ?_ hdrop.opened rfl hdrop.reads
      intro fd' j hreg
      have hold : (w.dropSession fd).conn fd' = some j := hreg
      refine ⟨hold, Function.update_of_ne ?_ ..⟩
      rintro rfl
      obtain ⟨hne, hreg⟩ := conn_dropSession_iff.mp hold
      exact hne (h.conn_inj hreg hconn)
  | entered hrole ht hkey hrelogin hr hfree => exact hw.enter h hconn hlisten _ _
  | @tookOver t r k i fd' id' hrole ht hkey hrelogin hr hconn' hrole' =>
      exact (hw.closeRole fd' r).enter (h.closeRole hconn' hrole' hr)
        (conn_closeRole_of_ne hconn hconn' (ne_of_role hrole hrole')) hlisten t r

theorem Move.whole {a : World.Action} (h : w.Ready) (hw : w.Whole) (hproper : w.ProperStep a)
    (hmove : Move w a w') : w'.Whole := by
  cases hmove with
  | skip => exact hw.no_rounds
  | @read fd id hconn hlisten =>
      refine ⟨hw.kept, hw.opened, hw.listens, ?_⟩
      intro fd' id' hmem
      obtain heq := List.mem_singleton.mp hmem
      obtain ⟨rfl, rfl⟩ := Prod.mk.inj (Option.some.inj heq)
      exact hlisten
  | accept hconn hlisten hrounds hnodup hfree hafter =>
      have hnetwork := hw.listens hlisten hconn
      exact (after_acceptLoop (h.sound.session hconn).2 (fun _ _ _ hP hs _ _ => hP.connect hs _ _)
        (fun _ _ hne => absurd hnetwork hne) hnodup hfree h.sound hw hafter).2
  | hangUp hconn => exact hw.no_rounds.hangUp _ _
  | @message fd id ptr m u hround hconn ho =>
      have hreceive := h.sound.receive ptr m
      have hconn' : (w.receive ptr m).conn fd = some id := hconn
      have hlisten : fd ∉ w.listeners := hw.reads fd id (by rw [hround]; exact List.mem_singleton_self _)
      have hnot : ¬ w.Strands id ptr m := by
        rintro ⟨hmeta, hreg, hlogin⟩
        have hok := hproper (fd, id) (by rw [hround]; rfl) hmeta
        exact hlogin (hok.2 hreg)
      have hwhole := ho.whole hreceive (hw.receive h.sound ptr m) hconn' hlisten hnot
      exact ⟨hwhole.kept, hwhole.opened, hwhole.listens, hwhole.reads⟩

theorem start_whole {ip port cnt enByte readMsgCnt writeBuffCnt : LuaValue}
    {addrs : BitVec 32 → LuaValue × LuaValue} :
    (start fd ip port cnt enByte readMsgCnt writeBuffCnt addrs).Whole := by
  have hmeta : ∀ {fd' id}, (start fd ip port cnt enByte readMsgCnt writeBuffCnt addrs).conn fd' =
      some id → (start fd ip port cnt enByte readMsgCnt writeBuffCnt addrs).metas id =
        some networkId := by
    intro fd' id hconn
    rw [(start_conn hconn).2, start_metas]
  refine ⟨?_, ?_, fun _ hconn => hmeta hconn, nofun⟩
  · intro fd' id hconn
    rw [hmeta hconn]
    exact nofun
  · intro fd' hmem
    obtain rfl := List.mem_singleton.mp hmem
    refine ⟨allRolesId + 1, conn_eq_some.mpr ?_⟩
    exact LuaTable.get_set_self (luaKey_fdValue fd') _ _

theorem Whole.of_run (h : server.ReachableVia ProperStep w) : w.Ready ∧ w.Whole := by
  induction h with
  | init hinit =>
      obtain ⟨fd, ip, port, cnt, enByte, readMsgCnt, writeBuffCnt, addrs, -, rfl⟩ := hinit
      exact ⟨start_ready, start_whole⟩
  | step _ hproper hstep ih =>
      obtain ⟨hready, hwhole⟩ := ih
      have hmove := step_move hready hproper.ordinary hstep
      exact ⟨hmove.ready hready, hmove.whole hready hwhole hproper⟩

/-- The metatable of a session supplies both handlers. -/
theorem Session.supplies (hs : w.Session fd id) (h : w.Sound) (hmeta : w.metas id ≠ none) :
    w.Supplies id := by
  cases hs.kind with
  | stripped hm _ => exact absurd hm hmeta
  | network hm _ =>
      refine ⟨.handleMsg, .handleError, ?_, ?_⟩
      · rw [hs.index_network h hm handleMsg_ne, h.networkGet_luaString]
        simp [networkFields, luaString]
      · rw [hs.index_network h hm handleError_ne, h.networkGet_luaString]
        simp [networkFields, luaString]
  | role hm hmt _ _ =>
      refine ⟨.roleHandleMsg, .roleHandleError, ?_, ?_⟩
      · rw [hs.index_role h hm hmt handleMsg_ne, h.roleSessionGet_luaString]
        rfl
      · rw [hs.index_role h hm hmt handleError_ne, h.roleSessionGet_luaString]
        rfl

end World

/-! ## The result -/

/-- Every open socket has a registered session, every registered session supplies both
handlers, and the session that messages are read for is registered or closed. -/
structure NoHalfOpen (w : World) : Prop where
  opened : ∀ fd ∈ w.sockets, ∃ id, w.sessions.get (fdValue fd) = .table id
  supplied : ∀ fd id, w.sessions.get (fdValue fd) = .table id → w.Supplies id
  read : ∀ fd id, some (fd, id) ∈ w.rounds → w.sessions.get (fdValue fd) = .table id ∨
    w.sessions.get (fdValue fd) = .nil ∧ fd ∉ w.sockets

/-- In every run whose messages are proper, no session is half open. -/
theorem session_noHalfOpen {w : World} (h : server.ReachableVia World.ProperStep w) :
    NoHalfOpen w := by
  obtain ⟨hready, hwhole⟩ := World.Whole.of_run h
  constructor
  · intro fd hmem
    obtain ⟨id, hconn⟩ := hwhole.opened fd hmem
    exact ⟨id, World.conn_eq_some.mp hconn⟩
  · intro fd id hget
    have hconn : w.conn fd = some id := World.conn_eq_some.mpr hget
    exact (hready.sound.session hconn).2.supplies hready.sound (hwhole.kept hconn)
  · intro fd id hmem
    obtain hrounds | ⟨fd', id', hrounds, hreading⟩ := hready.rounds
    · rw [hrounds] at hmem
      cases hmem
    · rw [hrounds] at hmem
      obtain ⟨rfl, rfl⟩ := Prod.mk.inj (Option.some.inj (List.mem_singleton.mp hmem))
      obtain hconn | hgone := hreading
      · exact .inl (World.conn_eq_some.mp hconn)
      · exact .inr ⟨hready.sound.get_eq_nil hgone.conn, hgone.shut⟩

/-- A login, a message of the role session, and an error. -/
theorem session_noHalfOpen_login : ∃ w, server.runVia World.ProperStep World.listening
    [.event 1 (.accept [7]), .event 7 .read,
      .message 0 { size := 9, values := [.integer 1, .table 6],
                   tables := [LuaTable.empty.set Field.roleId.key (.integer 33)] },
      .message 0 { size := 9, values := [.integer 999], tables := [] }, .stop (-1)] = some w ∧
    w.sockets = [1] ∧ NoHalfOpen w := by
  obtain ⟨w, hrun, hw⟩ := (Option.any_eq_true (fun w : World => w.sockets = [1])
    (server.runVia World.ProperStep World.listening
      [.event 1 (.accept [7]), .event 7 .read,
        .message 0 { size := 9, values := [.integer 1, .table 6],
                     tables := [LuaTable.empty.set Field.roleId.key (.integer 33)] },
        .message 0 { size := 9, values := [.integer 999], tables := [] },
        .stop (-1)])).mp (by decide +kernel)
  exact ⟨w, hrun, of_decide_eq_true hw,
    session_noHalfOpen (.runVia (.init World.listening_init) hrun)⟩

/-- A login message without a table leaves its session without a metatable. -/
theorem session_halfOpen : ¬ ∀ w, server.Reachable w → NoHalfOpen w := by
  intro h
  obtain ⟨w, hrun, hw⟩ := (Option.any_eq_true
    (fun w : World => w.sessions.get (fdValue 7) = .table 5 ∧
      w.index maxTagLoop (.table 5) (luaString "handle_msg") = some .nil)
    (server.run World.listening [.event 1 (.accept [7]), .event 7 .read,
      .message 0 { size := 1, values := [.integer 1], tables := [] }])).mp (by decide +kernel)
  obtain ⟨hget, hindex⟩ := of_decide_eq_true hw
  obtain ⟨f, g, hf, -⟩ :=
    (h w (Machine.Reachable.run (.init World.listening_init) hrun)).supplied 7 5 hget
  rw [hindex] at hf
  cases hf

end RandServer.Script
