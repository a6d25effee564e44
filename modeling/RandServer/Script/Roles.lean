import RandServer.Script.Accept

/-!
# One connection for a role

The steps of the server in terms of their effects on the tables, and what holds in every
reachable state: each session is registered under its descriptor, and a session of
`all_roles` is registered and has the role it stands under.
-/

namespace RandServer.Script

open StateError

namespace World

variable {w w' u : World} {fd : BitVec 32} {id : Nat} {m : Message} {ptr : BitVec 64}

/-! ## Between the steps -/

/-- The invariant between two steps. A round reads messages for a session that is
registered, or for one that was closed by its last message. -/
structure Ready (w : World) : Prop where
  sound : w.Sound
  mail : ∀ p, w.mail p = none
  rounds : w.rounds = [] ∨
    ∃ fd id, w.rounds = [some (fd, id)] ∧ (w.conn fd = some id ∨ w.Gone fd id)

/-- The messages of unidentified connections are registered, or find no field of
`network.lua` but `__index` and `handle_error`. -/
def OrdinaryStep (w : World) : World.Action → Prop
  | .message _ m => ∀ q ∈ w.rounds.head?.join, w.metas q.2 = some networkId →
      w.Ordinary (m.values.headD .nil)
  | _ => True

instance (w : World) : ∀ a, Decidable (w.OrdinaryStep a)
  | .message _ m => inferInstanceAs (Decidable (∀ q ∈ w.rounds.head?.join,
      w.metas q.2 = some networkId → w.Ordinary (m.values.headD .nil)))
  | .event _ _ | .idle | .stop _ | .close _ => inferInstanceAs (Decidable True)

/-- What a step does. -/
inductive Move (w : World) : World.Action → World → Prop
  | skip {a : World.Action} : Move w a { w with rounds := [] }
  | read {fd : BitVec 32} {id : Nat} (hconn : w.conn fd = some id) (hlisten : fd ∉ w.listeners) :
      Move w (.event fd .read) { w with rounds := [some (fd, id)] }
  | accept {fd : BitVec 32} {id : Nat} {newfds : List (BitVec 32)} {w' : World}
      (hconn : w.conn fd = some id) (hlisten : fd ∈ w.listeners) (hrounds : w.rounds = [])
      (hnodup : newfds.Nodup) (hfree : ∀ newfd ∈ newfds, newfd ∉ w.sockets)
      (hafter : w.after (acceptLoop (.table id) newfds) = some w') :
      Move w (.event fd (.accept newfds)) w'
  | hangUp {a : World.Action} {fd : BitVec 32} {id : Nat} (hconn : w.conn fd = some id) :
      Move w a (World.hangUp { w with rounds := [] } fd id)
  | message {fd : BitVec 32} {id : Nat} {ptr : BitVec 64} {m : Message} {u : World}
      (hround : w.rounds = [some (fd, id)]) (hconn : w.conn fd = some id)
      (ho : Outcome (w.Strands id ptr m) (w.receive ptr m) fd id u) :
      Move w (.message ptr m) (u.free ptr)

theorem rounds_eq (h : w.rounds = []) : { w with rounds := [] } = w := by
  rw [← h]

theorem Sound.no_rounds (h : w.Sound) : ({ w with rounds := [] } : World).Sound :=
  h.congr w.mail []

/-! ## Steps -/

theorem move_startRound (h : w.Ready) {event : RoundEvent} (hrounds : w.rounds = [])
    (hoccurs : w.occurs fd event) (hafter : w.after (startRound fd event) = some w') :
    Move w (.event fd event) w' := by
  have hskip : some w = some w' → Move w (.event fd event) w' := by
    intro heq
    rw [← Option.some.inj heq, ← rounds_eq hrounds]
    exact .skip
  rw [startRound, after_get_bind] at hafter
  cases hget : w.sessions.get (fdValue fd) with
  | table id =>
      have hconn : w.conn fd = some id := conn_eq_some.mpr hget
      obtain ⟨-, hs⟩ := h.sound.session hconn
      rw [hget] at hafter
      cases event with
      | accept newfds =>
          simp only [occurs, Bool.and_eq_true, decide_eq_true_eq, List.all_eq_true] at hoccurs
          obtain ⟨⟨hlisten, hnodup⟩, hfree⟩ := hoccurs
          exact .accept hconn hlisten hrounds hnodup (fun newfd hmem => (hfree newfd hmem).1) hafter
      | error =>
          have hhang : w.after (callMethod (197 + 3) id "handle_error") = some w' := hafter
          rw [hs.after_handleError h.sound, Option.some_inj] at hhang
          have hmove : Move w (.event fd .error) (World.hangUp { w with rounds := [] } fd id) :=
            .hangUp hconn
          rw [rounds_eq hrounds, hhang] at hmove
          exact hmove
      | read =>
          have hread : some { w with rounds := some (fd, id) :: w.rounds } = some w' := hafter
          rw [← Option.some.inj hread, hrounds]
          simp only [occurs, decide_eq_true_eq] at hoccurs
          exact .read hconn hoccurs
  | _ =>
      rw [hget] at hafter
      exact hskip hafter

theorem move_close (h : w.Ready) (hrounds : w.rounds = []) (hconn : w.conn fd = some id)
    (hafter : w.after (callMethod maxCCalls id "close") = some w') : Move w (.close fd) w' := by
  obtain ⟨-, hs⟩ := h.sound.session hconn
  have hclose : w.after (callMethod (199 + 1) id "close") = some w' := hafter
  rw [hs.after_close h.sound, Option.some_inj] at hclose
  rw [← hclose]
  split
  · have hmove : Move w (.close fd) { w with rounds := [] } := .skip
    rw [rounds_eq hrounds] at hmove
    exact hmove
  · have hmove : Move w (.close fd) (World.hangUp { w with rounds := [] } fd id) := .hangUp hconn
    rw [rounds_eq hrounds] at hmove
    exact hmove

theorem Gone.congr (h : w.Gone fd id) (rounds : List (Option (BitVec 32 × Nat))) :
    ({ w with rounds := rounds } : World).Gone fd id :=
  ⟨h.session.same rfl rfl rfl, h.conn, h.shut, h.owner⟩

theorem move_readError (h : w.Ready) {size : Int}
    (hreading : w.conn fd = some id ∨ w.Gone fd id)
    (hafter : ({ w with rounds := [] } : World).after (readError id) = some w') :
    Move w (.stop size) w' := by
  have hsound := h.sound.no_rounds
  have hcall : ({ w with rounds := [] } : World).after (callMethod (197 + 3) id "handle_error") =
      some w' := hafter
  obtain hconn | hgone := hreading
  · have hs : ({ w with rounds := [] } : World).Session fd id := (hsound.session hconn).2
    rw [hs.after_handleError hsound, Option.some_inj] at hcall
    rw [← hcall]
    exact .hangUp hconn
  · have hgone' := hgone.congr []
    rw [hgone'.session.after_handleError hsound, hangUp_gone hsound hgone', Option.some_inj] at hcall
    rw [← hcall]
    exact .skip

theorem step_move {a : World.Action} (h : w.Ready) (hord : w.OrdinaryStep a)
    (hstep : w.step a = some w') : Move w a w' := by
  cases a with
  | event fd event =>
      simp only [step] at hstep
      split at hstep
      · rename_i hok
        obtain hrounds | ⟨fd', id', hrounds, -⟩ := h.rounds
        · rw [hrounds] at hstep
          exact move_startRound h hrounds hok.2 hstep
        · rw [hrounds] at hstep
          cases hstep
      · cases hstep
  | idle =>
      simp only [step] at hstep
      obtain hrounds | ⟨fd', id', hrounds, -⟩ := h.rounds
      · rw [hrounds] at hstep
        cases hstep
      · rw [hrounds] at hstep
        cases hstep
  | message ptr m =>
      simp only [step] at hstep
      obtain hrounds | ⟨fd, id, hrounds, hreading⟩ := h.rounds
      · rw [hrounds] at hstep
        cases hstep
      · rw [hrounds] at hstep
        dsimp only at hstep
        split at hstep
        · rename_i hok
          obtain ⟨hopen, -, hdecodes⟩ := hok
          obtain ⟨u, hafter, rfl⟩ := Option.map_eq_some_iff.mp hstep
          have hconn : w.conn fd = some id :=
            hreading.resolve_right fun hgone => hgone.shut hopen
          have hord' : w.metas id = some networkId → w.Ordinary (m.values.headD .nil) := by
            apply hord (fd, id)
            rw [hrounds]
            rfl
          exact .message hrounds hconn
            (h.sound.after_readMessage hconn hdecodes h.mail hord' hafter)
        · cases hstep
  | stop size =>
      simp only [step] at hstep
      obtain hrounds | ⟨fd, id, hrounds, hreading⟩ := h.rounds
      · rw [hrounds] at hstep
        cases hstep
      · rw [hrounds] at hstep
        dsimp only at hstep
        split at hstep
        · rw [← Option.some.inj hstep]
          exact .skip
        · split at hstep
          · exact move_readError h hreading hstep
          · cases hstep
  | close fd =>
      simp only [step] at hstep
      split at hstep
      · rename_i id hrounds hget
        exact move_close h hrounds (conn_eq_some.mpr hget) hstep
      · cases hstep

/-! ## The invariant -/

theorem hangUp_frame (w : World) (fd : BitVec 32) (id : Nat) :
    (w.hangUp fd id).rounds = w.rounds ∧ (w.hangUp fd id).mail = w.mail := by
  rw [hangUp]
  split
  · exact ⟨rfl, rfl⟩
  · split <;> exact ⟨rfl, rfl⟩

theorem Outcome.frame {fails : Prop} (ho : Outcome fails w fd id u) :
    u.rounds = w.rounds ∧ u.mail = w.mail := by
  cases ho with
  | hungUp => exact hangUp_frame w fd id
  | _ => exact ⟨rfl, rfl⟩

/-- The session is registered after the message, or it was closed. -/
theorem Outcome.reading {fails : Prop} (ho : Outcome fails w fd id u) (h : w.Sound)
    (hconn : w.conn fd = some id) : u.conn fd = some id ∨ u.Gone fd id := by
  cases ho with
  | same => exact .inl hconn
  | hungUp =>
      by_cases hmeta : w.metas id = none
      · rw [hangUp_stripped hmeta]
        exact .inl hconn
      · exact .inr (gone_hangUp h hconn hmeta)
  | regMsg v => exact .inl hconn
  | rewritten hrole ht hnone hm => exact .inl hconn
  | @left t hrole ht hnone =>
      have hsound := h.rewrite hconn hrole (.inl rfl) ht.plain ht.fd hnone
      have hnone' : (w.rewrite id none t).role id = none := by
        rw [World.role, objs_rewrite, hnone]
      exact .inr (gone_dropSession hsound hconn hnone')
  | entered hrole ht hkey hrelogin hr hfree => exact .inl hconn
  | @tookOver t r k i fd' id' hrole ht hkey hrelogin hr hconn' hrole' =>
      exact .inl (conn_closeRole_of_ne (r := r) hconn hconn' (ne_of_role hrole hrole'))

theorem Move.ready {a : World.Action} (h : w.Ready) (hmove : Move w a w') : w'.Ready := by
  cases hmove with
  | skip => exact ⟨h.sound.no_rounds, h.mail, .inl rfl⟩
  | read hconn hlisten =>
      exact ⟨h.sound.congr w.mail _, h.mail, .inr ⟨_, _, rfl, .inl hconn⟩⟩
  | accept hconn hlisten hrounds hnodup hfree hafter =>
      obtain ⟨hsound, hrounds', hmail⟩ :=
        after_acceptLoop (P := fun u => u.rounds = [] ∧ ∀ p, u.mail p = none)
          (h.sound.session hconn).2 (fun _ _ _ hP _ _ _ => hP) (fun _ _ _ hP => hP) hnodup hfree
          h.sound ⟨hrounds, h.mail⟩ hafter
      exact ⟨hsound, hmail, .inl hrounds'⟩
  | @hangUp a fd id hconn =>
      obtain ⟨hrounds, hmail⟩ := hangUp_frame { w with rounds := [] } fd id
      refine ⟨h.sound.no_rounds.hangUp hconn, ?_, .inl hrounds⟩
      rw [hmail]
      exact h.mail
  | @message fd id ptr m u hround hconn ho =>
      have hreceive := h.sound.receive ptr m
      have hconn' : (w.receive ptr m).conn fd = some id := hconn
      obtain ⟨hrounds, hmail⟩ := ho.frame
      refine ⟨(ho.sound hreceive hconn').congr _ _, ?_, .inr ⟨fd, id, ?_, ?_⟩⟩
      · intro p
        show Function.update u.mail ptr none p = none
        rw [hmail, Function.update_apply]
        split
        · rfl
        · rename_i hne
          show Function.update w.mail ptr (some m) p = none
          rw [Function.update_of_ne hne, h.mail]
      · show u.rounds = _
        rw [hrounds]
        exact hround
      · obtain hreg | hgone := ho.reading hreceive hconn'
        · exact .inl hreg
        · exact .inr ⟨hgone.session.same rfl rfl rfl, hgone.conn, hgone.shut, hgone.owner⟩

/-! ## The start -/

section Start

variable {ip port cnt enByte readMsgCnt writeBuffCnt : LuaValue}
  {addrs : BitVec 32 → LuaValue × LuaValue}

theorem start_conn {fd' : BitVec 32} {id : Nat}
    (h : (start fd ip port cnt enByte readMsgCnt writeBuffCnt addrs).conn fd' = some id) :
    fd' = fd ∧ id = allRolesId + 1 := by
  have hget := get_set_fdValue LuaTable.empty fd fd' (.table (allRolesId + 1))
  rw [Function.update_apply] at hget
  have hconn := hget.symm.trans h
  split at hconn
  · rename_i heq
    exact ⟨heq, (Option.some.inj hconn).symm⟩
  · rw [LuaTable.get_empty] at hconn
    cases hconn

theorem start_metas : (start fd ip port cnt enByte readMsgCnt writeBuffCnt addrs).metas
    (allRolesId + 1) = some networkId := by
  simp only [start, Function.update_self]

theorem start_session :
    (start fd ip port cnt enByte readMsgCnt writeBuffCnt addrs).Session fd (allRolesId + 1) := by
  have hobj : (start fd ip port cnt enByte readMsgCnt writeBuffCnt addrs).objs (allRolesId + 1) =
      ((((((((LuaTable.empty.set Field.type.key (luaString "listen")).set Field.ip.key ip).set
        Field.port.key port).set Field.cnt.key cnt).set Field.enByte.key enByte).set
        Field.readMsgCnt.key readMsgCnt).set Field.writeBuffCnt.key writeBuffCnt).set
        Field.fd.key (fdValue fd)) := by
    simp only [start, Function.update_self]
  refine ⟨Nat.lt_succ_self _, Nat.lt_succ_self _, ?_, ?_, .network start_metas ?_⟩
  · rw [hobj]
    exact (((((((Plain.empty.set .type _).set .ip _).set .port _).set .cnt _).set .enByte _).set
      .readMsgCnt _).set .writeBuffCnt _).set .fd _
  · rw [hobj, LuaTable.get_set_self (Field.luaKey_key .fd)]
  · rw [World.role, hobj, LuaTable.get_set_ne (Field.luaKey_key .fd) _ _ (by decide),
      LuaTable.get_set_ne (Field.luaKey_key .writeBuffCnt) _ _ (by decide),
      LuaTable.get_set_ne (Field.luaKey_key .readMsgCnt) _ _ (by decide),
      LuaTable.get_set_ne (Field.luaKey_key .enByte) _ _ (by decide),
      LuaTable.get_set_ne (Field.luaKey_key .cnt) _ _ (by decide),
      LuaTable.get_set_ne (Field.luaKey_key .port) _ _ (by decide),
      LuaTable.get_set_ne (Field.luaKey_key .ip) _ _ (by decide),
      LuaTable.get_set_ne (Field.luaKey_key .type) _ _ (by decide), LuaTable.get_empty]
    rfl

theorem start_ready : (start fd ip port cnt enByte readMsgCnt writeBuffCnt addrs).Ready := by
  refine ⟨⟨rfl, ?_, Nat.lt_succ_of_lt (Nat.lt_succ_self _), ?_, ?_, ?_,
    fun e he => absurd he List.not_mem_nil, ?_, ?_, ?_⟩,
    fun _ => rfl, .inl rfl⟩
  · intro e he
    have he : e ∈ (LuaTable.empty.set (.integer 999) ServerFunction.helloRandom.value).entries := he
    rw [LuaTable.set_entries (luaKey_integer 999)] at he
    exact .inl (List.mem_singleton.mp he)
  · intro id hid
    have hne : id ≠ allRolesId + 1 := Nat.ne_of_lt (Nat.lt_succ_of_le hid)
    simp only [start, Function.update_of_ne hne]
  · show (1 : Int) = ((LuaTable.empty.set (fdValue fd) _).entries.length : Nat)
    rw [LuaTable.set_entries (luaKey_fdValue fd)]
    rfl
  · intro e he
    have he : e ∈ (LuaTable.empty.set (fdValue fd) (.table (allRolesId + 1))).entries := he
    rw [LuaTable.set_entries (luaKey_fdValue fd)] at he
    exact ⟨fd, allRolesId + 1, List.mem_singleton.mp he⟩
  · intro fd' id hconn
    obtain ⟨rfl, rfl⟩ := start_conn hconn
    exact ⟨List.mem_singleton_self _, start_session⟩
  · intro a b id ha hb
    rw [(start_conn ha).1, (start_conn hb).1]
  · intro r id
    constructor
    · intro howner
      have hnone : (start fd ip port cnt enByte readMsgCnt writeBuffCnt addrs).owner r = none := by
        rw [World.owner]
        split
        · show tableId (LuaTable.empty.get r) = none
          rw [LuaTable.get_empty]
          rfl
        · rfl
      exact absurd (hnone.symm.trans howner) (Option.some_ne_none id).symm
    · rintro ⟨⟨fd', hconn⟩, hrole⟩
      obtain ⟨-, rfl⟩ := start_conn hconn
      have hnone : (start fd ip port cnt enByte readMsgCnt writeBuffCnt addrs).role
          (allRolesId + 1) = none := start_session.kind.role_network start_metas
      exact absurd (hnone.symm.trans hrole) (Option.some_ne_none _).symm

end Start

theorem Ready.of_run (h : server.ReachableVia OrdinaryStep w) : w.Ready := by
  refine h.invariant ?_ ?_
  · rintro w ⟨fd, ip, port, cnt, enByte, readMsgCnt, writeBuffCnt, addrs, -, rfl⟩
    exact start_ready
  · exact fun w u a hw hord hstep => (step_move hw hord hstep).ready hw

end World

/-! ## The result -/

/-- Each session is registered under its descriptor, and `all_roles` has only registered
sessions, each under its role. -/
structure OneConnection (w : World) : Prop where
  count : w.count = w.sessions.entries.length
  own_fd : ∀ e ∈ w.sessions.entries, ∃ id, e.2 = .table id ∧
    (w.objs id).get Field.fd.key = e.1
  role : ∀ e ∈ w.allRoles.entries, ∃ id, e.2 = .table id ∧
    luaKey ((w.objs id).get Field.roleId.key) = some e.1 ∧
    w.sessions.get ((w.objs id).get Field.fd.key) = .table id
  unique : ∀ e ∈ w.sessions.entries, ∀ e' ∈ w.sessions.entries, ∀ id id' r,
    e.2 = .table id → e'.2 = .table id' →
    luaKey ((w.objs id).get Field.roleId.key) = some r →
    luaKey ((w.objs id').get Field.roleId.key) = some r → e = e'
  kicked : ∀ id, (∀ e ∈ w.sessions.entries, e.2 ≠ .table id) →
    ∀ e ∈ w.allRoles.entries, e.2 ≠ .table id

theorem World.Sound.conn_of_entry {w : World} {e : LuaValue × LuaValue} {id : Nat} (h : w.Sound)
    (he : e ∈ w.sessions.entries) (hid : e.2 = .table id) :
    ∃ fd, e = (fdValue fd, .table id) ∧ w.conn fd = some id := by
  obtain ⟨fd, id', rfl⟩ := h.sessions e he
  obtain rfl := LuaValue.table.inj hid
  exact ⟨fd, rfl, World.conn_eq_some.mpr (LuaTable.mem_entries_iff.mp he).2.2⟩

/-- In every run in which the messages of unidentified connections are ordinary, a role has
at most one live connection. -/
theorem roles_oneConnection {w : World} (h : server.ReachableVia World.OrdinaryStep w) :
    OneConnection w := by
  have hsound := (World.Ready.of_run h).sound
  have hrole : ∀ e ∈ w.allRoles.entries, ∃ id fd, e.2 = .table id ∧ w.conn fd = some id ∧
      w.role id = some e.1 := by
    intro e he
    obtain ⟨hkey, hne, hget⟩ := LuaTable.mem_entries_iff.mp he
    obtain hnil | ⟨fd, id, k, heq, hk, hconn, hrole⟩ := hsound.allRoles_cases e.1
    · exact absurd (hget.symm.trans hnil) hne
    · rw [hkey, Option.some_inj] at hk
      exact ⟨id, fd, hget.symm.trans heq, hconn, hk ▸ hrole⟩
  have hregistered : ∀ {fd id}, w.conn fd = some id → (fdValue fd, .table id) ∈ w.sessions.entries :=
    fun hconn => LuaTable.mem_entries_iff.mpr
      ⟨World.luaKey_fdValue _, nofun, World.conn_eq_some.mp hconn⟩
  constructor
  · exact hsound.count
  · intro e he
    obtain ⟨fd, id, rfl⟩ := hsound.sessions e he
    obtain ⟨fd', heq, hconn⟩ := hsound.conn_of_entry he rfl
    exact ⟨id, rfl, by rw [heq]; exact (hsound.session hconn).2.fd⟩
  · intro e he
    obtain ⟨id, fd, hid, hconn, hk⟩ := hrole e he
    refine ⟨id, hid, hk, ?_⟩
    rw [(hsound.session hconn).2.fd]
    exact World.conn_eq_some.mp hconn
  · intro e he e' he' id id' r hid hid' hr hr'
    obtain ⟨fd, rfl, hconn⟩ := hsound.conn_of_entry he hid
    obtain ⟨fd', rfl, hconn'⟩ := hsound.conn_of_entry he' hid'
    obtain ⟨rfl, rfl⟩ := hsound.valid.unique hconn hconn' hr hr'
    rfl
  · rintro id hkicked e he hid
    obtain ⟨id', fd, hid', hconn, -⟩ := hrole e he
    obtain rfl := LuaValue.table.inj (hid.symm.trans hid')
    exact hkicked _ (hregistered hconn) rfl

/-- Two connections log in to one role, and the second one stays. -/
theorem roles_oneConnection_twice : ∃ w, server.runVia World.OrdinaryStep World.listening
    [.event 1 (.accept [7, 8]), .event 7 .read,
      .message 0 { size := 9, values := [.integer 1, .table 7],
                   tables := [LuaTable.empty.set Field.roleId.key (.integer 33)] }, .stop 0,
      .event 8 .read,
      .message 0 { size := 9, values := [.integer 1, .table 9],
                   tables := [LuaTable.empty.set Field.roleId.key (.integer 33)] }, .stop 0] =
    some w ∧ w.sockets = [8, 1] ∧ w.allRoles.get (.integer 33) = .table 6 ∧ OneConnection w := by
  obtain ⟨w, hrun, hw⟩ := (Option.any_eq_true
    (fun w : World => w.sockets = [8, 1] ∧ w.allRoles.get (.integer 33) = .table 6)
    (server.runVia World.OrdinaryStep World.listening
      [.event 1 (.accept [7, 8]), .event 7 .read,
        .message 0 { size := 9, values := [.integer 1, .table 7],
                     tables := [LuaTable.empty.set Field.roleId.key (.integer 33)] }, .stop 0,
        .event 8 .read,
        .message 0 { size := 9, values := [.integer 1, .table 9],
                     tables := [LuaTable.empty.set Field.roleId.key (.integer 33)] },
        .stop 0])).mp (by decide +kernel)
  obtain ⟨hsockets, howner⟩ := of_decide_eq_true hw
  exact ⟨w, hrun, hsockets, howner, roles_oneConnection (.runVia (.init World.listening_init) hrun)⟩

end RandServer.Script
