import RandServer.Net.NetService

/-!
# Handles of closed sessions

A handle is the id of a session. Slots are used again, so an operation has to compare the
handle with the id of the session that it finds. `net_socket_cfg` does not, and
configures whatever unconfigured session lies in the slot; `CfgReaches` describes these
calls, and `staleHandle_rejected_iff` says that they are the only ones that a handle
without a session gets through.
-/

namespace RandServer

/-- The operations that take a handle, with their other arguments. -/
inductive HandleOp
  | cfg (config : Option NetConfig)
  | ctl (data : Option Nat)
  | read (usize : Int)
  | write (buff : List UInt8) (usize : Int) (delay : Bool)
  | close (sendRest : Bool)
  | accept (fd : Int)
  | error

namespace NetService

/-- Call an operation: whether it reports failure, and the service afterwards. Closing
reports nothing, which is taken as failure. -/
def call (s : NetService) (nd : Nat) (op : HandleOp) (sys : Syscalls) :
    Option (Bool × NetService) :=
  match op with
  | .cfg config => (netSocketCfg s nd config sys).map fun res => (res.1 < 0, res.2)
  | .ctl data => some ((netSocketCtl s nd data).1 = 0, (netSocketCtl s nd data).2)
  | .read usize => (netSocketRead s nd usize sys).map fun res => (res.1 < 0, res.2.2)
  | .write buff usize delay =>
      (netSocketWrite s nd buff usize delay sys).map fun res => (res.1 < 0, res.2)
  | .close sendRest => (netSocketClose s nd sendRest sys).map fun t => (true, t)
  | .accept fd => some ((netAccept s nd fd sys).1 = 0, (netAccept s nd fd sys).2)
  | .error => some (netSocketError s nd = 0, s)

/-- `nd` is the id of the session installed in its slot. -/
def Current (s : NetService) (nd : Nat) : Prop :=
  ∃ session, s.sessions (ffidIndex s.socketIds nd) = some session ∧ session.id = nd

/-- The operation reports failure and leaves every session as it is. -/
def Rejects (s : NetService) (nd : Nat) (op : HandleOp) (sys : Syscalls) : Prop :=
  ∃ t, s.call nd op sys = some (true, t) ∧ t.sessions = s.sessions

/-- `net_socket_cfg` finds a session that is not configured, not listening and not
connecting, and neither a system call nor an allocation fails. -/
def CfgReaches (s : NetService) (nd : Nat) (op : HandleOp) (sys : Syscalls) : Prop :=
  (∃ config, op = .cfg (some config)) ∧ nd ≠ 0 ∧
    (∃ session, s.sessions (ffidIndex s.socketIds nd) = some session ∧
      session.rsession = none ∧ session.wsession = none ∧ session.connectFlag = false ∧
      session.lsession = none) ∧
    sys.async = true ∧ sys.lens.isSome = true ∧ sys.alloc = true

/-- A call of the interface, or an event that arrives for a session. -/
inductive ServiceAction
  | listen (fd : Int) (aiFamily port listenCnt : Nat) (listenAlloc : Bool) (sys : Syscalls)
  | connect (fd : Int) (aiFamily err : Nat) (sys : Syscalls)
  | call (nd : Nat) (op : HandleOp) (sys : Syscalls)
  | event (nd event : Nat) (err : Int)
  | queue (maxevents : Int)
  | delay (calls : List Syscalls)

def serviceStep (s : NetService) : ServiceAction → Option NetService
  | .listen fd aiFamily port listenCnt listenAlloc sys =>
      (netListen s fd aiFamily port listenCnt listenAlloc sys).map Prod.snd
  | .connect fd aiFamily err sys => (netConnect s fd aiFamily err sys).map Prod.snd
  | .call nd op sys => (s.call nd op sys).map Prod.snd
  | .event nd event err => some (pushQueueWithLock s nd event err).2
  | .queue maxevents => some (netQueue s maxevents).2
  | .delay calls => (netDelay s calls).map Prod.snd

end NetService

def netService : Machine NetService NetService.ServiceAction where
  Init s := ∃ size mem, 1 ≤ size ∧ s = netCreate size mem
  step := NetService.serviceStep

namespace NetService

variable {s : NetService} {nd : Nat} {op : HandleOp} {sys : Syscalls}

/-- Without its session a handle is refused by every operation but `net_socket_cfg`. -/
theorem rejects_of_not_cfg (h : ¬ s.Current nd) (hop : ∀ config, op ≠ .cfg config) :
    s.Rejects nd op sys := by
  have hslot : s.sessions (ffidIndex s.socketIds nd) = none ∨
      ∃ session, s.sessions (ffidIndex s.socketIds nd) = some session ∧ session.id ≠ nd := by
    cases hslot : s.sessions (ffidIndex s.socketIds nd) with
    | none => exact .inl rfl
    | some session => exact .inr ⟨session, rfl, fun hid => h ⟨session, hslot, hid⟩⟩
  refine ⟨s, ?_, rfl⟩
  cases op with
  | cfg config => exact absurd rfl (hop config)
  | ctl data =>
      rcases hslot with hnone | ⟨session, hsome, hid⟩
      · simp [call, netSocketCtl, hnone]
      · simp [call, netSocketCtl, hsome, hid]
  | read usize =>
      rcases hslot with hnone | ⟨session, hsome, hid⟩
      · simp [call, netSocketRead, hnone]
      · simp [call, netSocketRead, hsome, hid]
  | write buff usize delay =>
      rcases hslot with hnone | ⟨session, hsome, hid⟩
      · simp [call, netSocketWrite, hnone]
      · cases hw : session.wsession with
        | none => simp [call, netSocketWrite, hsome, hw]
        | some w => simp [call, netSocketWrite, hsome, hw, hid]
  | close sendRest =>
      rcases hslot with hnone | ⟨session, hsome, hid⟩
      · simp [call, netSocketClose, netSocketCloseClear, hnone]
      · simp [call, netSocketClose, netSocketCloseClear, hsome, hid]
  | accept fd =>
      rcases hslot with hnone | ⟨session, hsome, hid⟩
      · simp [call, netAccept, hnone]
      · simp [call, netAccept, hsome, hid]
  | error =>
      rcases hslot with hnone | ⟨session, hsome, hid⟩
      · simp [call, netSocketError, hnone]
      · simp [call, netSocketError, hsome, hid]

/-- A new read session has no operation posted, so posting a read reports success. -/
theorem postRead_fresh {session : NetSession} {r : ReadSession} (hr : session.rsession = some r)
    (hop : r.op = opNetNone) : ∃ t session', postRead s session sys = some (1, t, session') := by
  unfold postRead
  simp only [hr, hop, ne_eq, not_true_eq_false, if_false]
  split_ifs
  · exact ⟨_, _, rfl⟩
  · exact ⟨_, _, rfl⟩

/-- A call that reaches a session configures it and reports success. -/
theorem cfg_succeeds (h : s.CfgReaches nd op sys) : ∃ t, s.call nd op sys = some (false, t) := by
  obtain ⟨⟨config, rfl⟩, hzero, ⟨session, hslot, hr, hw, hconnect, hl⟩, hasync, hlens, halloc⟩ := h
  obtain ⟨lens, hlens⟩ := Option.isSome_iff_exists.mp hlens
  have hfree : ¬ (session.rsession.isSome = true ∨ session.wsession.isSome = true ∨
      session.connectFlag = true ∨ session.lsession.isSome = true) := by
    simp [hr, hw, hconnect, hl]
  simp only [call, netSocketCfg, if_neg hzero, hslot, if_neg hfree, hasync, hlens, halloc,
    Bool.true_eq_false, if_false]
  generalize hconf : ({ session with rsession := some _, wsession := some _ } : NetSession) = conf
  obtain ⟨t, session', hread⟩ : ∃ t session', postRead s conf sys = some (1, t, session') := by
    subst hconf
    exact postRead_fresh rfl rfl
  rw [hread]
  exact ⟨_, rfl⟩

theorem cfg_rejects_iff {config : Option NetConfig} :
    s.Rejects nd (.cfg config) sys ↔ ¬ s.CfgReaches nd (.cfg config) sys := by
  constructor
  · rintro ⟨t, ht, -⟩ hreach
    obtain ⟨u, hu⟩ := cfg_succeeds hreach
    rw [ht] at hu
    cases hu
  · intro hnot
    have hfail : ∀ ret : Int, ret < 0 → netSocketCfg s nd config sys = some (ret, s) →
        s.Rejects nd (.cfg config) sys := by
      intro ret hret hcfg
      exact ⟨s, by simp only [call, hcfg, Option.map_some, hret, decide_true], rfl⟩
    unfold netSocketCfg at hfail
    cases config with
    | none => exact hfail (-6) (by decide) rfl
    | some config =>
        by_cases hzero : nd = 0
        · exact hfail (-6) (by decide) (if_pos hzero)
        · cases hslot : s.sessions (ffidIndex s.socketIds nd) with
          | none => exact hfail (-2) (by decide) (by simp only [if_neg hzero, hslot])
          | some session =>
              simp only [if_neg hzero, hslot] at hfail
              cases hlens : sys.lens with
              | none =>
                  split_ifs at hfail with hbusy hasync
                  · exact hfail (-2) (by decide) rfl
                  · exact hfail (-3) (by decide) rfl
                  · exact hfail (-4) (by decide) (by simp only [hlens])
                  · exact hfail (-4) (by decide) (by simp only [hlens])
              | some lens =>
                  split_ifs at hfail with hbusy hasync halloc
                  · exact hfail (-2) (by decide) rfl
                  · exact hfail (-3) (by decide) rfl
                  · exact hfail (-5) (by decide) (by simp only [hlens])
                  · refine absurd ⟨⟨config, rfl⟩, hzero, ⟨session, hslot, ?_⟩, ?_, ?_, ?_⟩ hnot
                    · simpa only [not_or, Bool.not_eq_true, Option.isSome_eq_false_iff,
                        Option.isNone_iff_eq_none] using hbusy
                    · exact Bool.not_eq_false _ ▸ hasync
                    · rw [hlens]
                      rfl
                    · exact Bool.not_eq_false _ ▸ halloc

end NetService

theorem staleHandle_rejected_iff {s : NetService} {nd : Nat} {op : HandleOp} {sys : Syscalls}
    (h : ¬ s.Current nd) : s.Rejects nd op sys ↔ ¬ s.CfgReaches nd op sys := by
  cases op with
  | cfg config => exact NetService.cfg_rejects_iff
  | _ =>
      refine ⟨fun _ hreach => ?_, fun _ => NetService.rejects_of_not_cfg h nofun⟩
      obtain ⟨⟨config, hop⟩, -⟩ := hreach
      cases hop

/-- A service of two slots in which the second slot has been used again: a listening
session, and a session accepted after another one was closed. -/
def reusedSlot : List NetService.ServiceAction :=
  [.listen 3 2 80 5 true {}, .call 1 (.accept 7) {}, .call 2 (.close false) {},
    .call 1 (.accept 8) {}]

def twoSlots : NetService := netCreate 2
  { brk := 0
    fate := fun _ => some (fun _ => 0)
    freed := []
    pools := fun _ => buffPoolCreate 4 0 }

/-- Reading from the closed session is refused. -/
theorem staleHandle_rejected_read : ∃ s, netService.run twoSlots reusedSlot = some s ∧
    s.Rejects 2 (.read 16) {} := by
  obtain ⟨s, session, hrun, hindex, hslot, hid⟩ : ∃ s session,
      netService.run twoSlots reusedSlot = some s ∧ ffidIndex s.socketIds 2 = 1 ∧
        s.sessions 1 = some session ∧ session.id = 4 := ⟨_, _, rfl, rfl, rfl, rfl⟩
  have hstale : ¬ s.Current 2 := by
    rintro ⟨other, hother, hid'⟩
    rw [hindex, hslot] at hother
    cases hother
    omega
  refine ⟨s, hrun, (staleHandle_rejected_iff hstale).mpr fun hreach => ?_⟩
  obtain ⟨⟨config, hop⟩, -⟩ := hreach
  cases hop

/-- The closed session's handle configures the session that has taken its slot. -/
theorem staleHandle_configures : ¬ ∀ s, netService.Reachable s →
    ∀ nd op sys, ¬ s.Current nd → s.Rejects nd op sys := by
  intro h
  obtain ⟨s, session, hrun, hindex, hslot, hid, hfree⟩ : ∃ s session,
      netService.run twoSlots reusedSlot = some s ∧ ffidIndex s.socketIds 2 = 1 ∧
        s.sessions 1 = some session ∧ session.id = 4 ∧ session.rsession = none ∧
        session.wsession = none ∧ session.connectFlag = false ∧ session.lsession = none :=
    ⟨_, _, rfl, rfl, rfl, rfl, rfl, rfl, rfl, rfl⟩
  have hreach : netService.Reachable s :=
    Machine.Reachable.run (.init ⟨2, _, by decide, rfl⟩) hrun
  have hstale : ¬ s.Current 2 := by
    rintro ⟨other, hother, hid'⟩
    rw [hindex, hslot] at hother
    cases hother
    omega
  let config : NetConfig :=
    { enByte := .enByte16, readBuffCnt := 4, writeBuffCnt := 4, pool := 0
      readBuffVersion := .useQueue }
  exact NetService.cfg_rejects_iff.mp (h s hreach 2 (.cfg (some config)) {} hstale)
    ⟨⟨config, rfl⟩, by decide, ⟨session, by rw [hindex]; exact hslot, hfree⟩, rfl, rfl, rfl⟩

end RandServer
