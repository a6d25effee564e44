import Mathlib.Data.Finset.Basic
import Mathlib.Logic.ExistsUnique
import RandServer.Script.SecTick

/-!
# The database session of the logic server

`db_session.lua` over `network.lua` and `sec_tick.lua`. The session waits for a timer that
connects it, or it is registered for the handle of its connection. Each of its functions that
gives up one of the two takes the other.

No other module of the logic server registers timers. Other sessions come and go with handles
that the network layer does not give out twice at a time, and it may report any event for any
handle.
-/

namespace RandServer

namespace DbSession

/-! ## The modules -/

/-- Whose session `network.sessions` holds. -/
inductive Peer
  | dbSession
  | other
  deriving DecidableEq

/-- The fields of the session that its functions assign. -/
structure Session where
  fd : Option Nat
  tickId : Option Nat
  waitSec : Nat

/-- `sec_tick`, `network.sessions` and `network.count`, the handles of the network layer that are
not closed, and the session of the main database with its count of messages. All functions in
`sec_tick.funs` are calls of the session's `connect_db`. -/
structure State where
  tick : SecTick
  sessions : Nat → Option Peer
  count : Int
  opened : Finset Nat
  session : Session
  dbMsgCount : Nat

def eveAccept : Nat := 1
def eveRead : Nat := 2
def eveConnect : Nat := 4
def eveError : Nat := 2 ^ 30

variable (s : State) (now : Int)

/-- `network.reg_session`, where the session of another peer is not described further. -/
def regSession (fd : Nat) (peer : Peer) : State :=
  { s with
    session := if peer = .dbSession then { s.session with fd := some fd } else s.session
    count := if s.sessions fd = none then s.count + 1 else s.count
    sessions := Function.update s.sessions fd (some peer) }

/-- `network.del_session` with a handle. -/
def delSession (fd : Nat) : State :=
  { s with
    opened := s.opened.erase fd
    count := if s.sessions fd = none then s.count else s.count - 1
    sessions := Function.update s.sessions fd none }

/-- `session.tick_id = sec_tick.reg(wait, session.connect_db, session)`. -/
def regTick (wait : Nat) : State :=
  { s with
    tick := s.tick.reg (now + wait)
    session := { s.session with tickId := some (luaTickReg s.tick.tree (now + wait)).1 } }

/-- `session_funs.connect_db`, where `net.connect` returns `nd`. -/
def connectDb (nd : Nat) : State :=
  match s.session.tickId with
  | none => s
  | some _ =>
      let wait := s.session.waitSec
      let s :=
        { s with
          session :=
            { s.session with
              tickId := none
              waitSec := if wait < 30 then wait + 1 else wait } }
      if 0 < nd then regSession { s with opened := insert nd s.opened } nd .dbSession
      else regTick s now s.session.waitSec

/-- `m.connect_db`. -/
def connectMainDb : State :=
  regTick { s with session := { fd := none, tickId := none, waitSec := 1 } } now 1

/-- `session_funs.handle_connect`, where `net.socket_cfg` returns `cfg`. What is sent to the
database may raise an error. So does `network.del_session` without a handle. -/
def handleConnect (err : Nat) (cfg : Int) (sends : Bool) : State :=
  if err = 0 ∧ cfg = 0 then
    if sends then { s with session := { s.session with waitSec := 1 } } else s
  else
    match s.session.fd with
    | none => s
    | some fd =>
        let s := delSession s fd
        regTick s now s.session.waitSec

/-- `session_funs.handle_error`. -/
def handleError : State :=
  match s.session.fd with
  | none => s
  | some fd =>
      let s := delSession s fd
      regTick { s with session := { s.session with waitSec := 1 } } now 1

/-- The loop of `do_round` over the results of `net.socket_read`, which is zero in the end. -/
def readLoop (s : State) (now : Int) : List Int → State
  | [] => s
  | msgSize :: reads =>
      if msgSize = 0 then s
      else if msgSize < 0 then handleError s now
      else readLoop { s with dbMsgCount := s.dbMsgCount + 1 } now reads

/-- `do_round` of `network.lua` for an event. The database session has no `handle_accept`, and
the function `error` of the scripts returns. The sessions of other peers are left to the
actions `accept` and `close`. -/
def doRound (fd events : Nat) (cfg : Int) (sends : Bool) (reads : List Int) : State :=
  match if 0 < fd then s.sessions fd else none with
  | some .dbSession =>
      if 0 < events &&& eveAccept then s
      else if 0 < events &&& eveConnect then
        handleConnect s now (events &&& eveError) cfg sends
      else if 0 < events &&& eveError then handleError s now
      else if 0 < events &&& eveRead then readLoop s now reads
      else s
  | _ => s

/-- `sec_tick.trigger`. -/
def trigger (tickId nd : Nat) : State :=
  match s.tick.trigger tickId with
  | (none, tick) => { s with tick := tick }
  | (some _, tick) => connectDb { s with tick := tick } now nd

/-! ## Runs -/

/-- The first timer of the tree is triggered, an event is taken from the queue, or another
session is registered or removed. -/
inductive Action
  | timer (now : Int) (nd : Nat)
  | event (now : Int) (fd events : Nat) (cfg : Int) (sends : Bool) (reads : List Int)
  | accept (newfd : Nat)
  | close (fd : Nat)

def step (s : State) : Action → Option State
  | .timer now nd =>
      if 0 < nd ∧ nd ∈ s.opened then none
      else (s.tick.tree.index 0).map fun tickId => trigger s now tickId nd
  | .event now fd events cfg sends reads => some (doRound s now fd events cfg sends reads)
  | .accept newfd =>
      if newfd = 0 ∨ newfd ∈ s.opened then none
      else some (regSession { s with opened := insert newfd s.opened } newfd .other)
  | .close fd => if s.sessions fd = some .other then some (delSession s fd) else none

end DbSession

open DbSession

/-- The logic server from the call of `connect_main_db` on. -/
def dbSession : Machine DbSession.State DbSession.Action where
  Init s := ∃ w now, s = connectMainDb w now ∧ w.tick.tree.keys = [] ∧
    (∀ key, w.tick.funs key = none) ∧ (∀ fd, w.sessions fd ≠ some .dbSession) ∧
    ∀ fd, w.sessions fd ≠ none → fd ∈ w.opened
  step := DbSession.step

namespace DbSession

variable {s t : State} {now : Int} {fd : Nat}

/-- A reconnect timer is pending: the session has its id, and it is registered. -/
def Pending (s : State) : Prop :=
  ∃ tickId, s.session.tickId = some tickId ∧ tickId ∈ s.tick.tree.keys ∧ s.tick.funs tickId ≠ none

/-- There is exactly one way forward, and the delay is in its bounds. -/
structure OneWay (s : State) : Prop where
  way : Xor (Pending s) (∃! fd, s.sessions fd = some .dbSession)
  wait_pos : 1 ≤ s.session.waitSec
  wait_le : s.session.waitSec ≤ 30

/-- The session waits for the only timer. -/
structure Waiting (s : State) : Prop where
  timer : ∃ tickId, s.session.tickId = some tickId ∧ s.tick.tree.keys = [tickId] ∧
    s.tick.funs tickId ≠ none
  unlinked : ∀ fd, s.sessions fd ≠ some .dbSession

/-- The session is registered for its only handle. -/
structure Linked (s : State) : Prop where
  tickId : s.session.tickId = none
  keys : s.tick.tree.keys = []
  handle : ∃ fd, s.session.fd = some fd ∧ ∀ fd', s.sessions fd' = some .dbSession ↔ fd' = fd

structure Inv (s : State) : Prop where
  way : Waiting s ∨ Linked s
  wait : 1 ≤ s.session.waitSec ∧ s.session.waitSec ≤ 30
  opened : ∀ fd, s.sessions fd ≠ none → fd ∈ s.opened

theorem Inv.oneWay (h : Inv s) : OneWay s := by
  refine ⟨?_, h.wait.1, h.wait.2⟩
  obtain ⟨⟨tickId, hid, hkeys, hfuns⟩, hnone⟩ | ⟨hid, hkeys, fd, hfd, hiff⟩ := h.way
  · left
    refine ⟨⟨tickId, hid, by simp [hkeys], hfuns⟩, ?_⟩
    rintro ⟨fd, hfd, -⟩
    exact hnone fd hfd
  · right
    refine ⟨⟨fd, (hiff fd).mpr rfl, fun fd' hfd' => (hiff fd').mp hfd'⟩, ?_⟩
    rintro ⟨tickId, hid', -⟩
    rw [hid] at hid'
    cases hid'

/-! ### What the functions keep -/

theorem keys_insert_nil {tree : TickTree} {key : Nat} (h : tree.keys = []) :
    (tree.insert key).keys = [key] := by
  simp [TickTree.insert, h]

/-- A session that has given up its handle waits for the only timer again. -/
theorem inv_regTick {wait : Nat} (hkeys : s.tick.tree.keys = [])
    (hnone : ∀ fd, s.sessions fd ≠ some .dbSession)
    (hwait : 1 ≤ s.session.waitSec ∧ s.session.waitSec ≤ 30)
    (hopened : ∀ fd, s.sessions fd ≠ none → fd ∈ s.opened) : Inv (regTick s now wait) := by
  refine ⟨.inl ⟨⟨(luaTickReg s.tick.tree (now + wait)).1, rfl, ?_, ?_⟩, hnone⟩, hwait, hopened⟩
  · exact keys_insert_nil hkeys
  · simp [regTick, SecTick.reg]

theorem opened_delSession (h : ∀ fd, s.sessions fd ≠ none → fd ∈ s.opened) (fd : Nat) :
    ∀ fd', (delSession s fd).sessions fd' ≠ none → fd' ∈ (delSession s fd).opened := by
  intro fd' hfd'
  by_cases heq : fd' = fd
  · simp [delSession, heq] at hfd'
  · simp only [delSession, Function.update_of_ne heq] at hfd' ⊢
    exact Finset.mem_erase.mpr ⟨heq, h fd' hfd'⟩

theorem Linked.unlinked (h : Linked s) (hfd : s.session.fd = some fd) :
    ∀ fd', (delSession s fd).sessions fd' ≠ some .dbSession := by
  obtain ⟨fd₀, hfd₀, hiff⟩ := h.handle
  obtain rfl : fd₀ = fd := Option.some.inj (hfd₀.symm.trans hfd)
  intro fd'
  by_cases heq : fd' = fd₀
  · simp [delSession, heq]
  · simp only [delSession, Function.update_of_ne heq]
    exact fun hdb => heq ((hiff fd').mp hdb)

theorem Inv.handleError (h : Inv s) (hl : Linked s) : Inv (handleError s now) := by
  obtain ⟨fd, hfd, -⟩ := id hl.handle
  simp only [DbSession.handleError, hfd]
  apply inv_regTick
  · exact hl.keys
  · exact hl.unlinked hfd
  · exact (by decide : 1 ≤ 1 ∧ 1 ≤ 30)
  · exact opened_delSession h.opened fd

theorem Inv.handleConnect (h : Inv s) (hl : Linked s) (err : Nat) (cfg : Int) (sends : Bool) :
    Inv (handleConnect s now err cfg sends) := by
  obtain ⟨fd, hfd, hiff⟩ := id hl.handle
  simp only [DbSession.handleConnect, hfd]
  split
  · split
    · exact ⟨.inr ⟨hl.tickId, hl.keys, fd, rfl, hiff⟩, (by decide : 1 ≤ 1 ∧ 1 ≤ 30), h.opened⟩
    · exact h
  · apply inv_regTick
    · exact hl.keys
    · exact hl.unlinked hfd
    · exact h.wait
    · exact opened_delSession h.opened fd

theorem Inv.readLoop (h : Inv s) (hl : Linked s) (reads : List Int) :
    Inv (readLoop s now reads) := by
  induction reads generalizing s with
  | nil => exact h
  | cons msgSize reads ih =>
      simp only [DbSession.readLoop]
      split
      · exact h
      · split
        · exact h.handleError hl
        · have hl' : Linked { s with dbMsgCount := s.dbMsgCount + 1 } :=
            ⟨hl.tickId, hl.keys, hl.handle⟩
          exact ih ⟨.inr hl', h.wait, h.opened⟩ hl'

/-- Events reach the session only while it is registered. -/
theorem Inv.linked (h : Inv s) (hfd : s.sessions fd = some .dbSession) : Linked s := by
  obtain hw | hl := h.way
  · exact absurd hfd (hw.unlinked fd)
  · exact hl

theorem Inv.doRound (h : Inv s) (fd events : Nat) (cfg : Int) (sends : Bool) (reads : List Int) :
    Inv (doRound s now fd events cfg sends reads) := by
  simp only [DbSession.doRound]
  split
  · rename_i hdb
    have hl : Linked s := h.linked (Option.ite_none_right_eq_some.mp hdb).2
    split_ifs
    · exact h
    · exact h.handleConnect hl _ cfg sends
    · exact h.handleError hl
    · exact h.readLoop hl reads
    · exact h
  · exact h

/-- The timer that is pending is the first one, and connects the session. -/
theorem Inv.trigger {tickId nd : Nat} (h : Inv s) (hindex : s.tick.tree.index 0 = some tickId) :
    Inv (trigger s now tickId nd) := by
  obtain hw | hl := h.way
  · obtain ⟨⟨tickId', hid, hkeys, hfuns⟩, hnone⟩ := hw
    obtain rfl : tickId' = tickId := by
      simpa [TickTree.index, hkeys] using hindex
    obtain ⟨fs, hfs⟩ := Option.ne_none_iff_exists'.mp hfuns
    have hempty : (s.tick.tree.delete tickId').keys = [] := by
      simp [TickTree.delete, hkeys]
    have hwait := h.wait
    simp only [DbSession.trigger, SecTick.trigger, hfs, connectDb, hid]
    split
    · refine ⟨.inr ⟨rfl, hempty, nd, rfl, fun fd => ?_⟩, ?_, fun fd hfd => ?_⟩
      · by_cases heq : fd = nd
        · simp [regSession, heq]
        · simp [regSession, heq, hnone fd]
      · simp only [regSession, if_true]
        split <;> omega
      · by_cases heq : fd = nd
        · simp [regSession, heq]
        · simp only [regSession, Function.update_of_ne heq] at hfd ⊢
          exact Finset.mem_insert_of_mem (h.opened fd hfd)
    · apply inv_regTick
      · exact hempty
      · exact hnone
      · simp only
        split <;> omega
      · exact h.opened
  · have hnone : s.tick.tree.index 0 = none := by
      simp [TickTree.index, hl.keys]
    rw [hnone] at hindex
    cases hindex

/-- The other sessions do not matter. -/
theorem way_congr (h : Waiting s ∨ Linked s)
    (hsame : ∀ fd, t.sessions fd = some .dbSession ↔ s.sessions fd = some .dbSession)
    (hsession : t.session = s.session) (htick : t.tick = s.tick) : Waiting t ∨ Linked t := by
  obtain hw | hl := h
  · left
    refine ⟨?_, fun fd hdb => hw.unlinked fd ((hsame fd).mp hdb)⟩
    simp only [hsession, htick]
    exact hw.timer
  · right
    obtain ⟨fd, hfd, hiff⟩ := hl.handle
    refine ⟨?_, ?_, fd, ?_, fun fd' => (hsame fd').trans (hiff fd')⟩
    · rw [hsession]
      exact hl.tickId
    · rw [htick]
      exact hl.keys
    · rw [hsession]
      exact hfd

/-- A handle of another session is not that of the database session. -/
theorem Inv.accept {newfd : Nat} (h : Inv s) (hnew : newfd ∉ s.opened) :
    Inv (regSession { s with opened := insert newfd s.opened } newfd .other) := by
  have hsame : ∀ fd, (regSession { s with opened := insert newfd s.opened } newfd .other).sessions
      fd = some .dbSession ↔ s.sessions fd = some .dbSession := by
    intro fd
    by_cases heq : fd = newfd
    · have hfree : s.sessions newfd = none := by
        by_contra hne
        exact hnew (h.opened newfd hne)
      simp [regSession, heq, hfree]
    · simp [regSession, heq]
  refine ⟨way_congr h.way hsame rfl rfl, h.wait, fun fd hfd => ?_⟩
  by_cases heq : fd = newfd
  · simp [regSession, heq]
  · simp only [regSession, Function.update_of_ne heq] at hfd ⊢
    exact Finset.mem_insert_of_mem (h.opened fd hfd)

theorem Inv.close (h : Inv s) (hfd : s.sessions fd = some .other) : Inv (delSession s fd) := by
  have hsame : ∀ fd', (delSession s fd).sessions fd' = some .dbSession ↔
      s.sessions fd' = some .dbSession := by
    intro fd'
    by_cases heq : fd' = fd
    · simp [delSession, heq, hfd]
    · simp [delSession, heq]
  exact ⟨way_congr h.way hsame rfl rfl, h.wait, opened_delSession h.opened fd⟩

theorem Inv.step {a : Action} (h : Inv s) (hstep : step s a = some t) : Inv t := by
  cases a with
  | timer now nd =>
      simp only [DbSession.step, Option.ite_none_left_eq_some, Option.map_eq_some_iff] at hstep
      obtain ⟨-, tickId, hindex, rfl⟩ := hstep
      exact h.trigger hindex
  | event now fd events cfg sends reads =>
      obtain rfl := Option.some.inj hstep
      exact h.doRound fd events cfg sends reads
  | accept newfd =>
      simp only [DbSession.step, Option.ite_none_left_eq_some, Option.some.injEq] at hstep
      obtain ⟨hnew, rfl⟩ := hstep
      exact h.accept fun hopen => hnew (.inr hopen)
  | close fd =>
      simp only [DbSession.step, Option.ite_none_right_eq_some, Option.some.injEq] at hstep
      obtain ⟨hfd, rfl⟩ := hstep
      exact h.close hfd

theorem inv_of_reachable (h : dbSession.Reachable s) : Inv s := by
  apply h.invariant
  · rintro s ⟨w, now, rfl, hkeys, -, hnone, hopened⟩
    exact inv_regTick hkeys hnone (by decide : 1 ≤ 1 ∧ 1 ≤ 30) hopened
  · exact fun s t a hs hstep => hs.step hstep

end DbSession

/-- In every state the session has exactly one way forward. -/
theorem dbSession_oneWay {s : DbSession.State} (h : dbSession.Reachable s) : OneWay s :=
  (inv_of_reachable h).oneWay

/-- The logic server after `net_listen`. -/
def DbSession.listening : DbSession.State where
  tick := { tree := ⟨[], .nil⟩, funs := fun _ => none, fresh := 0 }
  sessions := fun fd => if fd = 1 then some .other else none
  count := 1
  opened := {1}
  session := { fd := none, tickId := none, waitSec := 0 }
  dbMsgCount := 0

/-- Connecting fails, then succeeds, but the connection is refused; the next one is set up and
breaks while a client comes in. -/
theorem dbSession_oneWay_breaks : ∃ s, dbSession.run (connectMainDb listening 0)
      [.timer 1 0, .timer 3 7, .event 3 7 (eveConnect ||| eveError) 0 true [],
        .timer 6 8, .event 7 8 eveConnect 0 true [], .accept 9, .event 8 8 eveRead 0 true [5, -1]]
      = some s ∧ s.sessions 8 = none ∧ s.sessions 9 = some .other ∧ OneWay s := by
  have hany : (dbSession.run (connectMainDb listening 0)
      [.timer 1 0, .timer 3 7, .event 3 7 (eveConnect ||| eveError) 0 true [],
        .timer 6 8, .event 7 8 eveConnect 0 true [], .accept 9,
        .event 8 8 eveRead 0 true [5, -1]]).any
      (fun s => s.sessions 8 = none ∧ s.sessions 9 = some .other) = true := by
    decide +kernel
  obtain ⟨s, hrun, hs⟩ := (Option.any_eq_true _ _).mp hany
  obtain ⟨hgone, hclient⟩ := of_decide_eq_true hs
  have hinit : dbSession.Init (connectMainDb listening 0) := by
    refine ⟨listening, 0, rfl, rfl, fun _ => rfl, fun fd => ?_, fun fd hfd => ?_⟩
    · simp only [listening]
      split <;> simp
    · simp only [listening, ne_eq, ite_eq_right_iff, reduceCtorEq, imp_false, not_not] at hfd
      simp [listening, hfd]
  exact ⟨s, hrun, hgone, hclient, dbSession_oneWay (.run (.init hinit) hrun)⟩

end RandServer
