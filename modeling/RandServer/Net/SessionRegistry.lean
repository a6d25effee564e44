import RandServer.Net.NetService

/-!
# The session registry under interleaving

Threads add sessions (`add_net_session`) and close handles (`net_socket_close`). Each of
the two consists of two critical sections under different locks, so between them an id is
live whose session is not installed, or no longer installed. A thread in between is
`pendingInstall` or `pendingRelease`. The critical sections of all threads interleave in
any order.

The allocator does not check what is given back to it. It relies on every live id having
at most one owner: the thread that is about to install its session, the session, or the
thread that is about to release it.
-/

namespace RandServer

/-- Where a thread is between its two critical sections. -/
inductive RegistryThread
  | idle
  | pendingInstall (id index : Nat) (session : NetSession)
  | pendingRelease (nd : Nat)

/-- The service, the threads, and how often each id has been issued and deleted. -/
structure Registry where
  service : NetService
  threads : Nat → RegistryThread
  issued : Nat → Nat
  deleted : Nat → Nat

namespace Registry

/-- The service with every thread idle. -/
def ofService (service : NetService) : Registry :=
  { service := service, threads := fun _ => .idle, issued := fun _ => 0, deleted := fun _ => 0 }

inductive Action
  | newId (t : Nat) (session : NetSession)
  | install (t : Nat)
  | clear (t nd : Nat) (sendRest : Bool) (sys : Syscalls)
  | release (t : Nat)

def setThread (s : Registry) (t : Nat) (thread : RegistryThread) : Registry :=
  { s with threads := Function.update s.threads t thread }

def step (s : Registry) : Action → Option Registry
  | .newId t session =>
      match s.threads t with
      | .idle =>
          let (id, index, service) := addNetSessionId s.service
          let s := { s with service := service }
          if id = 0 then some s
          else some { s.setThread t (.pendingInstall id index session) with
            issued := Function.update s.issued id (s.issued id + 1) }
      | _ => none
  | .install t =>
      match s.threads t with
      | .pendingInstall id index session =>
          some { s.setThread t .idle with
            service := addNetSessionInstall s.service index id session }
      | _ => none
  | .clear t nd sendRest sys =>
      match s.threads t with
      | .idle =>
          if nd = 0 then some s
          else (netSocketCloseClear s.service nd sendRest sys).map fun (found, service) =>
            { s.setThread t (if found then .pendingRelease nd else .idle) with service := service }
      | _ => none
  | .release t =>
      match s.threads t with
      | .pendingRelease nd =>
          some { s.setThread t .idle with
            service := netSocketCloseRelease s.service nd
            deleted := Function.update s.deleted nd (s.deleted nd + 1) }
      | _ => none

/-- The owner of a slot. -/
inductive Owner
  | install (t : Nat)
  | session
  | release (t : Nat)

/-- `o` owns the slot `i` with the id `id`. -/
def Owns (s : Registry) (i id : Nat) : Owner → Prop
  | .install t => ∃ session, s.threads t = .pendingInstall id i session
  | .session => ∃ session, s.service.sessions i = some session ∧ session.id = id
  | .release t => s.threads t = .pendingRelease id ∧ ffidIndex s.service.socketIds id = i

/-- What the protocol guarantees in a state. -/
structure Safe (s : Registry) : Prop where
  installed_live : ∀ i session, s.service.sessions i = some session →
    s.service.socketIds.Live session.id ∧ ffidIndex s.service.socketIds session.id = i
  install_empty : ∀ t id index session, s.threads t = .pendingInstall id index session →
    s.service.sessions index = none
  one_owner : ∀ i id id' o o', s.Owns i id o → s.Owns i id' o' → o = o'
  delete_live : ∀ t nd, s.threads t = .pendingRelease nd → s.service.socketIds.Live nd
  delete_once : ∀ id, id < 2 ^ 32 →
    s.issued id = s.deleted id + if s.service.socketIds.Live id then 1 else 0

@[simp] theorem setThread_service (s : Registry) (t : Nat) (thread : RegistryThread) :
    (s.setThread t thread).service = s.service := rfl

@[simp] theorem setThread_issued (s : Registry) (t : Nat) (thread : RegistryThread) :
    (s.setThread t thread).issued = s.issued := rfl

@[simp] theorem setThread_deleted (s : Registry) (t : Nat) (thread : RegistryThread) :
    (s.setThread t thread).deleted = s.deleted := rfl

@[simp] theorem setThread_self (s : Registry) (t : Nat) (thread : RegistryThread) :
    (s.setThread t thread).threads t = thread := Function.update_self ..

theorem setThread_of_ne (s : Registry) {t t' : Nat} (thread : RegistryThread) (h : t' ≠ t) :
    (s.setThread t thread).threads t' = s.threads t' := Function.update_of_ne h ..

theorem setThread_same {s : Registry} {t : Nat} {thread : RegistryThread}
    (h : s.threads t = thread) : s.setThread t thread = s := by
  rw [setThread, ← h, Function.update_eq_self]

end Registry

/-- A new service of `size` slots, with every thread idle. -/
def registry : Machine Registry Registry.Action where
  Init s := ∃ size mem, 1 ≤ size ∧ size ≤ 65535 ∧ s = .ofService (netCreate size mem)
  step := Registry.step

namespace Registry

/-- The invariant, for an allocator of `n` slots with the free ids `free`. -/
structure Inv (n : Nat) (free : List Nat) (s : Registry) : Prop where
  rep : Ffid.Rep n s.service.socketIds free
  owned : ∀ i id o, s.Owns i id o →
    i < n ∧ i ∉ free.map (· % n) ∧ s.service.socketIds.ts i + 1 = id
  one_owner : ∀ i id id' o o', s.Owns i id o → s.Owns i id' o' → o = o'
  counts : ∀ id < 2 ^ 32,
    s.issued id = s.deleted id + if s.service.socketIds.Live id then 1 else 0

namespace Inv

variable {n : Nat} {free : List Nat} {s s' : Registry}

theorem owner_live (h : Inv n free s) {i id : Nat} {o : Owner} (ho : s.Owns i id o) :
    id < 2 ^ 32 ∧ s.service.socketIds.Live id ∧ ffidIndex s.service.socketIds id = i := by
  obtain ⟨hi, hnot, rfl⟩ := h.owned i id o ho
  exact h.rep.slot_live hi hnot

theorem safe (h : Inv n free s) : s.Safe where
  installed_live := fun i session hslot =>
    (h.owner_live (o := .session) ⟨session, hslot, rfl⟩).2
  install_empty := by
    intro t id index session ht
    cases hslot : s.service.sessions index with
    | none => rfl
    | some other =>
        have := h.one_owner index id other.id (.install t) .session ⟨session, ht⟩
          ⟨other, hslot, rfl⟩
        cases this
  one_owner := h.one_owner
  delete_live := fun t nd ht => (h.owner_live (o := .release t) ⟨ht, rfl⟩).2.1
  delete_once := h.counts

/-- A slot passes from one owner to another, and its id stays live. -/
theorem pass (h : Inv n free s) {j id₀ : Nat} {a b : Owner} (hfrom : s.Owns j id₀ a)
    (hids : s'.service.socketIds = s.service.socketIds)
    (hissued : s'.issued = s.issued) (hdeleted : s'.deleted = s.deleted)
    (howns : ∀ i id o, s'.Owns i id o →
      i = j ∧ id = id₀ ∧ o = b ∨ s.Owns i id o ∧ (i = j → o ≠ a)) : Inv n free s' := by
  have hother : ∀ i id o, s.Owns i id o → (i = j → o ≠ a) → i ≠ j := by
    rintro i id o ho hne rfl
    exact hne rfl (h.one_owner _ _ _ _ _ ho hfrom)
  refine ⟨by rw [hids]; exact h.rep, ?_, ?_, by rw [hids, hissued, hdeleted]; exact h.counts⟩
  · intro i id o ho
    rw [hids]
    rcases howns i id o ho with ⟨rfl, rfl, -⟩ | ⟨hold, -⟩
    · exact h.owned _ _ _ hfrom
    · exact h.owned _ _ _ hold
  · intro i id id' o o' ho ho'
    rcases howns i id o ho with ⟨rfl, -, rfl⟩ | ⟨hold, hne⟩
    · rcases howns _ _ _ ho' with ⟨-, -, rfl⟩ | ⟨hold', hne'⟩
      · rfl
      · exact absurd rfl (hother _ _ _ hold' hne')
    · rcases howns _ _ _ ho' with ⟨rfl, -, -⟩ | ⟨hold', -⟩
      · exact absurd rfl (hother _ _ _ hold hne)
      · exact h.one_owner _ _ _ _ _ hold hold'

theorem init {size : Nat} {mem : Memory UInt8} (hpos : 1 ≤ size) (hle : size ≤ 65535) :
    Inv size (List.range size) (ofService (netCreate size mem)) := by
  have hrep : Ffid.Rep size (netCreate size mem).socketIds (List.range size) := by
    rw [netCreate, u16_of_lt (Nat.lt_succ_of_le hle)]
    exact Ffid.create_rep hpos (Nat.lt_succ_of_le hle)
  have hnone : ∀ i id o, ¬ (ofService (netCreate size mem)).Owns i id o := by
    rintro i id (t | _ | t)
    · rintro ⟨session, ht⟩
      cases ht
    · rintro ⟨session, hslot, -⟩
      cases hslot
    · rintro ⟨ht, -⟩
      cases ht
  refine ⟨hrep, fun i id o ho => absurd ho (hnone i id o),
    fun i id _ o _ ho => absurd ho (hnone i id o), fun id hid => ?_⟩
  have hdead : ¬ (netCreate size mem).socketIds.Live id := by
    intro hlive
    refine ((hrep.live_iff hid).mp hlive).2.1 (List.mem_map.mpr ⟨(id - 1) % size, ?_, ?_⟩)
    · exact List.mem_range.mpr (Nat.mod_lt _ hpos)
    · exact Nat.mod_mod ..
  show 0 = 0 + if (netCreate size mem).socketIds.Live id then 1 else 0
  rw [if_neg hdead]

/-- The first critical section of `add_net_session`. -/
theorem newId (h : Inv n free s) {t : Nat} {session : NetSession}
    (ht : s.step (.newId t session) = some s') : ∃ free', Inv n free' s' := by
  unfold step at ht
  cases hidle : s.threads t with
  | pendingInstall id index session => simp [hidle] at ht
  | pendingRelease nd => simp [hidle] at ht
  | idle =>
      cases free with
      | nil =>
          simp only [hidle, addNetSessionId, h.rep.newId_nil, if_true, Option.some.injEq] at ht
          rw [← ht]
          exact ⟨[], h⟩
      | cons x free =>
          obtain ⟨ff, hff, hts, hrep⟩ := h.rep.newId_cons
          obtain ⟨hfresh, hlive⟩ := h.rep.newId_live hrep hts
          simp only [hidle, addNetSessionId, hff, Nat.succ_ne_zero, if_false,
            Option.some.injEq] at ht
          have hindex : ∀ id, ffidIndex ff id = ffidIndex s.service.socketIds id :=
            ffidIndex_congr (hrep.maxSize.trans h.rep.maxSize.symm)
          have hnodup := h.rep.nodup
          rw [List.map_cons, List.nodup_cons] at hnodup
          -- the new owner, or an old owner of another slot
          have howns : ∀ i id o, s'.Owns i id o →
              i = x % n ∧ id = x + 1 ∧ o = .install t ∨ s.Owns i id o := by
            rw [← ht]
            rintro i id (t' | _ | t') ho
            · obtain ⟨session', ho⟩ := ho
              by_cases heq : t' = t
              · subst heq
                simp only [setThread_self, RegistryThread.pendingInstall.injEq] at ho
                exact .inl ⟨ho.2.1.symm, ho.1.symm, rfl⟩
              · simp only [setThread_of_ne _ _ heq] at ho
                exact .inr ⟨session', ho⟩
            · exact .inr ho
            · obtain ⟨ho, hslot⟩ := ho
              by_cases heq : t' = t
              · subst heq
                simp only [setThread_self] at ho
                cases ho
              · simp only [setThread_of_ne _ _ heq] at ho
                exact .inr ⟨ho, (hindex id).symm.trans hslot⟩
          have hold : ∀ i id o, s.Owns i id o → i ≠ x % n := by
            rintro i id o ho rfl
            exact (h.owned _ _ _ ho).2.1 (List.mem_cons_self ..)
          have hids : s'.service.socketIds = ff := by rw [← ht]; rfl
          refine ⟨free, by rw [hids]; exact hrep, ?_, ?_, ?_⟩
          · intro i id o ho
            rw [hids, hts]
            rcases howns i id o ho with ⟨rfl, rfl, -⟩ | ho
            · exact ⟨Nat.mod_lt _ h.rep.n_pos, hnodup.1, by rw [Function.update_self]⟩
            · obtain ⟨hi, hnot, hcell⟩ := h.owned i id o ho
              rw [Function.update_of_ne (hold i id o ho)]
              exact ⟨hi, fun hin => hnot (List.mem_cons_of_mem _ hin), hcell⟩
          · intro i id id' o o' ho ho'
            rcases howns i id o ho with ⟨rfl, -, rfl⟩ | ho
            · rcases howns _ _ _ ho' with ⟨-, -, rfl⟩ | ho'
              · rfl
              · exact absurd rfl (hold _ _ _ ho')
            · rcases howns _ _ _ ho' with ⟨rfl, -, -⟩ | ho'
              · exact absurd rfl (hold _ _ _ ho)
              · exact h.one_owner _ _ _ _ _ ho ho'
          · intro id hid
            have hcount := h.counts id hid
            rw [hids, if_congr (hlive id hid) rfl rfl, ← ht]
            by_cases heq : id = x + 1
            · subst heq
              rw [if_neg hfresh] at hcount
              simp only [Function.update_self, setThread_deleted, true_or, if_true]
              rw [hcount]
            · simp only [Function.update_of_ne heq, setThread_deleted, heq, false_or]
              exact hcount

/-- The second critical section of `add_net_session`. -/
theorem install (h : Inv n free s) {t : Nat} (ht : s.step (.install t) = some s') :
    Inv n free s' := by
  unfold step at ht
  cases hpending : s.threads t with
  | idle => simp [hpending] at ht
  | pendingRelease nd => simp [hpending] at ht
  | pendingInstall id₀ index session =>
      simp only [hpending, Option.some.injEq] at ht
      have hfrom : s.Owns index id₀ (.install t) := ⟨session, hpending⟩
      rw [← ht]
      refine h.pass (b := .session) hfrom rfl rfl rfl ?_
      rintro i id (t' | _ | t') ho
      · obtain ⟨session', ho⟩ := ho
        by_cases heq : t' = t
        · subst heq
          simp only [setThread_self] at ho
          cases ho
        · simp only [setThread_of_ne _ _ heq] at ho
          exact .inr ⟨⟨session', ho⟩, fun _ hown => heq (Owner.install.inj hown)⟩
      · obtain ⟨session', hslot, rfl⟩ := ho
        by_cases heq : i = index
        · subst heq
          simp only [addNetSessionInstall, NetService.setSession_self, Option.some.injEq] at hslot
          exact .inl ⟨rfl, by rw [← hslot], rfl⟩
        · simp only [addNetSessionInstall, NetService.setSession_of_ne heq] at hslot
          exact .inr ⟨⟨session', hslot, rfl⟩, fun hi => absurd hi heq⟩
      · obtain ⟨ho, hslot⟩ := ho
        by_cases heq : t' = t
        · subst heq
          simp only [setThread_self] at ho
          cases ho
        · simp only [setThread_of_ne _ _ heq] at ho
          exact .inr ⟨⟨ho, hslot⟩, fun _ hown => by cases hown⟩

/-- The first critical section of `net_socket_close`. -/
theorem clear (h : Inv n free s) {t nd : Nat} {sendRest : Bool} {sys : Syscalls}
    (ht : s.step (.clear t nd sendRest sys) = some s') : Inv n free s' := by
  unfold step at ht
  cases hidle : s.threads t with
  | pendingInstall id index session => simp [hidle] at ht
  | pendingRelease nd => simp [hidle] at ht
  | idle =>
      simp only [hidle] at ht
      by_cases hzero : nd = 0
      · rw [if_pos hzero, Option.some.injEq] at ht
        rw [← ht]
        exact h
      · rw [if_neg hzero] at ht
        obtain ⟨⟨found, v⟩, hclear, ht⟩ := Option.map_eq_some_iff.mp ht
        rw [← ht]
        rcases netSocketCloseClear_spec hclear with ⟨rfl, rfl⟩ |
          ⟨rfl, session, u, hslot, hid, hu, hv⟩
        · simp only [Bool.false_eq_true, if_false, setThread_same hidle]
          exact h
        · have hids : v.socketIds = s.service.socketIds := by
            rw [hv.socketIds, NetService.setSession_socketIds, hu.socketIds]
          have hsessions : v.sessions =
              Function.update s.service.sessions (ffidIndex s.service.socketIds nd) none := by
            rw [hv.sessions, NetService.setSession, hu.sessions]
          have hfrom : s.Owns (ffidIndex s.service.socketIds nd) nd .session :=
            ⟨session, hslot, hid⟩
          refine h.pass (b := .release t) hfrom hids rfl rfl ?_
          rintro i id (t' | _ | t') ho
          · obtain ⟨session', ho⟩ := ho
            by_cases heq : t' = t
            · subst heq
              simp only [if_true, setThread_self] at ho
              cases ho
            · simp only [setThread_of_ne _ _ heq] at ho
              exact .inr ⟨⟨session', ho⟩, fun _ hown => by cases hown⟩
          · obtain ⟨session', hslot', rfl⟩ := ho
            simp only [hsessions] at hslot'
            by_cases heq : i = ffidIndex s.service.socketIds nd
            · rw [heq, Function.update_self] at hslot'
              cases hslot'
            · rw [Function.update_of_ne heq] at hslot'
              exact .inr ⟨⟨session', hslot', rfl⟩, fun hi => absurd hi heq⟩
          · obtain ⟨ho, hslot'⟩ := ho
            simp only [hids] at hslot'
            by_cases heq : t' = t
            · subst heq
              simp only [if_true, setThread_self, RegistryThread.pendingRelease.injEq] at ho
              subst ho
              exact .inl ⟨hslot'.symm, rfl, rfl⟩
            · simp only [setThread_of_ne _ _ heq] at ho
              exact .inr ⟨⟨ho, hslot'⟩, fun _ hown => by cases hown⟩

/-- The second critical section of `net_socket_close`. -/
theorem release (h : Inv n free s) {t : Nat} (ht : s.step (.release t) = some s') :
    ∃ free', Inv n free' s' := by
  unfold step at ht
  cases hpending : s.threads t with
  | idle => simp [hpending] at ht
  | pendingInstall id index session => simp [hpending] at ht
  | pendingRelease nd =>
      simp only [hpending, Option.some.injEq] at ht
      have hfrom : s.Owns (ffidIndex s.service.socketIds nd) nd (.release t) := ⟨hpending, rfl⟩
      obtain ⟨hnd, hndlive, -⟩ := h.owner_live hfrom
      obtain ⟨next, hnext, hrep, hkeep⟩ := h.rep.delId hnd hndlive
      have hlive := h.rep.delId_live hnd hndlive hnext hrep hkeep
      have hpos := ((h.rep.live_iff hnd).mp hndlive).1
      have hindex : ∀ id, ffidIndex (ffidDelId s.service.socketIds nd) id =
          ffidIndex s.service.socketIds id := ffidIndex_congr (ffidDelId_maxSize ..)
      have howns : ∀ i id o, s'.Owns i id o →
          s.Owns i id o ∧ i ∉ (free ++ [next]).map (· % n) := by
        intro i id o ho
        have hold : s.Owns i id o ∧ o ≠ .release t := by
          rw [← ht] at ho
          rcases o with t' | _ | t'
          · obtain ⟨session', ho⟩ := ho
            by_cases heq : t' = t
            · subst heq
              simp only [setThread_self] at ho
              cases ho
            · simp only [setThread_of_ne _ _ heq] at ho
              exact ⟨⟨session', ho⟩, fun hown => by cases hown⟩
          · exact ⟨ho, fun hown => by cases hown⟩
          · obtain ⟨ho, hslot⟩ := ho
            by_cases heq : t' = t
            · subst heq
              simp only [setThread_self] at ho
              cases ho
            · simp only [setThread_of_ne _ _ heq] at ho
              exact ⟨⟨ho, (hindex id).symm.trans hslot⟩, fun hown => heq (Owner.release.inj hown)⟩
        refine ⟨hold.1, ?_⟩
        rw [List.map_append, List.mem_append, List.map_singleton, List.mem_singleton, not_or]
        refine ⟨(h.owned i id o hold.1).2.1, fun hi => hold.2 ?_⟩
        rw [hnext, ← h.rep.ffidIndex_eq hpos hnd] at hi
        rw [hi] at hold
        exact h.one_owner _ _ _ _ _ hold.1 hfrom
      have hids : s'.service.socketIds = ffidDelId s.service.socketIds nd := by
        rw [← ht]
        rfl
      refine ⟨free ++ [next], by rw [hids]; exact hrep, ?_, ?_, ?_⟩
      · intro i id o ho
        obtain ⟨hold, hnot⟩ := howns i id o ho
        obtain ⟨hi, -, hcell⟩ := h.owned i id o hold
        rw [hids, hkeep i hnot]
        exact ⟨hi, hnot, hcell⟩
      · intro i id id' o o' ho ho'
        exact h.one_owner _ _ _ _ _ (howns _ _ _ ho).1 (howns _ _ _ ho').1
      · intro id hid
        have hcount := h.counts id hid
        have hissued : s'.issued = s.issued := by
          rw [← ht]
          rfl
        have hdeleted : s'.deleted = Function.update s.deleted nd (s.deleted nd + 1) := by
          rw [← ht]
        rw [hids, if_congr (hlive id hid) rfl rfl, hissued, hdeleted]
        by_cases heq : id = nd
        · subst heq
          rw [if_pos hndlive] at hcount
          rw [Function.update_self, if_neg (fun hstill => hstill.1 rfl), hcount, Nat.add_zero]
        · rw [Function.update_of_ne heq, hcount]
          simp only [ne_eq, heq, not_false_eq_true, true_and]

theorem step (h : Inv n free s) {a : Action} (ht : s.step a = some s') :
    ∃ free', Inv n free' s' := by
  cases a with
  | newId t session => exact h.newId ht
  | install t => exact ⟨free, h.install ht⟩
  | clear t nd sendRest sys => exact ⟨free, h.clear ht⟩
  | release t => exact h.release ht

end Inv

end Registry

theorem registry_safe {s : Registry} (h : registry.Reachable s) : s.Safe := by
  have hinv : ∃ n free, Registry.Inv n free s := by
    refine @Machine.Reachable.invariant _ _ _ _ (fun s => ∃ n free, Registry.Inv n free s) ?_ ?_ h
    · rintro s ⟨size, mem, hpos, hle, rfl⟩
      exact ⟨size, _, .init hpos hle⟩
    · rintro s s' a ⟨n, free, hs⟩ ht
      exact ⟨n, hs.step ht⟩
  obtain ⟨n, free, hinv⟩ := hinv
  exact hinv.safe

/-- Two threads open sessions, and then both close the handle of the first one. -/
def closedTwice : List Registry.Action :=
  [.newId 0 createNetSession, .newId 1 createNetSession, .install 1, .install 0,
    .clear 0 1 false {}, .clear 1 1 false {}, .release 0]

/-- Only one of the two threads deletes the id. -/
theorem registry_safe_closed_twice : ∃ mem s,
    registry.run (.ofService (netCreate 2 mem)) closedTwice = some s ∧
      s.issued 1 = 1 ∧ s.deleted 1 = 1 ∧ s.Safe := by
  let mem : Memory UInt8 :=
    { brk := 0
      fate := fun _ => some (fun _ => 0)
      freed := []
      pools := fun _ => buffPoolCreate 4 0 }
  obtain ⟨s, hrun, hissued, hdeleted⟩ : ∃ s,
      registry.run (.ofService (netCreate 2 mem)) closedTwice = some s ∧
        s.issued 1 = 1 ∧ s.deleted 1 = 1 := ⟨_, rfl, rfl, rfl⟩
  exact ⟨mem, s, hrun, hissued, hdeleted,
    registry_safe (.run (.init ⟨2, mem, by decide, by decide, rfl⟩) hrun)⟩

end RandServer
