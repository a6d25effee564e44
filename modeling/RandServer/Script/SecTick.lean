import Mathlib.Algebra.Group.Int.Defs
import Mathlib.Algebra.Group.Nat.Defs
import Mathlib.Data.List.Count
import Mathlib.Data.List.Sort
import RandServer.Lib.Machine

/-!
# Rounds of timers

`sec_tick.lua` over `lua_tick.c`. A timer is a key, whose upper half is its second, in a
sorted multiset, and a function in a table. `do_round` counts the due timers once and then
triggers the first timer that often. Callbacks register and cancel timers in between, so
the count is right only as long as they leave it enough due timers and put no new ones in
front of those that wait.
-/

namespace RandServer

/-! ## The tree -/

/-- The tree of timer keys as a sorted multiset. -/
structure TickTree where
  keys : List Nat
  sorted : keys.Pairwise (· ≤ ·)

namespace TickTree

def insert (t : TickTree) (key : Nat) : TickTree where
  keys := t.keys.orderedInsert (· ≤ ·) key
  sorted := t.sorted.orderedInsert key _

def delete (t : TickTree) (key : Nat) : TickTree where
  keys := t.keys.erase key
  sorted := t.sorted.sublist List.erase_sublist

/-- The number of keys below a key. -/
def lt (t : TickTree) (key : Nat) : Nat := t.keys.countP (· < key)

def index (t : TickTree) (i : Nat) : Option Nat := t.keys[i]?

variable {t : TickTree} {key k b : Nat}

/-- The last key below a bound is found by its index. -/
theorem index_lt_pred (hk : k ∈ t.keys) (hb : k < b) :
    0 < t.lt b ∧ ∃ last, t.index (t.lt b - 1) = some last ∧ k ≤ last ∧ last < b := by
  obtain ⟨keys, sorted⟩ := t
  simp only [lt, index] at hk ⊢
  refine ⟨List.countP_pos_iff.mpr ⟨k, hk, by simpa using hb⟩, ?_⟩
  induction keys generalizing k with
  | nil => simp at hk
  | cons a keys ih =>
      obtain ⟨hle, hsorted⟩ := List.pairwise_cons.mp sorted
      have hak : a ≤ k := by
        cases hk with
        | head => exact le_refl a
        | tail _ hk => exact hle k hk
      have hab : a < b := by omega
      by_cases hmore : ∃ k' ∈ keys, k' < b
      · -- the last key lies in the tail, and the count there is positive
        obtain ⟨k', hmem, hlt⟩ := hmore
        have hlast : ∃ last, keys[keys.countP (· < b) - 1]? = some last ∧ k ≤ last ∧
            last < b := by
          cases hk with
          | head =>
              obtain ⟨last, hat, hge, hlt⟩ := ih hlt hsorted hmem
              exact ⟨last, hat, by have := hle k' hmem; omega, hlt⟩
          | tail _ hk => exact ih hb hsorted hk
        have hpos : 0 < keys.countP (· < b) :=
          List.countP_pos_iff.mpr ⟨k', hmem, by simpa using hlt⟩
        obtain ⟨n, hn⟩ : ∃ n, keys.countP (· < b) = n + 1 :=
          Nat.exists_eq_succ_of_ne_zero (by omega)
        simpa [hab, hn] using hlast
      · have hnone : keys.countP (· < b) = 0 := by
          apply List.countP_eq_zero.mpr
          intro k' hmem hlt
          exact hmore ⟨k', hmem, by simpa using hlt⟩
        have hka : k = a := by
          cases hk with
          | head => rfl
          | tail _ hk => exact absurd ⟨k, hk, hb⟩ hmore
        exact ⟨a, by simp [hab, hnone], by omega, hab⟩

/-- The first key is the least one. -/
theorem index_zero_le (hindex : t.index 0 = some key) (hk : k ∈ t.keys) : key ≤ k := by
  obtain ⟨keys, sorted⟩ := t
  cases keys with
  | nil => cases hk
  | cons a keys =>
      obtain rfl : a = key := by simpa [index] using hindex
      cases hk with
      | head => exact Nat.le_refl _
      | tail _ hk => exact (List.pairwise_cons.mp sorted).1 k hk

theorem mem_of_index_zero (hindex : t.index 0 = some key) : key ∈ t.keys :=
  List.mem_of_getElem? hindex

theorem exists_index_zero (hk : k ∈ t.keys) : ∃ key, t.index 0 = some key := by
  have hlen : 0 < t.keys.length := List.length_pos_of_mem hk
  exact ⟨t.keys[0], List.getElem?_eq_getElem hlen⟩

@[simp] theorem mem_insert : k ∈ (t.insert key).keys ↔ k = key ∨ k ∈ t.keys :=
  List.mem_orderedInsert (· ≤ ·)

theorem countP_insert (p : Nat → Bool) :
    (t.insert key).keys.countP p = t.keys.countP p + if p key then 1 else 0 := by
  have hperm : ((t.insert key).keys).Perm (key :: t.keys) := List.perm_orderedInsert (· ≤ ·) key _
  simpa [List.countP_cons] using hperm.countP_eq p

theorem countP_delete (p : Nat → Bool) :
    (t.delete key).keys.countP p =
      t.keys.countP p - if key ∈ t.keys ∧ p key then 1 else 0 :=
  List.countP_erase p t.keys key

/-- There are fewer keys below one than keys of a kind that it and they are of. -/
theorem lt_lt_countP {p : Nat → Bool} (hk : k ∈ t.keys) (hp : p k)
    (hbelow : ∀ k' < k, p k') : t.lt k < t.keys.countP p := by
  have hperm := List.perm_cons_erase hk
  have hlt : t.lt k = (t.keys.erase k).countP (· < k) := by
    simpa [lt, List.countP_cons] using hperm.countP_eq (· < k)
  have hcount : t.keys.countP p = (t.keys.erase k).countP p + 1 := by
    simpa [List.countP_cons, hp] using hperm.countP_eq p
  have hle : (t.keys.erase k).countP (· < k) ≤ (t.keys.erase k).countP p := by
    apply List.countP_mono_left
    intro k' _ hlt
    exact hbelow k' (by simpa using hlt)
  omega

end TickTree

/-- A second, converted to `sb_tree_key` and shifted to the upper half. -/
def tickKey (seconds : Int) : Nat := (seconds * 2 ^ 32 % 2 ^ 64).toNat

/-- `lua_tick_reg`: the id of the new timer. The seconds are cast to `int`. -/
def luaTickReg (t : TickTree) (seconds : Int) : Nat × TickTree :=
  let seconds := seconds.bmod (2 ^ 32)
  let key := tickKey seconds
  let nextkey := tickKey (seconds + 1)
  let index := t.lt nextkey
  let key :=
    match if 0 < index then t.index (index - 1) else none with
    | some last => if key ≤ last then (last + 1) % 2 ^ 64 else key
    | none => key
  (key, t.insert key)

/-- `lua_tick_lt`. -/
def luaTickLt (t : TickTree) (seconds : Int) : Nat := t.lt (tickKey seconds)

/-- The second of a timer that is registered for `seconds`. -/
def tickSecond (seconds : Int) : Nat := (seconds % 2 ^ 32).toNat

theorem tickKey_eq (seconds : Int) : tickKey seconds = tickSecond seconds * 2 ^ 32 := by
  simp only [tickKey, tickSecond]
  omega

@[simp] theorem tickSecond_bmod (seconds : Int) :
    tickSecond (seconds.bmod (2 ^ 32)) = tickSecond seconds := by
  exact congrArg Int.toNat (Int.bmod_emod (x := seconds) (m := 2 ^ 32))

theorem tickSecond_natCast {now : Nat} (hnow : now < 2 ^ 32) : tickSecond now = now := by
  simp only [tickSecond]
  omega

theorem tickSecond_succ (seconds : Int) :
    tickSecond (seconds + 1) = tickSecond seconds + 1 ∨
      tickSecond seconds = 2 ^ 32 - 1 ∧ tickSecond (seconds + 1) = 0 := by
  simp only [tickSecond]
  omega

theorem luaTickReg_keys (t : TickTree) (seconds : Int) :
    (luaTickReg t seconds).2 = t.insert (luaTickReg t seconds).1 := rfl

theorem tickSecond_lt (seconds : Int) : tickSecond seconds < 2 ^ 32 := by
  simp only [tickSecond]
  omega

/-- A new timer stands behind the timers of its second and of those before it. The second
behind the last one is the first. -/
theorem lt_luaTickReg {t : TickTree} {k : Nat} {seconds : Int} (hk : k ∈ t.keys)
    (hsecond : k / 2 ^ 32 ≤ tickSecond seconds) (hlast : k / 2 ^ 32 + 1 < 2 ^ 32) :
    k < (luaTickReg t seconds).1 := by
  have hkey : tickKey (seconds.bmod (2 ^ 32)) = tickSecond seconds * 2 ^ 32 := by
    rw [tickKey_eq, tickSecond_bmod]
  simp only [luaTickReg, hkey]
  cases tickSecond_succ (seconds.bmod (2 ^ 32)) with
  | inl hsucc =>
      have hsmall := tickSecond_lt (seconds.bmod (2 ^ 32) + 1)
      rw [hsucc, tickSecond_bmod] at hsmall
      have hnext : tickKey (seconds.bmod (2 ^ 32) + 1) = (tickSecond seconds + 1) * 2 ^ 32 := by
        rw [tickKey_eq, hsucc, tickSecond_bmod]
      have hbound : k < (tickSecond seconds + 1) * 2 ^ 32 := by omega
      obtain ⟨hpos, last, hat, hge, hlt⟩ := TickTree.index_lt_pred hk hbound
      simp only [hnext, if_pos hpos, hat]
      split
      · -- the id after the last one does not wrap
        rw [Nat.mod_eq_of_lt (by omega)]
        exact Nat.lt_succ_of_le hge
      · exact Nat.lt_of_le_of_lt hge (Nat.lt_of_not_le ‹_›)
  | inr hwrap =>
      have hnext : tickKey (seconds.bmod (2 ^ 32) + 1) = 0 :=
        (tickKey_eq _).trans ((congrArg (· * 2 ^ 32) hwrap.2).trans (Nat.zero_mul _))
      have hnone : ¬ 0 < t.lt 0 := by
        simp [TickTree.lt]
      have hmax : tickSecond seconds = 2 ^ 32 - 1 := by
        rw [← tickSecond_bmod]
        exact hwrap.1
      simp only [hnext, if_neg hnone, hmax]
      exact (Nat.div_lt_iff_lt_mul (by decide)).mp (Nat.lt_sub_of_add_lt hlast)

/-! ## Timers -/

/-- The timers of `sec_tick`. A function stands for the call that `m.reg` packs, and no
two calls of `m.reg` pack the same one. -/
structure SecTick where
  tree : TickTree
  funs : Nat → Option Nat
  fresh : Nat

namespace SecTick

/-- `m.reg`, given the sum of the clock and the delay. -/
def reg (s : SecTick) (seconds : Int) : SecTick :=
  let (tickId, tree) := luaTickReg s.tree seconds
  { tree := tree, funs := Function.update s.funs tickId (some s.fresh), fresh := s.fresh + 1 }

/-- `m.unreg`. -/
def unreg (s : SecTick) (tickId : Nat) : SecTick :=
  { s with tree := s.tree.delete tickId, funs := Function.update s.funs tickId none }

/-- `m.trigger` up to the call: the function to be called, if there is one. -/
def trigger (s : SecTick) (tickId : Nat) : Option Nat × SecTick :=
  let s := { s with tree := s.tree.delete tickId }
  match s.funs tickId with
  | none => (none, s)
  | some fs => (some fs, { s with funs := Function.update s.funs tickId none })

end SecTick

/-! ## A round -/

inductive RoundPhase
  | idle
  | loop
  | callback
  | perSecond
  | done
  | raised
  deriving DecidableEq

/-- `do_round`. Beside its variables stand the timers that were due at its start, those
that have been run, and those due ones that have been cancelled. -/
structure Round where
  tick : SecTick
  phase : RoundPhase
  now : Nat
  index : Nat
  due : List (Nat × Nat)
  ran : List (Nat × Nat)
  gone : List (Nat × Nat)

namespace Round

/-- A callback registers and cancels timers until it returns, or raises an error, which
`try_catch` turns into a return. So do the functions of `deriver_per_second`. -/
inductive Action
  | start (now : Nat)
  | turn
  | reg (seconds : Int)
  | unreg (tickId : Nat)
  | ret

def start (s : Round) (now : Nat) : Round :=
  { s with
    phase := .loop
    now := now
    index := luaTickLt s.tick.tree (now + 1)
    due := (s.tick.tree.keys.filter (· / 2 ^ 32 ≤ now)).map fun key =>
      (key, (s.tick.funs key).getD 0) }

/-- One turn of the loop. Without a timer `tick.index` returns nothing, and `tick.unreg`
raises an error. -/
def turn (s : Round) : Round :=
  if s.index = 0 then { s with phase := .perSecond }
  else
    match s.tick.tree.index 0 with
    | none => { s with index := s.index - 1, phase := .raised }
    | some tickId =>
        match s.tick.trigger tickId with
        | (none, tick) => { s with index := s.index - 1, tick := tick }
        | (some fs, tick) =>
            { s with
              index := s.index - 1
              tick := tick
              phase := .callback
              ran := s.ran ++ [(tickId, fs)] }

def unreg (s : Round) (tickId : Nat) : Round :=
  { s with
    tick := s.tick.unreg tickId
    gone := s.gone ++ s.due.filter fun e => e.1 = tickId ∧ s.tick.funs tickId = some e.2 }

/-- Whether functions that are called by the round are running. -/
def Calls (s : Round) : Prop := s.phase = .callback ∨ s.phase = .perSecond

instance (s : Round) : Decidable s.Calls := inferInstanceAs (Decidable (_ ∨ _))

end Round

def timerRound : Machine Round Round.Action where
  Init s := s.phase = .idle ∧ s.due = [] ∧ s.ran = [] ∧ s.gone = [] ∧ s.tick.tree.keys.Nodup ∧
    (∀ key, key ∈ s.tick.tree.keys ↔ s.tick.funs key ≠ none) ∧
    ∀ key fs, s.tick.funs key = some fs → fs < s.tick.fresh
  step s
    | .start now => if s.phase = .idle ∧ now < 2 ^ 32 then some (s.start now) else none
    | .turn => if s.phase = .loop then some s.turn else none
    | .reg seconds => if s.Calls then some { s with tick := s.tick.reg seconds } else none
    | .unreg tickId => if s.Calls then some (s.unreg tickId) else none
    | .ret =>
        if s.phase = .callback then some { s with phase := .loop }
        else if s.phase = .perSecond then some { s with phase := .done }
        else none

/-- The round runs exactly the due timers. -/
structure Round.Exact (s : Round) : Prop where
  completes : s.phase ≠ .raised ∧ s.ran.length ≤ s.due.length
  due_sorted : s.due.Pairwise fun e e' => e.1 < e'.1
  once : (s.ran.filter (· ∈ s.due)).Sublist s.due
  never_later : ∀ e ∈ s.ran, e.1 / 2 ^ 32 ≤ s.now
  all : s.phase = .perSecond ∨ s.phase = .done → ∀ e ∈ s.due, e ∈ s.ran ∨ e ∈ s.gone

/-- The number of due timers. -/
def Round.dueCount (s : Round) : Nat := s.tick.tree.keys.countP (· / 2 ^ 32 ≤ s.now)

/-- The condition on a step: the round does not start in the last second of the clock, a
callback registers no timer in a second before that of a due timer that waits, and cancels
a due timer only if more of them are left than turns. -/
def Round.Fits (s : Round) : Round.Action → Prop
  | .start now => now + 1 < 2 ^ 32
  | .reg seconds => s.phase = .callback →
      ∀ e ∈ s.due, s.tick.funs e.1 = some e.2 → e.1 / 2 ^ 32 ≤ tickSecond seconds
  | .unreg tickId => s.phase = .callback → tickId ∈ s.tick.tree.keys →
      tickId / 2 ^ 32 ≤ s.now → s.index < s.dueCount
  | _ => True

instance (s : Round) (a : Round.Action) : Decidable (s.Fits a) :=
  match a with
  | .start now => inferInstanceAs (Decidable (now + 1 < 2 ^ 32))
  | .reg seconds =>
      inferInstanceAs (Decidable (s.phase = .callback →
        ∀ e ∈ s.due, s.tick.funs e.1 = some e.2 → e.1 / 2 ^ 32 ≤ tickSecond seconds))
  | .unreg tickId =>
      inferInstanceAs (Decidable (s.phase = .callback → tickId ∈ s.tick.tree.keys →
        tickId / 2 ^ 32 ≤ s.now → s.index < s.dueCount))
  | .turn | .ret => inferInstanceAs (Decidable True)

/-! ## What a round keeps -/

namespace Round

/-- The due timers that have been neither run nor cancelled, in order. -/
def waiting (s : Round) : List (Nat × Nat) := s.due.filter fun e => s.tick.funs e.1 = some e.2

structure Core (s : Round) : Prop where
  clock : s.now + 1 < 2 ^ 32
  due_sorted : s.due.Pairwise fun e e' => e.1 < e'.1
  due_now : ∀ e ∈ s.due, e.1 / 2 ^ 32 ≤ s.now
  due_old : ∀ e ∈ s.due, e.2 < s.tick.fresh
  never_later : ∀ e ∈ s.ran, e.1 / 2 ^ 32 ≤ s.now
  order : (s.ran.filter (· ∈ s.due) ++ s.waiting).Sublist s.due
  fate : ∀ e ∈ s.due, e ∈ s.ran ∨ e ∈ s.gone ∨ e ∈ s.waiting
  bounded : s.ran.length + s.index ≤ s.due.length

/-- The turns that are left reach every timer that waits, and no timer that is not due. -/
structure Turns (s : Round) : Prop where
  enough : s.index ≤ s.dueCount
  listed : ∀ e ∈ s.waiting, e.1 ∈ s.tick.tree.keys
  reach : ∀ e ∈ s.waiting, s.tick.tree.lt e.1 < s.index

def Inv (s : Round) : Prop :=
  match s.phase with
  | .idle => timerRound.Init s
  | .loop | .callback => s.Core ∧ s.Turns
  | .perSecond | .done => s.Core ∧ s.waiting = []
  | .raised => False

variable {s : Round} {e : Nat × Nat} {now tickId fs : Nat} {seconds : Int}

theorem mem_waiting : e ∈ s.waiting ↔ e ∈ s.due ∧ s.tick.funs e.1 = some e.2 := by
  simp [waiting]

theorem inv_of_init (h : timerRound.Init s) : s.Inv := by
  simp only [Inv, h.1]
  exact h

theorem inv_loop_iff (h : s.phase = .loop ∨ s.phase = .callback) :
    s.Inv ↔ s.Core ∧ s.Turns := by
  obtain h | h := h <;> simp [Inv, h]

theorem inv_over_iff (h : s.phase = .perSecond ∨ s.phase = .done) :
    s.Inv ↔ s.Core ∧ s.waiting = [] := by
  obtain h | h := h <;> simp [Inv, h]

theorem Core.withPhase (h : s.Core) (phase : RoundPhase) : Core { s with phase := phase } :=
  ⟨h.clock, h.due_sorted, h.due_now, h.due_old, h.never_later, h.order, h.fate, h.bounded⟩

theorem Inv.exact (h : s.Inv) : s.Exact := by
  have ofCore : s.phase ≠ .raised → s.Core →
      (s.phase = .perSecond ∨ s.phase = .done → s.waiting = []) → s.Exact := by
    intro hphase hcore hover
    refine ⟨⟨hphase, ?_⟩, hcore.due_sorted, ?_, hcore.never_later, ?_⟩
    · have := hcore.bounded
      omega
    · exact (List.sublist_append_left _ _).trans hcore.order
    · intro hend e he
      have := hcore.fate e he
      simpa [hover hend] using this
  cases hphase : s.phase with
  | idle =>
      simp only [Inv, hphase] at h
      obtain ⟨_, hdue, hran, _⟩ := h
      constructor <;> simp [hphase, hdue, hran]
  | loop | callback =>
      simp only [Inv, hphase] at h
      exact ofCore (by simp [hphase]) h.1 (by simp [hphase])
  | perSecond | done =>
      simp only [Inv, hphase] at h
      exact ofCore (by simp [hphase]) h.1 (fun _ => h.2)
  | raised =>
      simp only [Inv, hphase] at h

/-! ### The start -/

theorem lt_tickKey_iff {k : Nat} (hnow : now + 1 < 2 ^ 32) :
    k < tickKey (now + 1) ↔ k / 2 ^ 32 ≤ now := by
  have hsecond : tickSecond ((now + 1 : Nat) : Int) = now + 1 := tickSecond_natCast hnow
  have hkey : tickKey (now + 1) = (now + 1) * 2 ^ 32 := by
    rw [tickKey_eq]
    exact congrArg (· * 2 ^ 32) hsecond
  rw [hkey, ← Nat.div_lt_iff_lt_mul (by decide), Nat.lt_succ_iff]

theorem start_inv (h : timerRound.Init s) (hnow : now + 1 < 2 ^ 32) : (s.start now).Inv := by
  obtain ⟨-, -, hran, hgone, hnodup, hfuns, hfresh⟩ := h
  have hindex : (s.start now).index = s.tick.tree.keys.countP (· / 2 ^ 32 ≤ now) := by
    apply List.countP_congr
    intro k _
    simpa using lt_tickKey_iff hnow
  have hmem : ∀ e ∈ (s.start now).due, e.1 ∈ s.tick.tree.keys ∧ e.1 / 2 ^ 32 ≤ now ∧
      s.tick.funs e.1 = some e.2 := by
    intro e he
    simp only [start, List.mem_map, List.mem_filter, decide_eq_true_eq] at he
    obtain ⟨key, ⟨hkey, hle⟩, rfl⟩ := he
    obtain ⟨fs, hfs⟩ := Option.ne_none_iff_exists'.mp ((hfuns key).mp hkey)
    exact ⟨hkey, hle, by simp [hfs]⟩
  have hwaiting : (s.start now).waiting = (s.start now).due :=
    List.filter_eq_self.mpr fun e he => decide_eq_true (hmem e he).2.2
  have hran : (s.start now).ran = [] := hran
  have hsorted : s.tick.tree.keys.Pairwise (· < ·) := by
    apply (s.tick.tree.sorted.and hnodup).imp
    intro a b h
    exact lt_of_le_of_ne h.1 h.2
  refine ⟨⟨hnow, ?_, fun e he => (hmem e he).2.1, ?_, ?_, ?_, ?_, ?_⟩, ?_, ?_, ?_⟩
  · exact List.pairwise_map.mpr (hsorted.filter _)
  · intro e he
    exact hfresh _ _ (hmem e he).2.2
  · simp [hran]
  · simp [hran, hwaiting]
  · intro e he
    simpa [hwaiting] using .inr (.inr he)
  · rw [hran, hindex, List.countP_eq_length_filter]
    simp [start]
  · exact hindex.le
  · rw [hwaiting]
    exact fun e he => (hmem e he).1
  · -- every key up to that of a due timer is due
    rw [hwaiting, hindex]
    intro e he
    obtain ⟨hkey, hle, -⟩ := hmem e he
    apply TickTree.lt_lt_countP hkey (decide_eq_true hle)
    intro k hk
    exact decide_eq_true ((Nat.div_le_div_right hk.le).trans hle)

/-! ### A turn -/

/-- Without a function for a key, its timer does not wait. -/
theorem waiting_cancel {t : Round} (hdue : t.due = s.due)
    (hfuns : t.tick.funs = Function.update s.tick.funs tickId none) :
    t.waiting = s.waiting.filter (·.1 ≠ tickId) := by
  simp only [waiting, List.filter_filter, hdue, hfuns]
  apply List.filter_congr
  intro e _
  by_cases he : e.1 = tickId <;> simp [he, Function.update]

theorem mem_waiting_cancel {t : Round} (he : e ∈ t.waiting) (hdue : t.due = s.due)
    (hfuns : t.tick.funs = Function.update s.tick.funs tickId none) :
    e ∈ s.waiting ∧ e.1 ≠ tickId := by
  rw [waiting_cancel hdue hfuns] at he
  simpa using he

theorem Turns.next {t : Round} (h : s.Turns) (hpos : 0 < s.index) (hnow : t.now = s.now)
    (hindex : s.tick.tree.index 0 = some tickId) (hdue : tickId / 2 ^ 32 ≤ s.now)
    (hleft : t.index = s.index - 1) (htree : t.tick.tree = s.tick.tree.delete tickId)
    (hwaiting : ∀ e ∈ t.waiting, e ∈ s.waiting ∧ e.1 ≠ tickId) : t.Turns := by
  have hmem := TickTree.mem_of_index_zero hindex
  refine ⟨?_, ?_, ?_⟩
  · have hcount : t.dueCount = s.dueCount - 1 := by
      simp only [dueCount, htree, hnow, TickTree.countP_delete, hmem, hdue, decide_true, and_self,
        if_true]
    have := h.enough
    omega
  · intro e he
    obtain ⟨hold, hne⟩ := hwaiting e he
    rw [htree]
    exact (List.mem_erase_of_ne hne).mpr (h.listed e hold)
  · intro e he
    obtain ⟨hold, hne⟩ := hwaiting e he
    have hbefore : tickId < e.1 :=
      lt_of_le_of_ne (TickTree.index_zero_le hindex (h.listed e hold)) (Ne.symm hne)
    have hcount : t.tick.tree.lt e.1 = s.tick.tree.lt e.1 - 1 := by
      simp [htree, TickTree.lt, TickTree.countP_delete, hmem, hbefore]
    have hpositive : 0 < s.tick.tree.lt e.1 := (TickTree.index_lt_pred hmem hbefore).1
    have := h.reach e hold
    omega

/-- The first timer of the tree is the first one that waits, if it is due. -/
theorem waiting_eq_cons (hcore : s.Core) (hturns : s.Turns)
    (hindex : s.tick.tree.index 0 = some tickId) (hfs : s.tick.funs tickId = some fs)
    (hdue : (tickId, fs) ∈ s.due) :
    s.waiting = (tickId, fs) :: s.waiting.filter (·.1 ≠ tickId) := by
  have hsorted : s.waiting.Pairwise fun e e' => e.1 < e'.1 := hcore.due_sorted.filter _
  have hmem : (tickId, fs) ∈ s.waiting := mem_waiting.mpr ⟨hdue, hfs⟩
  cases hlist : s.waiting with
  | nil => simp [hlist] at hmem
  | cons e rest =>
      have hleast : tickId ≤ e.1 :=
        TickTree.index_zero_le hindex (hturns.listed e (by simp [hlist]))
      rw [hlist] at hsorted hmem
      obtain ⟨hbefore, -⟩ := List.pairwise_cons.mp hsorted
      obtain rfl : (tickId, fs) = e := by
        cases hmem with
        | head => rfl
        | tail _ hmem =>
            have := hbefore _ hmem
            omega
      have hrest : rest.filter (·.1 ≠ tickId) = rest := by
        apply List.filter_eq_self.mpr
        intro e he
        have hlt : tickId < e.1 := hbefore e he
        simpa using hlt.ne'
      rw [List.filter_cons_of_neg (by simp), hrest]

theorem turn_run (hpos : s.index ≠ 0) (hindex : s.tick.tree.index 0 = some tickId)
    (hfs : s.tick.funs tickId = some fs) :
    s.turn =
      { s with
        index := s.index - 1
        tick :=
          { s.tick with
            tree := s.tick.tree.delete tickId
            funs := Function.update s.tick.funs tickId none }
        phase := .callback
        ran := s.ran ++ [(tickId, fs)] } := by
  simp [turn, hpos, hindex, SecTick.trigger, hfs]

theorem Core.turn_run (hcore : s.Core) (hturns : s.Turns) (hpos : s.index ≠ 0)
    (hindex : s.tick.tree.index 0 = some tickId) (hfs : s.tick.funs tickId = some fs)
    (hsecond : tickId / 2 ^ 32 ≤ s.now) : s.turn.Core := by
  rw [Round.turn_run hpos hindex hfs]
  have hwaiting := waiting_cancel (s := s) (t := { s with
    index := s.index - 1
    tick :=
      { s.tick with
        tree := s.tick.tree.delete tickId
        funs := Function.update s.tick.funs tickId none }
    phase := .callback
    ran := s.ran ++ [(tickId, fs)] }) rfl rfl
  refine ⟨hcore.clock, hcore.due_sorted, hcore.due_now, hcore.due_old, ?_, ?_, ?_, ?_⟩
  · intro e he
    cases List.mem_append.mp he with
    | inl he => exact hcore.never_later e he
    | inr he =>
        obtain rfl : e = (tickId, fs) := List.mem_singleton.mp he
        exact hsecond
  · have horder := hcore.order
    by_cases hin : (tickId, fs) ∈ s.due
    · rw [waiting_eq_cons hcore hturns hindex hfs hin] at horder
      simpa [hin, hwaiting] using horder
    · have hsub : (s.waiting.filter (·.1 ≠ tickId)).Sublist s.waiting := List.filter_sublist
      simpa [hin, hwaiting] using ((List.Sublist.refl _).append hsub).trans horder
  · intro e he
    rw [hwaiting]
    obtain hran | hgone | hwait := hcore.fate e he
    · exact .inl (List.mem_append_left _ hran)
    · exact .inr (.inl hgone)
    · by_cases hid : e.1 = tickId
      · have hsame : e = (tickId, fs) := by
          have hboth := (mem_waiting.mp hwait).2
          rw [hid, hfs, Option.some.injEq] at hboth
          exact Prod.ext hid hboth.symm
        exact .inl (by simp [hsame])
      · exact .inr (.inr (List.mem_filter.mpr ⟨hwait, by simpa using hid⟩))
  · have := hcore.bounded
    simp only [List.length_append, List.length_singleton]
    omega

theorem turn_inv (hcore : s.Core) (hturns : s.Turns) (hphase : s.phase = .loop) :
    s.turn.Inv := by
  by_cases hpos : s.index = 0
  · have hnone : s.waiting = [] := by
      apply List.eq_nil_iff_forall_not_mem.mpr
      intro e he
      have := hturns.reach e he
      omega
    have hturn : s.turn = { s with phase := .perSecond } := by
      simp [turn, hpos]
    rw [hturn]
    exact ⟨hcore.withPhase .perSecond, hnone⟩
  · -- a timer is due, so the first one is
    have hcount : 0 < s.dueCount := by
      have := hturns.enough
      omega
    obtain ⟨k, hk, hkdue⟩ := List.countP_pos_iff.mp hcount
    obtain ⟨tickId, hindex⟩ := TickTree.exists_index_zero hk
    have hsecond : tickId / 2 ^ 32 ≤ s.now :=
      (Nat.div_le_div_right (TickTree.index_zero_le hindex hk)).trans (of_decide_eq_true hkdue)
    cases hfs : s.tick.funs tickId with
    | none =>
        have hturn : s.turn =
            { s with
              index := s.index - 1
              tick := { s.tick with tree := s.tick.tree.delete tickId } } := by
          simp [turn, hpos, hindex, SecTick.trigger, hfs]
        have hbounded := hcore.bounded
        rw [hturn]
        simp only [Inv, hphase]
        refine ⟨⟨hcore.clock, hcore.due_sorted, hcore.due_now, hcore.due_old,
          hcore.never_later, hcore.order, hcore.fate, by simp only; omega⟩, ?_⟩
        refine hturns.next (Nat.pos_of_ne_zero hpos) rfl hindex hsecond rfl rfl ?_
        intro e he
        have hold : e ∈ s.waiting := he
        refine ⟨hold, ?_⟩
        rintro rfl
        simp [(mem_waiting.mp hold).2] at hfs
    | some fs =>
        have hcore' := hcore.turn_run hturns hpos hindex hfs hsecond
        rw [turn_run hpos hindex hfs] at hcore' ⊢
        refine ⟨hcore', ?_⟩
        refine hturns.next (Nat.pos_of_ne_zero hpos) rfl hindex hsecond rfl rfl ?_
        intro e he
        exact mem_waiting_cancel he rfl rfl

/-! ### Callbacks -/

/-- Registering a timer under the key of none that waits. -/
theorem Core.reg (h : s.Core) (hnew : ∀ e ∈ s.waiting, e.1 ≠ (luaTickReg s.tick.tree seconds).1) :
    Core { s with tick := s.tick.reg seconds } ∧
      waiting { s with tick := s.tick.reg seconds } = s.waiting := by
  have hwaiting : waiting { s with tick := s.tick.reg seconds } = s.waiting := by
    apply List.filter_congr
    intro e he
    by_cases hid : e.1 = (luaTickReg s.tick.tree seconds).1
    · have hold : e ∉ s.waiting := fun hwait => hnew e hwait hid
      have hfresh := h.due_old e he
      simp only [mem_waiting, he, true_and] at hold
      rw [hid] at hold
      simp [SecTick.reg, hid, hold, hfresh.ne']
    · simp [SecTick.reg, hid]
  refine ⟨⟨h.clock, h.due_sorted, h.due_now, ?_, h.never_later, ?_, ?_, h.bounded⟩, hwaiting⟩
  · exact fun e he => Nat.lt_succ_of_lt (h.due_old e he)
  · rw [hwaiting]
    exact h.order
  · rw [hwaiting]
    exact h.fate

theorem Turns.reg (hcore : s.Core) (h : s.Turns)
    (hsecond : ∀ e ∈ s.waiting, e.1 / 2 ^ 32 ≤ tickSecond seconds) :
    Core { s with tick := s.tick.reg seconds } ∧
      Turns { s with tick := s.tick.reg seconds } := by
  have hbefore : ∀ e ∈ s.waiting, e.1 < (luaTickReg s.tick.tree seconds).1 := by
    intro e he
    apply lt_luaTickReg (h.listed e he) (hsecond e he)
    have := hcore.due_now e (mem_waiting.mp he).1
    have := hcore.clock
    omega
  obtain ⟨hcore', hwaiting⟩ := hcore.reg fun e he => (hbefore e he).ne
  refine ⟨hcore', ?_, ?_, ?_⟩
  · apply h.enough.trans
    simp [dueCount, SecTick.reg, luaTickReg_keys, TickTree.countP_insert]
  · rw [hwaiting]
    intro e he
    simp [SecTick.reg, luaTickReg_keys, h.listed e he]
  · rw [hwaiting]
    intro e he
    have hlt : ¬ (luaTickReg s.tick.tree seconds).1 < e.1 := (hbefore e he).asymm
    simpa [SecTick.reg, luaTickReg_keys, TickTree.lt, TickTree.countP_insert, hlt] using
      h.reach e he

theorem Core.unreg (h : s.Core) (tickId : Nat) :
    (s.unreg tickId).Core ∧ (s.unreg tickId).waiting = s.waiting.filter (·.1 ≠ tickId) := by
  have hwaiting : (s.unreg tickId).waiting = s.waiting.filter (·.1 ≠ tickId) :=
    waiting_cancel rfl rfl
  have hsub : (s.waiting.filter (·.1 ≠ tickId)).Sublist s.waiting := List.filter_sublist
  refine ⟨⟨h.clock, h.due_sorted, h.due_now, h.due_old, h.never_later, ?_, ?_, h.bounded⟩,
    hwaiting⟩
  · rw [hwaiting]
    exact ((List.Sublist.refl _).append hsub).trans h.order
  · intro e he
    rw [hwaiting]
    obtain hran | hgone | hwait := h.fate e he
    · exact .inl hran
    · exact .inr (.inl (List.mem_append_left _ hgone))
    · by_cases hid : e.1 = tickId
      · have hfuns := (mem_waiting.mp hwait).2
        rw [hid] at hfuns
        exact .inr (.inl (List.mem_append_right _
          (List.mem_filter.mpr ⟨he, by simp [hid, hfuns]⟩)))
      · exact .inr (.inr (List.mem_filter.mpr ⟨hwait, by simpa using hid⟩))

theorem Turns.unreg (hcore : s.Core) (h : s.Turns)
    (hleft : tickId ∈ s.tick.tree.keys → tickId / 2 ^ 32 ≤ s.now → s.index < s.dueCount) :
    (s.unreg tickId).Core ∧ (s.unreg tickId).Turns := by
  obtain ⟨hcore', hwaiting⟩ := hcore.unreg tickId
  refine ⟨hcore', ?_, ?_, ?_⟩
  · have hcount : (s.unreg tickId).dueCount = s.dueCount -
        if tickId ∈ s.tick.tree.keys ∧ tickId / 2 ^ 32 ≤ s.now then 1 else 0 := by
      simp [dueCount, Round.unreg, SecTick.unreg, TickTree.countP_delete]
    have hold := h.enough
    have hindex : (s.unreg tickId).index = s.index := rfl
    split at hcount
    · rename_i hdue
      have := hleft hdue.1 hdue.2
      omega
    · omega
  · rw [hwaiting]
    intro e he
    obtain ⟨hwait, hne⟩ := List.mem_filter.mp he
    exact (List.mem_erase_of_ne (by simpa using hne)).mpr (h.listed e hwait)
  · rw [hwaiting]
    intro e he
    have hreach := h.reach e (List.mem_of_mem_filter he)
    apply lt_of_le_of_lt _ hreach
    exact List.Sublist.countP_le List.erase_sublist

theorem inv_step {t : Round} {a : Action} (h : s.Inv) (hfits : s.Fits a)
    (hstep : timerRound.step s a = some t) : t.Inv := by
  cases a with
  | start now =>
      simp only [timerRound, Option.ite_none_right_eq_some, Option.some.injEq] at hstep
      obtain ⟨⟨hphase, -⟩, rfl⟩ := hstep
      simp only [Inv, hphase] at h
      exact start_inv h hfits
  | turn =>
      simp only [timerRound, Option.ite_none_right_eq_some, Option.some.injEq] at hstep
      obtain ⟨hphase, rfl⟩ := hstep
      simp only [Inv, hphase] at h
      exact turn_inv h.1 h.2 hphase
  | reg seconds =>
      simp only [timerRound, Option.ite_none_right_eq_some, Option.some.injEq] at hstep
      obtain ⟨hcalls | hcalls, rfl⟩ := hstep
      · obtain ⟨hcore, hturns⟩ := (inv_loop_iff (.inr hcalls)).mp h
        apply (inv_loop_iff _).mpr
        · apply hturns.reg hcore
          intro e he
          obtain ⟨hdue, hfuns⟩ := mem_waiting.mp he
          exact hfits hcalls e hdue hfuns
        · exact .inr hcalls
      · obtain ⟨hcore, hnone⟩ := (inv_over_iff (.inl hcalls)).mp h
        obtain ⟨hcore', hwaiting⟩ := @Core.reg _ seconds hcore (by simp [hnone])
        apply (inv_over_iff _).mpr ⟨hcore', hwaiting.trans hnone⟩
        exact .inl hcalls
  | unreg tickId =>
      simp only [timerRound, Option.ite_none_right_eq_some, Option.some.injEq] at hstep
      obtain ⟨hcalls | hcalls, rfl⟩ := hstep
      · obtain ⟨hcore, hturns⟩ := (inv_loop_iff (.inr hcalls)).mp h
        apply (inv_loop_iff _).mpr (hturns.unreg hcore (hfits hcalls))
        exact .inr hcalls
      · obtain ⟨hcore, hnone⟩ := (inv_over_iff (.inl hcalls)).mp h
        obtain ⟨hcore', hwaiting⟩ := hcore.unreg tickId
        have hnone' : (s.unreg tickId).waiting = [] := by
          simp [hwaiting, hnone]
        apply (inv_over_iff _).mpr ⟨hcore', hnone'⟩
        exact .inl hcalls
  | ret =>
      simp only [timerRound] at hstep
      split at hstep
      · obtain rfl := Option.some.inj hstep
        obtain ⟨hcore, hturns⟩ := (inv_loop_iff (.inr ‹_›)).mp h
        exact ⟨hcore.withPhase .loop, ⟨hturns.enough, hturns.listed, hturns.reach⟩⟩
      · split at hstep
        · obtain rfl := Option.some.inj hstep
          obtain ⟨hcore, hnone⟩ := (inv_over_iff (.inl ‹_›)).mp h
          exact ⟨hcore.withPhase .done, hnone⟩
        · cases hstep

end Round

/-- As long as the callbacks leave the turns to the due timers, a round runs exactly them. -/
theorem round_exact {s : Round} (h : timerRound.ReachableVia Round.Fits s) : s.Exact := by
  apply Round.Inv.exact
  apply h.invariant
  · exact fun s hs => Round.inv_of_init hs
  · exact fun s t a hs hfits hstep => Round.inv_step hs hfits hstep

/-- Two timers of the first second, before its round. -/
def twoTimers : Round where
  tick :=
    { tree := ⟨[0, 1], by decide⟩
      funs := fun key => if key < 2 then some key else none
      fresh := 2 }
  phase := .idle
  now := 0
  index := 0
  due := []
  ran := []
  gone := []

theorem init_twoTimers : timerRound.Init twoTimers := by
  refine ⟨rfl, rfl, rfl, rfl, by decide, fun key => ?_, fun key fs h => ?_⟩
  · simp only [twoTimers, List.mem_cons, List.not_mem_nil, or_false]
    split <;> simp <;> omega
  · simp only [twoTimers, Option.ite_none_right_eq_some, Option.some.injEq] at h ⊢
    omega

/-- The first timer may register one more and cancel that again. -/
theorem round_exact_twoTimers :
    ∃ s, timerRound.runVia Round.Fits twoTimers
        [.start 0, .turn, .reg 0, .unreg 2, .ret, .turn, .ret, .turn, .ret] = some s ∧
      s.ran = [(0, 0), (1, 1)] ∧ s.Exact := by
  obtain ⟨s, hrun, hran⟩ : ∃ s, timerRound.runVia Round.Fits twoTimers
      [.start 0, .turn, .reg 0, .unreg 2, .ret, .turn, .ret, .turn, .ret] = some s ∧
      s.ran = [(0, 0), (1, 1)] := ⟨_, rfl, rfl⟩
  exact ⟨s, hrun, hran, round_exact (.runVia (.init init_twoTimers) hrun)⟩

/-- The first timer cancels the second one. The loop takes a second turn, and finds no timer. -/
theorem round_raises : ¬ ∀ s : Round, timerRound.Reachable s → s.Exact := by
  intro h
  obtain ⟨s, hrun, hraised⟩ : ∃ s, timerRound.run twoTimers
      [.start 0, .turn, .unreg 1, .ret, .turn] = some s ∧ s.phase = .raised := ⟨_, rfl, rfl⟩
  have hreach : timerRound.Reachable s := Machine.Reachable.run (.init init_twoTimers) hrun
  exact (h s hreach).completes.1 hraised

end RandServer
