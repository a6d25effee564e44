import Mathlib.Data.List.Basic
import Mathlib.Logic.Function.Basic
import Mathlib.Logic.Nontrivial.Basic

/-!
# Tables with upserts

A table has at most one row for each key. An upsert assigns some columns of the row with
its key, which it creates if there is none. After a list of upserts a column holds what the
last of them has assigned to it. So two lists with the same keys have the same effect on
every table if and only if they agree on these last assignments.

A batch assigns the same columns in each of its upserts, with a blank where the row has no
value. `batch_iff` says when that makes no difference.
-/

universe u v w

namespace Upsert

variable {κ : Type u} {γ : Type v} {α : Type w}

/-- The rows by their keys. -/
abbrev Table (κ : Type u) (γ : Type v) (α : Type w) := κ → Option (γ → α)

/-- A key, and values for some columns. -/
structure Op (κ : Type u) (γ : Type v) (α : Type w) where
  key : κ
  assign : γ → Option α

/-- A row with some columns replaced. -/
def override (a : γ → Option α) (row : γ → α) : γ → α := fun c => (a c).getD (row c)

theorem override_injective [Nontrivial α] {a b : γ → Option α}
    (h : ∀ row, override a row = override b row) : a = b := by
  funext c
  have hc : ∀ row : γ → α, (a c).getD (row c) = (b c).getD (row c) := fun row => congrFun (h row) c
  cases ha : a c with
  | none =>
      cases hb : b c with
      | none => rfl
      | some y =>
          obtain ⟨x, hx⟩ := exists_ne y
          have hrow := hc fun _ => x
          rw [ha, hb] at hrow
          exact absurd hrow hx
  | some x =>
      obtain ⟨y, hy⟩ := exists_ne x
      have hrow := hc fun _ => y
      rw [ha] at hrow
      cases hb : b c with
      | none =>
          rw [hb] at hrow
          exact absurd hrow.symm hy
      | some z =>
          rw [hb] at hrow
          exact congrArg some hrow

variable [DecidableEq κ] {fresh : κ → γ → α} {t : Table κ γ α} {k : κ} {c : γ} {op : Op κ γ α}
  {ops ops' pre post : List (Op κ γ α)}

/-- Assign the columns of a row, or of a new row for the key. -/
def upsert (fresh : κ → γ → α) (t : Table κ γ α) (op : Op κ γ α) : Table κ γ α :=
  Function.update t op.key (some (override op.assign ((t op.key).getD (fresh op.key))))

def run (fresh : κ → γ → α) (t : Table κ γ α) (ops : List (Op κ γ α)) : Table κ γ α :=
  ops.foldl (upsert fresh) t

/-- What the operations with a key assign last. -/
def last (k : κ) (ops : List (Op κ γ α)) (c : γ) : Option α :=
  (ops.filterMap fun op => if op.key = k then op.assign c else none).getLast?

def keys (ops : List (Op κ γ α)) : List κ := ops.map Op.key

theorem last_append : last k (pre ++ post) c = (last k post c).or (last k pre c) := by
  unfold last
  rw [List.filterMap_append, List.getLast?_append]

theorem last_singleton : last k [op] c = if op.key = k then op.assign c else none := by
  unfold last
  split <;> cases hc : op.assign c <;> simp [*]

theorem last_cons : last k (op :: ops) c =
    (last k ops c).or (if op.key = k then op.assign c else none) := by
  rw [← List.singleton_append, last_append, last_singleton]

theorem last_eq_none (h : ∀ op ∈ ops, op.key = k → op.assign c = none) : last k ops c = none := by
  unfold last
  rw [List.getLast?_eq_none_iff, List.filterMap_eq_nil_iff]
  intro op hop
  split
  · exact h op hop ‹_›
  · rfl

theorem last_of_not_mem (h : k ∉ keys ops) : last k ops c = none :=
  last_eq_none fun _ hop hk => absurd (hk ▸ List.mem_map_of_mem hop) h

/-- The last operation with a key decides, where it assigns something. -/
theorem last_split (h : op.key ∉ keys post) : last op.key (pre ++ op :: post) c =
    (op.assign c).or (last op.key pre c) := by
  rw [last_append, last_cons, last_of_not_mem h, Option.none_or, if_pos rfl]

/-- Each key has a last operation. -/
theorem exists_split (h : k ∈ keys ops) :
    ∃ pre op post, ops = pre ++ op :: post ∧ op.key = k ∧ k ∉ keys post := by
  induction ops with
  | nil => cases h
  | cons op ops ih =>
      by_cases hlater : k ∈ keys ops
      · obtain ⟨pre, op', post, rfl, hkey, hpost⟩ := ih hlater
        exact ⟨op :: pre, op', post, rfl, hkey, hpost⟩
      · have hkey := (List.mem_cons.mp h).resolve_right hlater
        exact ⟨[], op, ops, rfl, hkey.symm, hlater⟩

/-- The table after a run. -/
theorem run_apply : run fresh t ops k =
    if k ∈ keys ops then some (override (last k ops) ((t k).getD (fresh k))) else t k := by
  induction ops generalizing t with
  | nil => rfl
  | cons op ops ih =>
      have hrun : run fresh t (op :: ops) = run fresh (upsert fresh t op) ops := rfl
      rw [hrun, ih]
      have hlast : last k (op :: ops) = fun c =>
          (last k ops c).or (if op.key = k then op.assign c else none) := funext fun c => last_cons
      by_cases hkey : op.key = k
      · subst hkey
        have hmem : op.key ∈ keys (op :: ops) := List.mem_cons_self
        simp only [hlast, if_pos hmem, upsert, Function.update_self, if_true, Option.getD_some]
        split
        · refine congrArg some (funext fun c => ?_)
          simp only [override]
          cases last op.key ops c <;> rfl
        · rename_i hlater
          refine congrArg some (funext fun c => ?_)
          simp only [override, last_of_not_mem hlater, Option.none_or]
      · have hmem : k ∈ keys (op :: ops) ↔ k ∈ keys ops := by
          refine ⟨fun h => (List.mem_cons.mp h).resolve_left fun h => hkey h.symm, fun h => ?_⟩
          exact List.mem_cons_of_mem _ h
        simp only [hlast, if_neg hkey, Option.or_none, upsert, hmem,
          Function.update_of_ne (Ne.symm hkey)]

/-- Lists of upserts with the same keys have the same effect if and only if they agree on what
is assigned last. -/
theorem run_eq_iff [Nontrivial α] (hkeys : keys ops = keys ops') :
    (∀ t, run fresh t ops = run fresh t ops') ↔ ∀ k ∈ keys ops, last k ops = last k ops' := by
  constructor
  · intro h k hk
    refine override_injective fun row => ?_
    have hrun := congrFun (h (Function.update (fun _ => none) k (some row))) k
    rw [run_apply, run_apply, if_pos hk, if_pos (hkeys ▸ hk)] at hrun
    simpa only [Function.update_self, Option.getD_some, Option.some.injEq] using hrun
  · intro h t
    funext k
    rw [run_apply, run_apply, ← hkeys]
    split
    · rw [h k ‹_›]
    · rfl

/-! ## Batches -/

section Batch

variable {cols : List γ} [DecidableEq γ] {blank : γ → α}

/-- The operation in a batch that assigns certain columns. -/
def widen (cols : List γ) (blank : γ → α) (op : Op κ γ α) : Op κ γ α :=
  { op with assign := fun c => if c ∈ cols then some ((op.assign c).getD (blank c)) else none }

omit [DecidableEq κ] in
@[simp] theorem keys_widen : keys (ops.map (widen cols blank)) = keys ops := by
  unfold keys
  rw [List.map_map]
  rfl

theorem last_widen_of_not_mem (h : c ∉ cols) : last k (ops.map (widen cols blank)) c = none := by
  refine last_eq_none fun op hop _ => ?_
  obtain ⟨op', -, rfl⟩ := List.mem_map.mp hop
  exact if_neg h

theorem last_widen_split (hpost : op.key ∉ keys post) (h : c ∈ cols) :
    last op.key ((pre ++ op :: post).map (widen cols blank)) c =
      some ((op.assign c).getD (blank c)) := by
  have hassign : (widen cols blank op).assign c = some ((op.assign c).getD (blank c)) := if_pos h
  have hsplit := @last_split κ γ α _ c (widen cols blank op) (pre.map (widen cols blank))
    (post.map (widen cols blank)) (by rw [keys_widen]; exact hpost)
  rw [List.map_append, List.map_cons]
  exact hsplit.trans (by rw [hassign, Option.some_or])

/-- No operation assigns a column outside of the batch. Where the last one with a key assigns
nothing, what has been assigned last is a blank. -/
structure Uniform (cols : List γ) (blank : γ → α) (ops : List (Op κ γ α)) : Prop where
  inside : ∀ op ∈ ops, ∀ c, (op.assign c).isSome → c ∈ cols
  blank : ∀ pre op post, ops = pre ++ op :: post → op.key ∉ keys post → ∀ c ∈ cols,
    op.assign c = none → last op.key ops c = some (blank c)

theorem last_widen_iff : (∀ k ∈ keys ops, last k (ops.map (widen cols blank)) = last k ops) ↔
    Uniform cols blank ops := by
  constructor
  · intro h
    refine ⟨fun op hop c hassign => ?_, ?_⟩
    · by_contra hout
      obtain ⟨pre, post, rfl⟩ := List.append_of_mem hop
      have hlast := congrFun (h op.key (List.mem_map_of_mem hop)) c
      rw [last_widen_of_not_mem hout] at hlast
      obtain ⟨v, hv⟩ := Option.isSome_iff_exists.mp hassign
      rw [last_append, last_cons, if_pos rfl, hv] at hlast
      cases hpost : last op.key post c with
      | none =>
          rw [hpost] at hlast
          cases hlast
      | some y =>
          rw [hpost] at hlast
          cases hlast
    · rintro pre op post rfl hpost c hc hnone
      have hop : op ∈ pre ++ op :: post := List.mem_append_right _ List.mem_cons_self
      have hlast := congrFun (h op.key (List.mem_map_of_mem hop)) c
      rw [last_widen_split hpost hc, hnone] at hlast
      exact hlast.symm
  · intro h k hk
    obtain ⟨pre, op, post, rfl, rfl, hpost⟩ := exists_split hk
    funext c
    by_cases hc : c ∈ cols
    · rw [last_widen_split hpost hc]
      cases hassign : op.assign c with
      | none => exact (h.blank pre op post rfl hpost c hc hassign).symm
      | some v => rw [last_split hpost, hassign, Option.some_or, Option.getD_some]
    · rw [last_widen_of_not_mem hc]
      refine (last_eq_none fun op' hop' _ => ?_).symm
      by_contra hassign
      exact hc (h.inside op' hop' c (Option.isSome_iff_ne_none.mpr hassign))

/-- A batch has the effect of its operations on every table if and only if they are uniform. -/
theorem batch_iff [Nontrivial α] :
    (∀ t, run fresh t (ops.map (widen cols blank)) = run fresh t ops) ↔ Uniform cols blank ops := by
  rw [run_eq_iff keys_widen, keys_widen, last_widen_iff]

end Batch

end Upsert
