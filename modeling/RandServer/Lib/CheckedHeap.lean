import Mathlib.Logic.Function.Basic
import Mathlib.Data.List.Basic

/-!
# A heap with checked accesses

Blocks have names, and no name is given out twice. Copies and releases are undefined where
a C program would leave a block, use one that was released, or release one twice, so a run
that is defined has done none of this. The null pointer counts as a block without cells
that is never released.

Which block `malloc` and `realloc` give out, and what lies in it, is part of the call.
-/

universe u

structure CheckedHeap (α : Type u) where
  live : Nat → Option (List α)
  freed : List Nat

namespace CheckedHeap

variable {α : Type u}

/-- The cells that a pointer leads to. -/
def cells (h : CheckedHeap α) : Option Nat → Option (List α)
  | none => some []
  | some id => h.live id

def put (h : CheckedHeap α) (id : Nat) (xs : List α) : CheckedHeap α :=
  { h with live := Function.update h.live id (some xs) }

/-- Copy out the first `len` cells. -/
def load (h : CheckedHeap α) (p : Option Nat) (len : Nat) : Option (List α) :=
  (h.cells p).bind fun xs => if len ≤ xs.length then some (xs.take len) else none

/-- Copy `ys` in at offset `off`. -/
def store (h : CheckedHeap α) (p : Option Nat) (off : Nat) (ys : List α) :
    Option (CheckedHeap α) :=
  (h.cells p).bind fun xs =>
    if off + ys.length ≤ xs.length then
      match p with
      | none => some h
      | some id => some (h.put id (xs.take off ++ ys ++ xs.drop (off + ys.length)))
    else
      none

def free (h : CheckedHeap α) : Option Nat → Option (CheckedHeap α)
  | none => some h
  | some id =>
      if (h.live id).isSome then
        some { live := Function.update h.live id none, freed := id :: h.freed }
      else
        none

/-- The answer of the system to a call of `malloc` or `realloc` is a block and what lies in
it, or nothing. -/
def malloc (h : CheckedHeap α) (size : Nat) :
    Option (Nat × (Nat → α)) → CheckedHeap α × Option Nat
  | none => (h, none)
  | some (id, fill) => (h.put id ((List.range size).map fill), some id)

/-- The cells that both sizes share keep their values, wherever the block is now. -/
def realloc (h : CheckedHeap α) (p : Option Nat) (size : Nat) :
    Option (Nat × (Nat → α)) → Option (CheckedHeap α × Option Nat)
  | none => some (h, none)
  | some (id, fill) =>
      (h.cells p).bind fun old =>
        let xs := old.take size ++ ((List.range size).map fill).drop old.length
        if p = some id then some (h.put id xs, some id)
        else (h.free p).map fun h => (h.put id xs, some id)

/-- A block that was never given out. -/
def Fresh (h : CheckedHeap α) (id : Nat) : Prop := (h.live id).isNone ∧ id ∉ h.freed

instance (h : CheckedHeap α) (id : Nat) : Decidable (h.Fresh id) :=
  inferInstanceAs (Decidable (_ ∧ _))

/-- No block was released twice, and none is in use after its release. -/
structure FreedOnce (h : CheckedHeap α) : Prop where
  nodup : h.freed.Nodup
  dead : ∀ id ∈ h.freed, h.live id = none

variable {h : CheckedHeap α} {id id' off len : Nat} {p : Option Nat} {xs ys : List α}

/-! ## Accesses -/

@[simp] theorem cells_none : h.cells none = some [] := rfl

@[simp] theorem cells_some : h.cells (some id) = h.live id := rfl

@[simp] theorem put_live_self : (h.put id xs).live id = some xs :=
  Function.update_self ..

theorem put_live_of_ne (hne : id' ≠ id) : (h.put id xs).live id' = h.live id' :=
  Function.update_of_ne hne ..

/-- A change of one block is none of what other pointers lead to. -/
theorem cells_congr {h' : CheckedHeap α} (hne : some id ≠ p)
    (hother : ∀ k, k ≠ id → h'.live k = h.live k) : h'.cells p = h.cells p := by
  cases p with
  | none => rfl
  | some k => exact hother k (fun heq => hne (congrArg some heq.symm))

@[simp] theorem put_freed : (h.put id xs).freed = h.freed := rfl

theorem load_eq (hp : h.cells p = some xs) (hlen : len ≤ xs.length) :
    h.load p len = some (xs.take len) := by
  simp [load, hp, hlen]

/-- A copy that fits changes the cells it covers and no other block. -/
theorem store_eq (hp : h.cells p = some xs) (hlen : off + ys.length ≤ xs.length) :
    ∃ h', h.store p off ys = some h' ∧
      h'.cells p = some (xs.take off ++ ys ++ xs.drop (off + ys.length)) ∧
      (∀ id, some id ≠ p → h'.live id = h.live id) ∧ h'.freed = h.freed := by
  cases p with
  | none =>
      obtain rfl : [] = xs := by simpa using hp
      obtain rfl : ys = [] := List.length_eq_zero_iff.mp
        (Nat.le_zero.mp (Nat.le_trans (Nat.le_add_left ..) hlen))
      refine ⟨h, ?_, ?_, fun _ _ => rfl, rfl⟩
      · simpa [store] using hlen
      · simp
  | some id =>
      refine ⟨h.put id (xs.take off ++ ys ++ xs.drop (off + ys.length)), ?_, ?_, ?_, rfl⟩
      · simp [store, show h.live id = some xs from hp, hlen]
      · exact put_live_self
      · intro id' hne
        exact put_live_of_ne (fun h => hne (congrArg some h))

/-- Copying the beginning of one block into a new one. -/
theorem put_copy (hp : h.cells p = some ys) (hne : some id ≠ p) (hlen : len ≤ ys.length)
    (hle : len ≤ xs.length) :
    ∃ h' zs, ((h.put id xs).load p len).bind ((h.put id xs).store (some id) 0) = some h' ∧
      h'.live id = some zs ∧ zs.length = xs.length ∧ ys.take len <+: zs ∧
      (∀ k, k ≠ id → h'.live k = h.live k) ∧ h'.freed = h.freed := by
  have hload : (h.put id xs).load p len = some (ys.take len) :=
    load_eq ((cells_congr hne fun _ => put_live_of_ne).trans hp) hlen
  have htake : (ys.take len).length = len := List.length_take_of_le hlen
  obtain ⟨h', hstore, hcells, hother, hfreed⟩ :=
    @store_eq α (h.put id xs) 0 (some id) xs (ys.take len) put_live_self (by omega)
  refine ⟨h', _, ?_, hcells, ?_, ?_, ?_, hfreed⟩
  · rw [hload, Option.bind_some, hstore]
  · simp only [List.take_zero, List.nil_append, List.length_append, List.length_drop, htake]
    omega
  · simp only [List.take_zero, List.nil_append]
    exact List.prefix_append ..
  · intro k hk
    rw [hother k (fun heq => hk (Option.some.inj heq)), put_live_of_ne hk]

/-- Releasing a block that is there. -/
theorem free_eq (hp : h.live id = some xs) :
    ∃ h', h.free (some id) = some h' ∧ h'.live id = none ∧
      (∀ id', id' ≠ id → h'.live id' = h.live id') ∧ h'.freed = id :: h.freed := by
  refine ⟨{ live := Function.update h.live id none, freed := id :: h.freed }, ?_, ?_, ?_, rfl⟩
  · simp [free, hp]
  · exact Function.update_self ..
  · exact fun _ hne => Function.update_of_ne hne ..

/-- Enlarging a block that is there: a block of the new size begins with the old cells. The
old block is the new one, or it is released. -/
theorem realloc_eq (hp : h.live id' = some ys) (size : Nat) (hlen : ys.length ≤ size)
    (fill : Nat → α) :
    ∃ h' xs, h.realloc (some id') size (some (id, fill)) = some (h', some id) ∧
      h'.live id = some xs ∧ xs.length = size ∧ ys <+: xs ∧
      (∀ k, k ≠ id → k ≠ id' → h'.live k = h.live k) ∧
      (id' ≠ id → h'.live id' = none) ∧
      h'.freed = if id' = id then h.freed else id' :: h.freed := by
  have hsize : (ys.take size ++ ((List.range size).map fill).drop ys.length).length = size := by
    rw [List.take_of_length_le hlen, List.length_append, List.length_drop, List.length_map,
      List.length_range]
    omega
  have hpre : ys <+: ys.take size ++ ((List.range size).map fill).drop ys.length := by
    rw [List.take_of_length_le hlen]
    exact List.prefix_append ..
  by_cases hsame : id' = id
  · subst hsame
    refine ⟨h.put id' _, _, ?_, put_live_self, hsize, hpre, ?_, fun hne => absurd rfl hne, ?_⟩
    · simp [realloc, hp]
    · exact fun k hk _ => put_live_of_ne hk
    · simp
  · obtain ⟨h', hfree, hnone, hother, hfreed⟩ := free_eq hp
    refine ⟨h'.put id _, _, ?_, put_live_self, hsize, hpre, ?_, ?_, ?_⟩
    · simp [realloc, hp, hsame, hfree]
    · intro k hk hk'
      rw [put_live_of_ne hk, hother k hk']
    · intro hne
      rw [put_live_of_ne hne, hnone]
    · rw [put_freed, hfreed, if_neg hsame]

/-! ## Released blocks -/

namespace FreedOnce

/-- Blocks that were not released may change. -/
theorem of_live (hfreed : h.FreedOnce) {h' : CheckedHeap α} (heq : h'.freed = h.freed)
    (hlive : ∀ id ∈ h.freed, h'.live id = h.live id) : h'.FreedOnce := by
  refine ⟨heq ▸ hfreed.nodup, fun id hid => ?_⟩
  have hid' : id ∈ h.freed := heq ▸ hid
  rw [hlive id hid']
  exact hfreed.dead id hid'

/-- A block that is there was not released. -/
theorem ne_of_mem (hfreed : h.FreedOnce) (hid : id ∈ h.freed) (hp : h.live id' = some xs) :
    id ≠ id' := by
  rintro rfl
  rw [hfreed.dead id hid] at hp
  cases hp

/-- One more block is released. -/
theorem free (hfreed : h.FreedOnce) {h' : CheckedHeap α} (hp : h.live id = some xs)
    (heq : h'.freed = id :: h.freed) (hnone : h'.live id = none)
    (hlive : ∀ k ∈ h.freed, h'.live k = h.live k) : h'.FreedOnce := by
  have hnot : id ∉ h.freed := fun hid => hfreed.ne_of_mem hid hp rfl
  constructor
  · rw [heq]
    exact List.nodup_cons.mpr ⟨hnot, hfreed.nodup⟩
  · intro k hk
    rw [heq] at hk
    rcases List.mem_cons.mp hk with rfl | hk
    · exact hnone
    · rw [hlive k hk]
      exact hfreed.dead k hk

end FreedOnce

end CheckedHeap
