import Mathlib.Data.List.Nodup
import RandServer.Lib.CheckedHeap

/-!
# Linked queues

A queue of nodes on a checked heap. A node is a block with one cell, which holds a value and
a pointer to the next node. The queue has a pointer to its first node and one to its last,
both null if it is empty. `Queue` lists the names of the nodes with their values.
-/

universe u

structure LinkedNode (α : Type u) where
  value : α
  next : Option Nat

namespace LinkedQueue

variable {α : Type u}

/-- The nodes from one pointer to another. -/
def Path (h : CheckedHeap (LinkedNode α)) (p : Option Nat) : List (Nat × α) → Option Nat → Prop
  | [], q => p = q
  | (id, x) :: es, q =>
      p = some id ∧ ∃ next, h.live id = some [⟨x, next⟩] ∧ Path h next es q

structure Queue (h : CheckedHeap (LinkedNode α)) (head tail : Option Nat)
    (es : List (Nat × α)) : Prop where
  path : Path h head es none
  tail : tail = es.getLast?.map Prod.fst
  nodup : (es.map Prod.fst).Nodup

/-- The node that a pointer leads to. -/
def node (h : CheckedHeap (LinkedNode α)) (p : Option Nat) : Option (LinkedNode α) :=
  (h.load p 1).bind List.head?

/-- The last node gets a successor, if there is one. -/
def link (h : CheckedHeap (LinkedNode α)) (id : Nat) :
    Option Nat → Option (CheckedHeap (LinkedNode α))
  | none => some h
  | some last =>
      (node h (some last)).bind fun n => h.store (some last) 0 [{ n with next := some id }]

/-- The names of the nodes from a pointer on. `fuel` bounds their number. -/
def names (h : CheckedHeap (LinkedNode α)) : Nat → Option Nat → List Nat
  | _, none => []
  | 0, some _ => []
  | fuel + 1, some id => id :: names h fuel ((node h (some id)).bind LinkedNode.next)

/-- What a node holds besides its link. -/
def valueAt (h : CheckedHeap (LinkedNode α)) (id : Nat) : Option α :=
  (node h (some id)).map LinkedNode.value

variable {h h' : CheckedHeap (LinkedNode α)} {p q head tail : Option Nat} {id : Nat} {x : α}
variable {n : LinkedNode α} {es fs : List (Nat × α)}

theorem node_eq (hn : h.live id = some [n]) : node h (some id) = some n := by
  simp [node, CheckedHeap.load, hn]

theorem node_congr (hsame : h'.live id = h.live id) : node h' (some id) = node h (some id) := by
  simp [node, CheckedHeap.load, hsame]

theorem valueAt_eq (hn : h.live id = some [n]) : valueAt h id = some n.value := by
  rw [valueAt, node_eq hn, Option.map_some]

theorem valueAt_eq_none (hid : h.live id = none) : valueAt h id = none := by
  simp [valueAt, node, CheckedHeap.load, hid]

theorem valueAt_congr (hsame : h'.live id = h.live id) : valueAt h' id = valueAt h id := by
  rw [valueAt, node_congr hsame, valueAt]

theorem store_eq {n' : LinkedNode α} (hn : h.live id = some [n]) :
    ∃ h', h.store (some id) 0 [n'] = some h' ∧ h'.live id = some [n'] ∧
      (∀ k, k ≠ id → h'.live k = h.live k) ∧ h'.freed = h.freed := by
  obtain ⟨h', hstore, hlive, hother, hfreed⟩ :=
    @CheckedHeap.store_eq _ h 0 (some id) [n] [n'] hn (Nat.le_refl 1)
  exact ⟨h', hstore, hlive, fun k hk => hother k fun heq => hk (Option.some.inj heq), hfreed⟩

/-! ## Paths -/

namespace Path

theorem append : Path h p (es ++ fs) q ↔ ∃ m, Path h p es m ∧ Path h m fs q := by
  induction es generalizing p with
  | nil => simp [Path]
  | cons e es ih =>
      simp only [List.cons_append, Path, ih]
      constructor
      · rintro ⟨hp, next, hlive, m, hes, hfs⟩
        exact ⟨m, ⟨hp, next, hlive, hes⟩, hfs⟩
      · rintro ⟨m, ⟨hp, next, hlive, hes⟩, hfs⟩
        exact ⟨hp, next, hlive, m, hes, hfs⟩

/-- A path only depends on its own nodes. -/
theorem congr (hpath : Path h p es q) (hsame : ∀ k ∈ es.map Prod.fst, h'.live k = h.live k) :
    Path h' p es q := by
  induction es generalizing p with
  | nil => exact hpath
  | cons e es ih =>
      obtain ⟨hp, next, hlive, hrest⟩ := hpath
      rw [List.map_cons, List.forall_mem_cons] at hsame
      exact ⟨hp, next, hsame.1.trans hlive, ih hrest hsame.2⟩

theorem live (hpath : Path h p es q) (he : (id, x) ∈ es) :
    ∃ next, h.live id = some [⟨x, next⟩] := by
  induction es generalizing p with
  | nil => exact absurd he List.not_mem_nil
  | cons e es ih =>
      obtain ⟨-, next, hlive, hrest⟩ := hpath
      rcases List.mem_cons.mp he with rfl | he
      · exact ⟨next, hlive⟩
      · exact ih hrest he

theorem names_eq (hpath : Path h p es none) {fuel : Nat} (hfuel : es.length ≤ fuel) :
    names h fuel p = es.map Prod.fst := by
  induction es generalizing p fuel with
  | nil =>
      obtain rfl := hpath
      simp only [names, List.map_nil]
  | cons e es ih =>
      obtain ⟨rfl, next, hlive, hrest⟩ := hpath
      cases fuel with
      | zero => exact absurd hfuel (Nat.not_succ_le_zero _)
      | succ fuel =>
          rw [names, node_eq hlive, Option.bind_some, ih hrest (Nat.le_of_succ_le_succ hfuel),
            List.map_cons]

end Path

/-! ## Queues -/

namespace Queue

theorem nil : Queue h none none ([] : List (Nat × α)) := ⟨rfl, rfl, List.nodup_nil⟩

theorem congr (hq : Queue h head tail es)
    (hsame : ∀ k ∈ es.map Prod.fst, h'.live k = h.live k) : Queue h' head tail es :=
  ⟨hq.path.congr hsame, hq.tail, hq.nodup⟩

theorem head_eq_none_iff (hq : Queue h head tail es) : head = none ↔ es = [] := by
  cases es with
  | nil => exact iff_of_true hq.path rfl
  | cons e es =>
      obtain ⟨hp, -⟩ := hq.path
      rw [hp]
      exact iff_of_false nofun (List.cons_ne_nil e es)

/-- A block that is not in use is not in the queue. -/
theorem not_mem (hq : Queue h head tail es) (hid : h.live id = none) :
    id ∉ es.map Prod.fst := by
  intro hmem
  obtain ⟨e, he, rfl⟩ := List.mem_map.mp hmem
  obtain ⟨next, hlive⟩ := hq.path.live he
  rw [hid] at hlive
  cases hlive

/-- A new node becomes the last one. -/
theorem push (hq : Queue h head tail es) (hnew : h.live id = some [⟨x, none⟩])
    (hid : id ∉ es.map Prod.fst) :
    ∃ h', link h id tail = some h' ∧
      Queue h' (if tail.isNone then some id else head) (some id) (es ++ [(id, x)]) ∧
      (∀ k, k ∉ es.map Prod.fst → h'.live k = h.live k) ∧
      (∀ k, (h'.live k).isSome = (h.live k).isSome) ∧
      (∀ k, valueAt h' k = valueAt h k) ∧ h'.freed = h.freed := by
  rcases List.eq_nil_or_concat es with rfl | ⟨front, ⟨last, y⟩, rfl⟩
  · obtain rfl := hq.tail
    exact ⟨h, rfl, ⟨⟨rfl, none, hnew, rfl⟩, rfl, List.nodup_singleton id⟩, fun _ _ => rfl,
      fun _ => rfl, fun _ => rfl, rfl⟩
  rw [List.concat_eq_append] at *
  obtain ⟨m, hfront, hp, next, hlast, hnext⟩ := Path.append.mp hq.path
  obtain rfl := hp
  obtain rfl : next = none := hnext
  have htail : tail = some last := by
    rw [hq.tail, List.getLast?_append, List.getLast?_singleton, Option.some_or, Option.map_some]
  have hnodup := hq.nodup
  rw [List.map_append, List.map_singleton, List.nodup_append] at hnodup
  rw [List.map_append, List.map_singleton, List.mem_append, List.mem_singleton, not_or] at hid
  obtain ⟨h', hstore, hlive, hother, hfreed⟩ :=
    @store_eq _ h last ⟨y, none⟩ { value := y, next := some id } hlast
  have hsame : ∀ k ∈ front.map Prod.fst, h'.live k = h.live k := fun k hk =>
    hother k (hnodup.2.2 k hk last (List.mem_singleton_self last))
  refine ⟨h', ?_, ⟨?_, ?_, ?_⟩, fun k hk => ?_, fun k => ?_, fun k => ?_, hfreed⟩
  · rw [htail, link, node_eq hlast, Option.bind_some, hstore]
  · rw [htail, Option.isNone_some, if_neg Bool.false_ne_true, Path.append]
    refine ⟨some id, Path.append.mpr ⟨some last, hfront.congr hsame, rfl, some id, hlive, rfl⟩,
      rfl, none, ?_, rfl⟩
    rw [hother id hid.2]
    exact hnew
  · rw [List.getLast?_append, List.getLast?_singleton, Option.some_or, Option.map_some]
  · rw [List.map_append, List.map_singleton, List.nodup_append]
    refine ⟨hq.nodup, List.nodup_singleton id, fun k hk k' hk' heq => ?_⟩
    rw [List.mem_singleton] at hk'
    rw [heq, hk', List.map_append, List.map_singleton, List.mem_append, List.mem_singleton] at hk
    exact hk.elim hid.1 hid.2
  · rw [List.map_append, List.map_singleton, List.mem_append, List.mem_singleton, not_or] at hk
    exact hother k hk.2
  · by_cases heq : k = last
    · rw [heq, hlive, hlast, Option.isSome_some, Option.isSome_some]
    · rw [hother k heq]
  · by_cases heq : k = last
    · rw [heq, valueAt_eq hlive, valueAt_eq hlast]
    · exact valueAt_congr (hother k heq)

/-- The first node leaves, and the queue has no last one if it was the last. -/
theorem pop (hq : Queue h head tail ((id, x) :: es)) :
    ∃ next, head = some id ∧ h.live id = some [⟨x, next⟩] ∧ id ∉ es.map Prod.fst ∧
      Queue h next (if head = tail then none else tail) es := by
  obtain ⟨hp, next, hlive, hrest⟩ := hq.path
  obtain ⟨hid, hnodup⟩ := List.nodup_cons.mp hq.nodup
  refine ⟨next, hp, hlive, hid, hrest, ?_, hnodup⟩
  rcases List.eq_nil_or_concat es with rfl | ⟨front, last, rfl⟩
  · rw [hp, hq.tail]
    exact if_pos rfl
  · rw [List.concat_eq_append] at *
    have htail : tail = some last.1 := by
      rw [hq.tail, ← List.cons_append, List.getLast?_append, List.getLast?_singleton,
        Option.some_or, Option.map_some]
    have hne : head ≠ tail := by
      rw [hp, htail]
      intro heq
      apply hid
      rw [Option.some.inj heq, List.map_append]
      exact List.mem_append_right _ (List.mem_singleton_self _)
    rw [if_neg hne, htail, List.getLast?_append, List.getLast?_singleton, Option.some_or,
      Option.map_some]

end Queue

end LinkedQueue
