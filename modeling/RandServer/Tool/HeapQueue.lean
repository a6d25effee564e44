import RandServer.Tool.Heap

/-!
# The heap as a priority queue

Runs that only call `heap_push` and `heap_pop` at index 0. The first cell is always the
largest or the smallest key, so these pops keep the order, and the array has a cell for
every key however often `check_gc` has made it smaller.
-/

namespace RandServer

open BinaryHeap Heap

namespace Heap

variable {hp hp' : Heap} {key index : Int} {grow gc : Realloc}

@[simp] theorem resize_bigHead (newSize : Nat) (r : Realloc) :
    (hp.resize newSize r).bigHead = hp.bigHead := by
  cases r <;> rfl

@[simp] theorem checkGc_bigHead : (checkGc hp gc).bigHead = hp.bigHead := by
  unfold checkGc
  split_ifs <;> simp

@[simp] theorem heapPush_bigHead : (heapPush hp key grow gc).bigHead = hp.bigHead := by
  unfold heapPush
  dsimp only
  split_ifs <;> simp

theorem heapPop_bigHead (h : heapPop hp index gc = some (key, hp')) :
    hp'.bigHead = hp.bigHead := by
  unfold heapPop at h
  split at h
  · cases h
  · cases h
    exact checkGc_bigHead

/-- A pop at index 0 finds nothing in an empty heap only. -/
theorem heapPop_zero_eq_none_iff : heapPop hp 0 gc = none ↔ hp.size = 0 := by
  unfold heapPop
  split
  · exact iff_of_true rfl (by omega)
  · exact iff_of_false nofun (by omega)

end Heap

/-- A heap, and the keys that have gone through it, the latest first. -/
structure HeapQueue where
  heap : Heap
  pushed : List Int
  popped : List Int

namespace HeapQueue

/-- A call with the contents of new cells where `realloc` is called. -/
inductive Action
  | push (key : Int) (grow gc : Nat → Int)
  | pop (gc : Nat → Int)

def step (s : HeapQueue) : Action → Option HeapQueue
  | .push key grow gc =>
      some { s with heap := heapPush s.heap key (some grow) (some gc), pushed := key :: s.pushed }
  | .pop gc => (heapPop s.heap 0 (some gc)).map fun res =>
      { s with heap := res.2, popped := res.1 :: s.popped }

/-- A push finds fewer than `2 ^ 31` keys. -/
def Room (s : HeapQueue) : Action → Prop
  | .push _ _ _ => s.heap.size < 2 ^ 31
  | .pop _ => True

instance (s : HeapQueue) : (i : Action) → Decidable (s.Room i)
  | .push _ _ _ => inferInstanceAs (Decidable (s.heap.size < 2 ^ 31))
  | .pop _ => .isTrue trivial

/-- The keys in the array. -/
def keys (s : HeapQueue) : List Int := contents s.heap.nodes s.heap.size

/-- The keys in the array are those that have been pushed and not popped, all of them lie
inside of the array, and a pop takes the largest or the smallest one. -/
structure Faithful (bigHead : Bool) (s : HeapQueue) : Prop where
  room : s.heap.size ≤ s.heap.maxSize
  stored : (s.keys ++ s.popped).Perm s.pushed
  empty : ∀ gc, heapPop s.heap 0 (some gc) = none ↔ s.keys = []
  first : ∀ gc key hp, heapPop s.heap 0 (some gc) = some (key, hp) →
    key ∈ s.keys ∧ ∀ k ∈ s.keys, if bigHead then k ≤ key else key ≤ k

/-- What a run keeps. -/
structure Inv (bigHead : Bool) (s : HeapQueue) : Prop where
  heap : s.heap.Inv
  ordered : s.heap.Ordered
  bigHead : s.heap.bigHead = bigHead
  stored : (s.keys ++ s.popped).Perm s.pushed

theorem keys_eq_nil_iff {s : HeapQueue} : s.keys = [] ↔ s.heap.size = 0 := by
  unfold keys contents
  simp only [List.map_eq_nil_iff, List.range_eq_nil]

end HeapQueue

/-- The calls of `heap_push` and `heap_pop` at index 0 whose `realloc` succeeds. -/
def heapQueue (bigHead : Bool) : Machine HeapQueue HeapQueue.Action where
  Init s := s = { heap := heapInit bigHead, pushed := [], popped := [] }
  step := HeapQueue.step

namespace HeapQueue

variable {bigHead : Bool} {s t : HeapQueue} {i : Action}

theorem Inv.step (h : s.Inv bigHead) (hroom : s.Room i)
    (ht : (heapQueue bigHead).step s i = some t) : t.Inv bigHead := by
  cases i with
  | push key grow gc =>
      cases ht
      obtain ⟨hheap, hord, hperm⟩ := heapPush_spec h.heap h.ordered hroom key grow gc
      refine ⟨hheap, hord, heapPush_bigHead.trans h.bigHead, ?_⟩
      have hkeys := hperm.append_right s.popped
      exact hkeys.trans (h.stored.cons key)
  | pop gc =>
      obtain ⟨⟨key, hp⟩, hpop, rfl⟩ := Option.map_eq_some_iff.mp ht
      obtain ⟨index, hzero, hindex⟩ := heapPop_index hpop
      obtain rfl : index = 0 := by omega
      obtain ⟨hp', hpop', hheap, hord, hperm⟩ := heapPop_spec h.heap h.ordered hindex gc
      have hres : (key, hp) = (s.heap.nodes 0, hp') := Option.some.inj (hpop.symm.trans hpop')
      obtain ⟨rfl, rfl⟩ := Prod.mk.inj hres
      refine ⟨hheap, hord.mpr (.inl rfl), (heapPop_bigHead hpop).trans h.bigHead, ?_⟩
      have hkeys : (contents hp.nodes hp.size ++ s.heap.nodes 0 :: s.popped).Perm
          (s.heap.nodes 0 :: contents hp.nodes hp.size ++ s.popped) := List.perm_middle
      exact (hkeys.trans (hperm.append_right s.popped)).trans h.stored

theorem Inv.of_run (h : (heapQueue bigHead).ReachableVia Room s) : s.Inv bigHead := by
  refine h.invariant ?_ fun _ _ _ hs hroom ht => hs.step hroom ht
  rintro s rfl
  exact ⟨.init bigHead, nofun, rfl, List.Perm.refl _⟩

/-- The first cell holds the extreme key. -/
theorem Inv.first (h : s.Inv bigHead) (hsize : 0 < s.heap.size) :
    s.heap.nodes 0 ∈ s.keys ∧
      ∀ k ∈ s.keys, if bigHead then k ≤ s.heap.nodes 0 else s.heap.nodes 0 ≤ k := by
  refine ⟨List.mem_map_of_mem (List.mem_range.mpr hsize), fun k hk => ?_⟩
  obtain ⟨i, hi, rfl⟩ := List.mem_map.mp hk
  have hroot := (Heap.ordered_iff.mp h.ordered).root (List.mem_range.mp hi)
  rwa [h.bigHead] at hroot

end HeapQueue

/-- In every run of pushes and pops at index 0 the heap holds the keys that have been pushed
and not popped, and a pop takes the largest or the smallest of them. -/
theorem heapQueue_faithful {bigHead : Bool} {s : HeapQueue}
    (h : (heapQueue bigHead).ReachableVia HeapQueue.Room s) : s.Faithful bigHead := by
  have hinv := HeapQueue.Inv.of_run h
  refine ⟨hinv.heap.size_le, hinv.stored, fun gc => ?_, fun gc key hp hpop => ?_⟩
  · exact heapPop_zero_eq_none_iff.trans HeapQueue.keys_eq_nil_iff.symm
  · obtain ⟨index, hzero, hindex⟩ := heapPop_index hpop
    obtain rfl : index = 0 := by omega
    obtain ⟨hp', hpop', -⟩ := heapPop_spec hinv.heap hinv.ordered hindex gc
    have hres : (key, hp) = (s.heap.nodes 0, hp') := Option.some.inj (hpop.symm.trans hpop')
    obtain ⟨rfl, -⟩ := Prod.mk.inj hres
    exact hinv.first hindex

/-- Pushes of nine keys, which make the array twice as large. -/
def queuePushes : List HeapQueue.Action :=
  [5, 3, 9, 1, 7, 2, 4, 8, 6].map (.push · (fun _ => 0) (fun _ => 0))

/-- The pops of all nine keys make the array smaller again. -/
theorem heapQueue_faithful_shrinks : ∃ s, (heapQueue true).runVia HeapQueue.Room
      { heap := heapInit true, pushed := [], popped := [] }
      (queuePushes ++ List.replicate 9 (.pop fun _ => 0)) = some s ∧
    s.heap.maxSize = 8 ∧ s.popped = [1, 2, 3, 4, 5, 6, 7, 8, 9] ∧ s.Faithful true := by
  have hany : ((heapQueue true).runVia HeapQueue.Room
      { heap := heapInit true, pushed := [], popped := [] }
      (queuePushes ++ List.replicate 9 (.pop fun _ => 0))).any (fun s =>
        s.heap.maxSize = 8 ∧ s.popped = [1, 2, 3, 4, 5, 6, 7, 8, 9]) = true := by
    decide +kernel
  obtain ⟨s, hrun, hs⟩ := (Option.any_eq_true _ _).mp hany
  obtain ⟨hmax, hpopped⟩ := of_decide_eq_true hs
  exact ⟨s, hrun, hmax, hpopped, heapQueue_faithful (.runVia (.init rfl) hrun)⟩

end RandServer
