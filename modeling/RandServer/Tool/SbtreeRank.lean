import RandServer.Tool.SbtreeDelete

/-!
# Rank and select in the size-balanced tree

The searches of `sbtree.c` go down one side at most nodes, although rotations leave equal
keys on both sides. Each of them is related to the sequence of the entries. The loop of
`sb_tree_index` has no test for a null pointer; its result is `none` if it reads through one.
-/

universe u v

namespace RandServer

open KeySeq SbTree

variable {κ : Type u} {β : Type v}

section Model

variable [LinearOrder κ]

def sbTreeFindCnt (key : κ) : SbTree κ β → Nat
  | .nil => 0
  | .node l k _ _ r =>
      if key < k then sbTreeFindCnt key l
      else if k < key then sbTreeFindCnt key r
      else u32 (1 + sbTreeFindCnt key l + sbTreeFindCnt key r)

def sbTreeLt (key : κ) : SbTree κ β → Nat
  | .nil => 0
  | .node l k _ _ r =>
      if k < key then u32 (l.size + 1 + sbTreeLt key r) else sbTreeLt key l

end Model

/-- The loop of `sb_tree_index`. -/
def sbTreeIndexLoop : SbTree κ β → Nat → Option (SbTree κ β)
  | .nil, _ => none
  | .node l k v s r, index =>
      if index = l.size then some (.node l k v s r)
      else if index < l.size then sbTreeIndexLoop l index
      else sbTreeIndexLoop r (sub32 index (u32 (l.size + 1)))

def sbTreeIndex (t : SbTree κ β) (index : Nat) : Option (SbTree κ β) :=
  if t.isNil then some .nil
  else if t.size ≤ index then some .nil
  else sbTreeIndexLoop t index

def sbTreeSize (t : SbTree κ β) : Nat := t.size

namespace SbTree

variable {t : SbTree κ β} {key : κ} {index : Nat}

theorem entry_eq_none_iff : t.entry = none ↔ t = nil := by
  cases t with
  | nil => exact ⟨fun _ => rfl, fun _ => rfl⟩
  | node l k v s r => exact ⟨nofun, nofun⟩

/-- The loop stays in the tree and ends at the entry with the index. -/
theorem Sized.indexLoop (hs : t.Sized) (hcount : t.count < 2 ^ 32) (hindex : index < t.count) :
    ∃ n, sbTreeIndexLoop t index = some n ∧ n.entry = t.inOrder[index]? := by
  induction t generalizing index with
  | nil => exact absurd hindex (Nat.not_lt_zero index)
  | node l k v s r ihl ihr =>
      have hl := hs.2.1.size_eq
      rw [count_node] at hcount hindex
      rw [sbTreeIndexLoop, inOrder, hl]
      split
      · rename_i heq
        refine ⟨_, rfl, ?_⟩
        rw [heq, count, List.getElem?_append_right (Nat.le_refl _), Nat.sub_self]
        rfl
      · split
        · rename_i hlt
          obtain ⟨n, hn, hentry⟩ := ihl hs.2.1 (by omega) hlt
          exact ⟨n, hn, hentry.trans (List.getElem?_append_left hlt).symm⟩
        · rename_i hne hnot
          have hsub : sub32 index (u32 (l.count + 1)) = index - l.count - 1 := by
            rw [u32_of_lt (by omega), sub32_of_le (by omega) (by omega), Nat.sub_sub]
          obtain ⟨n, hn, hentry⟩ := @ihr (index - l.count - 1) hs.2.2 (by omega) (by omega)
          refine ⟨n, by rw [hsub]; exact hn, ?_⟩
          rw [hentry, List.getElem?_append_right (Nat.le_of_not_lt hnot)]
          show _ = ((k, v) :: r.inOrder)[index - l.count]?
          rw [List.getElem?_cons, if_neg (by omega)]

/-- `sb_tree_index` selects from the sequence of the entries. -/
theorem Inv.select [LinearOrder κ] (h : t.Inv) (index : Nat) :
    ∃ n, sbTreeIndex t index = some n ∧ n.entry = t.inOrder[index]? := by
  rw [sbTreeIndex, h.sized.size_eq]
  split
  · rename_i hnil
    refine ⟨nil, rfl, ?_⟩
    rw [inOrder_of_count_zero (isNil_iff.mp hnil)]
    rfl
  · split
    · rename_i hle
      exact ⟨nil, rfl, (List.getElem?_eq_none hle).symm⟩
    · rename_i hnot
      exact h.sized.indexLoop h.count_lt (Nat.lt_of_not_le hnot)

section Counts

variable [LinearOrder κ]

theorem Sized.lt_eq (hs : t.Sized) (hcount : t.count < 2 ^ 32) (hord : Ordered t.inOrder) :
    sbTreeLt key t = t.inOrder.countP (·.1 < key) := by
  induction t with
  | nil => rfl
  | node l k v s r ihl ihr =>
      obtain ⟨hordl, hordr, -, -⟩ := ordered_node.mp hord
      rw [count_node] at hcount
      rw [sbTreeLt, inOrder, countP_lt_node hord]
      split
      · have hle : r.inOrder.countP (·.1 < key) ≤ r.count := List.countP_le_length
        rw [ihr hs.2.2 (by omega) hordr, hs.2.1.size_eq]
        exact u32_of_lt (by omega)
      · exact ihl hs.2.1 (by omega) hordl

theorem findCnt_eq (hcount : t.count < 2 ^ 32) (hord : Ordered t.inOrder) :
    sbTreeFindCnt key t = keyCount key t.inOrder := by
  induction t with
  | nil => rfl
  | node l k v s r ihl ihr =>
      obtain ⟨hordl, hordr, -, -⟩ := ordered_node.mp hord
      rw [count_node] at hcount
      have hl := ihl (by omega) hordl
      have hr := ihr (by omega) hordr
      rw [sbTreeFindCnt, inOrder]
      split
      · rename_i hlt
        exact hl.trans (keyCount_before hord hlt).symm
      · split
        · rename_i hlt
          exact hr.trans (keyCount_behind hord hlt).symm
        · rename_i hnot hnot'
          obtain rfl : k = key := le_antisymm (not_lt.mp hnot) (not_lt.mp hnot')
          have hlel : keyCount k l.inOrder ≤ l.count := List.countP_le_length
          have hler : keyCount k r.inOrder ≤ r.count := List.countP_le_length
          rw [hl, hr, u32_of_lt (by omega), keyCount_self]
          omega

/-- What `sb_tree_find` returns has the key. -/
theorem find_entry {n : SbTree κ β} (hn : sbTreeFind key t = n) :
    ∀ e ∈ n.entry, e.1 = key ∧ e ∈ t.inOrder := by
  induction t with
  | nil =>
      subst hn
      nofun
  | node l k v s r ihl ihr =>
      intro e he
      rw [sbTreeFind] at hn
      split at hn
      · obtain ⟨hkey, hmem⟩ := ihl hn e he
        exact ⟨hkey, List.mem_append_left _ hmem⟩
      · split at hn
        · obtain ⟨hkey, hmem⟩ := ihr hn e he
          exact ⟨hkey, List.mem_append_right _ (List.mem_cons_of_mem _ hmem)⟩
        · rename_i hnot hnot'
          subst hn
          obtain rfl : (k, v) = e := Option.some.inj he
          exact ⟨le_antisymm (not_lt.mp hnot) (not_lt.mp hnot'),
            List.mem_append_right _ List.mem_cons_self⟩

end Counts

/-- The searches agree with the sequence of the entries. -/
structure Ranked [LinearOrder κ] (t : SbTree κ β) : Prop where
  lt : ∀ key, sbTreeLt key t = t.inOrder.countP (·.1 < key)
  findCnt : ∀ key, sbTreeFindCnt key t = keyCount key t.inOrder
  find : ∀ key, (sbTreeFind key t ≠ nil ↔ 0 < sbTreeFindCnt key t) ∧
    ∀ e ∈ (sbTreeFind key t).entry, e.1 = key ∧ e ∈ t.inOrder
  size : sbTreeSize t = t.inOrder.length
  index : ∀ index, ∃ n, sbTreeIndex t index = some n ∧ n.entry = t.inOrder[index]? ∧
    (n = nil ↔ sbTreeSize t ≤ index)
  first : ∀ key, ∃ n, sbTreeIndex t (sbTreeLt key t) = some n ∧
    n.entry = t.inOrder.find? (key ≤ ·.1)

end SbTree

/-- Rank and select agree with the sorted sequence. -/
theorem sbTree_ranked [LinearOrder κ] {t : SbTree κ β} (h : t.Inv) : t.Ranked := by
  have hlt : ∀ key, sbTreeLt key t = t.inOrder.countP (·.1 < key) :=
    fun _ => h.sized.lt_eq h.count_lt h.ordered
  have hcnt : ∀ key, sbTreeFindCnt key t = keyCount key t.inOrder :=
    fun _ => findCnt_eq h.count_lt h.ordered
  refine ⟨hlt, hcnt, fun key => ⟨?_, find_entry rfl⟩, h.sized.size_eq, fun index => ?_,
    fun key => ?_⟩
  · rw [Ne, sbTreeFind_eq_nil_iff h.ordered, ← keyCount_eq_zero_iff, hcnt, Nat.pos_iff_ne_zero]
  · obtain ⟨n, hn, hentry⟩ := h.select index
    refine ⟨n, hn, hentry, ?_⟩
    rw [← entry_eq_none_iff, hentry, List.getElem?_eq_none_iff, sbTreeSize, h.sized.size_eq, count]
  · obtain ⟨n, hn, hentry⟩ := h.select (sbTreeLt key t)
    refine ⟨n, hn, ?_⟩
    rw [hentry, hlt, h.ordered.getElem?_countP]

/-- Three entries, two of them with the same key on both sides of each other. -/
theorem sbTree_ranked_three :
    (node (node nil 1 'a' 1 nil) 1 'b' 3 (node nil 2 'c' 1 nil)).Ranked := by
  refine sbTree_ranked ⟨⟨rfl, ⟨rfl, trivial, trivial⟩, rfl, trivial, trivial⟩, ?_, ?_⟩
  · decide
  · simp [Ordered, inOrder]

end RandServer
