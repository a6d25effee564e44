import RandServer.Tool.SbtreeDelete

/-!
# Insertion into the size-balanced tree

`sb_tree_insert` refines insertion into a sorted sequence, for trees that need not be
balanced. `sb_tree_main_tain` never reads the size of the root, and only copies it. So a
tree that gets `2 ^ 32` nodes is rebalanced like any other, but its root has a size of zero.
-/

universe u v

namespace RandServer

open KeySeq SbTree

variable {κ : Type u} {β : Type v}

namespace SbTree

/-- Another size for the root. -/
def withSize (s : Nat) : SbTree κ β → SbTree κ β
  | nil => nil
  | node l k v _ r => node l k v s r

@[simp] theorem inOrder_withSize (s : Nat) (t : SbTree κ β) : (t.withSize s).inOrder = t.inOrder := by
  cases t <;> rfl

@[simp] theorem count_withSize (s : Nat) (t : SbTree κ β) : (t.withSize s).count = t.count :=
  congrArg List.length (inOrder_withSize s t)

theorem Sized.withSize_count {t : SbTree κ β} (h : t.Sized) : t.withSize t.count = t := by
  cases t with
  | nil => rfl
  | node l k v s r => rw [withSize, count_node, ← h.1]

end SbTree

section MainTain

variable {fuel : Nat} {rightDeeper : Bool} {t : SbTree κ β}

theorem leftRotate_withSize (s : Nat) (t : SbTree κ β) :
    leftRotate (t.withSize s) = (leftRotate t).withSize s := by
  cases t with
  | nil => rfl
  | node l k v _ r => cases r <;> rfl

theorem rightRotate_withSize (s : Nat) (t : SbTree κ β) :
    rightRotate (t.withSize s) = (rightRotate t).withSize s := by
  cases t with
  | nil => rfl
  | node l k v _ r => cases l <;> rfl

theorem mainTainRotate_withSize (s : Nat) (rightDeeper : Bool) (t : SbTree κ β) :
    mainTainRotate rightDeeper (t.withSize s) =
      (mainTainRotate rightDeeper t).map (SbTree.withSize s) := by
  cases t with
  | nil => cases rightDeeper <;> rfl
  | node l k v _ r =>
      cases rightDeeper with
      | false =>
          cases l with
          | nil => rfl
          | node ll lk lv ls lr =>
              simp only [SbTree.withSize, mainTainRotate]
              split_ifs
              · rfl
              · exact congrArg some (rightRotate_withSize s (.node _ k v _ r))
              · rfl
      | true =>
          cases r with
          | nil => rfl
          | node rl rk rv rs rr =>
              simp only [SbTree.withSize, mainTainRotate]
              split_ifs
              · rfl
              · exact congrArg some (leftRotate_withSize s (.node l k v _ _))
              · rfl

theorem onOldRoot_withSize (s : Nat) (rightDeeper : Bool) (f : SbTree κ β → Option (SbTree κ β))
    (t : SbTree κ β) : onOldRoot rightDeeper f (t.withSize s) =
      (onOldRoot rightDeeper f t).map (SbTree.withSize s) := by
  cases t with
  | nil => cases rightDeeper <;> rfl
  | node l k v _ r =>
      cases rightDeeper with
      | false =>
          show (onLeft f r).map _ = ((onLeft f r).map _).map _
          rw [Option.map_map]
          rfl
      | true =>
          show (onRight f l).map _ = ((onRight f l).map _).map _
          rw [Option.map_map]
          rfl

/-- The size of the root is only copied. -/
theorem sbTreeMainTain_withSize (s : Nat) (t : SbTree κ β) :
    sbTreeMainTain fuel rightDeeper (t.withSize s) =
      (sbTreeMainTain fuel rightDeeper t).map (SbTree.withSize s) := by
  induction fuel generalizing rightDeeper t with
  | zero => rfl
  | succ fuel ih =>
      rw [sbTreeMainTain, sbTreeMainTain, mainTainRotate_withSize]
      cases mainTainRotate rightDeeper t with
      | none => rfl
      | some t =>
          simp only [Option.map_some, onOldRoot_withSize]
          cases onOldRoot rightDeeper (sbTreeMainTain fuel rightDeeper) t with
          | none => rfl
          | some t =>
              simp only [Option.map_some, Option.bind_eq_bind, Option.bind_some, ih]
              cases sbTreeMainTain fuel false t with
              | none => rfl
              | some t => exact ih t

/-- A node whose size has been raised is rebalanced, even if its size has wrapped to zero. -/
theorem sbTreeMainTain_grown {n : Nat} {l r : SbTree κ β} {k : κ} {v : β} {s : Nat}
    (hs : (node l k v s r).Sized) (hcount : s ≤ 2 ^ 32) (hn : s ≤ n) (hfuel : n * n < fuel) :
    ∃ t' : SbTree κ β, sbTreeMainTain fuel rightDeeper (node l k v (u32 s) r) =
      some (t'.withSize (u32 t'.count)) ∧ Reshaped (node l k v s r) t' := by
  have hsize : (node l k v s r).count = s := hs.size_eq.symm
  obtain ⟨t', ht, hshape⟩ := @sbTreeMainTain_total _ _ fuel rightDeeper _ n hs
    (by rw [hsize]; exact hcount) (by rw [hsize]; exact hn) hfuel
  refine ⟨t', ?_, hshape⟩
  rw [hshape.count_eq, hsize, ← Option.map_some (f := SbTree.withSize (u32 s)), ← ht,
    ← sbTreeMainTain_withSize]
  rfl

/-- Up to the size of the root the result is exact. -/
theorem SbTree.Sized.withSize_iff (h : t.Sized) (hpos : 0 < t.count) :
    (t.withSize (u32 t.count)).Sized ↔ t.count < 2 ^ 32 := by
  constructor
  · intro hs
    have hsize := hs.size_eq
    rw [count_withSize] at hsize
    cases t with
    | nil => exact absurd hpos (Nat.lt_irrefl 0)
    | node l k v s r =>
        rw [← hsize]
        exact Nat.mod_lt _ (by decide)
  · intro hlt
    rw [u32_of_lt hlt, h.withSize_count]
    exact h

end MainTain

/-! ## The refinement -/

section Refines

variable [LinearOrder κ] {fuel n : Nat} {key : κ} {value : β} {t t' : SbTree κ β}

/-- More fuel gives the same result. -/
theorem sbTreeInsertNode_mono {fuel' : Nat} (hle : fuel ≤ fuel')
    (ht : sbTreeInsertNode fuel key value t = some t') :
    sbTreeInsertNode fuel' key value t = some t' := by
  induction t generalizing t' with
  | nil => exact ht
  | node l k v s r ihl ihr =>
      rw [sbTreeInsertNode] at ht ⊢
      split at ht
      · rename_i hlt
        obtain ⟨l', hl, ht⟩ := Option.bind_eq_some_iff.mp ht
        simp only [if_pos hlt, ihl hl, Option.bind_eq_bind, Option.bind_some]
        exact sbTreeMainTain_mono hle ht
      · rename_i hnot
        obtain ⟨r', hr, ht⟩ := Option.bind_eq_some_iff.mp ht
        simp only [if_neg hnot, ihr hr, Option.bind_eq_bind, Option.bind_some]
        exact sbTreeMainTain_mono hle ht

/-- Insertion into a tree with exact sizes, up to the size of the root. -/
theorem sbTreeInsertNode_refines (hs : t.Sized) (hcount : t.count < 2 ^ 32)
    (hord : Ordered t.inOrder) (hn : t.count + 1 ≤ n) (hfuel : n * n < fuel) :
    ∃ t' : SbTree κ β, sbTreeInsertNode fuel key value t = some (t'.withSize (u32 t'.count)) ∧
      t'.Sized ∧ t'.inOrder = insertEntry (key, value) t.inOrder := by
  induction t with
  | nil => exact ⟨node nil key value 1 nil, rfl, ⟨rfl, trivial, trivial⟩, rfl⟩
  | node l k v s r ihl ihr =>
      obtain ⟨hsize, hl, hr⟩ := hs
      obtain ⟨hordl, hordr, hle, -⟩ := ordered_node.mp hord
      rw [count_node] at hcount hn
      rw [sbTreeInsertNode]
      split
      · rename_i hlt
        obtain ⟨l', hins, hl', hin⟩ := ihl hl (by omega) hordl (by omega)
        have hlen : l'.count = l.count + 1 := by
          rw [count, hin, insertEntry, List.orderedInsert_length]
          rfl
        rw [u32_of_lt (show l'.count < 2 ^ 32 by omega), hl'.withSize_count] at hins
        obtain ⟨t', ht, hshape⟩ := @sbTreeMainTain_grown _ _ fuel false n l' r k v (s + 1)
          ⟨by omega, hl', hr⟩ (by omega) (by omega) hfuel
        refine ⟨t', ?_, hshape.sized, ?_⟩
        · simp only [hins, Option.bind_eq_bind, Option.bind_some, ht]
        · rw [hshape.inOrder, SbTree.inOrder, SbTree.inOrder, hin, insertEntry_before hlt]
      · rename_i hnot
        obtain ⟨r', hins, hr', hin⟩ := ihr hr (by omega) hordr (by omega)
        have hlen : r'.count = r.count + 1 := by
          rw [count, hin, insertEntry, List.orderedInsert_length]
          rfl
        rw [u32_of_lt (show r'.count < 2 ^ 32 by omega), hr'.withSize_count] at hins
        obtain ⟨t', ht, hshape⟩ := @sbTreeMainTain_grown _ _ fuel true n l r' k v (s + 1)
          ⟨by omega, hl, hr'⟩ (by omega) (by omega) hfuel
        refine ⟨t', ?_, hshape.sized, ?_⟩
        · simp only [hins, Option.bind_eq_bind, Option.bind_some, ht]
        · have hkey := not_lt.mp hnot
          rw [hshape.inOrder, SbTree.inOrder, SbTree.inOrder, hin,
            insertEntry_behind (fun e he => le_trans (hle e he) hkey) hkey]

end Refines

/-- `sb_tree_insert` inserts into the sorted sequence of the entries. The sizes are exact
again unless the tree now has `2 ^ 32` nodes. -/
theorem sbTreeInsert_refines [LinearOrder κ] {t : SbTree κ β} (h : t.Inv) (key : κ) (value : β) :
    (∃ bound t', (∀ fuel, bound ≤ fuel → sbTreeInsert fuel true key value t = some t') ∧
      t'.inOrder = insertEntry (key, value) t.inOrder ∧ Ordered t'.inOrder ∧
      (t'.Sized ↔ t.count + 1 < 2 ^ 32)) ∧
    ∀ fuel, sbTreeInsert fuel false key value t = some t := by
  refine ⟨?_, fun _ => rfl⟩
  obtain ⟨t', ht, hs, hin⟩ := @sbTreeInsertNode_refines _ _ _ _ _ key value t h.sized h.count_lt
    h.ordered (Nat.le_refl _) (Nat.lt_succ_self _)
  have hcount : t'.count = t.count + 1 := by
    rw [count, hin, insertEntry, List.orderedInsert_length]
    rfl
  refine ⟨_, t'.withSize (u32 t'.count), fun fuel hfuel => sbTreeInsertNode_mono hfuel ht, ?_, ?_, ?_⟩
  · rw [inOrder_withSize, hin]
  · rw [inOrder_withSize, hin]
    exact insertEntry_ordered h.ordered _
  · rw [hs.withSize_iff (by omega), hcount]

/-- A key is inserted behind an equal one. -/
theorem sbTreeInsert_refines_equal : ∃ bound t',
    (∀ fuel, bound ≤ fuel →
      sbTreeInsert fuel true 1 'b' (node nil 1 'a' 2 (node nil 2 'c' 1 nil)) = some t') ∧
    t'.inOrder = [(1, 'a'), (1, 'b'), (2, 'c')] ∧ t'.Sized := by
  have hinv : (node nil 1 'a' 2 (node nil 2 'c' 1 nil)).Inv :=
    ⟨⟨rfl, trivial, rfl, trivial, trivial⟩, by decide, by simp [Ordered, inOrder]⟩
  obtain ⟨⟨bound, t', ht, hin, -, hs⟩, -⟩ := sbTreeInsert_refines hinv 1 'b'
  exact ⟨bound, t', ht, hin, hs.mpr (by decide)⟩

/-! ## A tree that is too large -/

/-- The tree of `height` levels without gaps, with a single key. -/
def fullTree : Nat → SbTree Nat Unit
  | 0 => nil
  | height + 1 => node (fullTree height) 0 () (2 ^ (height + 1) - 1) (fullTree height)

theorem count_fullTree (height : Nat) : (fullTree height).count = 2 ^ height - 1 := by
  induction height with
  | zero => rfl
  | succ height ih =>
      have hpos := Nat.two_pow_pos height
      rw [fullTree, count_node, ih, Nat.pow_succ]
      omega

theorem fullTree_key (height : Nat) : ∀ e ∈ (fullTree height).inOrder, e.1 = 0 := by
  induction height with
  | zero => nofun
  | succ height ih =>
      intro e he
      rw [fullTree, inOrder, List.mem_append, List.mem_cons] at he
      obtain he | rfl | he := he
      · exact ih e he
      · rfl
      · exact ih e he

theorem fullTree_sized (height : Nat) : (fullTree height).Sized := by
  induction height with
  | zero => trivial
  | succ height ih =>
      have hpos := Nat.two_pow_pos height
      refine ⟨?_, ih, ih⟩
      rw [count_fullTree, Nat.pow_succ]
      omega

theorem fullTree_ordered (height : Nat) : Ordered (fullTree height).inOrder := by
  induction height with
  | zero => exact List.Pairwise.nil
  | succ height ih =>
      have hkey := fullTree_key height
      exact ordered_node.mpr ⟨ih, ih, fun e he => (hkey e he).le, fun e he => (hkey e he).ge⟩

/-- Insertion into the tree of 32 levels leaves a root with a wrong size. -/
theorem sbTreeInsert_wraps : (fullTree 32).Inv ∧
    ∀ fuel t', sbTreeInsert fuel true 0 () (fullTree 32) = some t' → ¬ t'.Sized := by
  have hinv : (fullTree 32).Inv :=
    ⟨fullTree_sized 32, by rw [count_fullTree]; decide, fullTree_ordered 32⟩
  refine ⟨hinv, fun fuel t' ht => ?_⟩
  obtain ⟨t'', ht'', hs, hin⟩ := @sbTreeInsertNode_refines _ _ _ _ _ 0 () (fullTree 32) hinv.sized
    hinv.count_lt hinv.ordered (Nat.le_refl _) (Nat.lt_succ_of_le (Nat.le_add_right _ fuel))
  have hcount : t''.count = 2 ^ 32 := by
    rw [count, hin, insertEntry, List.orderedInsert_length, ← count, count_fullTree]
    rfl
  obtain rfl := Option.some.inj (ht''.symm.trans
    (sbTreeInsertNode_mono (Nat.le_succ_of_le (Nat.le_add_left fuel _)) ht))
  rw [hs.withSize_iff (by rw [hcount]; decide), hcount]
  exact Nat.lt_irrefl _

end RandServer
