import RandServer.Lib.SizeBalance
import RandServer.Tool.SbtreeInsert

/-!
# Balance of the size-balanced tree

In a balanced tree `sb_tree_main_tain` makes at most one rotation at each node of the
path, and all its recursive calls find nothing to do. So the shape of the tree changes
as in `SizeBalance`. A rotation lowers the old root next to subtrees that it is not
compared with again, and this is where the balance can be lost.
-/

universe u v

namespace RandServer

open KeySeq SbTree
open SizeBalance (child join Fits Settled rotate tend Rests grow shrink)

variable {κ : Type u} {β : Type v}

namespace SbTree

/-- The size is at least the sizes of both children of the other tree. -/
def Covers (t : SbTree κ β) : SbTree κ β → Prop
  | nil => True
  | node l _ _ _ r => l.size ≤ t.size ∧ r.size ≤ t.size

/-- At every node each child covers the other one. -/
def Balanced : SbTree κ β → Prop
  | nil => True
  | node l _ _ _ r => l.Covers r ∧ r.Covers l ∧ l.Balanced ∧ r.Balanced

instance : (t : SbTree κ β) → Decidable t.Sized
  | nil => .isTrue trivial
  | node l _ _ s r =>
      have := instDecidableSized l
      have := instDecidableSized r
      inferInstanceAs (Decidable (s = l.count + r.count + 1 ∧ l.Sized ∧ r.Sized))

instance (t : SbTree κ β) : (u : SbTree κ β) → Decidable (t.Covers u)
  | nil => .isTrue trivial
  | node l _ _ _ r => inferInstanceAs (Decidable (l.size ≤ t.size ∧ r.size ≤ t.size))

instance : (t : SbTree κ β) → Decidable t.Balanced
  | nil => .isTrue trivial
  | node l _ _ _ r =>
      have := instDecidableBalanced l
      have := instDecidableBalanced r
      inferInstanceAs (Decidable (l.Covers r ∧ r.Covers l ∧ l.Balanced ∧ r.Balanced))

def shape : SbTree κ β → SizeBalance.Shape
  | nil => .nil
  | node l _ _ _ r => .node () l.shape r.shape

section Shape

variable {d : Bool} {l r t u : SbTree κ β} {k : κ} {v : β} {s : Nat}

theorem shape_node (d : Bool) : (node l k v s r).shape =
    join d (if d then r.shape else l.shape) (if d then l.shape else r.shape) := by
  cases d <;> rfl

@[simp] theorem numNodes_shape (t : SbTree κ β) : t.shape.numNodes = t.count := by
  induction t with
  | nil => rfl
  | node l k v s r ihl ihr => rw [shape, BinaryTree.numNodes, ihl, ihr, count_node]

theorem shape_node_ne_nil : (node l k v s r).shape ≠ .nil := by
  intro hnil
  cases hnil

theorem shape_eq_nil_iff : t.shape = .nil ↔ t.isNil = true := by
  cases t with
  | nil => exact ⟨fun _ => rfl, fun _ => rfl⟩
  | node l k v s r => exact ⟨nofun, nofun⟩

@[simp] theorem balanced_withSize (s : Nat) (t : SbTree κ β) :
    (t.withSize s).Balanced ↔ t.Balanced := by
  cases t <;> rfl

theorem Sized.covers_iff (ht : t.Sized) (hu : u.Sized) :
    t.Covers u ↔ Fits t.shape.numNodes u.shape := by
  cases u with
  | nil => exact iff_of_true trivial (SizeBalance.fits_nil _)
  | node l k v s r =>
      rw [shape_node false, SizeBalance.fits_join, Covers, ht.size_eq, hu.2.1.size_eq, hu.2.2.size_eq]
      simp only [numNodes_shape, Bool.false_eq_true, if_false]

/-- With exact sizes the balance is that of the shape. -/
theorem Sized.balanced_iff (h : t.Sized) : t.Balanced ↔ SizeBalance.Balanced t.shape := by
  induction t with
  | nil => exact Iff.rfl
  | node l k v s r ihl ihr =>
      obtain ⟨-, hl, hr⟩ := h
      rw [shape_node false, SizeBalance.balanced_join, Balanced, hl.covers_iff hr, hr.covers_iff hl,
        ihl hl, ihr hr]
      simp only [Bool.false_eq_true, if_false]
      exact and_left_comm

end Shape

end SbTree

/-! ## Rebalancing -/

section MainTain

variable {fuel : Nat} {d : Bool} {t t' : SbTree κ β}

theorem shape_mainTainRotate (hs : t.Sized) :
    (mainTainRotate d t).map SbTree.shape = rotate d t.shape := by
  cases t with
  | nil => cases d <;> rfl
  | node l k v s r =>
      obtain ⟨-, hl, hr⟩ := hs
      cases d with
      | false =>
          cases l with
          | nil => rfl
          | node ll lk lv ls lr =>
              simp only [mainTainRotate, hr.size_eq, hl.2.1.size_eq, hl.2.2.size_eq,
                ← numNodes_shape]
              rw [apply_ite (Option.map SbTree.shape), apply_ite (Option.map SbTree.shape)]
              cases lr <;> rfl
      | true =>
          cases r with
          | nil => rfl
          | node rl rk rv rs rr =>
              simp only [mainTainRotate, hl.size_eq, hr.2.1.size_eq, hr.2.2.size_eq,
                ← numNodes_shape]
              rw [apply_ite (Option.map SbTree.shape), apply_ite (Option.map SbTree.shape)]
              cases rl <;> rfl

theorem sbTreeMainTain_settled (hs : t.Sized) (hset : Settled d t.shape) :
    sbTreeMainTain (fuel + 1) d t = some t := by
  have hrot := shape_mainTainRotate (d := d) hs
  rw [SizeBalance.rotate_eq_none_iff.mpr hset, Option.map_eq_none_iff] at hrot
  rw [sbTreeMainTain, hrot]

theorem onOldRoot_settled (hs : t.Sized) (hne : child (!d) t.shape ≠ .nil)
    (hset : Settled d (child d (child (!d) t.shape))) :
    onOldRoot d (sbTreeMainTain (fuel + 1) d) t = some t := by
  cases t with
  | nil => exact absurd (SizeBalance.child_nil _) hne
  | node l k v s r =>
      obtain ⟨-, hl, hr⟩ := hs
      cases d with
      | false =>
          cases r with
          | nil => exact absurd rfl hne
          | node rl rk rv rs rr =>
              have hfix : sbTreeMainTain (fuel + 1) false rl = some rl :=
                sbTreeMainTain_settled hr.2.1 hset
              simp only [onOldRoot, Bool.false_eq_true, if_false, onRight, onLeft, hfix,
                Option.map_some]
      | true =>
          cases l with
          | nil => exact absurd rfl hne
          | node ll lk lv ls lr =>
              have hfix : sbTreeMainTain (fuel + 1) true lr = some lr :=
                sbTreeMainTain_settled hl.2.2 hset
              simp only [onOldRoot, if_true, onRight, onLeft, hfix, Option.map_some]

/-- If the rotation leaves nothing to do, then `sb_tree_main_tain` is that rotation. -/
theorem sbTreeMainTain_tend (hs : t.Sized) (hcount : t.count ≤ 2 ^ 32)
    (hrests : ∀ s', rotate d t.shape = some s' → Rests d s') :
    ∃ t', sbTreeMainTain (fuel + 2) d t = some t' ∧ t'.Sized ∧ t'.shape = tend d t.shape := by
  have hmap := shape_mainTainRotate (d := d) hs
  cases hrot : mainTainRotate d t with
  | none =>
      rw [hrot, Option.map_none, eq_comm, SizeBalance.rotate_eq_none_iff] at hmap
      exact ⟨t, sbTreeMainTain_settled hs hmap, hs, (SizeBalance.tend_of_settled hmap).symm⟩
  | some t' =>
      rw [hrot, Option.map_some, eq_comm] at hmap
      obtain ⟨-, hs', -⟩ := mainTainRotate_spec hs hcount hrot
      obtain ⟨hlowered, hroot⟩ := hrests _ hmap
      refine ⟨t', ?_, hs', (SizeBalance.tend_of_rotate hmap).symm⟩
      rw [sbTreeMainTain, hrot]
      simp only [onOldRoot_settled hs' (SizeBalance.child_ne_nil_of_rotate hmap) hlowered,
        sbTreeMainTain_settled hs' (hroot false), sbTreeMainTain_settled hs' (hroot true),
        Option.bind_eq_bind, Option.bind_some]

/-- The same for a node whose size has been raised and may have wrapped. -/
theorem sbTreeMainTain_tend_grown {l r : SbTree κ β} {k : κ} {v : β} {s : Nat}
    (hs : (node l k v s r).Sized) (hcount : s ≤ 2 ^ 32)
    (hrests : ∀ s', rotate d (node l k v s r).shape = some s' → Rests d s') :
    ∃ t' : SbTree κ β, sbTreeMainTain (fuel + 2) d (node l k v (u32 s) r) =
      some (t'.withSize (u32 t'.count)) ∧ t'.Sized ∧ t'.shape = tend d (node l k v s r).shape := by
  have hsize : (node l k v s r).count = s := hs.size_eq.symm
  obtain ⟨t', ht, hs', hshape⟩ := @sbTreeMainTain_tend _ _ fuel d _ hs (hsize ▸ hcount) hrests
  have hcount' : t'.count = s := by
    rw [← numNodes_shape, hshape, SizeBalance.numNodes_tend, numNodes_shape, hsize]
  refine ⟨t', ?_, hs', hshape⟩
  rw [hcount', ← Option.map_some (f := SbTree.withSize (u32 s)), ← ht, ← sbTreeMainTain_withSize]
  rfl

end MainTain

/-! ## Insertion -/

section Insert

variable [LinearOrder κ] {fuel : Nat} {key : κ} {value : β} {t : SbTree κ β}

/-- The sides that `sb_tree_insert_node` takes, `true` for the right one. -/
def insertPath (key : κ) : SbTree κ β → List Bool
  | .nil => []
  | .node l k _ _ r => if key < k then false :: insertPath key l else true :: insertPath key r

theorem endsAtNil_insertPath (key : κ) (t : SbTree κ β) :
    SizeBalance.EndsAtNil (insertPath key t) t.shape := by
  induction t with
  | nil => rfl
  | node l k v s r ihl ihr =>
      rw [insertPath]
      split
      · exact ⟨shape_node_ne_nil, ihl⟩
      · exact ⟨shape_node_ne_nil, ihr⟩

/-- Insertion changes the shape by growth along the path of the key. -/
theorem sbTreeInsertNode_shape (hs : t.Sized) (hcount : t.count < 2 ^ 32)
    (hb : SizeBalance.Balanced t.shape) :
    ∃ t' : SbTree κ β, sbTreeInsertNode (fuel + 2) key value t =
      some (t'.withSize (u32 t'.count)) ∧ t'.Sized ∧
      t'.shape = grow (insertPath key t) t.shape := by
  induction t with
  | nil => exact ⟨node nil key value 1 nil, rfl, ⟨rfl, trivial, trivial⟩, rfl⟩
  | node l k v s r ihl ihr =>
      obtain ⟨hsize, hl, hr⟩ := hs
      rw [count_node] at hcount
      rw [sbTreeInsertNode, insertPath]
      split
      · rename_i hlt
        have hpath := endsAtNil_insertPath key l
        obtain ⟨l', hins, hl', hshape⟩ := ihl hl (by omega) (hb.child false)
        have hlen : l'.count = l.count + 1 := by
          rw [← numNodes_shape, hshape, SizeBalance.numNodes_grow hpath, numNodes_shape]
        rw [u32_of_lt (show l'.count < 2 ^ 32 by omega), hl'.withSize_count] at hins
        obtain ⟨t', ht, hs', hshape'⟩ :
            ∃ t' : SbTree κ β, sbTreeMainTain (fuel + 2) false (node l' k v (u32 (s + 1)) r) =
              some (t'.withSize (u32 t'.count)) ∧ t'.Sized ∧
              t'.shape = tend false (node l' k v (s + 1) r).shape := by
          refine sbTreeMainTain_tend_grown ⟨by omega, hl', hr⟩ (by omega) fun s' hrot => ?_
          rw [shape, hshape] at hrot
          exact SizeBalance.rests_of_growth (d := false) hb hpath hrot
        refine ⟨t', ?_, hs', ?_⟩
        · simp only [hins, Option.bind_eq_bind, Option.bind_some, ht]
        · rw [hshape', shape, hshape]
          rfl
      · rename_i hnot
        have hpath := endsAtNil_insertPath key r
        obtain ⟨r', hins, hr', hshape⟩ := ihr hr (by omega) (hb.child true)
        have hlen : r'.count = r.count + 1 := by
          rw [← numNodes_shape, hshape, SizeBalance.numNodes_grow hpath, numNodes_shape]
        rw [u32_of_lt (show r'.count < 2 ^ 32 by omega), hr'.withSize_count] at hins
        obtain ⟨t', ht, hs', hshape'⟩ :
            ∃ t' : SbTree κ β, sbTreeMainTain (fuel + 2) true (node l k v (u32 (s + 1)) r') =
              some (t'.withSize (u32 t'.count)) ∧ t'.Sized ∧
              t'.shape = tend true (node l k v (s + 1) r').shape := by
          refine sbTreeMainTain_tend_grown ⟨by omega, hl, hr'⟩ (by omega) fun s' hrot => ?_
          rw [shape, hshape] at hrot
          exact SizeBalance.rests_of_growth (d := true) hb hpath hrot
        refine ⟨t', ?_, hs', ?_⟩
        · simp only [hins, Option.bind_eq_bind, Option.bind_some, ht]
        · rw [hshape', shape, hshape]
          rfl

end Insert

/-! ## Deletion -/

section Shrunk

variable {fuel : Nat} {t : SbTree κ β}

/-- The path to the last entry. -/
def lastPath : SbTree κ β → List Bool
  | .nil => []
  | .node _ _ _ _ r => if r.isNil then [] else true :: lastPath r

theorem endsAtNode_lastPath (ht : t.isNil = false) :
    SizeBalance.EndsAtNode (lastPath t) t.shape := by
  induction t with
  | nil => cases ht
  | node l k v s r _ ihr =>
      rw [lastPath]
      split
      · rename_i hr
        exact ⟨shape_node_ne_nil, true, shape_eq_nil_iff.mpr hr⟩
      · rename_i hr
        exact ⟨shape_node_ne_nil, ihr (Bool.eq_false_iff.mpr hr)⟩

theorem shape_of_count_one (h : t.count = 1) : t.shape = .node () .nil .nil := by
  cases t with
  | nil => cases h
  | node l k v s r =>
      rw [count_node] at h
      rw [shape, shape_eq_nil_iff.mpr (isNil_iff.mpr (show l.count = 0 by omega)),
        shape_eq_nil_iff.mpr (isNil_iff.mpr (show r.count = 0 by omega))]

/-- In a balanced tree only a node of size one or two has no left child. -/
theorem left_of_balanced {l r : SbTree κ β} {k : κ} {v : β} {s : Nat}
    (hs : (node l k v s r).Sized) (hb : SizeBalance.Balanced (node l k v s r).shape)
    (hsize : 2 < s) : l.isNil = false := by
  cases l with
  | node => rfl
  | nil =>
      obtain ⟨hfit, -⟩ := (SizeBalance.balanced_join true).mp hb
      cases r with
      | nil => exact absurd hs.1 (by rw [count_nil]; omega)
      | node rl rk rv rs rr =>
          have hl := hfit false
          have hr := hfit true
          have hcount := hs.1
          simp only [child, shape, Bool.false_eq_true, if_false, if_true, BinaryTree.left,
            BinaryTree.right, numNodes_shape, BinaryTree.numNodes] at hl hr
          rw [count_nil, count_node] at hcount
          omega

/-- Rebalancing after an entry of the left subtree has been taken out. -/
theorem sbTreeMainTain_shrunk_left {l l' r : SbTree κ β} {k k' : κ} {v v' : β} {s : Nat}
    {p : List Bool} (hs : (node l k v s r).Sized) (hcount : s < 2 ^ 32)
    (hb : SizeBalance.Balanced (node l k v s r).shape) (hp : SizeBalance.EndsAtNode p l.shape)
    (hl : l'.Sized) (hshape : l'.shape = shrink p l.shape) :
    ∃ t' : SbTree κ β, sbTreeMainTain (fuel + 2) true (node l' k' v' (sub32 s 1) r) = some t' ∧
      t'.Sized ∧ t'.shape = shrink (false :: p) (node l k v s r).shape := by
  have hlen : l'.count + 1 = l.count := by
    rw [← numNodes_shape, hshape, SizeBalance.numNodes_shrink hp, numNodes_shape]
  have hs' : (node l' k' v' (sub32 s 1) r).Sized := hs.shrink_left hcount hl hlen
  have hsize := hs.1
  obtain ⟨t', ht, hst, hshape'⟩ := @sbTreeMainTain_tend _ _ fuel true _ hs'
    (by rw [count_node]; omega) (fun s' hrot => by
      rw [shape, hshape] at hrot
      exact SizeBalance.rests_of_removal (d := true) hb hp hrot)
  refine ⟨t', ht, hst, ?_⟩
  rw [hshape', shape, hshape]
  rfl

theorem sbTreeMainTain_shrunk_right {l r r' : SbTree κ β} {k : κ} {v : β} {s : Nat}
    {p : List Bool} (hs : (node l k v s r).Sized) (hcount : s < 2 ^ 32)
    (hb : SizeBalance.Balanced (node l k v s r).shape) (hp : SizeBalance.EndsAtNode p r.shape)
    (hr : r'.Sized) (hshape : r'.shape = shrink p r.shape) :
    ∃ t' : SbTree κ β, sbTreeMainTain (fuel + 2) false (node l k v (sub32 s 1) r') = some t' ∧
      t'.Sized ∧ t'.shape = shrink (true :: p) (node l k v s r).shape := by
  have hlen : r'.count + 1 = r.count := by
    rw [← numNodes_shape, hshape, SizeBalance.numNodes_shrink hp, numNodes_shape]
  have hs' : (node l k v (sub32 s 1) r').Sized := hs.shrink_right hcount hr hlen
  have hsize := hs.1
  obtain ⟨t', ht, hst, hshape'⟩ := @sbTreeMainTain_tend _ _ fuel false _ hs'
    (by rw [count_node]; omega) (fun s' hrot => by
      rw [shape, hshape] at hrot
      exact SizeBalance.rests_of_removal (d := false) hb hp hrot)
  refine ⟨t', ht, hst, ?_⟩
  rw [hshape', shape, hshape]
  rfl

end Shrunk

section Delete

variable [LinearOrder κ] {fuel : Nat} {key : κ} {t : SbTree κ β}

/-- The path to the node that `sb_tree_delete` takes out, if the key occurs. From a node
of size three or more it goes on to the last entry of the left subtree. -/
def deletePath (key : κ) : SbTree κ β → Option (List Bool)
  | .nil => none
  | .node l k _ s r =>
      if key = k then some (if s ≤ 2 then [] else false :: lastPath l)
      else if key < k then (deletePath key l).map (false :: ·)
      else (deletePath key r).map (true :: ·)

theorem endsAtNode_deletePath (hs : t.Sized) (hb : SizeBalance.Balanced t.shape) :
    ∀ p ∈ deletePath key t, SizeBalance.EndsAtNode p t.shape := by
  induction t with
  | nil =>
      intro p hp
      cases hp
  | node l k v s r ihl ihr =>
      intro p hp
      rw [deletePath] at hp
      split_ifs at hp with heq hsize hlt
      · obtain rfl := Option.some.inj hp
        refine ⟨shape_node_ne_nil, ?_⟩
        by_cases hl : l.isNil = true
        · exact ⟨false, shape_eq_nil_iff.mpr hl⟩
        · refine ⟨true, shape_eq_nil_iff.mpr (isNil_iff.mpr ?_)⟩
          have hcount := hs.1
          rw [isNil_iff] at hl
          omega
      · obtain rfl := Option.some.inj hp
        exact ⟨shape_node_ne_nil, endsAtNode_lastPath (left_of_balanced hs hb (by omega))⟩
      · obtain ⟨q, hq, rfl⟩ := Option.map_eq_some_iff.mp hp
        exact ⟨shape_node_ne_nil, ihl hs.2.1 (hb.child false) q hq⟩
      · obtain ⟨q, hq, rfl⟩ := Option.map_eq_some_iff.mp hp
        exact ⟨shape_node_ne_nil, ihr hs.2.2 (hb.child true) q hq⟩

theorem sbTreeDeleteNode_last_shape (hs : t.Sized) (hcount : t.count < 2 ^ 32)
    (hb : SizeBalance.Balanced t.shape) (hne : t.isNil = false) :
    ∃ e t', sbTreeDeleteNode (fuel + 2) key true t = some (some e, t') ∧ t'.Sized ∧
      t'.shape = shrink (lastPath t) t.shape := by
  induction t with
  | nil => cases hne
  | node l k v s r _ ihr =>
      cases hnil : r.isNil with
      | true =>
          refine ⟨(k, v), l, ?_, hs.2.1, ?_⟩
          · simp only [sbTreeDeleteNode, hnil, Bool.and_self, if_true]
          · rw [lastPath, if_pos hnil]
            have hchild : child true (node l k v s r).shape = .nil := shape_eq_nil_iff.mpr hnil
            exact (SizeBalance.shrink_nil hchild).symm
      | false =>
          rw [count_node] at hcount
          obtain ⟨e, r', hdel, hr', hshape⟩ := ihr hs.2.2 (by omega) (hb.child true) hnil
          obtain ⟨t', ht, hst, hshape'⟩ :=
            @sbTreeMainTain_shrunk_right _ _ fuel _ _ _ _ _ _ _ hs (by rw [hs.1]; exact hcount) hb
              (endsAtNode_lastPath hnil) hr' hshape
          refine ⟨e, t', ?_, hst, ?_⟩
          · simp [sbTreeDeleteNode, hnil, hdel, ht]
          · rw [hshape', lastPath, if_neg (Bool.eq_false_iff.mp hnil)]

theorem sbTreeDeleteNode_found_shape {l r : SbTree κ β} {v : β} {s : Nat}
    (hs : (node l key v s r).Sized) (hcount : s < 2 ^ 32)
    (hb : SizeBalance.Balanced (node l key v s r).shape) :
    ∃ e t', sbTreeDeleteNode (fuel + 2) key false (node l key v s r) = some (some e, t') ∧
      t'.Sized ∧
      t'.shape = shrink (if s ≤ 2 then [] else false :: lastPath l) (node l key v s r).shape := by
  have hsize := hs.1
  by_cases hone : s = 1
  · refine ⟨(key, v), nil, ?_, trivial, ?_⟩
    · simp [sbTreeDeleteNode, hone]
    · have hl : l.shape = .nil := shape_eq_nil_iff.mpr (isNil_iff.mpr (by omega))
      have hr : r.shape = .nil := shape_eq_nil_iff.mpr (isNil_iff.mpr (by omega))
      rw [if_pos (show s ≤ 2 by omega)]
      simp only [shape, hl, hr]
      rfl
  by_cases htwo : s = 2
  · obtain ⟨e, hrecord, hchild⟩ : ∃ e, (if l.isNil then r.entry else l.entry) = some e ∧
        shrink [] (node l key v s r).shape = .node () .nil .nil := by
      cases hnil : l.isNil with
      | true =>
          have hl : child false (node l key v s r).shape = .nil := shape_eq_nil_iff.mpr hnil
          rw [isNil_iff] at hnil
          obtain ⟨rk, rv, hentry, -⟩ := entry_of_count_one (t := r) (by omega)
          refine ⟨(rk, rv), hentry, ?_⟩
          rw [SizeBalance.shrink_nil hl]
          exact shape_of_count_one (by omega)
      | false =>
          have hl := Bool.eq_false_iff.mp hnil
          rw [Ne, isNil_iff] at hl
          have hr : child true (node l key v s r).shape = .nil :=
            shape_eq_nil_iff.mpr (isNil_iff.mpr (by omega))
          obtain ⟨lk, lv, hentry, -⟩ := entry_of_count_one (t := l) (by omega)
          refine ⟨(lk, lv), hentry, ?_⟩
          rw [SizeBalance.shrink_nil hr]
          exact shape_of_count_one (by omega)
    refine ⟨e, node nil e.1 e.2 1 nil, ?_, ⟨rfl, trivial, trivial⟩, ?_⟩
    · have hleaf (d : Bool) : sbTreeMainTain (fuel + 2) d (node nil e.1 e.2 1 nil) =
          some (node nil e.1 e.2 1 nil) :=
        sbTreeMainTain_settled ⟨rfl, trivial, trivial⟩ (by cases d <;> exact SizeBalance.fits_nil _)
      have hsub : sub32 s 1 = 1 := by rw [htwo, sub32_of_le (by decide) (by decide)]
      rw [sbTreeDeleteNode, if_neg (by simp), if_pos (by simp), if_neg hone, sbTreeRecord,
        if_pos htwo, hrecord]
      simp only [Option.bind_eq_bind, Option.bind_some, Option.getD_some, hsub, hleaf]
    · rw [if_pos (by omega), hchild]
      rfl
  · have hnil := left_of_balanced hs hb (by omega)
    obtain ⟨e, l', hdel, hl, hshape⟩ := @sbTreeDeleteNode_last_shape _ _ _ fuel key l hs.2.1
      (by omega) (hb.child false) hnil
    have hp := endsAtNode_lastPath hnil
    obtain ⟨t', ht, hst, hshape'⟩ := @sbTreeMainTain_shrunk_left _ _ fuel _ _ _ key e.1 v e.2 _ _
      hs hcount hb hp hl hshape
    have hset : ∀ d, Settled d t'.shape := by
      rw [hshape']
      exact (SizeBalance.shrunk (p := false :: lastPath l) hb ⟨shape_node_ne_nil, hp⟩).settled
    refine ⟨e, t', ?_, hst, ?_⟩
    · rw [sbTreeDeleteNode, if_neg (by simp), if_pos (by simp), if_neg hone]
      simp only [sbTreeRecord, if_neg htwo, hdel, Option.map_some, Option.getD_some, ht,
        Option.bind_eq_bind, Option.bind_some, sbTreeMainTain_settled hst (hset _)]
    · rw [hshape', if_neg (by omega)]

/-- Deletion changes the shape by a removal at the end of the path of the key, if there is
one. -/
theorem sbTreeDeleteNode_shape (hs : t.Sized) (hcount : t.count < 2 ^ 32)
    (hb : SizeBalance.Balanced t.shape) :
    ∃ record t', sbTreeDeleteNode (fuel + 2) key false t = some (record, t') ∧ t'.Sized ∧
      (deletePath key t = none ∧ record = none ∧ t'.shape = t.shape ∨
        ∃ p, deletePath key t = some p ∧ record.isSome = true ∧ t'.shape = shrink p t.shape) := by
  induction t with
  | nil => exact ⟨none, nil, rfl, trivial, .inl ⟨rfl, rfl, rfl⟩⟩
  | node l k v s r ihl ihr =>
      have hnot : ¬ (none : Option (κ × β)).isSome = true := Bool.false_ne_true
      have hsize := hs.1
      rw [count_node] at hcount
      obtain hlt | rfl | hlt := lt_trichotomy key k
      · have hpath : deletePath key (node l k v s r) = (deletePath key l).map (false :: ·) := by
          rw [deletePath, if_neg hlt.ne, if_pos hlt]
        obtain ⟨record, l', hrec, hl', ⟨hnone, rfl, hshape⟩ | ⟨p, hsome, hrecord, hshape⟩⟩ :=
          ihl hs.2.1 (by omega) (hb.child false)
        · have hlen : l'.count = l.count := by rw [← numNodes_shape, hshape, numNodes_shape]
          have heq : (node l' k v s r).shape = (node l k v s r).shape := by
            rw [shape, hshape, shape]
          have hst := hs.replace_left hl' hlen
          have ht : sbTreeMainTain (fuel + 2) true (node l' k v s r) = some (node l' k v s r) :=
            sbTreeMainTain_settled hst (heq ▸ hb.settled true)
          refine ⟨none, node l' k v s r, ?_, hst, .inl ⟨?_, rfl, heq⟩⟩
          · rw [sbTreeDeleteNode_lt hlt, hrec, Option.bind_some, if_neg hnot, ht, Option.map_some]
          · rw [hpath, hnone, Option.map_none]
        · obtain ⟨t', ht, hst, hshape'⟩ := @sbTreeMainTain_shrunk_left _ _ fuel _ _ _ k k v v _ _
            hs (by omega) hb (endsAtNode_deletePath hs.2.1 (hb.child false) p hsome) hl' hshape
          refine ⟨record, t', ?_, hst, .inr ⟨false :: p, ?_, hrecord, hshape'⟩⟩
          · rw [sbTreeDeleteNode_lt hlt, hrec, Option.bind_some, if_pos hrecord, ht, Option.map_some]
          · rw [hpath, hsome, Option.map_some]
      · obtain ⟨e, t', hrec, hst, hshape⟩ := @sbTreeDeleteNode_found_shape _ _ _ fuel key l r v s hs
          (by omega) hb
        refine ⟨some e, t', hrec, hst, .inr ⟨_, ?_, rfl, hshape⟩⟩
        rw [deletePath, if_pos rfl]
      · have hpath : deletePath key (node l k v s r) = (deletePath key r).map (true :: ·) := by
          rw [deletePath, if_neg hlt.ne', if_neg (not_lt_of_gt hlt)]
        obtain ⟨record, r', hrec, hr', ⟨hnone, rfl, hshape⟩ | ⟨p, hsome, hrecord, hshape⟩⟩ :=
          ihr hs.2.2 (by omega) (hb.child true)
        · have hlen : r'.count = r.count := by rw [← numNodes_shape, hshape, numNodes_shape]
          have heq : (node l k v s r').shape = (node l k v s r).shape := by
            rw [shape, hshape, shape]
          have hst := hs.replace_right hr' hlen
          have ht : sbTreeMainTain (fuel + 2) false (node l k v s r') = some (node l k v s r') :=
            sbTreeMainTain_settled hst (heq ▸ hb.settled false)
          refine ⟨none, node l k v s r', ?_, hst, .inl ⟨?_, rfl, heq⟩⟩
          · rw [sbTreeDeleteNode_gt hlt, hrec, Option.bind_some, if_neg hnot, ht, Option.map_some]
          · rw [hpath, hnone, Option.map_none]
        · obtain ⟨t', ht, hst, hshape'⟩ := @sbTreeMainTain_shrunk_right _ _ fuel _ _ _ k v _ _
            hs (by omega) hb (endsAtNode_deletePath hs.2.2 (hb.child true) p hsome) hr' hshape
          refine ⟨record, t', ?_, hst, .inr ⟨true :: p, ?_, hrecord, hshape'⟩⟩
          · rw [sbTreeDeleteNode_gt hlt, hrec, Option.bind_some, if_pos hrecord, ht, Option.map_some]
          · rw [hpath, hsome, Option.map_some]

end Delete

/-! ## When the balance is kept -/

section Balance

variable [LinearOrder κ] {key : κ} {value : β} {t : SbTree κ β}

/-- No rotation that the insertion makes joins two subtrees that are too different. -/
def InsertKeeps (key : κ) (t : SbTree κ β) : Prop :=
  SizeBalance.GrowthKeeps (insertPath key t) t.shape

/-- The same for the rotations of a deletion, which there are only if the key occurs. -/
def DeleteKeeps (key : κ) (t : SbTree κ β) : Prop :=
  ∀ p ∈ deletePath key t, SizeBalance.ShrinkKeeps p t.shape

instance (key : κ) (t : SbTree κ β) : Decidable (InsertKeeps key t) :=
  inferInstanceAs (Decidable (SizeBalance.GrowthKeeps _ _))

instance (key : κ) (t : SbTree κ β) : Decidable (DeleteKeeps key t) :=
  inferInstanceAs (Decidable (∀ p ∈ deletePath key t, SizeBalance.ShrinkKeeps p t.shape))

/-- Insertion ends with a balanced tree, whether or not `malloc` succeeds. -/
def SbTree.InsertBalanced (t : SbTree κ β) (key : κ) (value : β) : Prop :=
  ∀ alloc, ∃ bound t', (∀ fuel, bound ≤ fuel → sbTreeInsert fuel alloc key value t = some t') ∧
    t'.Balanced

/-- Deletion ends with a balanced tree. -/
def SbTree.DeleteBalanced (t : SbTree κ β) (key : κ) : Prop :=
  ∃ bound ret t', (∀ fuel, bound ≤ fuel → sbTreeDelete fuel key t = some (ret, t')) ∧ t'.Balanced

theorem SbTree.Inv.insertBalanced_iff (h : t.Inv) (hb : t.Balanced) :
    t.InsertBalanced key value ↔ InsertKeeps key t := by
  have hshape := h.sized.balanced_iff.mp hb
  have hrun (fuel : Nat) := @sbTreeInsertNode_shape _ _ _ fuel key value t h.sized h.count_lt hshape
  obtain ⟨t', ht, hs, hgrow⟩ := hrun 0
  have hkeeps : t'.Balanced ↔ InsertKeeps key t := by
    rw [hs.balanced_iff, hgrow]
    exact SizeBalance.balanced_grow_iff hshape (endsAtNil_insertPath key t)
  rw [← hkeeps]
  constructor
  · intro hins
    obtain ⟨bound, u, hu, hbu⟩ := hins true
    cases (hu (bound + 2) (by omega)).symm.trans (sbTreeInsertNode_mono (by omega) ht)
    exact (balanced_withSize _ _).mp hbu
  · rintro hbt (_ | _)
    · exact ⟨0, t, fun _ _ => rfl, hb⟩
    · exact ⟨2, _, fun fuel hfuel => sbTreeInsertNode_mono hfuel ht, (balanced_withSize _ _).mpr hbt⟩

theorem SbTree.Inv.deleteBalanced_iff (h : t.Inv) (hb : t.Balanced) :
    t.DeleteBalanced key ↔ DeleteKeeps key t := by
  have hshape := h.sized.balanced_iff.mp hb
  obtain ⟨record, t', ht, hs, hcases⟩ :=
    @sbTreeDeleteNode_shape _ _ _ 0 key t h.sized h.count_lt hshape
  have hkeeps : t'.Balanced ↔ DeleteKeeps key t := by
    rw [hs.balanced_iff]
    obtain ⟨hnone, -, heq⟩ | ⟨p, hsome, -, heq⟩ := hcases
    · rw [heq, DeleteKeeps, hnone]
      exact iff_of_true hshape fun p hp => absurd hp (Option.not_mem_none p)
    · have hends := endsAtNode_deletePath h.sized hshape p hsome
      rw [heq, DeleteKeeps, hsome, SizeBalance.balanced_shrink_iff hshape hends]
      exact ⟨fun hp _ hq => Option.some.inj hq ▸ hp, fun hall => hall p rfl⟩
  have hrun (fuel : Nat) (hfuel : 2 ≤ fuel) :
      sbTreeDelete fuel key t = some (if record.isSome then 1 else 0, t') := by
    simp only [sbTreeDelete, sbTreeDeleteNode_mono hfuel ht, Option.bind_eq_bind, Option.bind_some]
  rw [← hkeeps]
  constructor
  · rintro ⟨bound, ret, u, hu, hbu⟩
    cases (hu (bound + 2) (by omega)).symm.trans (hrun _ (by omega))
    exact hbu
  · exact fun hbt => ⟨2, _, t', hrun, hbt⟩

/-- Insertion and deletion keep a tree balanced if and only if their rotations do. -/
theorem sbTree_balanced_iff (h : t.Inv) (hb : t.Balanced) (key : κ) (value : β) :
    (t.InsertBalanced key value ↔ InsertKeeps key t) ∧
      (t.DeleteBalanced key ↔ DeleteKeeps key t) :=
  ⟨h.insertBalanced_iff hb, h.deleteBalanced_iff hb⟩

end Balance

namespace SbTree

/-- A node with its size. -/
def branch (l : SbTree Nat Unit) (key : Nat) (r : SbTree Nat Unit) : SbTree Nat Unit :=
  node l key () (l.size + r.size + 1) r

def leaf (key : Nat) : SbTree Nat Unit := branch nil key nil

end SbTree

/-- A balanced tree with the keys from 0 to 14. -/
def fifteenKeys : SbTree Nat Unit :=
  branch (branch (leaf 0) 1 (branch (leaf 2) 3 (leaf 4))) 5
    (branch (branch (leaf 6) 7 (branch (leaf 8) 9 (leaf 10))) 11 (branch (leaf 12) 13 (leaf 14)))

theorem fifteenKeys_inv : fifteenKeys.Inv :=
  ⟨by decide, by decide, by unfold Ordered; decide⟩

/-- Without the key 0 the tree is not balanced, without the key 14 it is. -/
theorem fifteenKeys_balanced_iff : ¬ fifteenKeys.DeleteBalanced 0 ∧ fifteenKeys.DeleteBalanced 14 ∧
    fifteenKeys.InsertBalanced 0 () :=
  have hiff (key : Nat) := sbTree_balanced_iff fifteenKeys_inv (by decide) key ()
  ⟨mt (hiff 0).2.mp (by decide +kernel), (hiff 14).2.mpr (by decide +kernel),
    (hiff 0).1.mpr (by decide +kernel)⟩

/-- A balanced tree with even keys, in which the right side is the larger one. -/
def evenKeys : SbTree Nat Unit :=
  branch (branch (leaf 0) 2 (branch nil 4 (leaf 6))) 8
    (branch (branch (leaf 10) 12 (branch nil 14 (leaf 16))) 18 (branch (leaf 20) 22 (leaf 24)))

/-- The key 13 comes under the root by a double rotation that leaves the four smallest keys
beside a single one. -/
theorem sbTree_unbalanced : ¬ ∀ t : SbTree Nat Unit, t.Inv → t.Balanced → ∀ key value,
    t.InsertBalanced key value ∧ t.DeleteBalanced key := by
  intro h
  have hinv : evenKeys.Inv := ⟨by decide, by decide, by unfold Ordered; decide⟩
  obtain ⟨bound, t', hrun, hbalanced⟩ := (h evenKeys hinv (by decide) 13 ()).1 true
  have hany : (sbTreeInsertNode 5 13 () evenKeys).any (fun t => ¬ t.Balanced) = true := by
    decide +kernel
  obtain ⟨u, hu, hnot⟩ := (Option.any_eq_true _ _).mp hany
  cases (hrun (bound + 5) (by omega)).symm.trans (sbTreeInsertNode_mono (by omega) hu)
  exact of_decide_eq_true hnot hbalanced

end RandServer
