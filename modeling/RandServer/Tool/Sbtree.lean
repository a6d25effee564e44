import RandServer.Lib.CWord
import RandServer.Lib.KeySeq

/-!
# The size-balanced tree

`sbtree.c` up to insertion. A pointer to a node pointer is a tree that a function
replaces. The recursion of `sb_tree_main_tain` is bounded by a fuel argument, and a
result `none` means that the fuel was too small.

`sb_tree_main_tain` keeps the entries and the sizes of a tree. It terminates because
every rotation it makes lowers the total depth of the nodes, which `weight` measures.
-/

universe u v

namespace RandServer

open KeySeq

variable {κ : Type u} {β : Type v}

/-- `struct sbtree_node*`. -/
inductive SbTree (κ : Type u) (β : Type v)
  | nil
  | node (left : SbTree κ β) (key : κ) (value : β) (size : Nat) (right : SbTree κ β)

namespace SbTree

/-- `_S`. -/
def size : SbTree κ β → Nat
  | nil => 0
  | node _ _ _ size _ => size

def isNil : SbTree κ β → Bool
  | nil => true
  | node _ _ _ _ _ => false

/-- Apply a function to `&node->left`. -/
def onLeft (f : SbTree κ β → Option (SbTree κ β)) : SbTree κ β → Option (SbTree κ β)
  | nil => none
  | node l k v s r => (f l).map fun l => node l k v s r

/-- Apply a function to `&node->right`. -/
def onRight (f : SbTree κ β → Option (SbTree κ β)) : SbTree κ β → Option (SbTree κ β)
  | nil => none
  | node l k v s r => (f r).map fun r => node l k v s r

/-- The entries from left to right. -/
def inOrder : SbTree κ β → List (κ × β)
  | nil => []
  | node l k v _ r => l.inOrder ++ (k, v) :: r.inOrder

/-- The number of nodes. -/
def count (t : SbTree κ β) : Nat := t.inOrder.length

/-- The sum of the numbers of nodes of all subtrees. -/
def weight : SbTree κ β → Nat
  | nil => 0
  | node l _ _ _ r => l.weight + r.weight + (l.count + r.count + 1)

/-- Every size field is the number of nodes below and including its node. -/
def Sized : SbTree κ β → Prop
  | nil => True
  | node l _ _ s r => s = l.count + r.count + 1 ∧ l.Sized ∧ r.Sized

@[simp] theorem count_nil : (nil : SbTree κ β).count = 0 := rfl

@[simp] theorem count_node (l r : SbTree κ β) (k : κ) (v : β) (s : Nat) :
    (node l k v s r).count = l.count + r.count + 1 := by
  simp only [count, inOrder, List.length_append, List.length_cons, Nat.add_assoc]

theorem Sized.size_eq {t : SbTree κ β} (h : t.Sized) : t.size = t.count := by
  cases t with
  | nil => rfl
  | node l k v s r => rw [count_node]; exact h.1

theorem weight_le (t : SbTree κ β) : t.weight ≤ t.count * t.count := by
  induction t with
  | nil => exact Nat.le_refl 0
  | node l k v s r ihl ihr =>
      simp only [weight, count_node, Nat.mul_add, Nat.add_mul, Nat.one_mul, Nat.mul_one]
      omega

theorem Sized.replace_left {l l' r : SbTree κ β} {k : κ} {v : β} {s : Nat}
    (h : (node l k v s r).Sized) (hl : l'.Sized) (hcount : l'.count = l.count) :
    (node l' k v s r).Sized := by
  obtain ⟨hs, -, hr⟩ := h
  exact ⟨hcount ▸ hs, hl, hr⟩

theorem Sized.replace_right {l r r' : SbTree κ β} {k : κ} {v : β} {s : Nat}
    (h : (node l k v s r).Sized) (hr : r'.Sized) (hcount : r'.count = r.count) :
    (node l k v s r').Sized := by
  obtain ⟨hs, hl, -⟩ := h
  exact ⟨hcount ▸ hs, hl, hr⟩

/-- A node that is added to a subtree is counted in the parent. -/
theorem Sized.grow_left {l l' r : SbTree κ β} {k : κ} {v : β} {s : Nat}
    (h : (node l k v s r).Sized) (hl : l'.Sized) (hcount : l'.count = l.count + 1)
    (hlt : s + 1 < 2 ^ 32) : (node l' k v (u32 (s + 1)) r).Sized := by
  obtain ⟨hs, -, hr⟩ := h
  exact ⟨by rw [u32_of_lt hlt]; omega, hl, hr⟩

theorem Sized.grow_right {l r r' : SbTree κ β} {k : κ} {v : β} {s : Nat}
    (h : (node l k v s r).Sized) (hr : r'.Sized) (hcount : r'.count = r.count + 1)
    (hlt : s + 1 < 2 ^ 32) : (node l k v (u32 (s + 1)) r').Sized := by
  obtain ⟨hs, hl, -⟩ := h
  exact ⟨by rw [u32_of_lt hlt]; omega, hl, hr⟩

end SbTree

open SbTree

/-! ## Rotations -/

/-- `left_rotate`. The callers have checked that the child exists. -/
def leftRotate : SbTree κ β → SbTree κ β
  | .node l k v s (.node rl rk rv _ rr) =>
      .node (.node l k v (u32 (l.size + rl.size + 1)) rl) rk rv s rr
  | t => t

/-- `right_rotate`. -/
def rightRotate : SbTree κ β → SbTree κ β
  | .node (.node ll lk lv _ lr) k v s r =>
      .node ll lk lv s (.node lr k v (u32 (lr.size + r.size + 1)) r)
  | t => t

/-- The rotations of `sb_tree_main_tain`, or `none` if it returns without one. -/
def mainTainRotate : Bool → SbTree κ β → Option (SbTree κ β)
  | false, .node (.node ll lk lv ls lr) k v s r =>
      if r.size < ll.size then some (rightRotate (.node (.node ll lk lv ls lr) k v s r))
      else if r.size < lr.size then
        some (rightRotate (.node (leftRotate (.node ll lk lv ls lr)) k v s r))
      else none
  | true, .node l k v s (.node rl rk rv rs rr) =>
      if l.size < rr.size then some (leftRotate (.node l k v s (.node rl rk rv rs rr)))
      else if l.size < rl.size then
        some (leftRotate (.node l k v s (rightRotate (.node rl rk rv rs rr))))
      else none
  | _, _ => none

/-- `&node->left` or `&node->right`, where `node` was the root before the rotation. -/
def onOldRoot (rightDeeper : Bool) (f : SbTree κ β → Option (SbTree κ β)) :
    SbTree κ β → Option (SbTree κ β) :=
  if rightDeeper then onLeft (onRight f) else onRight (onLeft f)

def sbTreeMainTain : Nat → Bool → SbTree κ β → Option (SbTree κ β)
  | 0, _, _ => none
  | fuel + 1, rightDeeper, t =>
      match mainTainRotate rightDeeper t with
      | none => some t
      | some t => do
          let t ← onOldRoot rightDeeper (sbTreeMainTain fuel rightDeeper) t
          let t ← sbTreeMainTain fuel false t
          sbTreeMainTain fuel true t

/-! ## Insertion -/

section Insert

variable [LinearOrder κ]

def sbTreeInsertNode (fuel : Nat) (key : κ) (value : β) : SbTree κ β → Option (SbTree κ β)
  | .nil => some (.node .nil key value 1 .nil)
  | .node l k v s r =>
      if key < k then do
        let l ← sbTreeInsertNode fuel key value l
        sbTreeMainTain fuel false (.node l k v (u32 (s + 1)) r)
      else do
        let r ← sbTreeInsertNode fuel key value r
        sbTreeMainTain fuel true (.node l k v (u32 (s + 1)) r)

/-- `sb_tree_insert`, given whether `malloc` succeeds. -/
def sbTreeInsert (fuel : Nat) (alloc : Bool) (key : κ) (value : β) (t : SbTree κ β) :
    Option (SbTree κ β) :=
  if alloc then sbTreeInsertNode fuel key value t else some t

end Insert

/-! ## What rebalancing keeps -/

/-- `t'` has the entries of `t`, right sizes, and nodes that lie no deeper in total. -/
structure Reshaped (t t' : SbTree κ β) : Prop where
  inOrder : t'.inOrder = t.inOrder
  sized : t'.Sized
  weight_le : t'.weight ≤ t.weight

namespace Reshaped

variable {t t' t'' l l' r r' : SbTree κ β} {k : κ} {v : β} {s : Nat}

theorem count_eq (h : Reshaped t t') : t'.count = t.count := congrArg List.length h.inOrder

theorem refl (h : t.Sized) : Reshaped t t := ⟨rfl, h, Nat.le_refl _⟩

theorem trans (h : Reshaped t t') (h' : Reshaped t' t'') : Reshaped t t'' :=
  ⟨h'.inOrder.trans h.inOrder, h'.sized, h'.weight_le.trans h.weight_le⟩

theorem node_left (ht : (node l k v s r).Sized) (h : Reshaped l l') :
    Reshaped (node l k v s r) (node l' k v s r) := by
  refine ⟨?_, ht.replace_left h.sized h.count_eq, ?_⟩
  · simp only [SbTree.inOrder, h.inOrder]
  · have := h.weight_le
    simp only [weight, h.count_eq]
    omega

theorem node_right (ht : (node l k v s r).Sized) (h : Reshaped r r') :
    Reshaped (node l k v s r) (node l k v s r') := by
  refine ⟨?_, ht.replace_right h.sized h.count_eq, ?_⟩
  · simp only [SbTree.inOrder, h.inOrder]
  · have := h.weight_le
    simp only [weight, h.count_eq]
    omega

end Reshaped

theorem inOrder_leftRotate (t : SbTree κ β) : (leftRotate t).inOrder = t.inOrder := by
  cases t with
  | nil => rfl
  | node l k v s r =>
      cases r with
      | nil => rfl
      | node rl rk rv rs rr =>
          simp only [leftRotate, SbTree.inOrder, List.append_assoc, List.cons_append]

theorem inOrder_rightRotate (t : SbTree κ β) : (rightRotate t).inOrder = t.inOrder := by
  cases t with
  | nil => rfl
  | node l k v s r =>
      cases l with
      | nil => rfl
      | node ll lk lv ls lr =>
          simp only [rightRotate, SbTree.inOrder, List.append_assoc, List.cons_append]

theorem SbTree.Sized.leftRotate {t : SbTree κ β} (h : t.Sized) (hcount : t.count ≤ 2 ^ 32) :
    (leftRotate t).Sized := by
  cases t with
  | nil => exact h
  | node l k v s r =>
      cases r with
      | nil => exact h
      | node rl rk rv rs rr =>
          obtain ⟨hs, hl, -, hrl, hrr⟩ := h
          simp only [count_node] at hs hcount
          refine ⟨?_, ⟨?_, hl, hrl⟩, hrr⟩
          · rw [hs, count_node]
            omega
          · rw [hl.size_eq, hrl.size_eq, u32_of_lt (by omega)]

theorem SbTree.Sized.rightRotate {t : SbTree κ β} (h : t.Sized) (hcount : t.count ≤ 2 ^ 32) :
    (rightRotate t).Sized := by
  cases t with
  | nil => exact h
  | node l k v s r =>
      cases l with
      | nil => exact h
      | node ll lk lv ls lr =>
          obtain ⟨hs, ⟨-, hll, hlr⟩, hr⟩ := h
          simp only [count_node] at hs hcount
          refine ⟨?_, hll, ?_, hlr, hr⟩
          · rw [hs, count_node]
            omega
          · rw [hlr.size_eq, hr.size_eq, u32_of_lt (by omega)]

theorem count_leftRotate (t : SbTree κ β) : (leftRotate t).count = t.count :=
  congrArg List.length (inOrder_leftRotate t)

theorem count_rightRotate (t : SbTree κ β) : (rightRotate t).count = t.count :=
  congrArg List.length (inOrder_rightRotate t)

/-- A rotation of `sb_tree_main_tain` lifts the larger grandchild. -/
theorem mainTainRotate_spec {rightDeeper : Bool} {t t' : SbTree κ β} (hs : t.Sized)
    (hcount : t.count ≤ 2 ^ 32) (ht : mainTainRotate rightDeeper t = some t') :
    t'.inOrder = t.inOrder ∧ t'.Sized ∧ t'.weight < t.weight := by
  unfold mainTainRotate at ht
  split at ht
  · rename_i ll lk lv ls lr k v s r
    have hl := hs.2.1
    have hll := hl.2.1.size_eq
    have hlr := hl.2.2.size_eq
    have hr := hs.2.2.size_eq
    have hlcount : (node ll lk lv ls lr).count ≤ 2 ^ 32 := by
      rw [count_node] at hcount
      omega
    split_ifs at ht with hout hin
    · obtain rfl := Option.some.inj ht
      refine ⟨inOrder_rightRotate _, hs.rightRotate hcount, ?_⟩
      simp only [rightRotate, weight, count_node]
      omega
    · obtain rfl := Option.some.inj ht
      refine ⟨?_, ?_, ?_⟩
      · rw [inOrder_rightRotate, SbTree.inOrder, inOrder_leftRotate]
        rfl
      · refine (hs.replace_left (hl.leftRotate hlcount) (count_leftRotate _)).rightRotate ?_
        rw [count_node, count_leftRotate, ← count_node _ _ k v s]
        exact hcount
      · cases lr with
        | nil => exact absurd hin (Nat.not_lt_zero _)
        | node lrl lrk lrv lrs lrr =>
            simp only [leftRotate, rightRotate, weight, count_node] at hlr ⊢
            omega
  · rename_i l k v s rl rk rv rs rr
    have hr := hs.2.2
    have hrl := hr.2.1.size_eq
    have hrr := hr.2.2.size_eq
    have hl := hs.2.1.size_eq
    have hrcount : (node rl rk rv rs rr).count ≤ 2 ^ 32 := by
      rw [count_node] at hcount
      omega
    split_ifs at ht with hout hin
    · obtain rfl := Option.some.inj ht
      refine ⟨inOrder_leftRotate _, hs.leftRotate hcount, ?_⟩
      simp only [leftRotate, weight, count_node]
      omega
    · obtain rfl := Option.some.inj ht
      refine ⟨?_, ?_, ?_⟩
      · rw [inOrder_leftRotate, SbTree.inOrder, inOrder_rightRotate]
        rfl
      · refine (hs.replace_right (hr.rightRotate hrcount) (count_rightRotate _)).leftRotate ?_
        rw [count_node, count_rightRotate, ← count_node _ _ k v s]
        exact hcount
      · cases rl with
        | nil => exact absurd hin (Nat.not_lt_zero _)
        | node rll rlk rlv rls rlr =>
            simp only [leftRotate, rightRotate, weight, count_node] at hrl ⊢
            omega
  · cases ht

/-- After a rotation the old root is a child of the new one. -/
theorem onOldRoot_isSome {rightDeeper : Bool} {t t' : SbTree κ β}
    {f : SbTree κ β → Option (SbTree κ β)} (ht : mainTainRotate rightDeeper t = some t')
    (hf : ∀ u, u.weight ≤ t'.weight → u.count ≤ t'.count → (t'.Sized → u.Sized) →
      (f u).isSome) : (onOldRoot rightDeeper f t').isSome := by
  have hright : ∀ {l u r k k' v v' s s'}, t' = node l k v s (node u k' v' s' r) →
      (onOldRoot false f t').isSome := by
    rintro l u r k k' v v' s s' rfl
    have hu := hf u (by simp only [weight]; omega) (by simp only [count_node]; omega)
      (fun h => h.2.2.2.1)
    simpa only [onOldRoot, Bool.false_eq_true, if_false, onRight, onLeft, Option.isSome_map]
      using hu
  have hleft : ∀ {l u r k k' v v' s s'}, t' = node (node l k' v' s' u) k v s r →
      (onOldRoot true f t').isSome := by
    rintro l u r k k' v v' s s' rfl
    have hu := hf u (by simp only [weight]; omega) (by simp only [count_node]; omega)
      (fun h => h.2.1.2.2)
    simpa only [onOldRoot, if_true, onRight, onLeft, Option.isSome_map] using hu
  unfold mainTainRotate at ht
  split at ht
  · rename_i ll lk lv ls lr k v s r
    split_ifs at ht with hout hin
    · exact hright (Option.some.inj ht).symm
    · cases lr with
      | nil => exact absurd hin (Nat.not_lt_zero _)
      | node => exact hright (Option.some.inj ht).symm
  · rename_i l k v s rl rk rv rs rr
    split_ifs at ht with hout hin
    · exact hleft (Option.some.inj ht).symm
    · cases rl with
      | nil => exact absurd hin (Nat.not_lt_zero _)
      | node => exact hleft (Option.some.inj ht).symm
  · cases ht

section MainTain

variable {fuel : Nat} {rightDeeper : Bool} {t t' : SbTree κ β}
  {f : SbTree κ β → Option (SbTree κ β)}

theorem Reshaped.onLeft (hs : t.Sized) (hcount : t.count ≤ 2 ^ 32)
    (hf : ∀ u u', u.Sized → u.count ≤ 2 ^ 32 → f u = some u' → Reshaped u u')
    (ht : onLeft f t = some t') : Reshaped t t' := by
  cases t with
  | nil => cases ht
  | node l k v s r =>
      obtain ⟨l', hl', rfl⟩ := Option.map_eq_some_iff.mp ht
      rw [count_node] at hcount
      exact .node_left hs (hf l l' hs.2.1 (by omega) hl')

theorem Reshaped.onRight (hs : t.Sized) (hcount : t.count ≤ 2 ^ 32)
    (hf : ∀ u u', u.Sized → u.count ≤ 2 ^ 32 → f u = some u' → Reshaped u u')
    (ht : onRight f t = some t') : Reshaped t t' := by
  cases t with
  | nil => cases ht
  | node l k v s r =>
      obtain ⟨r', hr', rfl⟩ := Option.map_eq_some_iff.mp ht
      rw [count_node] at hcount
      exact .node_right hs (hf r r' hs.2.2 (by omega) hr')

theorem Reshaped.onOldRoot (hs : t.Sized) (hcount : t.count ≤ 2 ^ 32)
    (hf : ∀ u u', u.Sized → u.count ≤ 2 ^ 32 → f u = some u' → Reshaped u u')
    (ht : onOldRoot rightDeeper f t = some t') : Reshaped t t' := by
  cases rightDeeper with
  | false => exact .onRight hs hcount (fun _ _ hs hc h => .onLeft hs hc hf h) ht
  | true => exact .onLeft hs hcount (fun _ _ hs hc h => .onRight hs hc hf h) ht

/-- `sb_tree_main_tain` only reshapes the tree. -/
theorem sbTreeMainTain_reshaped (hs : t.Sized) (hcount : t.count ≤ 2 ^ 32)
    (ht : sbTreeMainTain fuel rightDeeper t = some t') : Reshaped t t' := by
  induction fuel generalizing rightDeeper t t' with
  | zero => cases ht
  | succ fuel ih =>
      rw [sbTreeMainTain] at ht
      split at ht
      · obtain rfl := Option.some.inj ht
        exact .refl hs
      · rename_i t₁ hrot
        obtain ⟨hin, hs₁, hweight⟩ := mainTainRotate_spec hs hcount hrot
        have h₁ : Reshaped t t₁ := ⟨hin, hs₁, hweight.le⟩
        obtain ⟨t₂, ht₂, ht⟩ := Option.bind_eq_some_iff.mp ht
        obtain ⟨t₃, ht₃, ht⟩ := Option.bind_eq_some_iff.mp ht
        have h₂ := h₁.trans (.onOldRoot hs₁ (h₁.count_eq ▸ hcount)
          (fun _ _ hs hc h => ih hs hc h) ht₂)
        have h₃ := h₂.trans (ih h₂.sized (h₂.count_eq ▸ hcount) ht₃)
        exact h₃.trans (ih h₃.sized (h₃.count_eq ▸ hcount) ht)

/-- The recursion of `sb_tree_main_tain` is no deeper than the weight of the tree. -/
theorem sbTreeMainTain_isSome (hs : t.Sized) (hcount : t.count ≤ 2 ^ 32)
    (hfuel : t.weight < fuel) : (sbTreeMainTain fuel rightDeeper t).isSome := by
  induction fuel generalizing rightDeeper t with
  | zero => omega
  | succ fuel ih =>
      rw [sbTreeMainTain]
      split
      · rfl
      · rename_i t₁ hrot
        obtain ⟨hin, hs₁, hweight⟩ := mainTainRotate_spec hs hcount hrot
        have hcount₁ : t₁.count ≤ 2 ^ 32 := by
          rw [count, hin]
          exact hcount
        obtain ⟨t₂, ht₂⟩ := Option.isSome_iff_exists.mp
          (onOldRoot_isSome (f := sbTreeMainTain fuel rightDeeper) hrot
            fun u hw hc hu => ih (hu hs₁) (by omega) (by omega))
        have h₂ := Reshaped.onOldRoot hs₁ hcount₁
          (fun _ _ hs hc h => sbTreeMainTain_reshaped hs hc h) ht₂
        have hw₂ := h₂.weight_le
        obtain ⟨t₃, ht₃⟩ := Option.isSome_iff_exists.mp
          (@ih false _ h₂.sized (h₂.count_eq ▸ hcount₁) (by omega))
        have h₃ := h₂.trans (sbTreeMainTain_reshaped h₂.sized (h₂.count_eq ▸ hcount₁) ht₃)
        have hw₃ := h₃.weight_le
        simp only [ht₂, ht₃, Option.bind_eq_bind, Option.bind_some]
        exact ih h₃.sized (h₃.count_eq ▸ hcount₁) (by omega)

theorem onOldRoot_mono {g : SbTree κ β → Option (SbTree κ β)}
    (hfg : ∀ u u', f u = some u' → g u = some u') (ht : onOldRoot rightDeeper f t = some t') :
    onOldRoot rightDeeper g t = some t' := by
  have hleft : ∀ f g : SbTree κ β → Option (SbTree κ β), (∀ u u', f u = some u' → g u = some u') →
      ∀ u u', onLeft f u = some u' → onLeft g u = some u' := by
    intro f g hfg u u' hu
    cases u with
    | nil => cases hu
    | node l k v s r =>
        obtain ⟨l', hl, rfl⟩ := Option.map_eq_some_iff.mp hu
        rw [onLeft, hfg l l' hl, Option.map_some]
  have hright : ∀ f g : SbTree κ β → Option (SbTree κ β), (∀ u u', f u = some u' → g u = some u') →
      ∀ u u', onRight f u = some u' → onRight g u = some u' := by
    intro f g hfg u u' hu
    cases u with
    | nil => cases hu
    | node l k v s r =>
        obtain ⟨r', hr, rfl⟩ := Option.map_eq_some_iff.mp hu
        rw [onRight, hfg r r' hr, Option.map_some]
  cases rightDeeper with
  | false => exact hright _ _ (hleft f g hfg) t t' ht
  | true => exact hleft _ _ (hright f g hfg) t t' ht

/-- More fuel gives the same result. -/
theorem sbTreeMainTain_mono {fuel' : Nat} (hle : fuel ≤ fuel')
    (ht : sbTreeMainTain fuel rightDeeper t = some t') :
    sbTreeMainTain fuel' rightDeeper t = some t' := by
  induction fuel generalizing rightDeeper t t' fuel' with
  | zero => cases ht
  | succ fuel ih =>
      obtain ⟨fuel', rfl⟩ : ∃ n, fuel' = n + 1 := ⟨fuel' - 1, by omega⟩
      have hle' : fuel ≤ fuel' := by omega
      rw [sbTreeMainTain] at ht ⊢
      split at ht
      · exact ht
      · obtain ⟨t₂, ht₂, ht⟩ := Option.bind_eq_some_iff.mp ht
        obtain ⟨t₃, ht₃, ht⟩ := Option.bind_eq_some_iff.mp ht
        simp only [onOldRoot_mono (fun _ _ => ih hle') ht₂, ih hle' ht₃,
          Option.bind_eq_bind, Option.bind_some]
        exact ih hle' ht

/-- The fuel that suffices for trees of `n` nodes. -/
theorem sbTreeMainTain_total {n : Nat} (hs : t.Sized) (hcount : t.count ≤ 2 ^ 32)
    (hn : t.count ≤ n) (hfuel : n * n < fuel) :
    ∃ t', sbTreeMainTain fuel rightDeeper t = some t' ∧ Reshaped t t' := by
  have hweight := t.weight_le
  have hsquare := Nat.mul_le_mul hn hn
  have hsome : (sbTreeMainTain fuel rightDeeper t).isSome :=
    sbTreeMainTain_isSome hs hcount (by omega)
  obtain ⟨t', ht⟩ := Option.isSome_iff_exists.mp hsome
  exact ⟨t', ht, sbTreeMainTain_reshaped hs hcount ht⟩

end MainTain

/-! ## What insertion does -/

section InsertSpec

variable [LinearOrder κ] {fuel : Nat} {key : κ} {value : β} {t t' : SbTree κ β}

/-- Insertion adds the entry where the key order allows it. -/
theorem sbTreeInsertNode_spec (hs : t.Sized) (hcount : t.count + 1 < 2 ^ 32)
    (ht : sbTreeInsertNode fuel key value t = some t') :
    Adds (key, value) t.inOrder t'.inOrder ∧ t'.Sized ∧
      (Ordered t.inOrder → Ordered t'.inOrder) := by
  induction t generalizing t' with
  | nil =>
      obtain rfl := Option.some.inj ht
      exact ⟨⟨[], [], rfl, rfl⟩, ⟨rfl, trivial, trivial⟩, fun _ => List.pairwise_singleton _ _⟩
  | node l k v s r ihl ihr =>
      have hsize := hs.1
      rw [count_node] at hcount
      rw [sbTreeInsertNode] at ht
      split at ht
      · rename_i hlt
        obtain ⟨l', hl, ht⟩ := Option.bind_eq_some_iff.mp ht
        obtain ⟨hadds, hl', hord⟩ := ihl hs.2.1 (by omega) hl
        have hlen : l'.count = l.count + 1 := hadds.length
        have hshape := sbTreeMainTain_reshaped (hs.grow_left hl' hlen (by omega))
          (by rw [count_node]; omega) ht
        have hin : t'.inOrder = l'.inOrder ++ (k, v) :: r.inOrder := hshape.inOrder
        rw [hin, SbTree.inOrder]
        exact ⟨hadds.append_right _, hshape.sized, fun h =>
          h.adds_before hlt.le hadds (hord (ordered_node.mp h).1)⟩
      · rename_i hnot
        obtain ⟨r', hr, ht⟩ := Option.bind_eq_some_iff.mp ht
        obtain ⟨hadds, hr', hord⟩ := ihr hs.2.2 (by omega) hr
        have hlen : r'.count = r.count + 1 := hadds.length
        have hshape := sbTreeMainTain_reshaped (hs.grow_right hr' hlen (by omega))
          (by rw [count_node]; omega) ht
        have hin : t'.inOrder = l.inOrder ++ (k, v) :: r'.inOrder := hshape.inOrder
        rw [hin, SbTree.inOrder]
        exact ⟨(hadds.append_left [(k, v)]).append_left _, hshape.sized, fun h =>
          h.adds_behind (not_lt.mp hnot) hadds (hord (ordered_node.mp h).2.1)⟩

theorem sbTreeInsertNode_isSome {n : Nat} (hs : t.Sized) (hcount : t.count + 1 < 2 ^ 32)
    (hn : t.count + 1 ≤ n) (hfuel : n * n < fuel) :
    (sbTreeInsertNode fuel key value t).isSome := by
  induction t with
  | nil => rfl
  | node l k v s r ihl ihr =>
      have hsize := hs.1
      rw [count_node] at hcount hn
      rw [sbTreeInsertNode]
      split
      · obtain ⟨l', hl⟩ := Option.isSome_iff_exists.mp (ihl hs.2.1 (by omega) (by omega))
        obtain ⟨hadds, hl', -⟩ := sbTreeInsertNode_spec hs.2.1 (by omega) hl
        have hlen : l'.count = l.count + 1 := hadds.length
        obtain ⟨t', ht, -⟩ : ∃ t', sbTreeMainTain fuel false (node l' k v (u32 (s + 1)) r) =
            some t' ∧ Reshaped _ t' :=
          sbTreeMainTain_total (hs.grow_left hl' hlen (by omega)) (by rw [count_node]; omega)
            (by rw [count_node]; omega) hfuel
        simp only [hl, ht, Option.bind_eq_bind, Option.bind_some, Option.isSome_some]
      · obtain ⟨r', hr⟩ := Option.isSome_iff_exists.mp (ihr hs.2.2 (by omega) (by omega))
        obtain ⟨hadds, hr', -⟩ := sbTreeInsertNode_spec hs.2.2 (by omega) hr
        have hlen : r'.count = r.count + 1 := hadds.length
        obtain ⟨t', ht, -⟩ : ∃ t', sbTreeMainTain fuel true (node l k v (u32 (s + 1)) r') =
            some t' ∧ Reshaped _ t' :=
          sbTreeMainTain_total (hs.grow_right hr' hlen (by omega)) (by rw [count_node]; omega)
            (by rw [count_node]; omega) hfuel
        simp only [hr, ht, Option.bind_eq_bind, Option.bind_some, Option.isSome_some]

end InsertSpec

end RandServer
