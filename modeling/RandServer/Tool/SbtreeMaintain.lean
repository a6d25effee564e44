import RandServer.Tool.Sbtree

/-!
# Rebalancing follows no null pointer

The rotations of `sbtree.c` dereference a child of the node they are given. Here a rotation
without this child is undefined, and so is everything that calls it. For every tree this
version agrees with `sbTreeMainTain`: a child is only rotated up if it is larger than
another subtree. With the potential of `mainTainRotate_spec` it follows that
`sb_tree_main_tain` returns for every tree with exact sizes.
-/

universe u v

namespace RandServer

variable {κ : Type u} {β : Type v}

/-! ## Rotations of pointers -/

/-- `left_rotate`, which reads and writes the fields of the right child. -/
def leftRotateAt : SbTree κ β → Option (SbTree κ β)
  | .node l k v s (.node rl rk rv rs rr) => some (leftRotate (.node l k v s (.node rl rk rv rs rr)))
  | _ => none

/-- `right_rotate`, which reads and writes the fields of the left child. -/
def rightRotateAt : SbTree κ β → Option (SbTree κ β)
  | .node (.node ll lk lv ls lr) k v s r => some (rightRotate (.node (.node ll lk lv ls lr) k v s r))
  | _ => none

/-- The rotations of `sb_tree_main_tain`. The inner option is `none` if it returns without
one. -/
def mainTainRotateAt : Bool → SbTree κ β → Option (Option (SbTree κ β))
  | false, .node (.node ll lk lv ls lr) k v s r =>
      if r.size < ll.size then do
        let t ← rightRotateAt (.node (.node ll lk lv ls lr) k v s r)
        some (some t)
      else if r.size < lr.size then do
        let l ← leftRotateAt (.node ll lk lv ls lr)
        let t ← rightRotateAt (.node l k v s r)
        some (some t)
      else some none
  | true, .node l k v s (.node rl rk rv rs rr) =>
      if l.size < rr.size then do
        let t ← leftRotateAt (.node l k v s (.node rl rk rv rs rr))
        some (some t)
      else if l.size < rl.size then do
        let r ← rightRotateAt (.node rl rk rv rs rr)
        let t ← leftRotateAt (.node l k v s r)
        some (some t)
      else some none
  | _, _ => some none

/-- `sb_tree_main_tain`, with recursive calls up to a depth. -/
def sbTreeMainTainAt : Nat → Bool → SbTree κ β → Option (SbTree κ β)
  | 0, _, _ => none
  | fuel + 1, rightDeeper, t => do
      match ← mainTainRotateAt rightDeeper t with
      | none => some t
      | some t => do
          let t ← onOldRoot rightDeeper (sbTreeMainTainAt fuel rightDeeper) t
          let t ← sbTreeMainTainAt fuel false t
          sbTreeMainTainAt fuel true t

/-! ## Every rotated child is there -/

/-- The rotations of `sb_tree_main_tain` are defined. -/
theorem mainTainRotateAt_eq (rightDeeper : Bool) (t : SbTree κ β) :
    mainTainRotateAt rightDeeper t = some (mainTainRotate rightDeeper t) := by
  cases t with
  | nil => cases rightDeeper <;> rfl
  | node l k v s r =>
      cases rightDeeper with
      | false =>
          cases l with
          | nil => rfl
          | node ll lk lv ls lr =>
              simp only [mainTainRotateAt, mainTainRotate]
              split_ifs with hout hin
              · rfl
              · cases lr with
                | nil => exact absurd hin (Nat.not_lt_zero _)
                | node => rfl
              · rfl
      | true =>
          cases r with
          | nil => rfl
          | node rl rk rv rs rr =>
              simp only [mainTainRotateAt, mainTainRotate]
              split_ifs with hout hin
              · rfl
              · cases rl with
                | nil => exact absurd hin (Nat.not_lt_zero _)
                | node => rfl
              · rfl

theorem sbTreeMainTainAt_eq (fuel : Nat) (rightDeeper : Bool) (t : SbTree κ β) :
    sbTreeMainTainAt fuel rightDeeper t = sbTreeMainTain fuel rightDeeper t := by
  induction fuel generalizing rightDeeper t with
  | zero => rfl
  | succ fuel ih =>
      have hcall : ∀ d, @sbTreeMainTainAt κ β fuel d = sbTreeMainTain fuel d :=
        fun d => funext (ih d)
      have hrotate := mainTainRotateAt_eq rightDeeper t
      cases hresult : mainTainRotate rightDeeper t with
      | none => simp [sbTreeMainTainAt, sbTreeMainTain, hrotate, hresult]
      | some t => simp [sbTreeMainTainAt, sbTreeMainTain, hrotate, hresult, hcall]

/-! ## Exact sizes -/

/-- The size fields, which are `unsigned int`, count the nodes below and including theirs. -/
structure SbTree.Exact (t : SbTree κ β) : Prop where
  sized : t.Sized
  fits : t.count < 2 ^ 32

/-- For every tree with exact sizes and either direction, `sb_tree_main_tain` returns after
rotations of children that are there, with the same entries in order and exact sizes. -/
theorem sbTreeMainTain_maintains {t : SbTree κ β} (h : t.Exact) (rightDeeper : Bool) :
    ∃ t', (∀ fuel, t.count * t.count < fuel → sbTreeMainTainAt fuel rightDeeper t = some t') ∧
      t'.inOrder = t.inOrder ∧ t'.Exact := by
  have hcount := Nat.le_of_lt h.fits
  have htotal : ∃ t', sbTreeMainTain (t.count * t.count + 1) rightDeeper t = some t' ∧
      Reshaped t t' :=
    sbTreeMainTain_total h.sized hcount (Nat.le_refl _) (Nat.lt_succ_self _)
  obtain ⟨t', ht, hshape⟩ := htotal
  refine ⟨t', fun fuel hfuel => ?_, hshape.inOrder, hshape.sized, ?_⟩
  · rw [sbTreeMainTainAt_eq]
    exact sbTreeMainTain_mono hfuel ht
  · rw [hshape.count_eq]
    exact h.fits

/-- A chain of three nodes to the right. -/
def SbTree.chain : SbTree Nat Unit :=
  .node .nil 1 () 3 (.node .nil 2 () 2 (.node .nil 3 () 1 .nil))

theorem SbTree.chain_exact : chain.Exact :=
  ⟨⟨rfl, trivial, rfl, trivial, rfl, trivial, trivial⟩, by decide⟩

/-- The chain is rotated to the left. -/
theorem sbTreeMainTain_maintains_chain :
    sbTreeMainTainAt 10 true SbTree.chain =
      some (.node (.node .nil 1 () 1 .nil) 2 () 3 (.node .nil 3 () 1 .nil)) ∧
    ∃ t', (∀ fuel, SbTree.chain.count * SbTree.chain.count < fuel →
        sbTreeMainTainAt fuel true SbTree.chain = some t') ∧
      t'.inOrder = SbTree.chain.inOrder ∧ t'.Exact :=
  ⟨rfl, sbTreeMainTain_maintains SbTree.chain_exact true⟩

end RandServer
