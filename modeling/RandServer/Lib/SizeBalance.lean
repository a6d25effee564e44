import Mathlib.Data.Bool.Basic
import Mathlib.Data.Tree.Basic

/-!
# Size balance

The shape of a binary tree is balanced if at every node each child has at least as many
nodes as either child of the other child. A rotation lifts a grandchild that is larger
than the other child. The lemmas say what becomes of a balanced shape when a node is
added or removed and every node on the way back is rotated at most once: which sizes the
children of the root get, and when the result is balanced. Neither always is.

A side is a `Bool`, and `true` is the right one. A path lists the sides from the root down.
-/

namespace SizeBalance

open BinaryTree

abbrev Shape := BinaryTree Unit

def child (d : Bool) (s : Shape) : Shape := if d then s.right else s.left

/-- A node with its child on the side `d` and the other child. -/
def join (d : Bool) (x y : Shape) : Shape := if d then .node () y x else .node () x y

section Join

variable {d : Bool} {s x y : Shape}

@[simp] theorem child_nil (d : Bool) : child d nil = nil := by cases d <;> rfl

@[simp] theorem child_join (d : Bool) (x y : Shape) : child d (join d x y) = x := by cases d <;> rfl

@[simp] theorem child_join_not (d : Bool) (x y : Shape) : child (!d) (join d x y) = y := by
  cases d <;> rfl

@[simp] theorem join_not (d : Bool) (x y : Shape) : join (!d) x y = join d y x := by
  cases d <;> rfl

@[simp] theorem numNodes_join (d : Bool) (x y : Shape) :
    (join d x y).numNodes = x.numNodes + y.numNodes + 1 := by
  cases d with
  | false => rfl
  | true => exact congrArg (· + 1) (Nat.add_comm _ _)

theorem join_ne_nil (d : Bool) (x y : Shape) : join d x y ≠ nil := by cases d <;> nofun

theorem eq_join (d : Bool) (s : Shape) : s = nil ∨ ∃ x y, s = join d x y := by
  cases s with
  | nil => exact .inl rfl
  | node a l r =>
      right
      cases d with
      | false => exact ⟨l, r, rfl⟩
      | true => exact ⟨r, l, rfl⟩

theorem forall_side {P : Bool → Prop} (d : Bool) : (∀ e, P e) ↔ P d ∧ P (!d) := by
  constructor
  · exact fun h => ⟨h d, h (!d)⟩
  · rintro ⟨hd, hnot⟩ e
    obtain rfl | hne := eq_or_ne e d
    · exact hd
    · rw [Bool.eq_not.mpr hne]
      exact hnot

end Join

/-! ## Balance -/

/-- Both children have at most `n` nodes. -/
def Fits (n : Nat) (s : Shape) : Prop := ∀ d, (child d s).numNodes ≤ n

/-- Neither child of the child on the side `d` is larger than the other child. -/
def Settled (d : Bool) (s : Shape) : Prop := Fits (child (!d) s).numNodes (child d s)

def Balanced : Shape → Prop
  | .nil => True
  | .node _ l r => (∀ d, Settled d (.node () l r)) ∧ Balanced l ∧ Balanced r

section Balance

variable {d : Bool} {n m : Nat} {s x y : Shape}

instance : Decidable (Fits n s) := decidable_of_iff _ (forall_side (P := fun d =>
  (child d s).numNodes ≤ n) true).symm

@[simp] theorem fits_nil (n : Nat) : Fits n nil := fun d => by
  rw [child_nil]
  exact Nat.zero_le n

@[simp] theorem fits_join : Fits n (join d x y) ↔ x.numNodes ≤ n ∧ y.numNodes ≤ n := by
  rw [Fits, forall_side d, child_join, child_join_not]

theorem Fits.mono (h : Fits n s) (hle : n ≤ m) : Fits m s := fun d =>
  Nat.le_trans (h d) hle

theorem fits_of_le (h : s.numNodes ≤ n + 1) : Fits n s := by
  obtain rfl | ⟨x, y, rfl⟩ := eq_join true s
  · exact fits_nil n
  · rw [numNodes_join] at h
    exact fits_join.mpr (by omega)

@[simp] theorem settled_join : Settled d (join d x y) ↔ Fits y.numNodes x := by
  rw [Settled, child_join, child_join_not]

@[simp] theorem settled_join_not : Settled (!d) (join d x y) ↔ Fits x.numNodes y := by
  rw [← join_not, settled_join]

@[simp] theorem settled_nil (d : Bool) : Settled d nil := by
  simp only [Settled, child_nil, fits_nil]

theorem forall_settled_join (d : Bool) :
    (∀ e, Settled e (join d x y)) ↔ Fits y.numNodes x ∧ Fits x.numNodes y := by
  rw [forall_side d, settled_join, settled_join_not]

theorem balanced_join (d : Bool) : Balanced (join d x y) ↔
    Fits y.numNodes x ∧ Fits x.numNodes y ∧ Balanced x ∧ Balanced y := by
  cases d with
  | false => exact (and_congr_left' (forall_settled_join false)).trans and_assoc
  | true =>
      have h : Balanced (join true x y) ↔ _ := and_congr_left' (forall_settled_join true)
      rw [h, and_comm (a := Balanced y), and_assoc]

theorem Balanced.settled (h : Balanced s) (d : Bool) : Settled d s := by
  cases s with
  | nil => exact settled_nil d
  | node a l r => exact h.1 d

theorem Balanced.child (h : Balanced s) (d : Bool) : Balanced (child d s) := by
  obtain rfl | ⟨x, y, rfl⟩ := eq_join d s
  · rw [child_nil]
    exact h
  · rw [child_join]
    exact ((balanced_join d).mp h).2.2.1

end Balance

/-! ## Rotation -/

/-- Lift the larger grandchild on the side `d`, the outer one first. -/
def rotate (d : Bool) (s : Shape) : Option Shape :=
  let x := child d s
  let y := child (!d) s
  if y.numNodes < (child d x).numNodes then
    some (join d (child d x) (join d (child (!d) x) y))
  else if y.numNodes < (child (!d) x).numNodes then
    let inner := child (!d) x
    some (join d (join d (child d x) (child d inner)) (join d (child (!d) inner) y))
  else none

/-- One rotation, if there is one to make. -/
def tend (d : Bool) (s : Shape) : Shape := (rotate d s).getD s

/-- No rotation is possible at the root or where the old root has got a new child. -/
structure Rests (d : Bool) (s : Shape) : Prop where
  lowered : Settled d (child d (child (!d) s))
  root : ∀ e, Settled e s

section Rotate

variable {d : Bool} {s s' x y : Shape}

theorem rotate_eq_none_iff : rotate d s = none ↔ Settled d s := by
  rw [rotate, Settled, Fits, forall_side d]
  dsimp only
  split_ifs with hout hin
  · exact iff_of_false nofun (by omega)
  · exact iff_of_false nofun (by omega)
  · exact iff_of_true rfl (by omega)

theorem tend_of_settled (h : Settled d s) : tend d s = s := by
  rw [tend, rotate_eq_none_iff.mpr h, Option.getD_none]

theorem rotate_single {u w : Shape} (hout : y.numNodes < u.numNodes) :
    rotate d (join d (join d u w) y) = some (join d u (join d w y)) := by
  simp only [rotate, child_join, child_join_not, if_pos hout]

theorem rotate_double {u e f : Shape} (hout : u.numNodes ≤ y.numNodes)
    (hin : y.numNodes < (join d e f).numNodes) :
    rotate d (join d (join d u (join d e f)) y) = some (join d (join d u e) (join d f y)) := by
  simp only [rotate, child_join, child_join_not, if_neg (Nat.not_lt.mpr hout), if_pos hin]

/-- The old root is a child of the new one. -/
theorem child_ne_nil_of_rotate (h : rotate d s = some s') : child (!d) s' ≠ nil := by
  simp only [rotate] at h
  split_ifs at h
  all_goals
    obtain rfl := Option.some.inj h
    rw [child_join_not]
    exact join_ne_nil _ _ _

theorem numNodes_rotate (h : rotate d s = some s') : s'.numNodes = s.numNodes := by
  have hset : ¬ Settled d s := fun hset => by
    rw [rotate_eq_none_iff.mpr hset] at h
    cases h
  obtain rfl | ⟨x, y, rfl⟩ := eq_join d s
  · exact absurd (settled_nil d) hset
  obtain rfl | ⟨u, w, rfl⟩ := eq_join d x
  · exact absurd (settled_join.mpr (fits_nil _)) hset
  rw [settled_join, fits_join] at hset
  by_cases hout : y.numNodes < u.numNodes
  · cases (rotate_single hout).symm.trans h
    simp only [numNodes_join]
    omega
  · obtain rfl | ⟨e, f, rfl⟩ := eq_join d w
    · exact absurd ⟨Nat.le_of_not_lt hout, Nat.zero_le _⟩ hset
    · cases (rotate_double (Nat.le_of_not_lt hout) (by omega)).symm.trans h
      simp only [numNodes_join]
      omega

theorem tend_of_rotate (h : rotate d s = some s') : tend d s = s' := by
  rw [tend, h, Option.getD_some]

@[simp] theorem numNodes_tend (d : Bool) (s : Shape) : (tend d s).numNodes = s.numNodes := by
  cases h : rotate d s with
  | none => rw [tend_of_settled (rotate_eq_none_iff.mp h)]
  | some s' => rw [tend_of_rotate h, numNodes_rotate h]

end Rotate

/-! ## Adding a node -/

/-- Add a node at the end of a path, and rotate on the way back. -/
def grow : List Bool → Shape → Shape
  | [], _ => .node () .nil .nil
  | d :: p, s => tend d (join d (grow p (child d s)) (child (!d) s))

/-- The path goes to an empty place. -/
def EndsAtNil : List Bool → Shape → Prop
  | [], s => s = nil
  | d :: p, s => s ≠ nil ∧ EndsAtNil p (child d s)

/-- Growth along the path rotates the root: the grandchild that it goes through is as large
as the other child, and the child is not rotated itself. -/
def lifts : List Bool → Shape → Bool
  | d :: d' :: p, s =>
      (child d' (child d s)).numNodes == (child (!d) s).numNodes && !lifts (d' :: p) (child d s)
  | _, _ => false

/-- The number of nodes that the child on the side `e` has after the growth. -/
def grownSize : List Bool → Shape → Bool → Nat
  | [], _, _ => 0
  | d :: p, s, e =>
      let x := child d s
      let y := child (!d) s
      if lifts (d :: p) s then
        match p with
        | [] => 0
        | d' :: p =>
            if d' = d then
              if e = d then (child d x).numNodes + 1
              else (child (!d) x).numNodes + y.numNodes + 1
            else
              if e = d then (child d x).numNodes + grownSize p (child (!d) x) d + 1
              else grownSize p (child (!d) x) (!d) + y.numNodes + 1
      else if e = d then x.numNodes + 1
      else y.numNodes

/-- The rotation of the root, after growth along `d :: d' :: p`, joins subtrees of which
neither is smaller than a child of the other. -/
def GrowthJoins (d d' : Bool) (p : List Bool) (s : Shape) : Prop :=
  let x := child d s
  let y := child (!d) s
  if d' = d then Fits (child (!d) x).numNodes y
  else Fits (grownSize p (child (!d) x) d) (child d x) ∧
    Fits (grownSize p (child (!d) x) (!d)) y

/-- All rotations on the way back do. -/
def GrowthKeeps : List Bool → Shape → Prop
  | d :: d' :: p, s =>
      GrowthKeeps (d' :: p) (child d s) ∧ (lifts (d :: d' :: p) s = true → GrowthJoins d d' p s)
  | _, _ => True

instance (d d' : Bool) (p : List Bool) (s : Shape) : Decidable (GrowthJoins d d' p s) := by
  unfold GrowthJoins
  infer_instance

instance decidableGrowthKeeps : (p : List Bool) → (s : Shape) → Decidable (GrowthKeeps p s)
  | [], _ => .isTrue trivial
  | [_], _ => .isTrue trivial
  | d :: d' :: p, s =>
      have := decidableGrowthKeeps (d' :: p) (child d s)
      inferInstanceAs (Decidable (GrowthKeeps (d' :: p) (child d s) ∧
        (lifts (d :: d' :: p) s = true → GrowthJoins d d' p s)))

/-- The shape after the growth. -/
structure Grown (p : List Bool) (s : Shape) : Prop where
  settled : ∀ d, Settled d (grow p s)
  inner : ∀ d, Settled (!d) (child d (grow p s))
  stays : lifts p s = false → ∀ d q, p = d :: q →
    grow p s = join d (grow q (child d s)) (child (!d) s)
  bounded : lifts p s = true → ∀ n, Fits n s → Fits n (grow p s)

/-- What growth along `d :: p` does at a root with the children `x` and `y`. -/
inductive GrowthStep (d : Bool) (y : Shape) : List Bool → Shape → Shape → Prop
  | stay {p : List Bool} {x : Shape} (lifts : lifts (d :: p) (join d x y) = false)
      (fits : Fits y.numNodes (grow p x)) : GrowthStep d y p x (join d (grow p x) y)
  | single {p : List Bool} {u w : Shape} (lifts : lifts (d :: d :: p) (join d (join d u w) y) = true)
      (size : u.numNodes = y.numNodes) (ends : EndsAtNil p u)
      (grown : grow (d :: p) (join d u w) = join d (grow p u) w) :
      GrowthStep d y (d :: p) (join d u w) (join d (grow p u) (join d w y))
  | double {p : List Bool} {u b e f : Shape}
      (lifts : lifts (d :: (!d) :: p) (join d (join d u b) y) = true)
      (size : b.numNodes = y.numNodes) (ends : EndsAtNil p b) (inner : grow p b = join d e f)
      (grown : grow ((!d) :: p) (join d u b) = join d u (join d e f)) :
      GrowthStep d y ((!d) :: p) (join d u b) (join d (join d u e) (join d f y))

section Grow

variable {d : Bool} {p : List Bool} {s x y : Shape}

theorem numNodes_grow (hp : EndsAtNil p s) : (grow p s).numNodes = s.numNodes + 1 := by
  induction p generalizing s with
  | nil =>
      obtain rfl : s = nil := hp
      rfl
  | cons d p ih =>
      obtain rfl | ⟨x, y, rfl⟩ := eq_join d s
      · exact absurd rfl hp.1
      · have hx := ih hp.2
        simp only [child_join] at hx
        simp only [grow, child_join, child_join_not, numNodes_tend, numNodes_join, hx]
        omega

theorem grow_ne_nil (p : List Bool) (s : Shape) (hp : EndsAtNil p s) : grow p s ≠ nil := by
  intro h
  have hcount := numNodes_grow hp
  rw [h] at hcount
  exact Nat.succ_ne_zero _ hcount.symm

theorem growthStep (hb : Balanced (join d x y)) (hp : EndsAtNil p x) (hx : Grown p x) :
    GrowthStep d y p x (grow (d :: p) (join d x y)) := by
  obtain ⟨hfit, -, hbx, -⟩ := (balanced_join d).mp hb
  have hgrow : grow (d :: p) (join d x y) = tend d (join d (grow p x) y) := by
    rw [grow, child_join, child_join_not]
  have hstay (hlifts : lifts (d :: p) (join d x y) = false) (hfits : Fits y.numNodes (grow p x)) :
      GrowthStep d y p x (grow (d :: p) (join d x y)) := by
    rw [hgrow, tend_of_settled (settled_join.mpr hfits)]
    exact .stay hlifts hfits
  cases p with
  | nil =>
      exact hstay rfl
        (fits_join (d := false) (x := nil) (y := nil) |>.mpr ⟨Nat.zero_le _, Nat.zero_le _⟩)
  | cons d' p =>
      cases hlift : lifts (d' :: p) x with
      | true =>
          refine hstay ?_ (hx.bounded hlift _ hfit)
          simp only [lifts, child_join, hlift, Bool.not_true, Bool.and_false]
      | false =>
          obtain rfl | ⟨u, w, rfl⟩ := eq_join d' x
          · exact absurd rfl hp.1
          have hgrown := hx.stays hlift d' p rfl
          have hends := hp.2
          simp only [child_join, child_join_not] at hgrown hends
          have hcount := numNodes_grow hends
          rw [fits_join] at hfit
          by_cases hsize : u.numNodes = y.numNodes
          · have hlifts : lifts (d :: d' :: p) (join d (join d' u w) y) = true := by
              simp [lifts, hlift, hsize]
            obtain rfl | hne := eq_or_ne d' d
            · rw [hgrow, hgrown, tend_of_rotate (rotate_single (by omega))]
              exact .single hlifts hsize hends hgrown
            · obtain rfl := Bool.eq_not.mpr hne
              simp only [join_not] at *
              obtain hnil | ⟨e, f, hinner⟩ := eq_join d (grow p u)
              · exact absurd hnil (grow_ne_nil p u hends)
              · rw [hinner] at hgrown hcount
                rw [hgrow, hgrown, tend_of_rotate (rotate_double hfit.2 (by omega))]
                exact .double hlifts hsize hends hinner hgrown
          · refine hstay ?_ ?_
            · simp [lifts, hlift, hsize]
            · rw [hgrown, fits_join]
              omega

theorem grown_cons (hb : Balanced (join d x y)) (hp : EndsAtNil p x) (hx : Grown p x) :
    Grown (d :: p) (join d x y) := by
  obtain ⟨hfitx, hfity, -, hby⟩ := (balanced_join d).mp hb
  have hcount := numNodes_grow hp
  have hstep := growthStep hb hp hx
  have hinner := hx.inner
  have hset := hx.settled
  generalize hres : grow (d :: p) (join d x y) = res at hstep
  cases hstep with
  | stay hlifts hfits =>
      refine ⟨?_, ?_, ?_, fun h => absurd h (by rw [hlifts]; nofun)⟩
      · rw [hres]
        exact (forall_settled_join d).mpr ⟨hfits, hfity.mono (by omega)⟩
      · rw [hres, forall_side d, child_join, child_join_not]
        exact ⟨hset _, hby.settled _⟩
      · rintro - d' q heq
        cases heq
        rw [hres, child_join, child_join_not]
  | @single p u w hlifts hsize hends hgrown =>
      have hcountu := numNodes_grow hends
      rw [hgrown] at hinner hset
      have hfitu := settled_join.mp (hset d)
      have hinner := hinner d
      rw [child_join] at hinner
      rw [fits_join] at hfitx
      refine ⟨?_, ?_, fun h => absurd h (by rw [hlifts]; nofun), ?_⟩
      · rw [hres, forall_settled_join, fits_join, numNodes_join]
        exact ⟨hfitu.mono (by omega), by omega, by omega⟩
      · rw [hres, forall_side d, child_join, child_join_not, Bool.not_not, settled_join]
        exact ⟨hinner, fits_of_le (by omega)⟩
      · intro _ n hn
        rw [fits_join, numNodes_join] at hn
        rw [hres, fits_join, numNodes_join]
        omega
  | @double p u b e f hlifts hsize hends hinnerb hgrown =>
      have hcountb := numNodes_grow hends
      rw [hgrown] at hset
      have hfitb := settled_join_not.mp (hset (!d))
      simp only [fits_join, numNodes_join, hinnerb] at hfitx hfitb hcountb
      refine ⟨?_, ?_, fun h => absurd h (by rw [hlifts]; nofun), ?_⟩
      · rw [hres, forall_settled_join, fits_join, fits_join, numNodes_join, numNodes_join]
        omega
      · rw [hres, forall_side d, child_join, child_join_not, Bool.not_not, settled_join,
          settled_join_not]
        exact ⟨fits_of_le (by omega), fits_of_le (by omega)⟩
      · intro _ n hn
        rw [fits_join, numNodes_join] at hn
        rw [hres, fits_join, numNodes_join, numNodes_join]
        omega

theorem grown (hb : Balanced s) (hp : EndsAtNil p s) : Grown p s := by
  induction p generalizing s with
  | nil =>
      obtain rfl : s = nil := hp
      refine ⟨fun d => ?_, fun d => ?_, fun _ _ _ h => (nomatch h), nofun⟩
      · cases d <;> exact fits_nil _
      · cases d <;> exact settled_nil _
  | cons d p ih =>
      obtain rfl | ⟨x, y, rfl⟩ := eq_join d s
      · exact absurd rfl hp.1
      · have hpx := hp.2
        have hbx := hb.child d
        rw [child_join] at hpx hbx
        exact grown_cons hb hpx (ih hbx hpx)

/-- The step at the root of a balanced shape. -/
theorem growthStep_of_balanced (hb : Balanced (join d x y)) (hp : EndsAtNil p x) :
    GrowthStep d y p x (grow (d :: p) (join d x y)) :=
  growthStep hb hp (grown ((balanced_join d).mp hb).2.2.1 hp)

/-- After the rotation there is nothing more to do. -/
theorem rests_of_growth (hb : Balanced (join d x y)) (hp : EndsAtNil p x) {s' : Shape}
    (hrot : rotate d (join d (grow p x) y) = some s') : Rests d s' := by
  have hgrow : grow (d :: p) (join d x y) = s' := by
    rw [grow, child_join, child_join_not, tend_of_rotate hrot]
  have hroot := (grown hb (p := d :: p) ⟨join_ne_nil d x y, by rw [child_join]; exact hp⟩).settled
  have hstep := growthStep_of_balanced hb hp
  have hbx := ((balanced_join d).mp hb).2.2.1
  rw [hgrow] at hroot hstep
  refine ⟨?_, hroot⟩
  cases hstep with
  | stay _ hfits =>
      rw [rotate_eq_none_iff.mpr (settled_join.mpr hfits)] at hrot
      cases hrot
  | single =>
      rw [child_join_not, child_join]
      exact ((balanced_join d).mp hbx).2.2.2.settled d
  | double _ _ hends hinnerb =>
      have hinner := (grown ((balanced_join d).mp hbx).2.2.2 hends).inner (!d)
      rw [hinnerb, child_join_not, Bool.not_not] at hinner
      rw [child_join_not, child_join]
      exact hinner

theorem grownSize_stay (hlifts : lifts (d :: p) (join d x y) = false) (e : Bool) :
    grownSize (d :: p) (join d x y) e = if e = d then x.numNodes + 1 else y.numNodes := by
  cases p <;> simp only [grownSize, hlifts, child_join, child_join_not, Bool.false_eq_true, if_false]

theorem grownSize_eq (hb : Balanced s) (hp : EndsAtNil p s) (e : Bool) :
    (child e (grow p s)).numNodes = grownSize p s e := by
  induction hn : p.length using Nat.strongRecOn generalizing p s e with
  | ind n ih =>
      cases p with
      | nil => cases e <;> rfl
      | cons d p =>
          obtain rfl | ⟨x, y, rfl⟩ := eq_join d s
          · exact absurd rfl hp.1
          have hpx := hp.2
          rw [child_join] at hpx
          have hbx := ((balanced_join d).mp hb).2.2.1
          have hstep := growthStep_of_balanced hb hpx
          generalize grow (d :: p) (join d x y) = res at hstep
          cases hstep with
          | stay hlifts =>
              rw [grownSize_stay hlifts]
              obtain rfl | hne := eq_or_ne e d
              · rw [child_join, if_pos rfl, numNodes_grow hpx]
              · rw [Bool.eq_not.mpr hne, child_join_not, if_neg (Bool.not_ne_self d)]
          | single hlifts _ hends =>
              simp only [grownSize, hlifts, child_join, child_join_not, if_true]
              obtain rfl | hne := eq_or_ne e d
              · rw [child_join, if_pos rfl, numNodes_grow hends]
              · rw [Bool.eq_not.mpr hne, child_join_not, if_neg (Bool.not_ne_self d), numNodes_join]
          | @double p u b f g hlifts _ hends hinnerb =>
              have hsizes := fun e => @ih p.length (by simp only [← hn, List.length_cons]; omega) p b
                ((balanced_join d).mp hbx).2.2.2 hends e rfl
              have hf := hsizes d
              have hg := hsizes (!d)
              rw [hinnerb, child_join] at hf
              rw [hinnerb, child_join_not] at hg
              simp only [grownSize, hlifts, child_join, child_join_not, if_true,
                if_neg (Bool.not_ne_self d), ← hf, ← hg]
              obtain rfl | hne := eq_or_ne e d
              · rw [child_join, if_pos rfl, numNodes_join]
              · rw [Bool.eq_not.mpr hne, child_join_not, if_neg (Bool.not_ne_self d), numNodes_join]

theorem growthKeeps_stay (hlifts : lifts (d :: p) (join d x y) = false) :
    GrowthKeeps (d :: p) (join d x y) ↔ GrowthKeeps p x := by
  cases p with
  | nil => exact iff_of_true trivial trivial
  | cons d' p =>
      simp only [GrowthKeeps, hlifts, child_join, Bool.false_eq_true, false_imp_iff, and_true]

/-- Growth keeps the balance if and only if its rotations do. -/
theorem balanced_grow_iff (hb : Balanced s) (hp : EndsAtNil p s) :
    Balanced (grow p s) ↔ GrowthKeeps p s := by
  induction p generalizing s with
  | nil => exact iff_of_true ⟨(grown hb hp).settled, trivial, trivial⟩ trivial
  | cons d p ih =>
      obtain rfl | ⟨x, y, rfl⟩ := eq_join d s
      · exact absurd rfl hp.1
      have hpx := hp.2
      rw [child_join] at hpx
      obtain ⟨hfitx, hfity, hbx, hby⟩ := (balanced_join d).mp hb
      have hcount := numNodes_grow hpx
      have hroot := (grown hb hp).settled
      have hstep := growthStep_of_balanced hb hpx
      have hkeeps := ih hbx hpx
      have hset := (grown hbx hpx).settled
      generalize grow (d :: p) (join d x y) = res at hstep hroot
      cases hstep with
      | stay hlifts =>
          rw [forall_settled_join] at hroot
          rw [growthKeeps_stay hlifts, ← hkeeps, balanced_join]
          exact ⟨fun h => h.2.2.1, fun h => ⟨hroot.1, hroot.2, h, hby⟩⟩
      | @single p u w hlifts _ _ hgrown =>
          obtain ⟨-, -, -, hbw⟩ := (balanced_join d).mp hbx
          rw [forall_settled_join] at hroot
          rw [hgrown, forall_settled_join] at hset
          have hfitw : Fits y.numNodes w := fits_of_le (Nat.le_succ_of_le (fits_join.mp hfitx).2)
          simp only [GrowthKeeps, GrowthJoins, hlifts, child_join, child_join_not, if_true, forall_const]
          rw [← hkeeps, hgrown, balanced_join, balanced_join, balanced_join]
          constructor
          · rintro ⟨-, -, hbu, -, hfit, -, -⟩
            exact ⟨⟨hset.1, hset.2, hbu, hbw⟩, hfit⟩
          · rintro ⟨⟨-, -, hbu, -⟩, hfit⟩
            exact ⟨hroot.1, hroot.2, hbu, hfitw, hfit, hbw, hby⟩
      | @double p u b e f hlifts hsize hends hinner hgrown =>
          obtain ⟨-, -, hbu, hbb⟩ := (balanced_join d).mp hbx
          have hsizes := grownSize_eq hbb hends
          have he := hsizes d
          have hf := hsizes (!d)
          have hsetb := (grown hbb hends).settled
          have hcountb := numNodes_grow hends
          rw [hinner, child_join] at he
          rw [hinner, child_join_not] at hf
          rw [hinner, forall_settled_join] at hsetb
          rw [hinner, numNodes_join] at hcountb
          rw [forall_settled_join] at hroot
          rw [hgrown, forall_settled_join, fits_join] at hset
          have hfite : Fits u.numNodes e := fits_of_le (Nat.le_succ_of_le hset.2.1)
          have hfitf : Fits y.numNodes f := fits_of_le (by omega)
          simp only [GrowthKeeps, GrowthJoins, hlifts, child_join, child_join_not, forall_const,
            if_neg (Bool.not_ne_self d), ← he, ← hf]
          rw [← hkeeps, hgrown, balanced_join, balanced_join, balanced_join, balanced_join,
            balanced_join]
          constructor
          · rintro ⟨-, -, ⟨hfitu, -, -, hbe⟩, -, hfity, hbf, -⟩
            exact ⟨⟨hset.1, fits_join.mpr hset.2, hbu, hsetb.1, hsetb.2, hbe, hbf⟩, hfitu, hfity⟩
          · rintro ⟨⟨-, -, -, -, -, hbe, hbf⟩, hfitu, hfity⟩
            exact ⟨hroot.1, hroot.2, ⟨hfitu, hfite, hbu, hbe⟩, hfitf, hfity, hbf, hby⟩

end Grow

/-! ## Removing a node -/

/-- Remove the node at the end of a path, which has at most one child, and rotate on the
other side on the way back. -/
def shrink : List Bool → Shape → Shape
  | [], s => if child false s = nil then child true s else child false s
  | d :: p, s => tend (!d) (join d (shrink p (child d s)) (child (!d) s))

/-- The path goes to a node that has at most one child. -/
def EndsAtNode : List Bool → Shape → Prop
  | [], s => s ≠ nil ∧ ∃ d, child d s = nil
  | d :: p, s => s ≠ nil ∧ EndsAtNode p (child d s)

/-- The number of nodes that the child on the side `e` has after the removal. -/
def shrunkSize : List Bool → Shape → Bool → Nat
  | [], _, _ => 0
  | d :: _, s, e =>
      let x := child d s
      let y := child (!d) s
      let outer := child (!d) y
      let inner := child d y
      if outer.numNodes = x.numNodes then
        if e = d then inner.numNodes + x.numNodes else outer.numNodes
      else if inner.numNodes = x.numNodes then
        if e = d then (child d inner).numNodes + x.numNodes
        else outer.numNodes + (child (!d) inner).numNodes + 1
      else if e = d then x.numNodes - 1
      else y.numNodes

/-- The rotation of the root, if there is one after a removal along `d :: p`, joins
subtrees of which neither is smaller than a child of the other. -/
def ShrinkJoins (d : Bool) (p : List Bool) (s : Shape) : Prop :=
  let x := child d s
  let outer := child (!d) (child (!d) s)
  let inner := child d (child (!d) s)
  if outer.numNodes = x.numNodes then ∀ e, shrunkSize p x e ≤ inner.numNodes
  else if inner.numNodes = x.numNodes then
    Fits (child (!d) inner).numNodes outer ∧ ∀ e, shrunkSize p x e ≤ (child d inner).numNodes
  else True

/-- All rotations on the way back do. -/
def ShrinkKeeps : List Bool → Shape → Prop
  | [], _ => True
  | d :: p, s => ShrinkKeeps p (child d s) ∧ ShrinkJoins d p s

instance (d : Bool) (p : List Bool) (s : Shape) : Decidable (ShrinkJoins d p s) := by
  unfold ShrinkJoins
  infer_instance

instance decidableShrinkKeeps : (p : List Bool) → (s : Shape) → Decidable (ShrinkKeeps p s)
  | [], _ => .isTrue trivial
  | d :: p, s =>
      have := decidableShrinkKeeps p (child d s)
      inferInstanceAs (Decidable (ShrinkKeeps p (child d s) ∧ ShrinkJoins d p s))

/-- What a removal from `x`, which leaves `x'`, does at a root with the children `y` on
the side `d` and `x`. -/
inductive ShrinkStep (d : Bool) (x x' : Shape) : Shape → Shape → Prop
  | stay {y : Shape} (outer : (child d y).numNodes < x.numNodes)
      (inner : (child (!d) y).numNodes < x.numNodes) : ShrinkStep d x x' y (join d y x')
  | single {a b : Shape} (outer : a.numNodes = x.numNodes) :
      ShrinkStep d x x' (join d a b) (join d a (join d b x'))
  | double {a e f : Shape} (outer : a.numNodes < x.numNodes)
      (inner : (join d e f).numNodes = x.numNodes) :
      ShrinkStep d x x' (join d a (join d e f)) (join d (join d a e) (join d f x'))

/-- The shape after the removal. -/
structure Shrunk (p : List Bool) (s : Shape) : Prop where
  settled : ∀ d, Settled d (shrink p s)
  bounded : ∀ n, Fits n s → Fits n (shrink p s)

section Shrink

variable {d : Bool} {p : List Bool} {s x y : Shape}

theorem shrink_nil (hd : child d s = nil) : shrink [] s = child (!d) s := by
  cases d with
  | false => exact if_pos hd
  | true =>
      rw [shrink]
      split_ifs with h
      · rw [hd]
        exact h.symm
      · rfl

theorem shrink_cons (d : Bool) (p : List Bool) (x y : Shape) :
    shrink ((!d) :: p) (join d y x) = tend d (join d y (shrink p x)) := by
  rw [shrink, Bool.not_not, child_join_not, child_join, join_not]

/-- A path into a node, by the side that it does not take. -/
theorem endsAtNode_cons {e : Bool} (hp : EndsAtNode (e :: p) s) :
    ∃ d x y, e = !d ∧ s = join d y x ∧ EndsAtNode p x := by
  obtain ⟨hne, hp⟩ := hp
  obtain rfl | ⟨x, y, rfl⟩ := eq_join e s
  · exact absurd rfl hne
  · rw [child_join] at hp
    exact ⟨!e, x, y, (Bool.not_not e).symm, (join_not e y x).symm, hp⟩

theorem endsAtNode_nil (hp : EndsAtNode [] s) : ∃ d y, s = join d nil y := by
  obtain ⟨hne, d, hd⟩ := hp
  obtain rfl | ⟨x, y, rfl⟩ := eq_join d s
  · exact absurd rfl hne
  · rw [child_join] at hd
    exact ⟨d, y, by rw [hd]⟩

theorem numNodes_shrink (hp : EndsAtNode p s) : (shrink p s).numNodes + 1 = s.numNodes := by
  induction p generalizing s with
  | nil =>
      obtain ⟨d, y, rfl⟩ := endsAtNode_nil hp
      rw [shrink_nil (child_join d nil y), child_join_not, numNodes_join]
      exact (Nat.zero_add _).symm ▸ rfl
  | cons e p ih =>
      obtain ⟨d, x, y, rfl, rfl, hpx⟩ := endsAtNode_cons hp
      have hx := ih hpx
      simp only [shrink_cons, numNodes_tend, numNodes_join]
      omega

theorem shrinkStep (hb : Balanced (join d y x)) (hp : EndsAtNode p x) :
    ShrinkStep d x (shrink p x) y (shrink ((!d) :: p) (join d y x)) := by
  obtain ⟨hfit, -⟩ := (balanced_join d).mp hb
  have hcount := numNodes_shrink hp
  rw [shrink_cons]
  obtain rfl | ⟨a, b, rfl⟩ := eq_join d y
  · rw [tend_of_settled (settled_join.mpr (fits_nil _))]
    refine .stay ?_ ?_ <;> rw [child_nil] <;> exact (by omega : 0 < x.numNodes)
  rw [fits_join] at hfit
  by_cases hout : a.numNodes = x.numNodes
  · rw [tend_of_rotate (rotate_single (by omega))]
    exact .single hout
  by_cases hin : b.numNodes = x.numNodes
  · obtain rfl | ⟨e, f, rfl⟩ := eq_join d b
    · exact absurd hin (by simp only [numNodes]; omega)
    · rw [tend_of_rotate (rotate_double (by omega) (by omega))]
      exact .double (by omega) hin
  · have hfits : Fits (shrink p x).numNodes (join d a b) := fits_join.mpr (by omega)
    rw [tend_of_settled (settled_join.mpr hfits)]
    refine .stay ?_ ?_ <;> simp only [child_join, child_join_not] <;> omega

theorem shrunk (hb : Balanced s) (hp : EndsAtNode p s) : Shrunk p s := by
  induction p generalizing s with
  | nil =>
      obtain ⟨d, y, rfl⟩ := endsAtNode_nil hp
      rw [balanced_join] at hb
      refine ⟨?_, fun n hn => ?_⟩ <;> rw [shrink_nil (child_join d nil y), child_join_not]
      · exact hb.2.2.2.settled
      · exact fits_of_le (Nat.le_succ_of_le (fits_join.mp hn).2)
  | cons e p ih =>
      obtain ⟨d, x, y, rfl, rfl, hpx⟩ := endsAtNode_cons hp
      obtain ⟨hfit, hfitx, hby, hbx⟩ := (balanced_join d).mp hb
      have hcount := numNodes_shrink hpx
      have hbound := (ih hbx hpx).bounded
      have hstep := shrinkStep hb hpx
      generalize hres : shrink ((!d) :: p) (join d y x) = res at hstep
      cases hstep with
      | stay hout hin =>
          refine ⟨?_, fun n hn => ?_⟩ <;> rw [hres]
          · refine (forall_settled_join d).mpr ⟨?_, hbound _ hfitx⟩
            rw [Fits, forall_side d]
            omega
          · rw [fits_join] at hn ⊢
            omega
      | @single a b hout =>
          have hfitb := ((balanced_join d).mp hby).1
          rw [fits_join] at hfit
          refine ⟨?_, fun n hn => ?_⟩ <;> rw [hres]
          · rw [forall_settled_join, fits_join, numNodes_join]
            exact ⟨hfitb.mono (by omega), by omega, by omega⟩
          · rw [fits_join, numNodes_join] at hn ⊢
            omega
      | @double a e f hout hin =>
          have hfita := ((balanced_join d).mp hby).2.1
          rw [fits_join] at hfita
          rw [numNodes_join] at hin
          refine ⟨?_, fun n hn => ?_⟩ <;> rw [hres]
          · rw [forall_settled_join, fits_join, fits_join, numNodes_join, numNodes_join]
            omega
          · simp only [fits_join, numNodes_join] at hn ⊢
            omega

/-- After the rotation there is nothing more to do. -/
theorem rests_of_removal (hb : Balanced (join d y x)) (hp : EndsAtNode p x) {s' : Shape}
    (hrot : rotate d (join d y (shrink p x)) = some s') : Rests d s' := by
  have hshrink : shrink ((!d) :: p) (join d y x) = s' := by
    rw [shrink_cons, tend_of_rotate hrot]
  have hroot := (shrunk hb (p := (!d) :: p) ⟨join_ne_nil d y x, by rwa [child_join_not]⟩).settled
  have hstep := shrinkStep hb hp
  have hcount := numNodes_shrink hp
  have hby := ((balanced_join d).mp hb).2.2.1
  rw [hshrink] at hroot hstep
  refine ⟨?_, hroot⟩
  cases hstep with
  | stay hout hin =>
      have hfits : Fits (shrink p x).numNodes y := by
        rw [Fits, forall_side d]
        omega
      rw [rotate_eq_none_iff.mpr (settled_join.mpr hfits)] at hrot
      cases hrot
  | single =>
      rw [child_join_not, child_join]
      exact ((balanced_join d).mp hby).2.2.2.settled d
  | double =>
      rw [child_join_not, child_join]
      exact ((balanced_join d).mp ((balanced_join d).mp hby).2.2.2).2.2.2.settled d

theorem shrunkSize_eq (hb : Balanced s) (hp : EndsAtNode p s) (e : Bool) :
    (child e (shrink p s)).numNodes = shrunkSize p s e := by
  cases p with
  | nil =>
      obtain ⟨d, y, rfl⟩ := endsAtNode_nil hp
      have hfit := ((balanced_join d).mp hb).2.1
      rw [shrink_nil (child_join d nil y), child_join_not]
      exact Nat.le_zero.mp (hfit e)
  | cons d' p =>
      obtain ⟨d, x, y, rfl, rfl, hpx⟩ := endsAtNode_cons hp
      have hcount := numNodes_shrink hpx
      have hstep := shrinkStep hb hpx
      have hside : e = !d ∨ e = d := by cases e <;> cases d <;> simp
      generalize shrink ((!d) :: p) (join d y x) = res at hstep
      simp only [shrunkSize, Bool.not_not, child_join, child_join_not]
      cases hstep with
      | stay hout hin =>
          rw [if_neg (by omega), if_neg (by omega)]
          obtain rfl | rfl := hside
          · rw [if_pos rfl, child_join_not]
            omega
          · rw [if_neg (Bool.not_ne_self e).symm, child_join]
      | single hout =>
          simp only [child_join, child_join_not, if_pos hout]
          obtain rfl | rfl := hside
          · rw [if_pos rfl, child_join_not, numNodes_join]
            omega
          · rw [if_neg (Bool.not_ne_self e).symm, child_join]
      | double hout hin =>
          simp only [child_join, child_join_not, if_neg (Nat.ne_of_lt hout), if_pos hin]
          obtain rfl | rfl := hside
          · rw [if_pos rfl, child_join_not, numNodes_join]
            omega
          · rw [if_neg (Bool.not_ne_self e).symm, child_join, numNodes_join]

/-- A removal keeps the balance if and only if its rotations do. -/
theorem balanced_shrink_iff (hb : Balanced s) (hp : EndsAtNode p s) :
    Balanced (shrink p s) ↔ ShrinkKeeps p s := by
  induction p generalizing s with
  | nil =>
      obtain ⟨d, y, rfl⟩ := endsAtNode_nil hp
      rw [shrink_nil (child_join d nil y), child_join_not]
      exact iff_of_true ((balanced_join d).mp hb).2.2.2 trivial
  | cons e p ih =>
      obtain ⟨d, x, y, rfl, rfl, hpx⟩ := endsAtNode_cons hp
      obtain ⟨hfit, hfitx, hby, hbx⟩ := (balanced_join d).mp hb
      have hcount := numNodes_shrink hpx
      have hroot := (shrunk hb hp).settled
      have hkeeps := ih hbx hpx
      have hsizes (n : Nat) : (∀ e, shrunkSize p x e ≤ n) ↔ Fits n (shrink p x) := by
        simp only [Fits, shrunkSize_eq hbx hpx]
      have hstep := shrinkStep hb hpx
      generalize shrink ((!d) :: p) (join d y x) = res at hstep hroot
      simp only [ShrinkKeeps, ShrinkJoins, Bool.not_not, child_join, child_join_not, hsizes, ← hkeeps]
      cases hstep with
      | stay hout hin =>
          rw [if_neg (by omega), if_neg (by omega), and_true, balanced_join]
          rw [forall_settled_join] at hroot
          exact ⟨fun h => h.2.2.2, fun h => ⟨hroot.1, hroot.2, hby, h⟩⟩
      | @single a b hout =>
          obtain ⟨-, -, hba, hbb⟩ := (balanced_join d).mp hby
          rw [forall_settled_join] at hroot
          rw [fits_join] at hfit
          have hfitb : Fits (shrink p x).numNodes b := fits_of_le (by omega)
          simp only [child_join, child_join_not, if_pos hout]
          rw [balanced_join, balanced_join]
          constructor
          · rintro ⟨-, -, -, -, hfits, -, h⟩
            exact ⟨h, hfits⟩
          · rintro ⟨h, hfits⟩
            exact ⟨hroot.1, hroot.2, hba, hfitb, hfits, hbb, h⟩
      | @double a e f hout hin =>
          obtain ⟨-, hfita, hba, hbb⟩ := (balanced_join d).mp hby
          obtain ⟨-, -, hbe, hbf⟩ := (balanced_join d).mp hbb
          rw [forall_settled_join] at hroot
          have hsize := (numNodes_join d e f).symm.trans hin
          rw [fits_join] at hfita
          have hfite : Fits a.numNodes e := fits_of_le (Nat.le_succ_of_le hfita.1)
          have hfitf : Fits (shrink p x).numNodes f := fits_of_le (by omega)
          simp only [child_join, child_join_not, if_neg (Nat.ne_of_lt hout), if_pos hin]
          rw [balanced_join, balanced_join, balanced_join]
          constructor
          · rintro ⟨-, -, ⟨hfits, -, -, -⟩, -, hfits', -, h⟩
            exact ⟨h, hfits, hfits'⟩
          · rintro ⟨h, hfits, hfits'⟩
            exact ⟨hroot.1, hroot.2, ⟨hfits, hfite, hba, hbe⟩, hfitf, hfits', hbf, h⟩

end Shrink

end SizeBalance
