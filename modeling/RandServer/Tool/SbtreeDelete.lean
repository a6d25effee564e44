import RandServer.Lib.Machine
import RandServer.Tool.Sbtree

/-!
# Deletion from the size-balanced tree

`sb_tree_delete` replaces an entry of a node of size three or more by the last entry of
its left subtree. The rebalancing after rotations continues at the wrong child, so such
a node may have no left child; then nothing is deleted, but the size is lowered.
`Deletable` says that this is not the case for a key, and `sbTree_delete_exact` that
deletion is exact in precisely that case.
-/

universe u v

namespace RandServer

open KeySeq SbTree

variable {κ : Type u} {β : Type v}

/-- The entry of the root. -/
def SbTree.entry : SbTree κ β → Option (κ × β)
  | nil => none
  | node _ k v _ _ => some (k, v)

section Model

variable [LinearOrder κ]

/-- The record that takes the place of a deleted entry and the remaining subtrees. A node
of size two gives up its only child, and only other nodes use `last`, the result of
removing the last entry of the left subtree. -/
def sbTreeRecord (l : SbTree κ β) (s : Nat) (r : SbTree κ β)
    (last : Option (Option (κ × β) × SbTree κ β)) :
    Option (Option (κ × β) × SbTree κ β × SbTree κ β) :=
  if s = 2 then some (if l.isNil then r.entry else l.entry, .nil, .nil)
  else last.map fun res => (res.1, res.2, r)

/-- `sb_tree_delete_node`: the entry of the node to be freed, and the new tree. -/
def sbTreeDeleteNode (fuel : Nat) (key : κ) :
    Bool → SbTree κ β → Option (Option (κ × β) × SbTree κ β)
  | _, .nil => some (none, .nil)
  | isFind, .node l k v s r =>
      if isFind && r.isNil then some (some (k, v), l)
      else if !isFind && key = k then
        if s = 1 then some (some (k, v), .nil)
        else do
          let (record, l, r) ← sbTreeRecord l s r (sbTreeDeleteNode fuel key true l)
          let e := record.getD (k, v)
          let t ← sbTreeMainTain fuel true (.node l e.1 e.2 (sub32 s 1) r)
          let t ← sbTreeMainTain fuel (!isFind && key < e.1) t
          some (record, t)
      else if !isFind && key < k then do
        let (record, l) ← sbTreeDeleteNode fuel key false l
        let s := if record.isSome then sub32 s 1 else s
        let t ← sbTreeMainTain fuel (!isFind && key < k) (.node l k v s r)
        some (record, t)
      else do
        let (record, r) ← sbTreeDeleteNode fuel key isFind r
        let s := if record.isSome then sub32 s 1 else s
        let t ← sbTreeMainTain fuel (!isFind && key < k) (.node l k v s r)
        some (record, t)

def sbTreeDelete (fuel : Nat) (key : κ) (t : SbTree κ β) : Option (Nat × SbTree κ β) := do
  let (record, t) ← sbTreeDeleteNode fuel key false t
  some (if record.isSome then 1 else 0, t)

def sbTreeFind (key : κ) : SbTree κ β → SbTree κ β
  | .nil => .nil
  | .node l k v s r =>
      if key < k then sbTreeFind key l
      else if k < key then sbTreeFind key r
      else .node l k v s r

end Model

namespace SbTree

variable {l l' r r' t : SbTree κ β} {k k' : κ} {v v' : β} {s : Nat}

theorem inOrder_of_count_zero (h : t.count = 0) : t.inOrder = [] := List.length_eq_zero_iff.mp h

theorem isNil_iff : t.isNil = true ↔ t.count = 0 := by
  cases t with
  | nil => exact ⟨fun _ => rfl, fun _ => rfl⟩
  | node l k v s r =>
      rw [count_node]
      exact ⟨fun h => (nomatch h), fun h => by omega⟩

theorem entry_of_count_one (h : t.count = 1) :
    ∃ k v, t.entry = some (k, v) ∧ t.inOrder = [(k, v)] := by
  cases t with
  | nil => cases h
  | node l k v s r =>
      rw [count_node] at h
      refine ⟨k, v, rfl, ?_⟩
      rw [inOrder, inOrder_of_count_zero (t := l) (by omega),
        inOrder_of_count_zero (t := r) (by omega)]
      rfl

/-- A node that is removed from a subtree is subtracted in the parent. -/
theorem Sized.shrink_left (h : (node l k v s r).Sized) (hs : s < 2 ^ 32) (hl : l'.Sized)
    (hcount : l'.count + 1 = l.count) : (node l' k' v' (sub32 s 1) r).Sized := by
  obtain ⟨hsize, -, hr⟩ := h
  exact ⟨by rw [sub32_of_le (by omega) hs]; omega, hl, hr⟩

theorem Sized.shrink_right (h : (node l k v s r).Sized) (hs : s < 2 ^ 32) (hr : r'.Sized)
    (hcount : r'.count + 1 = r.count) : (node l k' v' (sub32 s 1) r').Sized := by
  obtain ⟨hsize, hl, -⟩ := h
  exact ⟨by rw [sub32_of_le (by omega) hs]; omega, hl, hr⟩

end SbTree

section Spec

variable [LinearOrder κ] {fuel n : Nat} {key : κ} {t t' : SbTree κ β} {record : Option (κ × β)}

theorem sbTreeDeleteNode_lt {l r : SbTree κ β} {k : κ} {v : β} {s : Nat} (hlt : key < k) :
    sbTreeDeleteNode fuel key false (node l k v s r) =
      (sbTreeDeleteNode fuel key false l).bind fun res =>
        (sbTreeMainTain fuel true
          (node res.2 k v (if res.1.isSome then sub32 s 1 else s) r)).map (res.1, ·) := by
  rw [sbTreeDeleteNode, if_neg (by simp), if_neg (by simp [hlt.ne]), if_pos (by simp [hlt])]
  simp only [hlt, decide_true, Bool.not_false, Bool.and_self, Option.map_eq_bind]
  rfl

theorem sbTreeDeleteNode_gt {l r : SbTree κ β} {k : κ} {v : β} {s : Nat} (hlt : k < key) :
    sbTreeDeleteNode fuel key false (node l k v s r) =
      (sbTreeDeleteNode fuel key false r).bind fun res =>
        (sbTreeMainTain fuel false
          (node l k v (if res.1.isSome then sub32 s 1 else s) res.2)).map (res.1, ·) := by
  rw [sbTreeDeleteNode, if_neg (by simp), if_neg (by simp [hlt.ne']), if_neg (by simp [hlt.le])]
  simp only [not_lt_of_gt hlt, decide_false, Bool.and_false, Option.map_eq_bind]
  rfl

/-- With `isfind` set, the last entry is removed. -/
theorem sbTreeDeleteNode_last (hs : t.Sized) (hcount : t.count < 2 ^ 32) (hn : t.count ≤ n)
    (hfuel : n * n < fuel) (hne : t.isNil = false) :
    ∃ e t', sbTreeDeleteNode fuel key true t = some (some e, t') ∧
      t.inOrder = t'.inOrder ++ [e] ∧ t'.Sized := by
  induction t with
  | nil => cases hne
  | node l k v s r _ ihr =>
      cases hnil : r.isNil with
      | true =>
          refine ⟨(k, v), l, ?_, ?_, hs.2.1⟩
          · simp only [sbTreeDeleteNode, hnil, Bool.and_self, if_true]
          · rw [inOrder, inOrder_of_count_zero (isNil_iff.mp hnil)]
      | false =>
          have hsize := hs.1
          rw [count_node] at hcount hn
          obtain ⟨e, r', hdel, hin, hr'⟩ := ihr hs.2.2 (by omega) (by omega) hnil
          have hlen : r'.count + 1 = r.count := by
            rw [count, count, hin, List.length_append, List.length_singleton]
          obtain ⟨t', ht, hshape⟩ : ∃ t', sbTreeMainTain fuel false
              (node l k v (sub32 s 1) r') = some t' ∧ Reshaped _ t' :=
            sbTreeMainTain_total (hs.shrink_right (by omega) hr' hlen)
              (by rw [count_node]; omega) (by rw [count_node]; omega) hfuel
          refine ⟨e, t', ?_, ?_, hshape.sized⟩
          · simp [sbTreeDeleteNode, hnil, hdel, ht]
          · rw [hshape.inOrder, inOrder, inOrder, hin]
            simp only [List.append_assoc, List.cons_append]

theorem sbTreeRecord_spec {l r : SbTree κ β} {v : β} {s : Nat} (hs : (node l key v s r).Sized)
    (hcount : s < 2 ^ 32) (hn : s ≤ n) (hfuel : n * n < fuel) (hone : s ≠ 1)
    (hleft : l.isNil → s < 3) :
    ∃ e l' r', sbTreeRecord l s r (sbTreeDeleteNode fuel key true l) = some (some e, l', r') ∧
      (node l' e.1 e.2 (sub32 s 1) r').Sized ∧
      RemovesOne key (node l key v s r).inOrder (node l' e.1 e.2 (sub32 s 1) r').inOrder := by
  obtain ⟨hsize, hl, hr⟩ := id hs
  by_cases htwo : s = 2
  · cases hnil : l.isNil with
    | true =>
        have hl0 := isNil_iff.mp hnil
        obtain ⟨rk, rv, hentry, hin⟩ := entry_of_count_one (t := r) (by omega)
        refine ⟨(rk, rv), nil, nil, ?_, ?_, ?_⟩
        · simp only [sbTreeRecord, if_pos htwo, hnil, if_true, hentry]
        · exact ⟨by rw [htwo, sub32_of_le (by decide) (by decide)]; rfl, trivial, trivial⟩
        · simp only [inOrder, inOrder_of_count_zero hl0, hin]
          exact ⟨[], v, [(rk, rv)], rfl, rfl⟩
    | false =>
        have hl0 : l.count ≠ 0 := fun h => by
          rw [isNil_iff.mpr h] at hnil
          cases hnil
        obtain ⟨lk, lv, hentry, hin⟩ := entry_of_count_one (t := l) (by omega)
        refine ⟨(lk, lv), nil, nil, ?_, ?_, ?_⟩
        · simp only [sbTreeRecord, if_pos htwo, hnil, Bool.false_eq_true, if_false, hentry]
        · exact ⟨by rw [htwo, sub32_of_le (by decide) (by decide)]; rfl, trivial, trivial⟩
        · simp only [inOrder, inOrder_of_count_zero (t := r) (by omega), hin]
          exact ⟨[(lk, lv)], v, [], rfl, rfl⟩
  · have hnil : l.isNil = false := by
      cases h : l.isNil with
      | false => rfl
      | true =>
          have := hleft h
          omega
    obtain ⟨e, l', hdel, hin, hl'⟩ := @sbTreeDeleteNode_last _ _ _ fuel n key l hl
      (by omega) (show l.count ≤ n by omega) hfuel hnil
    have hlen : l'.count + 1 = l.count := by
      rw [count, count, hin, List.length_append, List.length_singleton]
    refine ⟨e, l', r, ?_, hs.shrink_left hcount hl' hlen, ?_⟩
    · simp only [sbTreeRecord, if_neg htwo, hdel, Option.map_some]
    · simp only [inOrder, hin, List.append_assoc, List.singleton_append]
      exact ⟨l'.inOrder ++ [e], v, r.inOrder, by simp only [List.append_assoc,
        List.singleton_append], by simp only [List.append_assoc, List.singleton_append]⟩

theorem sbTreeDeleteNode_found {l r : SbTree κ β} {v : β} {s : Nat}
    (hs : (node l key v s r).Sized) (hcount : s < 2 ^ 32) (hn : s ≤ n) (hfuel : n * n < fuel)
    (hleft : l.isNil → s < 3) :
    ∃ e t', sbTreeDeleteNode fuel key false (node l key v s r) = some (some e, t') ∧
      RemovesOne key (node l key v s r).inOrder t'.inOrder ∧ t'.Sized := by
  by_cases hone : s = 1
  · have hsize := hs.1
    refine ⟨(key, v), nil, ?_, ?_, trivial⟩
    · simp [sbTreeDeleteNode, hone]
    · simp only [inOrder, inOrder_of_count_zero (t := l) (by omega),
        inOrder_of_count_zero (t := r) (by omega)]
      exact ⟨[], v, [], rfl, rfl⟩
  · obtain ⟨e, l', r', hrep, hs', hrem⟩ := sbTreeRecord_spec hs hcount hn hfuel hone hleft
    have hsize : (node l' e.1 e.2 (sub32 s 1) r').count + 1 = s :=
      hrem.length.trans ((count_node l r key v s).trans hs.1.symm)
    obtain ⟨t₁, ht₁, h₁⟩ : ∃ t₁, sbTreeMainTain fuel true
        (node l' e.1 e.2 (sub32 s 1) r') = some t₁ ∧ Reshaped _ t₁ :=
      sbTreeMainTain_total hs' (by omega) (Nat.le_trans (by omega) hn) hfuel
    obtain ⟨t₂, ht₂, h₂⟩ : ∃ t₂, sbTreeMainTain fuel (decide (key < e.1)) t₁ = some t₂ ∧
        Reshaped _ t₂ :=
      sbTreeMainTain_total h₁.sized (by rw [h₁.count_eq]; omega)
        (by rw [h₁.count_eq]; exact Nat.le_trans (by omega) hn) hfuel
    refine ⟨e, t₂, ?_, ?_, h₂.sized⟩
    · rw [sbTreeDeleteNode, if_neg (by simp), if_pos (by simp), if_neg hone]
      simp only [hrep, Option.getD_some, ht₁, Option.bind_eq_bind, Option.bind_some, Bool.not_false,
        Bool.true_and, ht₂]
    · rw [h₂.inOrder, h₁.inOrder]
      exact hrem

end Spec

/-- One entry for the key is removed, or there is none. -/
def Deletes (key : κ) (record : Option (κ × β)) (xs ys : List (κ × β)) : Prop :=
  record.isSome = true ∧ RemovesOne key xs ys ∨ record = none ∧ ¬ HasKey key xs ∧ ys = xs

/-- The parent of a subtree without the key or less one entry. -/
theorem Deletes.sized_left {key : κ} {record : Option (κ × β)} {l l' r : SbTree κ β} {k : κ}
    {v : β} {s : Nat}
    (h : Deletes key record l.inOrder l'.inOrder) (hs : (node l k v s r).Sized)
    (hcount : s < 2 ^ 32) (hl : l'.Sized) :
    (node l' k v (if record.isSome then sub32 s 1 else s) r).Sized ∧ l'.count ≤ l.count := by
  rcases h with ⟨hsome, hrem⟩ | ⟨rfl, -, hin⟩
  · have hlen : l'.count + 1 = l.count := hrem.length
    rw [if_pos hsome]
    exact ⟨hs.shrink_left hcount hl hlen, by omega⟩
  · have hlen : l'.count = l.count := congrArg List.length hin
    exact ⟨hs.replace_left hl hlen, hlen.le⟩

theorem Deletes.sized_right {key : κ} {record : Option (κ × β)} {l r r' : SbTree κ β} {k : κ}
    {v : β} {s : Nat}
    (h : Deletes key record r.inOrder r'.inOrder) (hs : (node l k v s r).Sized)
    (hcount : s < 2 ^ 32) (hr : r'.Sized) :
    (node l k v (if record.isSome then sub32 s 1 else s) r').Sized ∧ r'.count ≤ r.count := by
  rcases h with ⟨hsome, hrem⟩ | ⟨rfl, -, hin⟩
  · have hlen : r'.count + 1 = r.count := hrem.length
    rw [if_pos hsome]
    exact ⟨hs.shrink_right hcount hr hlen, by omega⟩
  · have hlen : r'.count = r.count := congrArg List.length hin
    exact ⟨hs.replace_right hr hlen, hlen.le⟩

theorem sbTreeRecord_mono {l r : SbTree κ β} {s : Nat}
    {last last' : Option (Option (κ × β) × SbTree κ β)}
    {res : Option (κ × β) × SbTree κ β × SbTree κ β}
    (hlast : ∀ res, last = some res → last' = some res)
    (ht : sbTreeRecord l s r last = some res) : sbTreeRecord l s r last' = some res := by
  rw [sbTreeRecord] at ht ⊢
  by_cases htwo : s = 2
  · rw [if_pos htwo] at ht ⊢
    exact ht
  · rw [if_neg htwo] at ht ⊢
    obtain ⟨res', hres, rfl⟩ := Option.map_eq_some_iff.mp ht
    rw [hlast res' hres, Option.map_some]

section Exact

variable [LinearOrder κ] {fuel n : Nat} {key : κ} {t t' : SbTree κ β} {record : Option (κ × β)}

/-- The node that is found for the key has a left child or a size of at most two. -/
def Deletable (key : κ) (t : SbTree κ β) : Prop :=
  match sbTreeFind key t with
  | .node .nil _ _ s _ => s < 3
  | _ => True

instance (key : κ) (t : SbTree κ β) : Decidable (Deletable key t) := by
  unfold Deletable
  split <;> infer_instance

theorem deletable_lt {l r : SbTree κ β} {k : κ} {v : β} {s : Nat} (hlt : key < k) :
    Deletable key (node l k v s r) ↔ Deletable key l := by
  rw [Deletable, sbTreeFind, if_pos hlt, Deletable]

theorem deletable_gt {l r : SbTree κ β} {k : κ} {v : β} {s : Nat} (hlt : k < key) :
    Deletable key (node l k v s r) ↔ Deletable key r := by
  rw [Deletable, sbTreeFind, if_neg (not_lt_of_gt hlt), if_pos hlt, Deletable]

theorem deletable_self {l r : SbTree κ β} {v : β} {s : Nat} :
    Deletable key (node l key v s r) ↔ (l.isNil → s < 3) := by
  rw [Deletable, sbTreeFind, if_neg (lt_irrefl key), if_neg (lt_irrefl key)]
  cases l with
  | nil => exact ⟨fun h _ => h, fun h => h rfl⟩
  | node l k v s r => exact ⟨fun _ h => (nomatch h), fun _ => trivial⟩

namespace Deletes

variable {xs ys zs : List (κ × β)} {k : κ} {v : β}

theorem before (h : Deletes key record xs ys) (hord : Ordered (xs ++ (k, v) :: zs))
    (hlt : key < k) : Deletes key record (xs ++ (k, v) :: zs) (ys ++ (k, v) :: zs) := by
  rcases h with ⟨hsome, hrem⟩ | ⟨hnone, hnot, rfl⟩
  · exact .inl ⟨hsome, hrem.append_right _⟩
  · exact .inr ⟨hnone, fun hkey => hnot ((hasKey_before hord hlt).mp hkey), rfl⟩

theorem behind (h : Deletes key record xs ys) (hord : Ordered (zs ++ (k, v) :: xs))
    (hlt : k < key) : Deletes key record (zs ++ (k, v) :: xs) (zs ++ (k, v) :: ys) := by
  rcases h with ⟨hsome, hrem⟩ | ⟨hnone, hnot, rfl⟩
  · exact .inl ⟨hsome, (hrem.append_left [(k, v)]).append_left zs⟩
  · exact .inr ⟨hnone, fun hkey => hnot ((hasKey_behind hord hlt).mp hkey), rfl⟩

end Deletes

/-- A deletable key is removed once, and nothing else changes. -/
theorem sbTreeDeleteNode_spec (hs : t.Sized) (hcount : t.count < 2 ^ 32) (hn : t.count ≤ n)
    (hfuel : n * n < fuel) (hord : Ordered t.inOrder) (hdel : Deletable key t) :
    ∃ record t', sbTreeDeleteNode fuel key false t = some (record, t') ∧ t'.Sized ∧
      Deletes key record t.inOrder t'.inOrder := by
  induction t with
  | nil => exact ⟨none, nil, rfl, trivial, .inr ⟨rfl, fun ⟨_, hmem⟩ => (nomatch hmem), rfl⟩⟩
  | node l k v s r ihl ihr =>
      have hsize := hs.1
      rw [count_node] at hcount hn
      obtain ⟨hordl, hordr, -, -⟩ := ordered_node.mp hord
      rcases lt_trichotomy key k with hlt | rfl | hlt
      · obtain ⟨record, l', hrec, hl', hdone⟩ := ihl hs.2.1 (by omega) (by omega) hordl
          ((deletable_lt hlt).mp hdel)
        obtain ⟨hs', hle⟩ := hdone.sized_left hs (by omega) hl'
        obtain ⟨t', ht, hshape⟩ := sbTreeMainTain_total hs' (by rw [count_node]; omega)
          (by rw [count_node]; omega) hfuel
        refine ⟨record, t', ?_, hshape.sized, ?_⟩
        · rw [sbTreeDeleteNode_lt hlt, hrec, Option.bind_some, ht, Option.map_some]
        · rw [hshape.inOrder]
          exact hdone.before hord hlt
      · obtain ⟨e, t', hrec, hrem, hs'⟩ := sbTreeDeleteNode_found hs
          (by omega) (by omega) hfuel (deletable_self.mp hdel)
        exact ⟨some e, t', hrec, hs', .inl ⟨rfl, hrem⟩⟩
      · obtain ⟨record, r', hrec, hr', hdone⟩ := ihr hs.2.2 (by omega) (by omega) hordr
          ((deletable_gt hlt).mp hdel)
        obtain ⟨hs', hle⟩ := hdone.sized_right hs (by omega) hr'
        obtain ⟨t', ht, hshape⟩ := sbTreeMainTain_total hs' (by rw [count_node]; omega)
          (by rw [count_node]; omega) hfuel
        refine ⟨record, t', ?_, hshape.sized, ?_⟩
        · rw [sbTreeDeleteNode_gt hlt, hrec, Option.bind_some, ht, Option.map_some]
        · rw [hshape.inOrder]
          exact hdone.behind hord hlt

/-- A key that is not deletable occurs, but its record is null. -/
theorem sbTreeDeleteNode_defective (hord : Ordered t.inOrder) (hdel : ¬ Deletable key t) :
    HasKey key t.inOrder ∧
      ∀ record t', sbTreeDeleteNode fuel key false t = some (record, t') → record = none := by
  induction t with
  | nil => exact absurd trivial hdel
  | node l k v s r ihl ihr =>
      obtain ⟨hordl, hordr, -, -⟩ := ordered_node.mp hord
      rcases lt_trichotomy key k with hlt | rfl | hlt
      · obtain ⟨hkey, hnone⟩ := ihl hordl fun h => hdel ((deletable_lt hlt).mpr h)
        refine ⟨(hasKey_before hord hlt).mpr hkey, fun record t' ht => ?_⟩
        rw [sbTreeDeleteNode_lt hlt] at ht
        obtain ⟨res, hrec, ht⟩ := Option.bind_eq_some_iff.mp ht
        obtain ⟨u, -, heq⟩ := Option.map_eq_some_iff.mp ht
        cases heq
        exact hnone _ _ hrec
      · rw [deletable_self] at hdel
        obtain ⟨hnil, hthree⟩ := Classical.not_imp.mp hdel
        refine ⟨⟨v, List.mem_append_right _ (List.mem_cons_self ..)⟩, fun record t' ht => ?_⟩
        obtain rfl : l = nil := by
          cases l with
          | nil => rfl
          | node => cases hnil
        rw [sbTreeDeleteNode, if_neg (by simp), if_pos (by simp), if_neg (by omega),
          sbTreeRecord, if_neg (by omega)] at ht
        simp only [sbTreeDeleteNode, Option.map_some, Option.bind_eq_bind, Option.bind_some,
          Option.bind_eq_some_iff] at ht
        obtain ⟨t₁, -, t₂, -, heq⟩ := ht
        cases heq
        rfl
      · obtain ⟨hkey, hnone⟩ := ihr hordr fun h => hdel ((deletable_gt hlt).mpr h)
        refine ⟨(hasKey_behind hord hlt).mpr hkey, fun record t' ht => ?_⟩
        rw [sbTreeDeleteNode_gt hlt] at ht
        obtain ⟨res, hrec, ht⟩ := Option.bind_eq_some_iff.mp ht
        obtain ⟨u, -, heq⟩ := Option.map_eq_some_iff.mp ht
        cases heq
        exact hnone _ _ hrec

/-- More fuel gives the same result. -/
theorem sbTreeDeleteNode_mono {fuel' : Nat} {isFind : Bool} (hle : fuel ≤ fuel')
    (ht : sbTreeDeleteNode fuel key isFind t = some (record, t')) :
    sbTreeDeleteNode fuel' key isFind t = some (record, t') := by
  induction t generalizing isFind record t' with
  | nil => exact ht
  | node l k v s r ihl ihr =>
      rw [sbTreeDeleteNode] at ht ⊢
      split_ifs at ht ⊢ with hlast hfound hone hlt
      · exact ht
      · exact ht
      · obtain ⟨⟨record₁, l₁, r₁⟩, hrec, ht⟩ := Option.bind_eq_some_iff.mp ht
        obtain ⟨t₁, ht₁, ht⟩ := Option.bind_eq_some_iff.mp ht
        obtain ⟨t₂, ht₂, heq⟩ := Option.bind_eq_some_iff.mp ht
        cases heq
        simp only [sbTreeRecord_mono (fun _ h => ihl h) hrec, Option.bind_eq_bind,
          Option.bind_some, sbTreeMainTain_mono hle ht₁, sbTreeMainTain_mono hle ht₂]
      · obtain ⟨⟨record₁, l₁⟩, hrec, ht⟩ := Option.bind_eq_some_iff.mp ht
        obtain ⟨t₁, ht₁, heq⟩ := Option.bind_eq_some_iff.mp ht
        cases heq
        simp only [ihl hrec, Option.bind_eq_bind, Option.bind_some, sbTreeMainTain_mono hle ht₁]
      · obtain ⟨⟨record₁, r₁⟩, hrec, ht⟩ := Option.bind_eq_some_iff.mp ht
        obtain ⟨t₁, ht₁, heq⟩ := Option.bind_eq_some_iff.mp ht
        cases heq
        simp only [ihr hrec, Option.bind_eq_bind, Option.bind_some, sbTreeMainTain_mono hle ht₁]

end Exact

/-- `sb_tree_find` finds the keys that occur. -/
theorem sbTreeFind_eq_nil_iff [LinearOrder κ] {key : κ} {t : SbTree κ β}
    (hord : Ordered t.inOrder) : sbTreeFind key t = .nil ↔ ¬ HasKey key t.inOrder := by
  induction t with
  | nil => simp [sbTreeFind, SbTree.inOrder, HasKey]
  | node l k v s r ihl ihr =>
      obtain ⟨hordl, hordr, -, -⟩ := ordered_node.mp hord
      rw [sbTreeFind, SbTree.inOrder]
      rcases lt_trichotomy key k with hlt | rfl | hlt
      · rw [if_pos hlt, hasKey_before hord hlt]
        exact ihl hordl
      · rw [if_neg (lt_irrefl key), if_neg (lt_irrefl key)]
        constructor
        · intro h
          cases h
        · intro h
          exact absurd ⟨v, List.mem_append_right _ List.mem_cons_self⟩ h
      · rw [if_neg (not_lt_of_gt hlt), if_pos hlt, hasKey_behind hord hlt]
        exact ihr hordr

/-! ## Histories of insertions and deletions -/

section History

variable [LinearOrder κ]

/-- A call with its fuel, and for an insertion the outcome of `malloc`. -/
inductive SbTree.Action (κ : Type u) (β : Type v)
  | insert (key : κ) (value : β) (alloc : Bool) (fuel : Nat)
  | delete (key : κ) (fuel : Nat)

def SbTree.Action.key : Action κ β → κ
  | .insert key _ _ _ => key
  | .delete key _ => key

def SbTree.step (t : SbTree κ β) : Action κ β → Option (SbTree κ β)
  | .insert key value alloc fuel => sbTreeInsert fuel alloc key value t
  | .delete key fuel => (sbTreeDelete fuel key t).map Prod.snd

def sbTree (κ : Type u) (β : Type v) [LinearOrder κ] : Machine (SbTree κ β) (Action κ β) where
  Init := (· = .nil)
  step := SbTree.step

/-- Deletion of the key returns one if and only if the key occurs, removes one of its
entries and nothing else, and leaves right sizes. -/
def SbTree.DeleteExact (t : SbTree κ β) (key : κ) : Prop :=
  ∃ bound ret t', (∀ fuel, bound ≤ fuel → sbTreeDelete fuel key t = some (ret, t')) ∧
    (ret = 1 ↔ HasKey key t.inOrder) ∧
    (HasKey key t.inOrder → RemovesOne key t.inOrder t'.inOrder) ∧
    (¬ HasKey key t.inOrder → t'.inOrder = t.inOrder) ∧ t'.Sized

/-- Sizes fit in a word after an insertion, and deletions meet no defective node. -/
def SbTree.Safe (t : SbTree κ β) : Action κ β → Prop
  | .insert _ _ _ _ => t.count + 1 < 2 ^ 32
  | .delete key _ => Deletable key t

instance (t : SbTree κ β) : (i : Action κ β) → Decidable (t.Safe i)
  | .insert _ _ _ _ => inferInstanceAs (Decidable (t.count + 1 < 2 ^ 32))
  | .delete key _ => inferInstanceAs (Decidable (Deletable key t))

structure SbTree.Inv (t : SbTree κ β) : Prop where
  sized : t.Sized
  count_lt : t.count < 2 ^ 32
  ordered : Ordered t.inOrder

variable {t t' : SbTree κ β}

theorem SbTree.Inv.of_nil (h : t = nil) : t.Inv := by
  subst h
  exact ⟨trivial, Nat.two_pow_pos 32, List.Pairwise.nil⟩

theorem SbTree.Inv.delete {key : κ} (h : t.Inv) (hdel : Deletable key t) {fuel : Nat}
    (hfuel : t.count * t.count < fuel) :
    ∃ record t', sbTreeDeleteNode fuel key false t = some (record, t') ∧ t'.Inv ∧
      Deletes key record t.inOrder t'.inOrder := by
  obtain ⟨record, t', ht, hs, hdone⟩ :=
    sbTreeDeleteNode_spec h.sized h.count_lt (Nat.le_refl _) hfuel h.ordered hdel
  have hsub : t'.inOrder.Sublist t.inOrder := by
    rcases hdone with ⟨-, hrem⟩ | ⟨-, -, hin⟩
    · exact hrem.sublist
    · rw [hin]
  exact ⟨record, t', ht, ⟨hs, Nat.lt_of_le_of_lt hsub.length_le h.count_lt,
    h.ordered.sublist hsub⟩, hdone⟩

/-- The result of a deletion does not depend on the fuel. -/
theorem SbTree.Inv.delete_result {key : κ} {fuel ret : Nat} (h : t.Inv) (hdel : Deletable key t)
    (ht : sbTreeDelete fuel key t = some (ret, t')) :
    t'.Inv ∧ ∃ record, Deletes key record t.inOrder t'.inOrder := by
  obtain ⟨⟨record, u⟩, hnode, heq⟩ := Option.bind_eq_some_iff.mp ht
  cases heq
  obtain ⟨record', t', ht', hinv, hdone⟩ :=
    h.delete hdel (show t.count * t.count < fuel + t.count * t.count + 1 by omega)
  rw [sbTreeDeleteNode_mono (by omega) hnode] at ht'
  cases ht'
  exact ⟨hinv, record, hdone⟩

theorem SbTree.Inv.insert {key : κ} {value : β} {fuel : Nat} (h : t.Inv)
    (hcount : t.count + 1 < 2 ^ 32) (ht : sbTreeInsert fuel true key value t = some t') :
    t'.Inv ∧ Adds (key, value) t.inOrder t'.inOrder := by
  obtain ⟨hadds, hs, hord⟩ := sbTreeInsertNode_spec h.sized hcount ht
  exact ⟨⟨hs, by rw [count, hadds.length]; exact hcount, hord h.ordered⟩, hadds⟩

theorem SbTree.Inv.step {i : Action κ β} (h : t.Inv) (hok : t.Safe i)
    (ht : t.step i = some t') : t'.Inv := by
  cases i with
  | insert key value alloc fuel =>
      cases alloc with
      | false =>
          obtain rfl := Option.some.inj ht
          exact h
      | true => exact (h.insert hok ht).1
  | delete key fuel =>
      obtain ⟨⟨ret, u⟩, hdel, rfl⟩ := Option.map_eq_some_iff.mp ht
      exact (h.delete_result hok hdel).1

/-- An operation on another key leaves the entries for a key alone. -/
theorem SbTree.Inv.step_keyCount {i : Action κ β} {key : κ} (h : t.Inv) (hok : t.Safe i)
    (hne : i.key ≠ key) (ht : t.step i = some t') :
    keyCount key t'.inOrder = keyCount key t.inOrder := by
  cases i with
  | insert key' value alloc fuel =>
      cases alloc with
      | false =>
          obtain rfl := Option.some.inj ht
          rfl
      | true =>
          have hne : key' ≠ key := hne
          obtain ⟨-, hadds⟩ := h.insert hok ht
          rw [hadds.keyCount, if_neg hne, Nat.add_zero]
  | delete key' fuel =>
      have hne : key' ≠ key := hne
      obtain ⟨⟨ret, u⟩, hdel, rfl⟩ := Option.map_eq_some_iff.mp ht
      obtain ⟨-, record, ⟨-, hrem⟩ | ⟨-, -, hin⟩⟩ := h.delete_result hok hdel
      · rw [hrem.keyCount, if_neg hne, Nat.add_zero]
      · rw [hin]

theorem SbTree.Inv.deleteExact_iff (h : t.Inv) (key : κ) : t.DeleteExact key ↔ Deletable key t := by
  constructor
  · rintro ⟨bound, ret, t', hrun, hret, -⟩
    by_contra hdel
    obtain ⟨hkey, hnone⟩ := @sbTreeDeleteNode_defective _ _ _ bound key t h.ordered hdel
    obtain ⟨⟨record, u⟩, hnode, heq⟩ := Option.bind_eq_some_iff.mp (hrun bound (Nat.le_refl _))
    obtain rfl := hnone record u hnode
    cases heq
    cases hret.mpr hkey
  · intro hdel
    obtain ⟨record, t', ht, hinv, hdone⟩ := h.delete hdel (Nat.lt_succ_self _)
    refine ⟨t.count * t.count + 1, if record.isSome then 1 else 0, t', fun fuel hfuel => ?_, ?_⟩
    · simp only [sbTreeDelete, sbTreeDeleteNode_mono hfuel ht, Option.bind_eq_bind,
        Option.bind_some]
    · rcases hdone with ⟨hsome, hrem⟩ | ⟨rfl, hnot, hin⟩
      · rw [if_pos hsome]
        exact ⟨⟨fun _ => hrem.hasKey, fun _ => rfl⟩, fun _ => hrem,
          fun hnot => absurd hrem.hasKey hnot, hinv.sized⟩
      · exact ⟨⟨fun h => (nomatch h), fun h => absurd h hnot⟩, fun h => absurd h hnot,
          fun _ => hin, hinv.sized⟩

end History

theorem SbTree.Inv.of_history [LinearOrder κ] {t : SbTree κ β}
    (h : (sbTree κ β).ReachableVia SbTree.Safe t) : t.Inv :=
  h.invariant (fun _ ht => SbTree.Inv.of_nil ht) (fun _ _ _ hs hok ht => SbTree.Inv.step hs hok ht)

/-- In every history in which all sizes fit in a word and no deletion meets a defective
node, the sizes are right, and a deletion is exact if and only if it meets none. -/
theorem sbTree_delete_exact [LinearOrder κ] {t : SbTree κ β}
    (h : (sbTree κ β).ReachableVia SbTree.Safe t) :
    t.Sized ∧ ∀ key, t.DeleteExact key ↔ Deletable key t :=
  have hinv := SbTree.Inv.of_history h
  ⟨hinv.sized, hinv.deleteExact_iff⟩

/-- Insertions in descending order and three more, and deletions that leave the node with
key 15 without a left child. -/
def sbTreeHistory : List (SbTree.Action Nat Unit) :=
  [22, 21, 20, 19, 18, 15, 14, 13, 12, 11, 10, 8, 7, 6, 5, 4, 3, 2, 1, 0, 9, 17, 16].map
      (.insert · () true 1000) ++ [0, 1, 2, 16, 20, 14].map (.delete · 1000)

theorem sbTreeHistory_run : ∃ t, (sbTree Nat Unit).runVia SbTree.Safe .nil sbTreeHistory = some t ∧
    (15, ()) ∈ t.inOrder ∧ ¬ Deletable 15 t ∧ Deletable 13 t := by
  have hany : ((sbTree Nat Unit).runVia SbTree.Safe .nil sbTreeHistory).any
      (fun t => (15, ()) ∈ t.inOrder ∧ ¬ Deletable 15 t ∧ Deletable 13 t) = true := by
    decide +kernel
  obtain ⟨t, hrun, ht⟩ := (Option.any_eq_true _ _).mp hany
  exact ⟨t, hrun, of_decide_eq_true ht⟩

/-- After the history the root, with key 13, is deleted exactly. -/
theorem sbTree_delete_exact_root : ∃ t,
    (sbTree Nat Unit).runVia SbTree.Safe .nil sbTreeHistory = some t ∧ t.DeleteExact 13 := by
  obtain ⟨t, hrun, -, -, hroot⟩ := sbTreeHistory_run
  exact ⟨t, hrun, ((sbTree_delete_exact (.runVia (.init rfl) hrun)).2 13).mpr hroot⟩

/-- The node with key 15 has size three and no left child. Deleting 15 returns zero. -/
theorem sbTree_delete_refused :
    ¬ ∀ t, (sbTree Nat Unit).Reachable t → ∀ key, t.DeleteExact key := by
  intro h
  obtain ⟨t, hrun, -, hdel, -⟩ := sbTreeHistory_run
  have hvia : (sbTree Nat Unit).ReachableVia SbTree.Safe t := .runVia (.init rfl) hrun
  exact hdel (((SbTree.Inv.of_history hvia).deleteExact_iff 15).mp (h t hvia.reachable 15))

end RandServer
