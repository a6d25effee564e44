import Mathlib.Order.Defs.LinearOrder
import Mathlib.Data.List.Basic
import Mathlib.Data.List.Sort

/-!
# Key sequences

A search tree with duplicate keys represents the sequence of its entries in key order.
The lemmas say what a comparison with one entry tells about the entries on its two
sides, and how adding or removing an entry on one side acts on the whole sequence.
-/

universe u v

namespace KeySeq

variable {κ : Type u} {β : Type v}

/-- The key occurs in the sequence. -/
def HasKey (key : κ) (xs : List (κ × β)) : Prop := ∃ value, (key, value) ∈ xs

/-- `ys` is `xs` with one more entry. -/
def Adds (e : κ × β) (xs ys : List (κ × β)) : Prop :=
  ∃ front back, xs = front ++ back ∧ ys = front ++ e :: back

/-- `ys` is `xs` without one of its entries for the key. -/
def RemovesOne (key : κ) (xs ys : List (κ × β)) : Prop :=
  ∃ front value back, xs = front ++ (key, value) :: back ∧ ys = front ++ back

theorem Adds.length {e : κ × β} {xs ys : List (κ × β)} (h : Adds e xs ys) :
    ys.length = xs.length + 1 := by
  obtain ⟨front, back, rfl, rfl⟩ := h
  simp only [List.length_append, List.length_cons, Nat.add_assoc]

theorem Adds.mem {e e' : κ × β} {xs ys : List (κ × β)} (h : Adds e xs ys) (hmem : e' ∈ ys) :
    e' = e ∨ e' ∈ xs := by
  obtain ⟨front, back, rfl, rfl⟩ := h
  simp only [List.mem_append, List.mem_cons] at hmem ⊢
  tauto

theorem Adds.append_right {e : κ × β} {xs ys : List (κ × β)} (h : Adds e xs ys)
    (zs : List (κ × β)) : Adds e (xs ++ zs) (ys ++ zs) := by
  obtain ⟨front, back, rfl, rfl⟩ := h
  exact ⟨front, back ++ zs, by simp only [List.append_assoc],
    by simp only [List.append_assoc, List.cons_append]⟩

theorem Adds.append_left {e : κ × β} {xs ys : List (κ × β)} (h : Adds e xs ys)
    (zs : List (κ × β)) : Adds e (zs ++ xs) (zs ++ ys) := by
  obtain ⟨front, back, rfl, rfl⟩ := h
  exact ⟨zs ++ front, back, by simp only [List.append_assoc],
    by simp only [List.append_assoc]⟩

namespace RemovesOne

variable {key : κ} {xs ys : List (κ × β)}

theorem hasKey (h : RemovesOne key xs ys) : HasKey key xs := by
  obtain ⟨front, value, back, rfl, -⟩ := h
  exact ⟨value, List.mem_append_right _ (List.mem_cons_self ..)⟩

theorem length (h : RemovesOne key xs ys) : ys.length + 1 = xs.length := by
  obtain ⟨front, value, back, rfl, rfl⟩ := h
  simp only [List.length_append, List.length_cons, Nat.add_assoc]

theorem sublist (h : RemovesOne key xs ys) : ys.Sublist xs := by
  obtain ⟨front, value, back, rfl, rfl⟩ := h
  exact List.Sublist.append_left (List.sublist_cons_self ..) front

theorem append_right (h : RemovesOne key xs ys) (zs : List (κ × β)) :
    RemovesOne key (xs ++ zs) (ys ++ zs) := by
  obtain ⟨front, value, back, rfl, rfl⟩ := h
  exact ⟨front, value, back ++ zs, by simp only [List.append_assoc, List.cons_append],
    by simp only [List.append_assoc]⟩

theorem append_left (h : RemovesOne key xs ys) (zs : List (κ × β)) :
    RemovesOne key (zs ++ xs) (zs ++ ys) := by
  obtain ⟨front, value, back, rfl, rfl⟩ := h
  exact ⟨zs ++ front, value, back, by simp only [List.append_assoc],
    by simp only [List.append_assoc]⟩

end RemovesOne

section Count

variable [DecidableEq κ] {key : κ} {xs ys : List (κ × β)}

/-- How often the key occurs. -/
def keyCount (key : κ) (xs : List (κ × β)) : Nat := xs.countP fun e => e.1 = key

theorem keyCount_eq_zero_iff : keyCount key xs = 0 ↔ ¬ HasKey key xs := by
  simp only [keyCount, List.countP_eq_zero, decide_eq_true_eq, HasKey, not_exists]
  constructor
  · intro h value hmem
    exact h _ hmem rfl
  · rintro h ⟨k, value⟩ hmem rfl
    exact h value hmem

theorem Adds.keyCount {e : κ × β} (h : Adds e xs ys) :
    keyCount key ys = keyCount key xs + if e.1 = key then 1 else 0 := by
  obtain ⟨front, back, rfl, rfl⟩ := h
  simp only [KeySeq.keyCount, List.countP_append, List.countP_cons, decide_eq_true_eq]
  omega

theorem RemovesOne.keyCount {key' : κ} (h : RemovesOne key' xs ys) :
    keyCount key xs = keyCount key ys + if key' = key then 1 else 0 := by
  obtain ⟨front, value, back, rfl, rfl⟩ := h
  simp only [KeySeq.keyCount, List.countP_append, List.countP_cons, decide_eq_true_eq]
  omega

end Count

section Ordered

variable [LinearOrder κ] {key k : κ} {v : β} {xs ys zs : List (κ × β)}

def Ordered (xs : List (κ × β)) : Prop := xs.Pairwise fun a b => a.1 ≤ b.1

theorem Ordered.sublist (h : Ordered ys) (hsub : xs.Sublist ys) : Ordered xs :=
  List.Pairwise.sublist hsub h

theorem ordered_node : Ordered (xs ++ (k, v) :: ys) ↔
    Ordered xs ∧ Ordered ys ∧ (∀ e ∈ xs, e.1 ≤ k) ∧ (∀ e ∈ ys, k ≤ e.1) := by
  rw [Ordered, List.pairwise_append, List.pairwise_cons]
  constructor
  · rintro ⟨hxs, ⟨hk, hys⟩, hcross⟩
    exact ⟨hxs, hys, fun e he => hcross e he _ (List.mem_cons_self ..), hk⟩
  · rintro ⟨hxs, hys, hle, hge⟩
    refine ⟨hxs, ⟨hge, hys⟩, fun e he e' he' => ?_⟩
    rcases List.mem_cons.mp he' with rfl | he'
    · exact hle e he
    · exact le_trans (hle e he) (hge e' he')

/-- A key below that of an entry can only occur before it. -/
theorem hasKey_before (h : Ordered (xs ++ (k, v) :: ys)) (hlt : key < k) :
    HasKey key (xs ++ (k, v) :: ys) ↔ HasKey key xs := by
  obtain ⟨-, -, -, hge⟩ := ordered_node.mp h
  constructor
  · rintro ⟨value, hmem⟩
    rcases List.mem_append.mp hmem with hin | hin
    · exact ⟨value, hin⟩
    · rcases List.mem_cons.mp hin with heq | hin
      · cases heq
        exact absurd hlt (lt_irrefl _)
      · exact absurd hlt (not_lt_of_ge (hge _ hin))
  · rintro ⟨value, hmem⟩
    exact ⟨value, List.mem_append_left _ hmem⟩

/-- A key above that of an entry can only occur behind it. -/
theorem hasKey_behind (h : Ordered (xs ++ (k, v) :: ys)) (hlt : k < key) :
    HasKey key (xs ++ (k, v) :: ys) ↔ HasKey key ys := by
  obtain ⟨-, -, hle, -⟩ := ordered_node.mp h
  constructor
  · rintro ⟨value, hmem⟩
    rcases List.mem_append.mp hmem with hin | hin
    · exact absurd hlt (not_lt_of_ge (hle _ hin))
    · rcases List.mem_cons.mp hin with heq | hin
      · cases heq
        exact absurd hlt (lt_irrefl _)
      · exact ⟨value, hin⟩
  · rintro ⟨value, hmem⟩
    exact ⟨value, List.mem_append_right _ (List.mem_cons_of_mem _ hmem)⟩

theorem Ordered.adds_before (h : Ordered (xs ++ (k, v) :: ys)) {value : β} (hle : key ≤ k)
    (hadds : Adds (key, value) xs zs) (hzs : Ordered zs) : Ordered (zs ++ (k, v) :: ys) := by
  obtain ⟨-, hys, hbefore, hge⟩ := ordered_node.mp h
  refine ordered_node.mpr ⟨hzs, hys, fun e he => ?_, hge⟩
  rcases hadds.mem he with rfl | he
  · exact hle
  · exact hbefore e he

theorem Ordered.adds_behind (h : Ordered (xs ++ (k, v) :: ys)) {value : β} (hle : k ≤ key)
    (hadds : Adds (key, value) ys zs) (hzs : Ordered zs) : Ordered (xs ++ (k, v) :: zs) := by
  obtain ⟨hxs, -, hbefore, hge⟩ := ordered_node.mp h
  refine ordered_node.mpr ⟨hxs, hzs, hbefore, fun e he => ?_⟩
  rcases hadds.mem he with rfl | he
  · exact hle
  · exact hge e he

/-- The entries with keys below `key` are those on one side of an entry. -/
theorem countP_lt_node (h : Ordered (xs ++ (k, v) :: ys)) :
    (xs ++ (k, v) :: ys).countP (·.1 < key) =
      if k < key then xs.length + 1 + ys.countP (·.1 < key) else xs.countP (·.1 < key) := by
  obtain ⟨-, -, hle, hge⟩ := ordered_node.mp h
  simp only [List.countP_append, List.countP_cons, decide_eq_true_eq]
  by_cases hlt : k < key
  · have hall : xs.countP (·.1 < key) = xs.length :=
      List.countP_eq_length.mpr fun e he => decide_eq_true (lt_of_le_of_lt (hle e he) hlt)
    rw [hall, if_pos hlt, if_pos hlt]
    omega
  · have hnone : ys.countP (·.1 < key) = 0 := List.countP_eq_zero.mpr fun e he =>
      mt of_decide_eq_true (not_lt_of_ge (le_trans (not_lt.mp hlt) (hge e he)))
    rw [hnone, if_neg hlt, if_neg hlt]
    rfl

theorem keyCount_before (h : Ordered (xs ++ (k, v) :: ys)) (hlt : key < k) :
    keyCount key (xs ++ (k, v) :: ys) = keyCount key xs := by
  obtain ⟨-, -, -, hge⟩ := ordered_node.mp h
  have hnone : ((k, v) :: ys).countP (·.1 = key) = 0 := by
    refine List.countP_eq_zero.mpr fun e he => mt of_decide_eq_true (ne_of_gt ?_)
    cases he with
    | head => exact hlt
    | tail _ he => exact lt_of_lt_of_le hlt (hge e he)
  rw [keyCount, List.countP_append, hnone]
  rfl

theorem keyCount_behind (h : Ordered (xs ++ (k, v) :: ys)) (hlt : k < key) :
    keyCount key (xs ++ (k, v) :: ys) = keyCount key ys := by
  obtain ⟨-, -, hle, -⟩ := ordered_node.mp h
  have hnone : xs.countP (·.1 = key) = 0 := List.countP_eq_zero.mpr fun e he =>
    mt of_decide_eq_true (ne_of_lt (lt_of_le_of_lt (hle e he) hlt))
  simp only [keyCount, List.countP_append, List.countP_cons, hnone, ne_of_lt hlt, decide_false,
    Bool.false_eq_true, if_false, Nat.zero_add, Nat.add_zero]

theorem keyCount_self (k : κ) (v : β) (xs ys : List (κ × β)) :
    keyCount k (xs ++ (k, v) :: ys) = keyCount k xs + keyCount k ys + 1 := by
  simp only [keyCount, List.countP_append, List.countP_cons, decide_true, if_true]
  rfl

/-- The entry that as many entries precede as have keys below `key`. -/
theorem Ordered.getElem?_countP (h : Ordered xs) (key : κ) :
    xs[xs.countP (·.1 < key)]? = xs.find? (key ≤ ·.1) := by
  induction xs with
  | nil => rfl
  | cons x xs ih =>
      obtain ⟨hx, hxs⟩ := List.pairwise_cons.mp h
      rw [List.countP_cons, List.find?_cons]
      by_cases hlt : x.1 < key
      · simp only [hlt, not_le_of_gt hlt, decide_true, decide_false, if_true,
          List.getElem?_cons_succ]
        exact ih hxs
      · have hle := not_lt.mp hlt
        have hnone : xs.countP (·.1 < key) = 0 := List.countP_eq_zero.mpr fun e he =>
          mt of_decide_eq_true (not_lt_of_ge (le_trans hle (hx e he)))
        simp only [hnone, hlt, hle, decide_true, decide_false, Bool.false_eq_true, if_false]
        rfl

/-- Insert an entry behind those whose keys are at most its own. -/
def insertEntry (e : κ × β) (xs : List (κ × β)) : List (κ × β) :=
  xs.orderedInsert (fun a b => a.1 < b.1) e

theorem insertEntry_before {value : β} (hlt : key < k) :
    insertEntry (key, value) (xs ++ (k, v) :: ys) = insertEntry (key, value) xs ++ (k, v) :: ys := by
  induction xs with
  | nil => exact if_pos hlt
  | cons x xs ih =>
      simp only [insertEntry, List.cons_append, List.orderedInsert_cons] at ih ⊢
      split
      · rfl
      · rw [ih, List.cons_append]

theorem insertEntry_behind {value : β} (hxs : ∀ e ∈ xs, e.1 ≤ key) (hle : k ≤ key) :
    insertEntry (key, value) (xs ++ (k, v) :: ys) = xs ++ (k, v) :: insertEntry (key, value) ys := by
  induction xs with
  | nil => exact if_neg (not_lt_of_ge hle)
  | cons x xs ih =>
      have hx := hxs x List.mem_cons_self
      have ih := ih fun e he => hxs e (List.mem_cons_of_mem _ he)
      simp only [insertEntry, List.cons_append, List.orderedInsert_cons] at ih ⊢
      rw [if_neg (not_lt_of_ge hx), ih]

/-- The new entry stands behind the last one whose key is at most its own. -/
theorem insertEntry_split (h : Ordered xs) (e : κ × β) : ∃ front back, xs = front ++ back ∧
    insertEntry e xs = front ++ e :: back ∧ (∀ a ∈ front, a.1 ≤ e.1) ∧ ∀ a ∈ back, e.1 < a.1 := by
  induction xs with
  | nil => exact ⟨[], [], rfl, rfl, nofun, nofun⟩
  | cons x xs ih =>
      obtain ⟨hx, hxs⟩ := List.pairwise_cons.mp h
      by_cases hlt : e.1 < x.1
      · refine ⟨[], x :: xs, rfl, if_pos hlt, nofun, fun a ha => ?_⟩
        cases ha with
        | head => exact hlt
        | tail _ ha => exact lt_of_lt_of_le hlt (hx a ha)
      · obtain ⟨front, back, rfl, hinsert, hfront, hback⟩ := ih hxs
        refine ⟨x :: front, back, rfl, ?_, fun a ha => ?_, hback⟩
        · exact (if_neg hlt).trans (congrArg (x :: ·) hinsert)
        · cases ha with
          | head => exact not_lt.mp hlt
          | tail _ ha => exact hfront a ha

theorem insertEntry_ordered (h : Ordered xs) (e : κ × β) : Ordered (insertEntry e xs) := by
  obtain ⟨front, back, rfl, hinsert, hfront, hback⟩ := insertEntry_split h e
  obtain ⟨hfronts, hbacks, -⟩ := List.pairwise_append.mp h
  rw [hinsert]
  exact ordered_node.mpr ⟨hfronts, hbacks, hfront, fun a ha => le_of_lt (hback a ha)⟩

end Ordered

/-! ## Lists that agree class by class -/

section AgreeBy

universe w

variable {α : Type u} {γ : Type w} [DecidableEq γ] {f : α → γ} {xs ys front back : List α} {a : α}

/-- Both lists have the same elements of each class, in the same order. -/
def AgreeBy (f : α → γ) (xs ys : List α) : Prop :=
  ∀ c, xs.filter (f · = c) = ys.filter (f · = c)

namespace AgreeBy

theorem perm [DecidableEq α] (h : AgreeBy f xs ys) : xs.Perm ys := by
  apply List.perm_iff_count.mpr
  intro a
  have hclass := congrArg (List.count a) (h (f a))
  simpa only [List.count_filter (p := (f · = f a)) (decide_eq_true rfl)] using hclass

theorem erase [DecidableEq α] (h : AgreeBy f xs ys) (a : α) :
    AgreeBy f (xs.erase a) (ys.erase a) := by
  intro c
  rw [← List.erase_filter, ← List.erase_filter, h c]

/-- An element that is added behind those of its class. -/
theorem add (h : AgreeBy f (front ++ back) ys) (hback : ∀ b ∈ back, f b ≠ f a) :
    AgreeBy f (front ++ a :: back) (ys ++ [a]) := by
  intro c
  have hold := h c
  simp only [List.filter_append] at hold
  by_cases hc : f a = c
  · have hnone : back.filter (f · = c) = [] := by
      apply List.filter_eq_nil_iff.mpr
      intro b hb hbc
      exact hback b hb ((of_decide_eq_true hbc).trans hc.symm)
    simp only [hnone, List.append_nil] at hold
    simp [hc, hnone, hold]
  · simp [hc, hold]

end AgreeBy

end AgreeBy

end KeySeq
