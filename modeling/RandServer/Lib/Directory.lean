import Mathlib.Logic.Function.Basic

/-!
# Names with one holder

A directory of connections has an object for a connection, a name for an object, and an
owner for a name. It is valid if the owner of a name is exactly the connected object with
this name. Then two connections never hold the same name.
-/

universe u v w

structure Directory (κ : Type u) (ι : Type v) (ν : Type w) where
  conn : κ → Option ι
  name : ι → Option ν
  owner : ν → Option ι

namespace Directory

variable {κ : Type u} {ι : Type v} {ν : Type w}
variable {d : Directory κ ι ν} {a b : κ} {i j : ι} {r : ν}

structure Valid (d : Directory κ ι ν) : Prop where
  conn_inj : ∀ {a b i}, d.conn a = some i → d.conn b = some i → a = b
  owner_iff : ∀ {r i}, d.owner r = some i ↔ (∃ a, d.conn a = some i) ∧ d.name i = some r

/-- A name belongs to at most one connection. -/
theorem Valid.unique (h : d.Valid) (ha : d.conn a = some i) (hb : d.conn b = some j)
    (hi : d.name i = some r) (hj : d.name j = some r) : a = b ∧ i = j := by
  have howner := h.owner_iff.mpr ⟨⟨a, ha⟩, hi⟩
  rw [h.owner_iff.mpr ⟨⟨b, hb⟩, hj⟩] at howner
  obtain rfl := Option.some.inj howner
  exact ⟨h.conn_inj ha hb, rfl⟩

/-- Only the names of connected objects count. -/
theorem Valid.congr {d' : Directory κ ι ν} (h : d.Valid) (hconn : d'.conn = d.conn)
    (howner : d'.owner = d.owner) (hname : ∀ a i, d.conn a = some i → d'.name i = d.name i) :
    d'.Valid := by
  constructor
  · intro a b i ha hb
    rw [hconn] at ha hb
    exact h.conn_inj ha hb
  · intro r i
    rw [howner, hconn, h.owner_iff]
    refine and_congr_right ?_
    rintro ⟨a, ha⟩
    rw [hname a i ha]

/-! ## Operations -/

/-- Give a name to an object. -/
def enter [DecidableEq ι] [DecidableEq ν] (d : Directory κ ι ν) (i : ι) (r : ν) :
    Directory κ ι ν :=
  { d with name := Function.update d.name i (some r)
           owner := Function.update d.owner r (some i) }

/-- A free name is given to a connected object that has none. -/
theorem Valid.enter [DecidableEq ι] [DecidableEq ν] (h : d.Valid) (hconn : d.conn a = some i)
    (hname : d.name i = none) (hfree : d.owner r = none) : (d.enter i r).Valid := by
  constructor
  · exact h.conn_inj
  · intro s j
    show Function.update d.owner r (some i) s = some j ↔
      (∃ b, d.conn b = some j) ∧ Function.update d.name i (some r) j = some s
    by_cases hj : j = i
    · subst hj
      rw [Function.update_self, Function.update_apply]
      split
      · rename_i hs
        have hsome : ∃ b, d.conn b = some j := ⟨a, hconn⟩
        simp [hs, hsome]
      · rename_i hs
        rw [h.owner_iff, hname]
        simp [Ne.symm hs]
    · rw [Function.update_of_ne hj, ← h.owner_iff, Function.update_apply]
      split
      · rename_i hs
        simp [hs, hfree, Ne.symm hj]
      · exact Iff.rfl

variable [DecidableEq κ]

/-- Connect an object that has no name. -/
def connect [DecidableEq ι] (d : Directory κ ι ν) (a : κ) (i : ι) : Directory κ ι ν :=
  { d with conn := Function.update d.conn a (some i)
           name := Function.update d.name i none }

def drop (d : Directory κ ι ν) (a : κ) : Directory κ ι ν :=
  { d with conn := Function.update d.conn a none }

/-- Drop a connection and the name that it holds. -/
def release [DecidableEq ν] (d : Directory κ ι ν) (a : κ) (r : ν) : Directory κ ι ν :=
  { d.drop a with owner := Function.update d.owner r none }

theorem drop_conn_iff : (d.drop a).conn b = some j ↔ b ≠ a ∧ d.conn b = some j := by
  simp only [drop, Function.update_apply]
  split <;> simp_all

/-- A new object is connected to a free place. -/
theorem Valid.connect [DecidableEq ι] (h : d.Valid) (hfree : d.conn a = none)
    (hnew : ∀ b, d.conn b ≠ some i) : (d.connect a i).Valid := by
  have hconn : ∀ {b j}, (d.connect a i).conn b = some j ↔
      (b = a ∧ j = i) ∨ d.conn b = some j := by
    intro b j
    simp only [Directory.connect, Function.update_apply]
    split
    · rename_i heq
      simp [heq, hfree, eq_comm]
    · simp_all
  have hold : ∀ {b j}, d.conn b = some j → j ≠ i := by
    rintro b j hb rfl
    exact hnew b hb
  constructor
  · intro b c j hb hc
    obtain ⟨hba, hji⟩ | hb := hconn.mp hb
    · obtain ⟨hca, -⟩ | hc := hconn.mp hc
      · rw [hba, hca]
      · exact absurd hji (hold hc)
    · obtain ⟨-, hji⟩ | hc := hconn.mp hc
      · exact absurd hji (hold hb)
      · exact h.conn_inj hb hc
  · intro r j
    show d.owner r = some j ↔
      (∃ b, (d.connect a i).conn b = some j) ∧ Function.update d.name i none j = some r
    rw [h.owner_iff]
    constructor
    · rintro ⟨⟨b, hb⟩, hj⟩
      refine ⟨⟨b, hconn.mpr (.inr hb)⟩, ?_⟩
      rw [Function.update_of_ne (hold hb)]
      exact hj
    · rintro ⟨⟨b, hb⟩, hj⟩
      obtain ⟨-, hji⟩ | hb := hconn.mp hb
      · rw [hji, Function.update_self] at hj
        cases hj
      · rw [Function.update_of_ne (hold hb)] at hj
        exact ⟨⟨b, hb⟩, hj⟩

/-- A connection without a name can be dropped. -/
theorem Valid.drop (h : d.Valid) (hname : ∀ i, d.conn a = some i → d.name i = none) :
    (d.drop a).Valid := by
  constructor
  · intro b c j hb hc
    exact h.conn_inj (drop_conn_iff.mp hb).2 (drop_conn_iff.mp hc).2
  · intro r j
    show d.owner r = some j ↔ (∃ b, (d.drop a).conn b = some j) ∧ d.name j = some r
    rw [h.owner_iff]
    constructor
    · rintro ⟨⟨b, hb⟩, hj⟩
      have hne : b ≠ a := by
        rintro rfl
        rw [hname j hb] at hj
        cases hj
      exact ⟨⟨b, drop_conn_iff.mpr ⟨hne, hb⟩⟩, hj⟩
    · rintro ⟨⟨b, hb⟩, hj⟩
      exact ⟨⟨b, (drop_conn_iff.mp hb).2⟩, hj⟩

theorem Valid.release [DecidableEq ν] (h : d.Valid) (hconn : d.conn a = some i)
    (hname : d.name i = some r) : (d.release a r).Valid := by
  constructor
  · intro b c j hb hc
    exact h.conn_inj (drop_conn_iff.mp hb).2 (drop_conn_iff.mp hc).2
  · intro s j
    show Function.update d.owner r none s = some j ↔
      (∃ b, (d.drop a).conn b = some j) ∧ d.name j = some s
    rw [Function.update_apply]
    split
    · rename_i heq
      subst heq
      refine ⟨nofun, ?_⟩
      rintro ⟨⟨b, hb⟩, hj⟩
      obtain ⟨hne, hb⟩ := drop_conn_iff.mp hb
      exact absurd (h.unique hb hconn hj hname).1 hne
    · rename_i hs
      rw [h.owner_iff]
      constructor
      · rintro ⟨⟨b, hb⟩, hj⟩
        have hne : b ≠ a := by
          rintro rfl
          obtain rfl := Option.some.inj (hb.symm.trans hconn)
          exact hs (Option.some.inj (hj.symm.trans hname))
        exact ⟨⟨b, drop_conn_iff.mpr ⟨hne, hb⟩⟩, hj⟩
      · rintro ⟨⟨b, hb⟩, hj⟩
        exact ⟨⟨b, (drop_conn_iff.mp hb).2⟩, hj⟩

end Directory
