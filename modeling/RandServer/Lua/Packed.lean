import Mathlib.Data.Finset.Card
import Mathlib.Data.Finset.Range
import Mathlib.Data.List.FinRange
import RandServer.Lua.Codec

/-!
# What packing writes

`Packed` is the packed form as a relation: values in a row, or the entries of a table,
together with the numbers of tables before and after. It keeps no output, so it can be
matched against bytes anywhere in a message. `Visit` says which tables get numbers on the
way, and when no table is met twice.
-/

namespace RandServer

variable {L : LuaState} {P : LuaValue → Prop}

/-- How many tables have numbers, and which. -/
structure Numbering where
  tableRef : Nat
  refs : Nat → Option Nat

namespace Numbering

def empty : Numbering := { tableRef := 0, refs := fun _ => none }

def record (σ : Numbering) (id : Nat) : Numbering :=
  { tableRef := σ.tableRef + 1, refs := Function.update σ.refs id (some (σ.tableRef + 1)) }

@[simp] theorem record_tableRef (σ : Numbering) (id : Nat) :
    (σ.record id).tableRef = σ.tableRef + 1 := rfl

@[simp] theorem record_refs_self (σ : Numbering) (id : Nat) :
    (σ.record id).refs id = some (σ.tableRef + 1) := Function.update_self ..

theorem record_refs_of_ne {σ : Numbering} {id id' : Nat} (h : id' ≠ id) :
    (σ.record id).refs id' = σ.refs id' := Function.update_of_ne h ..

/-- The numbers are `1, ..., tableRef`, each of one table. -/
structure Valid (σ : Numbering) : Prop where
  range : ∀ {id n : Nat}, σ.refs id = some n → 1 ≤ n ∧ n ≤ σ.tableRef
  inj : ∀ {id id' n : Nat}, σ.refs id = some n → σ.refs id' = some n → id = id'
  surj : ∀ {n : Nat}, 1 ≤ n → n ≤ σ.tableRef → ∃ id, σ.refs id = some n

theorem empty_valid : Valid empty :=
  ⟨nofun, nofun, fun hpos hle => absurd hpos (by simp only [empty] at hle; omega)⟩

theorem Valid.record {σ : Numbering} (h : σ.Valid) (id : Nat) (hnew : σ.refs id = none) :
    (σ.record id).Valid := by
  have hother : ∀ {id' n : Nat}, (σ.record id).refs id' = some n →
      id' = id ∧ n = σ.tableRef + 1 ∨ σ.refs id' = some n := by
    intro id' n hn
    by_cases heq : id' = id
    · subst heq
      rw [record_refs_self, Option.some.injEq] at hn
      exact .inl ⟨rfl, hn.symm⟩
    · rw [record_refs_of_ne heq] at hn
      exact .inr hn
  refine ⟨?_, ?_, ?_⟩
  · intro id' n hn
    show 1 ≤ n ∧ n ≤ σ.tableRef + 1
    rcases hother hn with ⟨-, rfl⟩ | hold
    · omega
    · have := h.range hold
      omega
  · intro id₁ id₂ n h₁ h₂
    rcases hother h₁ with ⟨rfl, rfl⟩ | hold₁
    · rcases hother h₂ with ⟨rfl, -⟩ | hold₂
      · rfl
      · have := h.range hold₂
        omega
    · rcases hother h₂ with ⟨rfl, rfl⟩ | hold₂
      · have := h.range hold₁
        omega
      · exact h.inj hold₁ hold₂
  · intro n hpos hle
    have hle : n ≤ σ.tableRef + 1 := hle
    by_cases heq : n = σ.tableRef + 1
    · subst heq
      exact ⟨id, Function.update_self ..⟩
    · obtain ⟨id', hid'⟩ := h.surj hpos (by omega)
      refine ⟨id', ?_⟩
      have hne : id' ≠ id := by
        rintro rfl
        rw [hnew] at hid'
        cases hid'
      rw [record_refs_of_ne hne, hid']

end Numbering

/-- Values in a row, or entries of a table. -/
inductive Job
  | values (vs : List LuaValue)
  | entries (es : List (LuaValue × LuaValue))

/-- The values of a job. -/
def Job.locals : Job → List LuaValue
  | .values vs => vs
  | .entries es => es.flatMap fun e => [e.1, e.2]

/-- `Packed L P σ job bytes linked depth σ'`: the job is written as `bytes` if the tables
are numbered by `σ` before it, and by `σ'` after it. All values in it meet `P`, `linked`
says whether a table reference is written, and tables are written `depth` deep inside each
other. -/
inductive Packed (L : LuaState) (P : LuaValue → Prop) :
    Numbering → Job → List UInt8 → Bool → Nat → Numbering → Prop
  | nil {σ : Numbering} : Packed L P σ (.values []) [] false 0 σ
  | scalar {σ σ' : Numbering} {v : LuaValue} {vs : List LuaValue} {bytes : List UInt8}
      {linked : Bool} {depth : Nat} : v.isTable = false → P v →
      Packed L P σ (.values vs) bytes linked depth σ' →
      Packed L P σ (.values (v :: vs)) (scalarBytes v ++ bytes) linked depth σ'
  | ref {σ σ' : Numbering} {id n : Nat} {vs : List LuaValue} {bytes : List UInt8}
      {linked : Bool} {depth : Nat} : σ.refs id = some n → P (.table id) → n ≤ intMax →
      Packed L P σ (.values vs) bytes linked depth σ' →
      Packed L P σ (.values (.table id :: vs))
        (EnSer.serTableRef.toByte :: leBytes 4 n ++ bytes) true depth σ'
  | table {σ σ₁ σ' : Numbering} {id : Nat} {vs : List LuaValue} {bytes₁ bytes : List UInt8}
      {linked₁ linked : Bool} {depth₁ depth : Nat} :
      σ.refs id = none → P (.table id) → σ.tableRef < intMax →
      Packed L P (σ.record id) (.entries (L.entries id)) bytes₁ linked₁ depth₁ σ₁ →
      Packed L P σ₁ (.values vs) bytes linked depth σ' →
      Packed L P σ (.values (.table id :: vs))
        (EnSer.serTableBegin.toByte :: bytes₁ ++ EnSer.serTableEnd.toByte :: bytes)
        (linked₁ || linked) (max (depth₁ + 1) depth) σ'
  | noEntries {σ : Numbering} : Packed L P σ (.entries []) [] false 0 σ
  | entry {σ σ₁ σ' : Numbering} {k v : LuaValue} {es : List (LuaValue × LuaValue)}
      {bytes₁ bytes : List UInt8} {linked₁ linked : Bool} {depth₁ depth : Nat} :
      Packed L P σ (.values [k, v]) bytes₁ linked₁ depth₁ σ₁ →
      Packed L P σ₁ (.entries es) bytes linked depth σ' →
      Packed L P σ (.entries ((k, v) :: es)) (bytes₁ ++ bytes) (linked₁ || linked)
        (max depth₁ depth) σ'

namespace Packed

variable {σ σ₁ σ' : Numbering} {job : Job} {bytes bytes₁ : List UInt8} {linked linked₁ : Bool}
  {depth depth₁ : Nat} {vs ws : List LuaValue}

theorem append (h : Packed L P σ (.values vs) bytes linked depth σ₁)
    (h' : Packed L P σ₁ (.values ws) bytes₁ linked₁ depth₁ σ') :
    Packed L P σ (.values (vs ++ ws)) (bytes ++ bytes₁) (linked || linked₁) (max depth depth₁)
      σ' := by
  generalize hjob : Job.values vs = job at h
  induction h generalizing vs with
  | nil =>
      cases hjob
      rw [Nat.zero_max]
      exact h'
  | scalar hv hP _ ih =>
      cases hjob
      rw [List.append_assoc]
      exact .scalar hv hP (ih h' rfl)
  | ref hn hP hle _ ih =>
      cases hjob
      rw [List.append_assoc]
      exact .ref hn hP hle (ih h' rfl)
  | table hnew hP hlt hbody _ _ ih =>
      cases hjob
      rw [List.append_assoc, List.cons_append, Bool.or_assoc, Nat.max_assoc]
      exact .table hnew hP hlt hbody (ih h' rfl)
  | noEntries => cases hjob
  | entry => cases hjob

/-- What packing does to the numbers. -/
structure Grows (σ σ' : Numbering) : Prop where
  le : σ.tableRef ≤ σ'.tableRef
  keeps : ∀ {id n : Nat}, σ.refs id = some n → σ'.refs id = some n
  fresh : ∀ {id n : Nat}, σ.refs id = none → σ'.refs id = some n →
    σ.tableRef < n ∧ n ≤ σ'.tableRef

theorem Grows.refl (σ : Numbering) : Grows σ σ := by
  refine ⟨Nat.le_refl _, id, fun hnone hsome => ?_⟩
  rw [hnone] at hsome
  cases hsome

theorem Grows.trans (h : Grows σ σ₁) (h' : Grows σ₁ σ') : Grows σ σ' := by
  refine ⟨Nat.le_trans h.le h'.le, fun hid => h'.keeps (h.keeps hid), fun {id n} hnone hsome => ?_⟩
  have hle := h.le
  have hle' := h'.le
  cases hmid : σ₁.refs id with
  | none =>
      have := h'.fresh hmid hsome
      omega
  | some m =>
      have heq := h'.keeps hmid
      rw [hsome, Option.some.injEq] at heq
      have := h.fresh hnone hmid
      omega

theorem Grows.record (σ : Numbering) {id : Nat} (hnew : σ.refs id = none) :
    Grows σ (σ.record id) := by
  refine ⟨Nat.le_succ _, fun {id' n} hid' => ?_, fun {id' n} hnone hsome => ?_⟩
  · have hne : id' ≠ id := by
      rintro rfl
      rw [hnew] at hid'
      cases hid'
    rw [Numbering.record_refs_of_ne hne, hid']
  · by_cases heq : id' = id
    · subst heq
      rw [Numbering.record_refs_self, Option.some.injEq] at hsome
      rw [Numbering.record_tableRef]
      omega
    · rw [Numbering.record_refs_of_ne heq, hnone] at hsome
      cases hsome

theorem Grows.ne_none (h : Grows σ σ') {id : Nat} (hid : σ.refs id ≠ none) :
    σ'.refs id ≠ none := by
  obtain ⟨n, hn⟩ := Option.ne_none_iff_exists'.mp hid
  rw [h.keeps hn]
  exact nofun

theorem grows (h : Packed L P σ job bytes linked depth σ') : Grows σ σ' := by
  induction h with
  | nil => exact .refl _
  | scalar _ _ _ ih => exact ih
  | ref _ _ _ _ ih => exact ih
  | table hnew _ _ _ _ ih ih' => exact ((Grows.record _ hnew).trans ih).trans ih'
  | noEntries => exact .refl _
  | entry _ _ ih ih' => exact ih.trans ih'

theorem valid (h : Packed L P σ job bytes linked depth σ') (hσ : σ.Valid) : σ'.Valid := by
  induction h with
  | nil => exact hσ
  | scalar _ _ _ ih => exact ih hσ
  | ref _ _ _ _ ih => exact ih hσ
  | table hnew _ _ _ _ ih ih' => exact ih' (ih (hσ.record _ hnew))
  | noEntries => exact hσ
  | entry _ _ ih ih' => exact ih' (ih hσ)

theorem tableRef_le (h : Packed L P σ job bytes linked depth σ') (hσ : σ.tableRef ≤ intMax) :
    σ'.tableRef ≤ intMax := by
  induction h with
  | nil => exact hσ
  | scalar _ _ _ ih => exact ih hσ
  | ref _ _ _ _ ih => exact ih hσ
  | table _ _ hlt _ _ ih ih' => exact ih' (ih hlt)
  | noEntries => exact hσ
  | entry _ _ ih ih' => exact ih' (ih hσ)

/-- Every value takes a byte. -/
theorem length_le (h : Packed L P σ job bytes linked depth σ') :
    job.locals.length ≤ bytes.length := by
  induction h with
  | nil => exact Nat.le_refl 0
  | @scalar _ _ v _ _ _ _ _ _ _ ih =>
      have hpos := scalarBytes_length_pos v
      simp only [Job.locals, List.length_cons, List.length_append] at ih ⊢
      omega
  | ref _ _ _ _ ih =>
      simp only [Job.locals, List.length_cons, List.length_append] at ih ⊢
      omega
  | table _ _ _ _ _ _ ih =>
      simp only [Job.locals, List.length_cons, List.length_append] at ih ⊢
      omega
  | noEntries => exact Nat.le_refl 0
  | entry _ _ ih ih' =>
      simp only [Job.locals, List.flatMap_cons, List.length_cons, List.length_nil,
        List.length_append] at ih ih' ⊢
      omega

end Packed

/-! ## The tables that are met -/

/-- The tables among values, as often as they occur. -/
def tablesIn (vs : List LuaValue) : List Nat :=
  vs.filterMap fun
    | .table id => some id
    | _ => none

theorem mem_tablesIn {vs : List LuaValue} {t : Nat} : t ∈ tablesIn vs ↔ .table t ∈ vs := by
  rw [tablesIn, List.mem_filterMap]
  constructor
  · rintro ⟨v, hv, hsome⟩
    cases v with
    | table id =>
        cases hsome
        exact hv
    | _ => cases hsome
  · intro hv
    exact ⟨_, hv, rfl⟩

theorem tablesIn_append (vs ws : List LuaValue) :
    tablesIn (vs ++ ws) = tablesIn vs ++ tablesIn ws := List.filterMap_append

theorem tablesIn_cons_of_not_table {v : LuaValue} (h : v.isTable = false) (vs : List LuaValue) :
    tablesIn (v :: vs) = tablesIn vs := by
  cases v with
  | table id => cases h
  | _ => rfl

/-- The tables in the entries of a table. -/
def LuaState.children (L : LuaState) (t : Nat) : List Nat :=
  tablesIn (Job.entries (L.entries t)).locals

/-- All places of tables in a job and in the entries of some tables. -/
def Job.places (L : LuaState) (job : Job) (ts : List Nat) : List Nat :=
  tablesIn job.locals ++ ts.flatMap L.children

/-- `ts` are the tables that get numbers. If all places are of such tables, and no table
has two places, then no reference is written. -/
structure Visit (L : LuaState) (P : LuaValue → Prop) (σ : Numbering) (job : Job) (linked : Bool)
    (σ' : Numbering) (ts : List Nat) : Prop where
  nodup : ts.Nodup
  mem : ∀ t, t ∈ ts ↔ σ.refs t = none ∧ σ'.refs t ≠ none
  holds : ∀ t ∈ ts, P (.table t)
  placed : ∀ t ∈ ts, t ∈ job.places L ts
  covered : ∀ t ∈ job.places L ts, σ'.refs t ≠ none
  unlinked : (∀ t ∈ job.places L ts, σ.refs t = none) → (job.places L ts).Nodup → linked = false

namespace Visit

variable {σ σ₁ σ' : Numbering} {job job₁ job₂ : Job} {linked₁ linked₂ : Bool} {ts₁ ts₂ : List Nat}

theorem empty (hjob : tablesIn job.locals = []) : Visit L P σ job false σ [] := by
  have hplaces : job.places L [] = [] := by rw [Job.places, hjob, List.flatMap_nil, List.append_nil]
  refine ⟨List.nodup_nil, fun t => ?_, nofun, nofun, ?_, fun _ _ => rfl⟩
  · exact ⟨nofun, fun h => absurd h.1 h.2⟩
  · rw [hplaces]
    nofun

/-- One job after another. -/
theorem append (h₁ : Visit L P σ job₁ linked₁ σ₁ ts₁) (h₂ : Visit L P σ₁ job₂ linked₂ σ' ts₂)
    (hgrows₁ : Packed.Grows σ σ₁) (hgrows₂ : Packed.Grows σ₁ σ')
    (hlocals : job.locals = job₁.locals ++ job₂.locals) :
    Visit L P σ job (linked₁ || linked₂) σ' (ts₁ ++ ts₂) := by
  have hperm : (job.places L (ts₁ ++ ts₂)).Perm (job₁.places L ts₁ ++ job₂.places L ts₂) := by
    simp only [Job.places, hlocals, tablesIn_append, List.flatMap_append, List.append_assoc]
    refine List.Perm.append_left _ ?_
    rw [← List.append_assoc, ← List.append_assoc]
    exact List.Perm.append_right _ List.perm_append_comm
  have hnone : ∀ {t}, σ₁.refs t = none → σ.refs t = none := by
    intro t ht
    by_contra hne
    exact hgrows₁.ne_none hne ht
  refine ⟨?_, fun t => ?_, ?_, ?_, ?_, ?_⟩
  · rw [List.nodup_append]
    refine ⟨h₁.nodup, h₂.nodup, ?_⟩
    rintro t ht₁ _ ht₂ rfl
    exact ((h₁.mem t).mp ht₁).2 ((h₂.mem t).mp ht₂).1
  · rw [List.mem_append, h₁.mem, h₂.mem]
    constructor
    · rintro (⟨hσ, hσ₁⟩ | ⟨hσ₁, hσ'⟩)
      · exact ⟨hσ, hgrows₂.ne_none hσ₁⟩
      · exact ⟨hnone hσ₁, hσ'⟩
    · rintro ⟨hσ, hσ'⟩
      by_cases hσ₁ : σ₁.refs t = none
      · exact .inr ⟨hσ₁, hσ'⟩
      · exact .inl ⟨hσ, hσ₁⟩
  · intro t ht
    rcases List.mem_append.mp ht with ht | ht
    · exact h₁.holds t ht
    · exact h₂.holds t ht
  · intro t ht
    rw [hperm.mem_iff, List.mem_append]
    rcases List.mem_append.mp ht with ht | ht
    · exact .inl (h₁.placed t ht)
    · exact .inr (h₂.placed t ht)
  · intro t ht
    rw [hperm.mem_iff, List.mem_append] at ht
    rcases ht with ht | ht
    · exact hgrows₂.ne_none (h₁.covered t ht)
    · exact h₂.covered t ht
  · intro hfresh hnodup
    rw [hperm.nodup_iff, List.nodup_append] at hnodup
    obtain ⟨hnodup₁, hnodup₂, hdisjoint⟩ := hnodup
    have hfresh : ∀ t ∈ job₁.places L ts₁ ++ job₂.places L ts₂, σ.refs t = none := by
      intro t ht
      exact hfresh t (hperm.mem_iff.mpr ht)
    rw [h₁.unlinked (fun t ht => hfresh t (List.mem_append_left _ ht)) hnodup₁,
      h₂.unlinked ?_ hnodup₂]
    · rfl
    · -- A table of the second part with a number has got it in the first part.
      intro t ht
      by_contra hne
      have hmem := (h₁.mem t).mpr ⟨hfresh t (List.mem_append_right _ ht), hne⟩
      exact hdisjoint t (h₁.placed t hmem) t ht rfl

/-- A table with its entries. -/
theorem table {id : Nat} (hnew : σ.refs id = none) (hP : P (.table id))
    (hgrows : Packed.Grows (σ.record id) σ₁)
    (h : Visit L P (σ.record id) (.entries (L.entries id)) linked₁ σ₁ ts₁) :
    Visit L P σ (.values [.table id]) linked₁ σ₁ (id :: ts₁) := by
  have hplaces : (Job.values [.table id]).places L (id :: ts₁) =
      id :: (Job.entries (L.entries id)).places L ts₁ := rfl
  have hid : σ₁.refs id ≠ none := by
    rw [hgrows.keeps (Numbering.record_refs_self σ id)]
    exact nofun
  have hnotin : id ∉ ts₁ := by
    intro hmem
    have hnone := ((h.mem id).mp hmem).1
    rw [Numbering.record_refs_self] at hnone
    cases hnone
  refine ⟨List.nodup_cons.mpr ⟨hnotin, h.nodup⟩, fun t => ?_, ?_, ?_, ?_, ?_⟩
  · rw [List.mem_cons, h.mem]
    by_cases heq : t = id
    · subst heq
      exact ⟨fun _ => ⟨hnew, hid⟩, fun _ => .inl rfl⟩
    · rw [Numbering.record_refs_of_ne heq]
      exact ⟨fun ht => ht.resolve_left heq, .inr⟩
  · intro t ht
    rcases List.mem_cons.mp ht with rfl | ht
    · exact hP
    · exact h.holds t ht
  · intro t ht
    rw [hplaces, List.mem_cons]
    exact (List.mem_cons.mp ht).imp_right (h.placed t)
  · intro t ht
    rw [hplaces, List.mem_cons] at ht
    rcases ht with rfl | ht
    · exact hid
    · exact h.covered t ht
  · intro hfresh hnodup
    rw [hplaces] at hfresh hnodup
    obtain ⟨hnotin, hnodup⟩ := List.nodup_cons.mp hnodup
    refine h.unlinked (fun t ht => ?_) hnodup
    have hne : t ≠ id := by
      rintro rfl
      exact hnotin ht
    rw [Numbering.record_refs_of_ne hne]
    exact hfresh t (List.mem_cons_of_mem _ ht)

end Visit

namespace Packed

variable {σ σ' : Numbering} {job : Job} {bytes : List UInt8} {linked : Bool} {depth : Nat}
  {vs : List LuaValue}

theorem visit (h : Packed L P σ job bytes linked depth σ') :
    ∃ ts, Visit L P σ job linked σ' ts := by
  induction h with
  | nil => exact ⟨[], .empty rfl⟩
  | @scalar σ σ' v vs _ _ _ hv _ _ ih =>
      obtain ⟨ts, ih⟩ := ih
      have hplaces : (Job.values (v :: vs)).places L ts = (Job.values vs).places L ts := by
        simp only [Job.places, Job.locals, tablesIn_cons_of_not_table hv]
      refine ⟨ts, ih.nodup, ih.mem, ih.holds, ?_, ?_, ?_⟩
      · rw [hplaces]
        exact ih.placed
      · rw [hplaces]
        exact ih.covered
      · rw [hplaces]
        exact ih.unlinked
  | @ref σ σ' id n vs bytes linked _ hn _ _ hrest ih =>
      obtain ⟨ts, ih⟩ := ih
      have hplaces : (Job.values (.table id :: vs)).places L ts =
          id :: (Job.values vs).places L ts := rfl
      have hid : σ.refs id ≠ none := by
        rw [hn]
        exact nofun
      refine ⟨ts, ih.nodup, ih.mem, ih.holds, fun t ht => ?_, fun t ht => ?_, fun hfresh _ => ?_⟩
      · exact List.mem_cons_of_mem _ (ih.placed t ht)
      · rw [hplaces] at ht
        rcases List.mem_cons.mp ht with rfl | ht
        · exact hrest.grows.ne_none hid
        · exact ih.covered t ht
      · exact absurd (hfresh id List.mem_cons_self) hid
  | table hnew hP _ hbody hrest ih ih' =>
      obtain ⟨ts₁, ih⟩ := ih
      obtain ⟨ts₂, ih'⟩ := ih'
      exact ⟨_, (Visit.table hnew hP hbody.grows ih).append ih'
        ((Grows.record _ hnew).trans hbody.grows) hrest.grows rfl⟩
  | noEntries => exact ⟨[], .empty rfl⟩
  | entry hfirst hrest ih ih' =>
      obtain ⟨ts₁, ih⟩ := ih
      obtain ⟨ts₂, ih'⟩ := ih'
      exact ⟨_, ih.append ih' hfirst.grows hrest.grows rfl⟩

/-- Everything that can be reached from packed values has a number. -/
theorem reach_covered (h : Packed L P .empty (.values vs) bytes linked depth σ') {t : Nat}
    (ht : L.Reach vs t) : σ'.refs t ≠ none := by
  obtain ⟨ts, hvisit⟩ := h.visit
  have hchild : ∀ {id t : Nat}, σ'.refs id ≠ none → t ∈ L.children id → σ'.refs t ≠ none := by
    intro id t hid hmem
    refine hvisit.covered t (List.mem_append_right _ ?_)
    exact List.mem_flatMap.mpr ⟨id, (hvisit.mem id).mpr ⟨rfl, hid⟩, hmem⟩
  induction ht with
  | root hmem => exact hvisit.covered _ (List.mem_append_left _ (mem_tablesIn.mpr hmem))
  | key _ he ih =>
      refine hchild ih (mem_tablesIn.mpr (List.mem_flatMap.mpr ⟨_, he, ?_⟩))
      exact List.mem_cons_self
  | value _ he ih =>
      refine hchild ih (mem_tablesIn.mpr (List.mem_flatMap.mpr ⟨_, he, ?_⟩))
      exact List.mem_cons_of_mem _ List.mem_cons_self

end Packed

/-! ## Nesting -/

theorem Numbering.insert_record (σ : Numbering) (id : Nat) :
    insert id {t | σ.refs t ≠ none} = {t | (σ.record id).refs t ≠ none} := by
  ext t
  rw [Set.mem_insert_iff, Set.mem_ofPred_eq, Set.mem_ofPred_eq]
  by_cases heq : t = id
  · rw [heq, Numbering.record_refs_self]
    exact ⟨fun _ => Option.some_ne_none _, fun _ => .inl rfl⟩
  · rw [Numbering.record_refs_of_ne heq]
    exact or_iff_right heq

/-- Packing walks through the graph, and the tables with numbers are those it has met. -/
theorem Packed.walk {σ σ' : Numbering} {job : Job} {bytes : List UInt8} {linked : Bool}
    {depth : Nat} (h : Packed L P σ job bytes linked depth σ') :
    L.Walk {t | σ.refs t ≠ none} job.locals depth {t | σ'.refs t ≠ none} := by
  induction h with
  | nil => exact .nil
  | scalar hv _ _ ih =>
      refine .skip (fun id heq => ?_) ih
      rw [heq] at hv
      cases hv
  | ref hn _ _ _ ih =>
      refine .skip (fun id heq => ?_) ih
      cases heq
      show _ ≠ none
      rw [hn]
      exact Option.some_ne_none _
  | table hnew _ _ _ _ ih ih' =>
      refine .enter (fun hmem => hmem hnew) ?_ ih'
      rw [Numbering.insert_record]
      exact ih
  | noEntries => exact .nil
  | entry _ _ ih ih' => exact ih.append ih'

/-- What is written is nested as deep as the graph. -/
theorem Packed.nests {vs : List LuaValue} {bytes : List UInt8} {linked : Bool} {depth : Nat}
    {σ : Numbering} (h : Packed L P .empty (.values vs) bytes linked depth σ) :
    L.Nests vs depth := by
  have hnone : {t | Numbering.empty.refs t ≠ none} = ∅ :=
    Set.eq_empty_of_forall_notMem fun t ht => ht rfl
  have hwalk := h.walk
  rw [hnone] at hwalk
  exact ⟨_, hwalk⟩

/-- A table takes bytes of its own. -/
theorem Packed.depth_le {σ σ' : Numbering} {job : Job} {bytes : List UInt8} {linked : Bool}
    {depth : Nat} (h : Packed L P σ job bytes linked depth σ') : depth ≤ bytes.length := by
  induction h with
  | nil => exact Nat.le_refl 0
  | scalar _ _ _ ih =>
      rw [List.length_append]
      omega
  | ref _ _ _ _ ih =>
      rw [List.length_append]
      omega
  | table _ _ _ _ _ ih ih' =>
      simp only [List.length_append, List.length_cons]
      omega
  | noEntries => exact Nat.le_refl 0
  | entry _ _ ih ih' =>
      rw [List.length_append]
      omega

/-! ## Numbers enough -/

/-- More tables with `P` than an `int` can number. -/
def Overflows (P : LuaValue → Prop) : Prop :=
  ∃ σ : Numbering, ∃ id, σ.Valid ∧ σ.tableRef = intMax ∧
    (∀ t, σ.refs t ≠ none → P (.table t)) ∧ σ.refs id = none ∧ P (.table id)

theorem Overflows.not_few {vs : List LuaValue} (h : Overflows (L.Occurs vs)) : ¬ L.Few vs := by
  obtain ⟨σ, id, hvalid, hmax, hP, hnew, hid⟩ := h
  intro hfew
  have hnumber : ∀ n : Fin σ.tableRef, ∃ t, σ.refs t = some (n.val + 1) :=
    fun n => hvalid.surj (Nat.le_add_left 1 _) n.isLt
  choose t ht using hnumber
  have hnotin : id ∉ List.ofFn t := by
    rw [List.mem_ofFn]
    rintro ⟨n, rfl⟩
    rw [ht n] at hnew
    cases hnew
  have hnodup : (List.ofFn t).Nodup := by
    rw [List.nodup_ofFn]
    intro m n heq
    have hrefs := ht m
    rw [heq, ht n, Option.some.injEq] at hrefs
    exact Fin.ext (by omega)
  have hlen := hfew (id :: List.ofFn t) (List.nodup_cons.mpr ⟨hnotin, hnodup⟩) ?_
  · rw [List.length_cons, List.length_ofFn, hmax, intMax] at hlen
    omega
  · intro u hu
    rcases List.mem_cons.mp hu with rfl | hu
    · exact hid.reach
    · obtain ⟨n, rfl⟩ := List.mem_ofFn.mp hu
      refine (hP _ ?_).reach
      rw [ht n]
      exact nofun

/-- Packed values do not reach too many tables. -/
theorem Packed.few {vs : List LuaValue} {bytes : List UInt8} {linked : Bool} {depth : Nat}
    {σ : Numbering} (h : Packed L P .empty (.values vs) bytes linked depth σ) : L.Few vs := by
  intro ts hnodup hts
  have hvalid := h.valid Numbering.empty_valid
  have hmax := h.tableRef_le (Nat.zero_le intMax)
  have hnumber : ∀ t ∈ ts, σ.refs t = some ((σ.refs t).getD 0) := by
    intro t ht
    obtain ⟨n, hn⟩ := Option.ne_none_iff_exists'.mp (h.reach_covered (hts t ht))
    rw [hn]
    rfl
  have hmap : (ts.map fun t => (σ.refs t).getD 0).Nodup := by
    refine hnodup.map_on fun t ht u hu heq => hvalid.inj (hnumber t ht) ?_
    rw [heq]
    exact hnumber u hu
  have hsub : (ts.map fun t => (σ.refs t).getD 0) ⊆ List.range' 1 σ.tableRef := by
    intro n hn
    obtain ⟨t, ht, rfl⟩ := List.mem_map.mp hn
    have hrange := hvalid.range (hnumber t ht)
    rw [List.mem_range'_1]
    omega
  have hlen := (hmap.subperm hsub).length_le
  rw [List.length_map, List.length_range'] at hlen
  rw [intMax] at hmax
  omega

end RandServer
