import RandServer.Lib.Upsert
import RandServer.Script.DbOpShape

/-!
# Batches of upserts

The statement of `update_insert_table` names the columns of its first line. A later line
without one of them puts an empty literal there, and what it has in other columns is
dropped. `store` is what a column holds after it has been given a literal, and `fresh` is a
new row with the defaults.
-/

namespace RandServer

open SqlText

abbrev Text := List UInt8

/-- The rows of a table by their primary keys. -/
abbrev SqlTable := Upsert.Table Text SqlName Text

section Execute

variable (store : SqlName → Text → Text) (fresh : Text → SqlName → Text)

/-- What an upsert statement does for one of its lines. -/
def lineOp (prkField : SqlName) (names : List SqlName) (line : SqlName → Text) :
    Upsert.Op Text SqlName Text where
  key := store prkField (line prkField)
  assign c := if c ∈ names then some (store c (line c)) else none

/-- Execute an upsert. Without a column to update the statement is not correct. -/
def execute (t : SqlTable) : SqlStatement Text → Option SqlTable
  | .updateInsert _ prkField names lines =>
      if names = [] then none
      else some (Upsert.run fresh t (lines.map (lineOp store prkField names)))
  | _ => none

/-- Execute statements in order. -/
def executeAll (t : SqlTable) (stmts : List (SqlStatement Text)) : Option SqlTable :=
  stmts.foldlM (execute store fresh) t

/-- The statements that are built for each line alone. -/
def singleUpserts (d : Driver) (info : TableInfo) (lines : List LineDict) :
    Option (List (SqlStatement Text)) :=
  lines.mapM fun line => updateInsertTable d info line []

end Execute

section Lines

variable {store : SqlName → Text → Text} {fresh : Text → SqlName → Text} {d : Driver}
  {info : TableInfo} {prk : SqlColumn} {first line : LineDict} {lines : List LineDict} {n : SqlName}
  {t : SqlTable}

/-- What the columns of a line are given. -/
def rawOf (d : Driver) (info : TableInfo) (line : LineDict) : SqlName → Text :=
  Cell.raw ∘ cellOf d info.columns line

theorem mem_restNames : n ∈ info.restNames prk.field line ↔
    n ∈ info.columns.map SqlColumn.field ∧ n ≠ prk.field ∧ (line n).isSome := by
  simp only [TableInfo.restNames, List.mem_map, List.mem_filter, decide_eq_true_eq]
  constructor
  · rintro ⟨v, ⟨hv, hne, hsome⟩, rfl⟩
    exact ⟨⟨v, hv, rfl⟩, hne, hsome⟩
  · rintro ⟨⟨v, hv, rfl⟩, hne, hsome⟩
    exact ⟨v, ⟨hv, hne, hsome⟩, rfl⟩

/-- The statement for a list of lines with a primary key. -/
theorem updateInsertTable_some (hprk : info.priKey = some prk) {rest : List LineDict}
    {stmt : SqlStatement Text} (h : updateInsertTable d info first rest = some stmt) :
    stmt = .updateInsert info.name prk.field (info.restNames prk.field first)
      ((first :: rest).map (rawOf d info)) := by
  have hcall : (DbCall.updateInsert first rest).statement d info = some stmt := h
  obtain ⟨meant, hmeant, rfl, -, -⟩ := statement_raw hcall
  simp only [DbCall.meant, hprk, Option.map_some, Option.some.injEq] at hmeant
  rw [← hmeant]
  simp only [SqlStatement.map, List.map_map]
  rfl

/-- In a batch a line assigns the columns of the first one, with a blank for what it lacks. -/
theorem lineOp_widen : lineOp store prk.field (info.restNames prk.field first) (rawOf d info line) =
    Upsert.widen (info.restNames prk.field first) (fun c => store c [])
      (lineOp store prk.field (info.restNames prk.field line) (rawOf d info line)) := by
  refine congrArg (Upsert.Op.mk _) (funext fun c => ?_)
  simp only [lineOp]
  by_cases hc : c ∈ info.restNames prk.field first
  · rw [if_pos hc, if_pos hc]
    obtain ⟨hcol, hne, -⟩ := mem_restNames.mp hc
    cases hline : line c with
    | none =>
        have hout : c ∉ info.restNames prk.field line := fun h => by
          have hsome := (mem_restNames.mp h).2.2
          rw [hline] at hsome
          cases hsome
        have hraw : rawOf d info line c = [] := by
          simp only [rawOf, Function.comp_apply, cellOf, hline]
        rw [if_neg hout, Option.getD_none, hraw]
    | some v =>
        have hin : c ∈ info.restNames prk.field line :=
          mem_restNames.mpr ⟨hcol, hne, by rw [hline]; rfl⟩
        rw [if_pos hin, Option.getD_some]
  · rw [if_neg hc, if_neg hc]

theorem mapM_isSome {α β : Type} {f : α → Option β} {xs : List α} :
    (xs.mapM f).isSome ↔ ∀ x ∈ xs, (f x).isSome := by
  induction xs with
  | nil => exact iff_of_true rfl nofun
  | cons x xs ih =>
      rw [List.mapM_cons, List.forall_mem_cons, ← ih]
      cases hx : f x with
      | none => exact iff_of_false nofun fun h => absurd h.1 (by simp)
      | some y =>
          cases hxs : xs.mapM f with
          | none => exact iff_of_false nofun fun h => absurd h.2 (by simp)
          | some ys => exact iff_of_true rfl ⟨rfl, rfl⟩

/-- Where a batch can be built, so can the statements for its lines. -/
theorem singleUpserts_eq (hprk : info.priKey = some prk)
    (hall : ∀ line ∈ lines, (adjustLine d info.columns line).isSome) :
    singleUpserts d info lines = some (lines.map fun line =>
      .updateInsert info.name prk.field (info.restNames prk.field line) [rawOf d info line]) := by
  induction lines with
  | nil => rfl
  | cons line lines ih =>
      rw [List.forall_mem_cons] at hall
      have hmapM : ([line].mapM (adjustLine d info.columns)).isSome :=
        mapM_isSome.mpr (by simpa using hall.1)
      obtain ⟨lines', hlines'⟩ := Option.isSome_iff_exists.mp hmapM
      have hsome : updateInsertTable d info line [] = some (.updateInsert info.name prk.field
          (info.restNames prk.field line) (lines'.map LineDict.cell)) := by
        unfold updateInsertTable
        rw [hprk, hlines']
        rfl
      rw [updateInsertTable_some hprk hsome] at hsome
      have hrest := ih hall.2
      unfold singleUpserts at hrest ⊢
      rw [List.mapM_cons, hsome, hrest]
      rfl

/-- The statements for the lines do one upsert each. -/
theorem executeAll_singles (hne : ∀ line ∈ lines, info.restNames prk.field line ≠ []) :
    executeAll store fresh t (lines.map fun line =>
      .updateInsert info.name prk.field (info.restNames prk.field line) [rawOf d info line]) =
    some (Upsert.run fresh t (lines.map fun line =>
      lineOp store prk.field (info.restNames prk.field line) (rawOf d info line))) := by
  induction lines generalizing t with
  | nil => rfl
  | cons line lines ih =>
      rw [List.forall_mem_cons] at hne
      have hrest := @ih (Upsert.upsert fresh t
        (lineOp store prk.field (info.restNames prk.field line) (rawOf d info line))) hne.2
      unfold executeAll at hrest ⊢
      rw [List.map_cons, List.foldlM_cons, execute, if_neg hne.1]
      exact hrest

instance : Nontrivial Text := ⟨[], [0], by decide⟩

end Lines

/-- Lines with the same fields are uniform. -/
theorem uniform_of_sameFields {store : SqlName → Text → Text} {d : Driver} {info : TableInfo}
    {prk : SqlColumn} {first : LineDict} {lines : List LineDict}
    (h : ∀ line ∈ lines, SameFields first line) :
    Upsert.Uniform (info.restNames prk.field first) (fun c => store c []) (lines.map fun line =>
      lineOp store prk.field (info.restNames prk.field line) (rawOf d info line)) := by
  have hop : ∀ op ∈ lines.map fun line =>
      lineOp store prk.field (info.restNames prk.field line) (rawOf d info line),
      ∀ c, (op.assign c).isSome ↔ c ∈ info.restNames prk.field first := by
    intro op hop c
    obtain ⟨line, hline, rfl⟩ := List.mem_map.mp hop
    simp only [lineOp, (h line hline).restNames]
    split <;> simp [*]
  refine ⟨fun op hmem c => (hop op hmem c).mp, fun pre op post hsplit _ c hc hnone => ?_⟩
  have hmem : op ∈ lines.map fun line =>
      lineOp store prk.field (info.restNames prk.field line) (rawOf d info line) := by
    rw [hsplit]
    exact List.mem_append_right _ List.mem_cons_self
  have hsome := (hop op hmem c).mpr hc
  rw [hnone] at hsome
  cases hsome

/-- A batch has the effect of its lines one by one if and only if no line has a column that the
first one lacks, and what a column was given last is like an empty text where the last line
with a key lacks it. -/
theorem upsert_batch_iff (store : SqlName → Text → Text) (fresh : Text → SqlName → Text) (d : Driver)
    {info : TableInfo} {prk : SqlColumn} (hprk : info.priKey = some prk) {first : LineDict}
    {rest : List LineDict} {stmt : SqlStatement Text}
    (h : updateInsertTable d info first rest = some stmt)
    (hfields : ∀ line ∈ first :: rest, (line prk.field).isSome ∧
      ∃ v ∈ info.columns, v.field ≠ prk.field ∧ (line v.field).isSome) :
    (∀ t, execute store fresh t stmt =
      (singleUpserts d info (first :: rest)).bind (executeAll store fresh t)) ↔
    Upsert.Uniform (info.restNames prk.field first) (fun c => store c []) ((first :: rest).map
      fun line => lineOp store prk.field (info.restNames prk.field line) (rawOf d info line)) := by
  have hne : ∀ line ∈ first :: rest, info.restNames prk.field line ≠ [] := by
    intro line hline
    obtain ⟨-, v, hv, hkey, hsome⟩ := hfields line hline
    exact List.ne_nil_of_mem (mem_restNames.mpr ⟨List.mem_map_of_mem hv, hkey, hsome⟩)
  have hall : ∀ line ∈ first :: rest, (adjustLine d info.columns line).isSome := by
    obtain ⟨prk', -, hmap⟩ := Option.bind_eq_some_iff.mp h
    obtain ⟨lines, hlines, -⟩ := Option.map_eq_some_iff.mp hmap
    exact mapM_isSome.mp (by rw [hlines]; rfl)
  have hbatch : ∀ t, execute store fresh t stmt = some (Upsert.run fresh t
      (((first :: rest).map fun line =>
        lineOp store prk.field (info.restNames prk.field line) (rawOf d info line)).map
        (Upsert.widen (info.restNames prk.field first) fun c => store c []))) := by
    intro t
    rw [updateInsertTable_some hprk h, execute, if_neg (hne first List.mem_cons_self), List.map_map,
      List.map_map]
    exact congrArg (fun ops => some (Upsert.run fresh t ops))
      (List.map_congr_left fun line _ => lineOp_widen)
  rw [← @Upsert.batch_iff _ _ _ _ fresh]
  simp only [hbatch, singleUpserts_eq hprk hall, Option.bind_some, executeAll_singles hne,
    Option.some.injEq]

/-! ## A table of roles -/

def idColumn : SqlColumn where
  field := { text := ascii "id", isName := by decide +kernel }
  type := ascii "bigint(20)"

def levelColumn : SqlColumn where
  field := { text := ascii "level", isName := by decide +kernel }
  type := ascii "bigint(30)"

def roleTable : TableInfo where
  name := { text := ascii "roles", isName := isName_roles }
  columns := [idColumn, nameColumn, levelColumn]
  priKey := some idColumn
  nodup := by decide +kernel
  priKey_mem := by decide +kernel

def roleLine (id name : Text) (level : Option Text) : LineDict := fun n =>
  if n = idColumn.field then some (.string id)
  else if n = nameColumn.field then some (.string name)
  else if n = levelColumn.field then level.map .string
  else none

/-- Columns that hold the texts they are given, and defaults that are empty. -/
def asText (_ : SqlName) (v : Text) : Text := v

def noDefaults (_ : Text) (_ : SqlName) : Text := []

/-- Two roles with the same fields. -/
theorem upsert_batch_iff_roles : ∃ stmt, updateInsertTable plainDriver roleTable
      (roleLine [49] [97] (some [50])) [roleLine [51] [98] (some [52])] = some stmt ∧
    ∀ t, execute asText noDefaults t stmt =
      (singleUpserts plainDriver roleTable
        [roleLine [49] [97] (some [50]), roleLine [51] [98] (some [52])]).bind
        (executeAll asText noDefaults t) := by
  obtain ⟨stmt, hstmt⟩ := Option.isSome_iff_exists.mp (by decide +kernel :
    (updateInsertTable plainDriver roleTable (roleLine [49] [97] (some [50]))
      [roleLine [51] [98] (some [52])]).isSome)
  have hsame : ∀ id name level, SameFields (roleLine [49] [97] (some [50]))
      (roleLine id name (some level)) := by
    intro id name level n
    unfold roleLine
    split_ifs <;> rfl
  refine ⟨stmt, hstmt, (upsert_batch_iff _ _ plainDriver rfl hstmt (by decide +kernel)).mpr ?_⟩
  refine @uniform_of_sameFields asText plainDriver roleTable idColumn _ _ fun line hline => ?_
  simp only [List.mem_cons, List.not_mem_nil, or_false] at hline
  obtain rfl | rfl := hline <;> exact hsame _ _ _

/-- A later line without a level overwrites the level with an empty text. -/
theorem upsert_batch_overwrites : ¬ ∀ (store : SqlName → Text → Text) (fresh : Text → SqlName → Text)
    (d : Driver) (info : TableInfo) (prk : SqlColumn) (first : LineDict) (rest : List LineDict)
    (stmt : SqlStatement Text), info.priKey = some prk →
      updateInsertTable d info first rest = some stmt →
      (∀ line ∈ first :: rest, (line prk.field).isSome ∧
        ∃ v ∈ info.columns, v.field ≠ prk.field ∧ (line v.field).isSome) →
      ∀ t, execute store fresh t stmt =
        (singleUpserts d info (first :: rest)).bind (executeAll store fresh t) := by
  intro h
  have hany : (updateInsertTable plainDriver roleTable (roleLine [49] [97] (some [50]))
      [roleLine [49] [98] none]).any (fun stmt =>
        (execute asText noDefaults (fun _ => none) stmt).map
          (fun t => (t [49]).map (· levelColumn.field)) ≠
        ((singleUpserts plainDriver roleTable [roleLine [49] [97] (some [50]),
          roleLine [49] [98] none]).bind
            (executeAll asText noDefaults fun _ => none)).map
          (fun t => (t [49]).map (· levelColumn.field))) = true := by decide +kernel
  obtain ⟨stmt, hstmt, hne⟩ := (Option.any_eq_true _ _).mp hany
  have heq := h asText noDefaults plainDriver roleTable idColumn _ _ stmt rfl hstmt
    (by decide +kernel) fun _ => none
  exact of_decide_eq_true hne (congrArg (Option.map fun t => (t [49]).map (· levelColumn.field)) heq)

end RandServer
