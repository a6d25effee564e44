import Mathlib.Data.List.Forall2
import RandServer.Script.DbOp

/-!
# The shape of the statements

A call is meant to produce its code, and for each value one literal with this value, packed
where the column is a blob. The text is read in this way if and only if all values outside
of blob columns stand for themselves in a literal.
-/

namespace RandServer

open SqlText

/-- A call with its lines. -/
inductive DbCall
  | updateInsert (first : LineDict) (rest : List LineDict)
  | insert (first : LineDict) (rest : List LineDict)
  | updateSet (line : LineDict)

/-- The field is that of a blob column. -/
def isBlobField (tableInfo : List SqlColumn) (n : SqlName) : Bool :=
  tableInfo.any fun v => v.field = n ∧ v.isBlob

/-- What is put between the quotes for a field, and the content that it is meant to have. -/
def cellOf (d : Driver) (tableInfo : List SqlColumn) (line : LineDict) (n : SqlName) : Cell :=
  match line n with
  | none => ⟨[], []⟩
  | some f =>
      if isBlobField tableInfo n then ⟨d.escape ((d.pack f).getD []), (d.pack f).getD []⟩
      else ⟨f.text, f.text⟩

namespace SqlStatement

variable {α β : Type}

def map (f : α → β) : SqlStatement α → SqlStatement β
  | updateInsert table prkField names lines =>
      updateInsert table prkField names (lines.map (f ∘ ·))
  | insert table names lines => insert table names (lines.map (f ∘ ·))
  | updateSet table prkField names line => updateSet table prkField names (f ∘ line)

def lines : SqlStatement α → List (SqlName → α)
  | updateInsert _ _ _ lines => lines
  | insert _ _ lines => lines
  | updateSet _ _ _ line => [line]

/-- The fields whose values are in the statement. -/
def fields : SqlStatement α → List SqlName
  | updateInsert _ prkField names _ => prkField :: names
  | insert _ names _ => names
  | updateSet _ prkField names _ => prkField :: names

end SqlStatement

namespace DbCall

/-- The statement of a call, or `none` if the code raises an error or returns early. -/
def statement (d : Driver) (info : TableInfo) : DbCall → Option (SqlStatement (List UInt8))
  | updateInsert first rest => updateInsertTable d info first rest
  | insert first rest => insertTable d info first rest
  | updateSet line => updateSetTable d info line

def lines : DbCall → List LineDict
  | updateInsert first rest => first :: rest
  | insert first rest => first :: rest
  | updateSet line => [line]

/-- The fields whose values go into the statement. -/
def fields (info : TableInfo) : DbCall → List SqlName
  | updateInsert first _ => info.priKey.elim [] fun prk => prk.field :: info.restNames prk.field first
  | insert first _ => info.names first
  | updateSet line => info.priKey.elim [] fun prk => prk.field :: info.restNames prk.field line

/-- The values that are not escaped. -/
def unescaped (info : TableInfo) (call : DbCall) : List SqlValue :=
  call.lines.flatMap ((call.fields info).filter (¬ isBlobField info.columns ·)).filterMap

/-- The statement with the contents that the values are meant to have. -/
def meant (d : Driver) (info : TableInfo) : DbCall → Option (SqlStatement Cell)
  | updateInsert first rest => info.priKey.map fun prk =>
      .updateInsert info.name prk.field (info.restNames prk.field first)
        ((first :: rest).map (cellOf d info.columns))
  | insert first rest =>
      some (.insert info.name (info.names first) ((first :: rest).map (cellOf d info.columns)))
  | updateSet line => info.priKey.map fun prk =>
      .updateSet info.name prk.field (info.restNames prk.field line) (cellOf d info.columns line)

/-- The code of the statement, and one literal for each value. -/
def tokens (d : Driver) (info : TableInfo) (call : DbCall) : Option (List Token) :=
  (call.meant d info).map fun stmt => (stmt.map Cell.content).pieces.flatMap Piece.tokens

end DbCall

/-! ## The values of a line -/

section Lines

variable {d : Driver} {tableInfo : List SqlColumn} {line line' : LineDict} {n : SqlName}
  {v : SqlColumn}

theorem isBlobField_cons : isBlobField (v :: tableInfo) n =
    (decide (v.field = n ∧ v.isBlob) || isBlobField tableInfo n) := List.any_cons

theorem isBlobField_of_not_mem (h : n ∉ tableInfo.map SqlColumn.field) :
    isBlobField tableInfo n = false := by
  refine List.any_eq_false.mpr fun v hv => ?_
  simp only [decide_eq_true_eq, not_and]
  exact fun hn => absurd (hn ▸ List.mem_map_of_mem hv) h

theorem cell_of_none (h : line n = none) : line.cell n = (cellOf d tableInfo line n).raw := by
  unfold LineDict.cell cellOf
  rw [h]
  rfl

/-- `adjust_line` packs and escapes the values of the blob columns. -/
theorem adjustLine_cell (hnodup : (tableInfo.map SqlColumn.field).Nodup)
    (h : adjustLine d tableInfo line = some line') (n : SqlName) :
    line'.cell n = (cellOf d tableInfo line n).raw := by
  induction tableInfo generalizing line with
  | nil =>
      obtain rfl := Option.some.inj h
      unfold LineDict.cell cellOf
      cases line n <;> rfl
  | cons v tableInfo ih =>
      rw [List.map_cons, List.nodup_cons] at hnodup
      have hlater := @isBlobField_of_not_mem tableInfo v.field hnodup.1
      rw [adjustLine] at h
      cases hf : line v.field with
      | none =>
          simp only [hf] at h
          have hrest := ih hnodup.2 h
          by_cases hn : v.field = n
          · subst hn
            rw [hrest, ← cell_of_none hf, cell_of_none hf]
          · rw [hrest]
            unfold cellOf
            rw [isBlobField_cons, decide_eq_false fun h => hn h.1, Bool.false_or]
      | some f =>
          simp only [hf] at h
          split at h
          · rename_i hblob
            obtain ⟨s, hs, hrest⟩ := Option.bind_eq_some_iff.mp h
            rw [ih hnodup.2 hrest]
            unfold cellOf
            by_cases hn : v.field = n
            · subst hn
              simp only [Function.update_self, hf, isBlobField_cons, hblob, hlater, hs, and_self,
                decide_true, Bool.or_false, if_true, Bool.false_eq_true, if_false, Option.getD_some]
              rfl
            · rw [Function.update_of_ne (Ne.symm hn), isBlobField_cons,
                decide_eq_false fun h => hn h.1, Bool.false_or]
          · rename_i hblob
            rw [ih hnodup.2 h]
            unfold cellOf
            rw [isBlobField_cons]
            by_cases hn : v.field = n
            · rw [decide_eq_false fun h => hblob h.2, Bool.false_or]
            · rw [decide_eq_false fun h => hn h.1, Bool.false_or]

theorem mapM_adjustLine_cell (hnodup : (tableInfo.map SqlColumn.field).Nodup)
    {lines lines' : List LineDict} (h : lines.mapM (adjustLine d tableInfo) = some lines') :
    lines'.map LineDict.cell = lines.map fun line => Cell.raw ∘ cellOf d tableInfo line := by
  induction lines generalizing lines' with
  | nil =>
      cases h
      rfl
  | cons line lines ih =>
      rw [List.mapM_cons] at h
      obtain ⟨line', hline, hrest⟩ := Option.bind_eq_some_iff.mp h
      obtain ⟨rest', hrest', heq⟩ := Option.bind_eq_some_iff.mp hrest
      cases heq
      rw [List.map_cons, List.map_cons, ih hrest']
      exact congrArg (· :: _) (funext (adjustLine_cell hnodup hline))

/-- The built statement is the one that is meant, with the raw values. -/
theorem statement_raw {info : TableInfo} {call : DbCall} {stmt : SqlStatement (List UInt8)}
    (h : call.statement d info = some stmt) :
    ∃ meant, call.meant d info = some meant ∧ stmt = meant.map Cell.raw ∧
      meant.fields = call.fields info ∧ meant.lines = call.lines.map (cellOf d info.columns) := by
  cases call with
  | updateInsert first rest =>
      obtain ⟨prk, hprk, h⟩ := Option.bind_eq_some_iff.mp h
      obtain ⟨lines, hlines, rfl⟩ := Option.map_eq_some_iff.mp h
      refine ⟨_, congrArg (Option.map _) hprk, ?_, ?_, rfl⟩
      · rw [mapM_adjustLine_cell info.nodup hlines]
        simp only [SqlStatement.map, List.map_map]
        rfl
      · simp only [DbCall.fields, hprk]
        rfl
  | insert first rest =>
      obtain ⟨lines, hlines, rfl⟩ := Option.map_eq_some_iff.mp h
      refine ⟨_, rfl, ?_, rfl, rfl⟩
      rw [mapM_adjustLine_cell info.nodup hlines]
      simp only [SqlStatement.map, List.map_map]
      rfl
  | updateSet line =>
      obtain ⟨prk, hprk, h⟩ := Option.bind_eq_some_iff.mp h
      split at h
      · obtain ⟨line', hline, rfl⟩ := Option.map_eq_some_iff.mp h
        refine ⟨_, congrArg (Option.map _) hprk, ?_, ?_, rfl⟩
        · exact congrArg (SqlStatement.updateSet _ _ _) (funext (adjustLine_cell info.nodup hline))
        · simp only [DbCall.fields, hprk]
          rfl
      · cases h

end Lines

/-! ## The pieces of a statement -/

section Pieces

variable {α β : Type}

theorem separated_map (f : α → β) (sep : α) (xss : List (List α)) :
    (separated sep xss).map f = separated (f sep) (xss.map (List.map f)) := by
  cases xss with
  | nil => rfl
  | cons xs xss =>
      simp only [separated, List.map_cons, List.map_append, List.map_flatMap, List.flatMap_map]

@[simp] theorem map_code (f : α → β) (s : String) : (code s).map f = code s := rfl

@[simp] theorem map_nameCode (f : α → β) (n : SqlName) : (nameCode n).map f = nameCode n := rfl

@[simp] theorem map_value (f : α → β) (a : α) : (Piece.value a).map f = .value (f a) := rfl

theorem SqlStatement.pieces_map (f : α → β) (stmt : SqlStatement α) :
    (stmt.map f).pieces = stmt.pieces.map (·.map f) := by
  cases stmt <;>
  simp only [SqlStatement.map, pieces, List.map_append, List.map_cons, List.map_nil, List.map_flatMap,
    separated_map, List.map_map, map_code, map_nameCode, map_value, Function.comp_def]

@[simp] theorem values_code (s : String) (ps : List (Piece α)) :
    Piece.values (code s :: ps) = Piece.values ps := rfl

@[simp] theorem values_nameCode (n : SqlName) (ps : List (Piece α)) :
    Piece.values (nameCode n :: ps) = Piece.values ps := rfl

@[simp] theorem values_value (a : α) (ps : List (Piece α)) :
    Piece.values (.value a :: ps) = a :: Piece.values ps := rfl

@[simp] theorem values_nil : Piece.values ([] : List (Piece α)) = [] := rfl

@[simp] theorem values_separated (s : String) (xss : List (List (Piece α))) :
    Piece.values (separated (code s) xss) = xss.flatMap Piece.values := by
  cases xss with
  | nil => rfl
  | cons xs xss =>
      simp only [separated, Piece.values_append, Piece.values_flatMap, List.flatMap_cons, values_code]

/-- The values in a statement are those of its fields in each line. -/
theorem SqlStatement.mem_values {stmt : SqlStatement α} {a : α} :
    a ∈ Piece.values stmt.pieces ↔ ∃ line ∈ stmt.lines, ∃ n ∈ stmt.fields, line n = a := by
  cases stmt with
  | updateInsert table prkField names lines =>
      simp [pieces, Piece.values_flatMap, List.flatMap_map, fields, SqlStatement.lines, eq_comm]
  | insert table names lines =>
      simp [pieces, List.flatMap_map, fields, SqlStatement.lines, eq_comm]
  | updateSet table prkField names line =>
      simp [pieces, List.flatMap_map, fields, SqlStatement.lines, eq_comm, or_comm]

theorem isNameByte_ne_quote {b : UInt8} (h : isNameByte b) : b ≠ quote := by
  rintro rfl
  exact absurd h (by decide)

theorem spaced_nameCode (n : SqlName) : Piece.Spaced [(nameCode n : Piece α)] :=
  ⟨fun b hb => isNameByte_ne_quote (n.isName b hb), trivial⟩

theorem spaced_code {s : String} (h : ∀ b ∈ ascii s, b ≠ quote) : Piece.Spaced [(code s : Piece α)] :=
  ⟨h, trivial⟩

theorem closes_code {s : String} {r : UInt8} {rs : List UInt8} (h : ascii s = r :: rs)
    (hr : r ≠ backslash) (ps : List (Piece α)) : Piece.Closes (code s :: ps) :=
  ⟨r, rs, ps, by rw [code, h], hr⟩

theorem spaced_cons_code {s : String} {ps : List (Piece α)} (h : ∀ b ∈ ascii s, b ≠ quote)
    (hps : Piece.Spaced ps) : Piece.Spaced (code s :: ps) := ⟨h, hps⟩

theorem spaced_cons_nameCode {n : SqlName} {ps : List (Piece α)} (hps : Piece.Spaced ps) :
    Piece.Spaced (nameCode n :: ps) := (spaced_nameCode n).append hps

theorem spaced_separated {sep : Piece α} (hsep : Piece.Spaced [sep]) {β : Type} {f : β → List (Piece α)}
    (h : ∀ x, Piece.Spaced (f x)) (xs : List β) : Piece.Spaced (separated sep (xs.map f)) := by
  cases xs with
  | nil => trivial
  | cons x xs =>
      rw [List.map_cons, separated, List.flatMap_map]
      exact (h x).append (.flatMap (fun y => hsep.append (h y)) xs)

/-- Values with a separator between them, and code behind the last one. -/
theorem spaced_separated_row {β : Type} {sep : Piece α} {pre : β → List (Piece α)} {f : β → α}
    {ps : List (Piece α)} (hsep : Piece.Closes [sep] ∧ Piece.Spaced [sep])
    (hpre : ∀ k, Piece.Spaced (pre k)) (hclose : Piece.Closes ps) (hps : Piece.Spaced ps)
    (ks : List β) :
    Piece.Spaced (separated sep (ks.map fun k => pre k ++ [.value (f k)]) ++ ps) := by
  cases ks with
  | nil => exact hps
  | cons k ks =>
      have hrow := @Piece.Spaced.row α ps β sep pre f hsep hpre hclose hps (f k) ks
      rw [List.map_cons, separated, List.flatMap_map, List.append_assoc, List.append_assoc]
      exact (hpre k).append hrow

theorem separator_code {s : String} {r : UInt8} {rs : List UInt8} (h : ascii s = r :: rs)
    (hr : r ≠ backslash) (hs : ∀ b ∈ ascii s, b ≠ quote) :
    Piece.Closes [(code s : Piece α)] ∧ Piece.Spaced [(code s : Piece α)] :=
  ⟨closes_code h hr [], spaced_code hs⟩

theorem separator_comma : Piece.Closes [(code "," : Piece α)] ∧ Piece.Spaced [(code "," : Piece α)] :=
  separator_code rfl (by decide) (by decide +kernel)

theorem separator_commaBlank :
    Piece.Closes [(code ", " : Piece α)] ∧ Piece.Spaced [(code ", " : Piece α)] :=
  separator_code rfl (by decide) (by decide +kernel)

theorem separator_end : Piece.Closes [(code ") " : Piece α)] ∧ Piece.Spaced [(code ") " : Piece α)] :=
  separator_code rfl (by decide) (by decide +kernel)

/-- A line of `update_insert_table`. -/
theorem spaced_upsertLine (prkField : SqlName) (names : List SqlName) (line : SqlName → α) :
    Piece.Spaced ([code " (", .value (line prkField)] ++
      names.flatMap (fun k => [code ",", .value (line k)]) ++ [code ") "]) := by
  apply spaced_cons_code (by decide +kernel)
  apply @Piece.Spaced.row α [code ") "] SqlName (code ",") (fun _ => []) line
  · exact separator_comma
  · exact fun _ => trivial
  · exact separator_end.1
  · exact separator_end.2

/-- A line of `insert_table`. -/
theorem spaced_insertLine (names : List SqlName) (line : SqlName → α) :
    Piece.Spaced ([code " ("] ++
      separated (code ", ") (names.map fun k => [.value (line k)]) ++ [code ") "]) := by
  apply spaced_cons_code (by decide +kernel)
  apply @spaced_separated_row α SqlName (code ", ") (fun _ => []) line [code ") "]
  · exact separator_commaBlank
  · exact fun _ => trivial
  · exact separator_end.1
  · exact separator_end.2

/-- The condition of `update_set_table`. -/
theorem spaced_where (prkField : SqlName) (a : α) :
    Piece.Spaced [code " WHERE ", nameCode prkField, code "=", .value a, code ";"] := by
  apply spaced_cons_code (by decide +kernel)
  apply spaced_cons_nameCode
  apply spaced_cons_code (by decide +kernel)
  exact separator_code rfl (by decide) (by decide +kernel)

theorem spaced_valuesOf (k : SqlName) :
    Piece.Spaced [(nameCode k : Piece α), code "=VALUES(", nameCode k, code ")"] := by
  apply spaced_cons_nameCode
  apply spaced_cons_code (by decide +kernel)
  apply spaced_cons_nameCode
  exact spaced_code (by decide +kernel)

/-- In a statement code without quotes stands behind each value. -/
theorem SqlStatement.spaced (stmt : SqlStatement α) : Piece.Spaced stmt.pieces := by
  cases stmt with
  | updateInsert table prkField names lines =>
      refine (((((Piece.Spaced.append ?_ ?_).append ?_).append ?_).append ?_).append ?_).append ?_
      · apply spaced_cons_code (by decide +kernel)
        apply spaced_cons_nameCode
        apply spaced_cons_code (by decide +kernel)
        exact spaced_nameCode prkField
      · exact .flatMap (fun n => separator_comma.2.append (spaced_nameCode n)) names
      · exact spaced_code (by decide +kernel)
      · exact spaced_separated separator_comma.2 (spaced_upsertLine prkField names) lines
      · exact spaced_code (by decide +kernel)
      · exact spaced_separated separator_comma.2 spaced_valuesOf names
      · exact spaced_code (by decide +kernel)
  | insert table names lines =>
      refine (((Piece.Spaced.append ?_ ?_).append ?_).append ?_).append ?_
      · apply spaced_cons_code (by decide +kernel)
        apply spaced_cons_nameCode
        exact spaced_code (by decide +kernel)
      · exact spaced_separated separator_comma.2 spaced_nameCode names
      · exact spaced_code (by decide +kernel)
      · exact spaced_separated separator_commaBlank.2 (spaced_insertLine names) lines
      · exact spaced_code (by decide +kernel)
  | updateSet table prkField names line =>
      have hhead : Piece.Spaced [(code "UPDATE " : Piece α), nameCode table, code " SET "] := by
        apply spaced_cons_code (by decide +kernel)
        apply spaced_cons_nameCode
        exact spaced_code (by decide +kernel)
      have hset := @spaced_separated_row α SqlName (code ", ") (fun n => [nameCode n, code "="]) line _
        separator_commaBlank (fun n => spaced_cons_nameCode (spaced_code (by decide +kernel)))
        (closes_code rfl (by decide) _) (spaced_where prkField (line prkField)) names
      have hall := hhead.append hset
      rw [← List.append_assoc] at hall
      exact hall

end Pieces

section Cells

variable {d : Driver} {tableInfo : List SqlColumn} {line : LineDict} {n : SqlName}

theorem cellOf_cases (hescape : ∀ s, ReadsAs (d.escape s) s) :
    ReadsAs (cellOf d tableInfo line n).raw (cellOf d tableInfo line n).content ∨
      (cellOf d tableInfo line n).raw = (cellOf d tableInfo line n).content := by
  unfold cellOf
  split
  · exact .inr rfl
  · split
    · exact .inl (hescape _)
    · exact .inr rfl

/-- Only what is not escaped has to stand for itself. -/
theorem cellOf_reads_iff (hescape : ∀ s, ReadsAs (d.escape s) s) :
    ReadsAs (cellOf d tableInfo line n).raw (cellOf d tableInfo line n).content ↔
      ∀ v, ¬ isBlobField tableInfo n → line n = some v → Verbatim v.text := by
  unfold cellOf
  cases hv : line n with
  | none => exact iff_of_true (verbatim_iff_reads.mp trivial) nofun
  | some f =>
      by_cases hblob : isBlobField tableInfo n
      · simp only [hblob, if_true, not_true_eq_false, false_implies, implies_true, iff_true]
        exact hescape _
      · simp only [hblob, Bool.false_eq_true, if_false, not_false_eq_true, true_implies,
          Option.some.injEq, forall_eq']
        exact verbatim_iff_reads.symm

end Cells

/-! ## Lines with the same fields -/

/-- The two lines have values in the same fields. -/
def SameFields (line line' : LineDict) : Prop := ∀ n, (line n).isSome = (line' n).isSome

namespace DbCall

/-- Calls of the same function for lines with the same fields. -/
inductive Alike : DbCall → DbCall → Prop
  | updateInsert {first first' : LineDict} {rest rest' : List LineDict} : SameFields first first' →
      List.Forall₂ SameFields rest rest' → Alike (updateInsert first rest) (updateInsert first' rest')
  | insert {first first' : LineDict} {rest rest' : List LineDict} : SameFields first first' →
      List.Forall₂ SameFields rest rest' → Alike (insert first rest) (insert first' rest')
  | updateSet {line line' : LineDict} : SameFields line line' →
      Alike (updateSet line) (updateSet line')

end DbCall

section Alike

variable {d : Driver} {info : TableInfo} {line line' : LineDict}

theorem SameFields.names (h : SameFields line line') : info.names line = info.names line' := by
  simp only [TableInfo.names, h _]

theorem SameFields.restNames (h : SameFields line line') (prkField : SqlName) :
    info.restNames prkField line = info.restNames prkField line' := by
  simp only [TableInfo.restNames, h _]

/-- Calls for lines with the same fields are meant to be the same up to the values. -/
theorem DbCall.Alike.meant {call call' : DbCall} (h : call.Alike call') :
    (call.meant d info).map (·.map fun _ => ()) = (call'.meant d info).map (·.map fun _ => ()) := by
  have hlines : ∀ (first first' : LineDict) {rest rest' : List LineDict},
      List.Forall₂ SameFields rest rest' →
      ((first :: rest).map (cellOf d info.columns)).map (fun _ (_ : SqlName) => ()) =
        ((first' :: rest').map (cellOf d info.columns)).map (fun _ _ => ()) := by
    intro first first' rest rest' hrest
    simp only [List.map_map, Function.comp_def, List.map_const', List.length_cons, hrest.length_eq]
  cases h with
  | @updateInsert first first' _ _ hfirst hrest =>
      simp only [DbCall.meant, Option.map_map, Function.comp_def, SqlStatement.map, hfirst.restNames,
        hlines first first' hrest]
  | @insert first first' _ _ hfirst hrest =>
      simp only [DbCall.meant, Option.map_some, Function.comp_def, SqlStatement.map, hfirst.names,
        hlines first first' hrest]
  | updateSet hline =>
      simp only [DbCall.meant, Option.map_map, Function.comp_def, SqlStatement.map, hline.restNames]

/-- A literal without its content. -/
def blank : Token → Token
  | .code b => .code b
  | .literal _ => .literal []

theorem blank_tokens (stmt : SqlStatement Cell) :
    ((stmt.map Cell.content).pieces.flatMap Piece.tokens).map blank =
      ((stmt.map fun _ => ()).map fun _ => []).pieces.flatMap Piece.tokens := by
  simp only [SqlStatement.pieces_map, List.map_flatMap, List.flatMap_map]
  refine List.flatMap_congr fun p _ => ?_
  cases p with
  | code text =>
      simp only [Piece.map, Piece.tokens, List.map_map]
      rfl
  | value cell => rfl

/-- The tokens differ only in the contents of the literals. -/
theorem DbCall.Alike.tokens {call call' : DbCall} (h : call.Alike call') :
    (call.tokens d info).map (List.map blank) = (call'.tokens d info).map (List.map blank) := by
  have hshape : ∀ c : DbCall, (c.tokens d info).map (List.map blank) =
      ((c.meant d info).map (·.map fun _ => ())).map fun stmt =>
        (stmt.map fun _ => []).pieces.flatMap Piece.tokens := by
    intro c
    simp only [DbCall.tokens, Option.map_map, Function.comp_def, blank_tokens]
  rw [hshape, hshape, h.meant]

end Alike

/-- The text of a statement is read as it is meant if and only if no value outside of blob columns
has a quote, or a backslash in front of anything else than `%` or `_`. -/
theorem dbOp_shape_iff (d : Driver) (hescape : ∀ s, ReadsAs (d.escape s) s) (info : TableInfo)
    (call : DbCall) {stmt : SqlStatement (List UInt8)} (h : call.statement d info = some stmt) :
    lex .code stmt.text = call.tokens d info ↔ ∀ v ∈ call.unescaped info, Verbatim v.text := by
  obtain ⟨meant, hmeant, rfl, hfields, hlines⟩ := statement_raw h
  have hmem : ∀ cell, cell ∈ Piece.values meant.pieces ↔
      ∃ line ∈ call.lines, ∃ n ∈ call.fields info, cellOf d info.columns line n = cell := by
    intro cell
    simp only [SqlStatement.mem_values, hlines, hfields, List.mem_map, exists_exists_and_eq_and]
  have hcell : ∀ cell ∈ Piece.values meant.pieces,
      ReadsAs cell.raw cell.content ∨ cell.raw = cell.content := by
    intro cell hvalue
    obtain ⟨line, -, n, -, rfl⟩ := (hmem cell).mp hvalue
    exact cellOf_cases hescape
  have hiff := lex_text_iff meant.spaced hcell
  simp only [SqlStatement.text, DbCall.tokens, hmeant, Option.map_some, SqlStatement.pieces_map]
  refine hiff.trans ⟨fun hreads v hv => ?_, fun hplain cell hvalue => ?_⟩
  · obtain ⟨line, hline, hfield⟩ := List.mem_flatMap.mp hv
    obtain ⟨n, hn, hsome⟩ := List.mem_filterMap.mp hfield
    obtain ⟨hn, hblob⟩ := List.mem_filter.mp hn
    have hcell' := hreads _ ((hmem _).mpr ⟨line, hline, n, hn, rfl⟩)
    exact (cellOf_reads_iff hescape).mp hcell' v (of_decide_eq_true hblob) hsome
  · obtain ⟨line, hline, n, hn, rfl⟩ := (hmem cell).mp hvalue
    refine (cellOf_reads_iff hescape).mpr fun v hblob hsome => hplain v ?_
    refine List.mem_flatMap.mpr ⟨line, hline, List.mem_filterMap.mpr ⟨n, ?_, hsome⟩⟩
    exact List.mem_filter.mpr ⟨hn, decide_eq_true hblob⟩

/-! ## A table without blobs -/

/-- What `mysql_real_escape_string` puts in place of a byte. -/
def escapeByte (b : UInt8) : List UInt8 :=
  if b = 0 then [backslash, 48]
  else if b = 10 then [backslash, 110]
  else if b = 13 then [backslash, 114]
  else if b = 26 then [backslash, 90]
  else if b = 34 ∨ b = quote ∨ b = backslash then [backslash, b]
  else [b]

theorem lex_escapeByte (acc bs : List UInt8) (b : UInt8) :
    lex (.text acc) (escapeByte b ++ bs) = lex (.text (acc ++ [b])) bs := by
  unfold escapeByte
  split_ifs with h0 h10 h13 h26 hspecial
  · subst h0
    rfl
  · subst h10
    rfl
  · subst h13
    rfl
  · subst h26
    rfl
  · obtain rfl | rfl | rfl := hspecial <;> rfl
  · obtain ⟨-, hquote, hback⟩ := not_or.mp hspecial |>.imp_right not_or.mp
    exact lex_text_of_not_special (not_special.mpr ⟨hquote, hback⟩)

/-- A driver for tables without blobs. -/
def plainDriver : Driver where
  pack _ := none
  escape s := s.flatMap escapeByte

theorem plainDriver_reads (s : List UInt8) : ReadsAs (plainDriver.escape s) s := by
  intro acc bs
  induction s generalizing acc with
  | nil => exact lex_quote_text.trans (by rw [List.append_nil])
  | cons b s ih =>
      have hstep := lex_escapeByte acc (plainDriver.escape s ++ quote :: bs) b
      have hassoc : plainDriver.escape (b :: s) ++ quote :: bs =
          escapeByte b ++ (plainDriver.escape s ++ quote :: bs) := by
        simp only [plainDriver, List.flatMap_cons, List.append_assoc]
      rw [hassoc, hstep, ih, List.append_assoc]
      rfl

def nameColumn : SqlColumn where
  field := { text := ascii "name", isName := by decide +kernel }
  type := ascii "varchar(128)"

theorem isName_roles : ∀ b ∈ ascii "roles", isNameByte b := by
  decide +kernel

def nameTable : TableInfo where
  name := { text := ascii "roles", isName := isName_roles }
  columns := [nameColumn]
  priKey := some nameColumn
  nodup := by decide +kernel
  priKey_mem := by decide +kernel

def nameLine (name : List UInt8) : LineDict := fun n =>
  if n = nameColumn.field then some (.string name) else none

/-- A backslash in front of `%`. -/
def wildCall : DbCall := .insert (nameLine (ascii "100\\%")) []

theorem dbOp_shape_iff_wild : ∃ stmt, wildCall.statement plainDriver nameTable = some stmt ∧
    lex .code stmt.text = wildCall.tokens plainDriver nameTable := by
  obtain ⟨stmt, hstmt⟩ := Option.isSome_iff_exists.mp
    (by decide +kernel : (wildCall.statement plainDriver nameTable).isSome)
  have hplain : ∀ v ∈ wildCall.unescaped nameTable, Verbatim v.text := by decide +kernel
  exact ⟨stmt, hstmt, (dbOp_shape_iff plainDriver plainDriver_reads nameTable _ hstmt).mpr hplain⟩

/-- A name that ends the literal and begins another row. -/
def injectingCall : DbCall := .insert (nameLine (ascii "x'),('y")) []

theorem dbOp_injects : ¬ ∀ (d : Driver), (∀ s, ReadsAs (d.escape s) s) → ∀ (info : TableInfo)
    (call : DbCall) (stmt : SqlStatement (List UInt8)), call.statement d info = some stmt →
      lex .code stmt.text = call.tokens d info := by
  intro h
  have hany : (injectingCall.statement plainDriver nameTable).any (fun stmt =>
      lex .code stmt.text ≠ injectingCall.tokens plainDriver nameTable) = true := by decide +kernel
  obtain ⟨stmt, hstmt, hne⟩ := (Option.any_eq_true _ _).mp hany
  exact of_decide_eq_true hne (h plainDriver plainDriver_reads nameTable _ stmt hstmt)

end RandServer
