import Mathlib.Data.List.Infix
import RandServer.Lib.SqlText

/-!
# Statements for the database

`db_op.lua`. The names of the columns in a statement come from the first line. All values
stand between quotes, but only those of blob columns go through `con:escape`, in
`adjust_line`. A value that a line does not have is put into the statement as nothing, so
that an empty literal is left.
-/

namespace RandServer

open SqlText

def ascii (s : String) : List UInt8 := s.toList.map fun c => UInt8.ofNat c.toNat

/-- A letter, a digit, an underscore, a dollar sign or a byte of a character beyond ASCII. -/
def isNameByte (b : UInt8) : Bool :=
  97 ≤ b && b ≤ 122 || 65 ≤ b && b ≤ 90 || 48 ≤ b && b ≤ 57 || b == 95 || b == 36 || 128 ≤ b

/-- The name of a table or a column. -/
structure SqlName where
  text : List UInt8
  isName : ∀ b ∈ text, isNameByte b
  deriving DecidableEq

structure SqlColumn where
  field : SqlName
  type : List UInt8
  deriving DecidableEq

/-- `string.find(v.type, "blob")`. -/
def SqlColumn.isBlob (v : SqlColumn) : Bool := decide (ascii "blob" <:+: v.type)

structure TableInfo where
  name : SqlName
  columns : List SqlColumn
  priKey : Option SqlColumn
  nodup : (columns.map SqlColumn.field).Nodup
  priKey_mem : ∀ k ∈ priKey, k ∈ columns

/-- The digits of a number, as `table.concat` writes them. -/
structure Numeral where
  text : List UInt8
  not_special : ∀ b ∈ text, b ≠ quote ∧ b ≠ backslash

inductive SqlValue
  | string (bytes : List UInt8)
  | number (value : Numeral)

def SqlValue.text : SqlValue → List UInt8
  | .string bytes => bytes
  | .number value => value.text

abbrev LineDict := SqlName → Option SqlValue

/-- What is put between the quotes. -/
def LineDict.cell (line : LineDict) (field : SqlName) : List UInt8 :=
  ((line field).map SqlValue.text).getD []

/-- `ser:pack` with `ser:get_string`, or `none` if it reports an error, and `con:escape`. -/
structure Driver where
  pack : SqlValue → Option (List UInt8)
  escape : List UInt8 → List UInt8

/-- `adjust_line`. Without a packed value it calls `log.Error`, which does not exist, so
nothing comes of the statement. -/
def adjustLine (d : Driver) : List SqlColumn → LineDict → Option LineDict
  | [], line => some line
  | v :: tableInfo, line =>
      match line v.field with
      | some f =>
          if v.isBlob then
            (d.pack f).bind fun s =>
              adjustLine d tableInfo (Function.update line v.field (some (.string (d.escape s))))
          else adjustLine d tableInfo line
      | none => adjustLine d tableInfo line

/-- Pieces with a separator in front of all but the first. -/
def separated {β : Type} (sep : β) : List (List β) → List β
  | [] => []
  | x :: xs => x ++ xs.flatMap (sep :: ·)

/-- A statement with what stands for the values of each line. -/
inductive SqlStatement (α : Type)
  | updateInsert (table prkField : SqlName) (names : List SqlName) (lines : List (SqlName → α))
  | insert (table : SqlName) (names : List SqlName) (lines : List (SqlName → α))
  | updateSet (table prkField : SqlName) (names : List SqlName) (line : SqlName → α)

def code {α : Type} (s : String) : Piece α := .code (ascii s)

def nameCode {α : Type} (n : SqlName) : Piece α := .code n.text

namespace SqlStatement

/-- The entries of `sql_table`. -/
def pieces {α : Type} : SqlStatement α → List (Piece α)
  | updateInsert table prkField names lines =>
      [code "INSERT INTO ", nameCode table, code " (", nameCode prkField] ++
      names.flatMap (fun n => [code ",", nameCode n]) ++
      [code ") VALUES"] ++
      separated (code ",") (lines.map fun line =>
        [code " (", .value (line prkField)] ++
        names.flatMap (fun k => [code ",", .value (line k)]) ++
        [code ") "]) ++
      [code " ON DUPLICATE KEY UPDATE "] ++
      separated (code ",") (names.map fun k =>
        [nameCode k, code "=VALUES(", nameCode k, code ")"]) ++
      [code ";"]
  | insert table names lines =>
      [code "INSERT INTO ", nameCode table, code " ("] ++
      separated (code ",") (names.map fun n => [nameCode n]) ++
      [code ") VALUES"] ++
      separated (code ", ") (lines.map fun line =>
        [code " ("] ++
        separated (code ", ") (names.map fun k => [.value (line k)]) ++
        [code ") "]) ++
      [code ";"]
  | updateSet table prkField names line =>
      [code "UPDATE ", nameCode table, code " SET "] ++
      separated (code ", ") (names.map fun n => [nameCode n, code "=", .value (line n)]) ++
      [code " WHERE ", nameCode prkField, code "=", .value (line prkField), code ";"]

/-- The text that `con:execute` is given. -/
def text (stmt : SqlStatement (List UInt8)) : List UInt8 := stmt.pieces.flatMap Piece.text

end SqlStatement

namespace TableInfo

variable (info : TableInfo)

/-- The columns of a line, without the primary key. -/
def restNames (prkField : SqlName) (line : LineDict) : List SqlName :=
  (info.columns.filter fun v => v.field ≠ prkField ∧ (line v.field).isSome).map SqlColumn.field

/-- The columns of a line. -/
def names (line : LineDict) : List SqlName :=
  (info.columns.filter fun v => (line v.field).isSome).map SqlColumn.field

end TableInfo

/-- `update_insert_table`, for the first line and the others. -/
def updateInsertTable (d : Driver) (info : TableInfo) (first : LineDict) (rest : List LineDict) :
    Option (SqlStatement (List UInt8)) :=
  info.priKey.bind fun prk =>
    ((first :: rest).mapM (adjustLine d info.columns)).map fun lines =>
      .updateInsert info.name prk.field (info.restNames prk.field first) (lines.map LineDict.cell)

/-- `insert_table`. -/
def insertTable (d : Driver) (info : TableInfo) (first : LineDict) (rest : List LineDict) :
    Option (SqlStatement (List UInt8)) :=
  ((first :: rest).mapM (adjustLine d info.columns)).map fun lines =>
    .insert info.name (info.names first) (lines.map LineDict.cell)

/-- `update_set_table`. -/
def updateSetTable (d : Driver) (info : TableInfo) (line : LineDict) :
    Option (SqlStatement (List UInt8)) :=
  info.priKey.bind fun prk =>
    if (line prk.field).isSome then
      (adjustLine d info.columns line).map fun line' =>
        .updateSet info.name prk.field (info.restNames prk.field line) line'.cell
    else none

end RandServer
