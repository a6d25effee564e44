import RandServer.Lib.LuaText
import RandServer.Script.DbOp

/-!
# The comparison of a table with its declaration

`get_old_columns` and `check_columns` of `db.lua`. A declared column is compared with the
existing one attribute by attribute, and each comparison has its blind spots: an extra that
is declared no more, arguments of the type that are not one word between parentheses, and
`UNSIGNED` in capitals. `missesNothing_iff` says when nothing is missed.

Numbers are only compared, so `tonumber` and the `tostring` of what is no string are
parameters.
-/

namespace RandServer

open LuaText

/-- `modle.PriKey`, `modle.MulKey` and `modle.UniKey`. -/
def modlePriKey : Nat := 1

def modleMulKey : Nat := 2

def modleUniKey : Nat := 3

/-- A row of `SHOW COLUMNS`. -/
structure ColumnRow where
  field : List UInt8
  type : List UInt8
  null : Option (List UInt8)
  key : Option (List UInt8)
  default : Option (List UInt8)
  extra : Option (List UInt8)

/-- An existing column. `capitalExtra` is the entry `Extra`, in capitals, that
`check_columns` looks at. -/
structure OldColumn where
  field : List UInt8
  type : List UInt8
  null : Bool
  key : Option Nat
  default : Option (List UInt8)
  extra : Option (List UInt8)
  capitalExtra : Option (List UInt8)

/-- A turn of the loop of `get_old_columns`. The names of the entries are lowered. -/
def oldColumn (row : ColumnRow) : OldColumn where
  field := lower row.field
  type := row.type
  null := (row.null.map fun null => decide (ascii "yes" <:+: lower null)).getD false
  key := row.key.bind fun key =>
    if lower key = ascii "pri" then some modlePriKey
    else if lower key = ascii "mul" then some modleMulKey
    else if lower key = ascii "uni" then some modleUniKey
    else none
  default := row.default
  extra := row.extra
  capitalExtra := none

def addOldColumn (dict : List UInt8 → Option OldColumn) (row : ColumnRow) :
    List UInt8 → Option OldColumn :=
  Function.update dict (oldColumn row).field (some (oldColumn row))

/-- `get_old_columns`. A table has at least one column. -/
def getOldColumns (first : ColumnRow) (rest : List ColumnRow) : List UInt8 → Option OldColumn :=
  (first :: rest).foldl addOldColumn fun _ => none

/-- A declared default: none, `false`, a string, or another value that is true in Lua. -/
inductive ColumnDefault (δ : Type)
  | nil
  | false
  | text (s : List UInt8)
  | other (x : δ)

/-- A declared column. `null` is whether the entry is true in Lua. -/
structure NewColumn (δ : Type) where
  field : List UInt8
  type : List UInt8
  null : Bool
  default : ColumnDefault δ
  extra : Option (List UInt8)
  key : Option Nat

/-- The lists that `check_columns` fills. -/
structure CheckLists (δ : Type) where
  addColumns : List (NewColumn δ)
  updateColumns : List (NewColumn δ)
  updateInfos : List (List UInt8)
  removeKeys : List OldColumn
  addKeys : List (NewColumn δ)

/-- The lists that `update_table` passes. -/
def CheckLists.empty {δ : Type} : CheckLists δ := ⟨[], [], [], [], []⟩

/-- `check_columns` returns a message, or Lua raises an error. -/
inductive CheckFailure
  | message (text : List UInt8)
  | raised
  deriving DecidableEq

section Source

variable {δ ν : Type} [DecidableEq ν] (tostring : δ → List UInt8)
variable (tonumber : List UInt8 → Option ν) (zero : ν)

def ColumnDefault.toText : ColumnDefault δ → List UInt8
  | .nil => ascii "nil"
  | .false => ascii "false"
  | .text s => s
  | .other x => tostring x

/-- Whether Lua takes the value for true. -/
def ColumnDefault.truthy : ColumnDefault δ → Bool
  | .nil => Bool.false
  | .false => Bool.false
  | .text _ => true
  | .other _ => true

/-- `v.default == oldV.default`. -/
def ColumnDefault.rawEq : ColumnDefault δ → Option (List UInt8) → Bool
  | .nil, none => true
  | .text s, some old => decide (s = old)
  | _, _ => Bool.false

def defaultDiffers (default : ColumnDefault δ) (old : Option (List UInt8)) : Bool :=
  if default.rawEq old then false
  else if default.truthy && old.isSome then decide (some (default.toText tostring) ≠ old)
  else true

/-- The message about the extra, if it is found to differ. -/
def extraInfo (extra : Option (List UInt8)) (oldV : OldColumn) : Option (List UInt8) :=
  if extra = oldV.extra then none
  else
    match extra, oldV.extra with
    | some extra, some old =>
        if lower extra ≠ old then some (ascii " default no the same") else none
    | _, _ =>
        if (extra.getD []).length ≠ 0 ∨
            (oldV.capitalExtra.isSome ∧ (oldV.extra.getD []).length = 0) then
          some (ascii " extra no the same")
        else none

/-- The number in front of which `(` and behind which `)` stands. -/
def typeSize (type : List UInt8) : Option ν :=
  match findArg type with
  | none => some zero
  | some arg => tonumber arg

/-- `string.find(type, "unsigned", nameE)`, which begins with the last byte of the name. -/
def isUnsigned (name behind : List UInt8) : Bool :=
  decide (ascii "unsigned" <:+: name.drop (name.length - 1) ++ behind)

/-- The comparison of two types. It needs a name in both. -/
def typeDiffers (vType oldVType : List UInt8) : Option Bool :=
  if vType = oldVType then some false
  else
    match findWord vType, findWord oldVType with
    | some (vName, behind), some (oldVName, oldBehind) =>
        some (decide (vName ≠ oldVName ∨
          typeSize tonumber zero vType ≠ typeSize tonumber zero oldVType ∨
          isUnsigned vName behind ≠ isUnsigned oldVName oldBehind))
    | _, _ => none

/-- The turn of `check_columns` for a column that exists. -/
def checkColumn (v : NewColumn δ) (oldV : OldColumn) (lists : CheckLists δ) :
    Except CheckFailure (CheckLists δ) :=
  let field := lower v.field
  let nullDiffers := (!v.null) != (!oldV.null)
  let defaultDiffers := defaultDiffers tostring v.default oldV.default
  let extraInfo := extraInfo v.extra oldV
  let infos := lists.updateInfos ++
    (if nullDiffers then [field ++ ascii " null no the same"] else []) ++
    (if defaultDiffers then [field ++ ascii " default no the same"] else []) ++
    (extraInfo.map fun info => field ++ info).toList
  if v.key ≠ oldV.key ∧ (v.key = some modlePriKey ∨ oldV.key = some modlePriKey) then
    .error (.message (ascii "no same prikey"))
  else
    match typeDiffers tonumber zero (lower v.type) oldV.type with
    | none => .error .raised
    | some typeDiffers =>
        let needUpdate := nullDiffers || defaultDiffers || extraInfo.isSome || typeDiffers
        .ok { lists with
          updateInfos := infos ++ if typeDiffers then [field ++ ascii " type no the same"] else []
          removeKeys := lists.removeKeys ++
            if v.key ≠ oldV.key ∧ oldV.key.isSome then [oldV] else []
          addKeys := lists.addKeys ++ if v.key ≠ oldV.key ∧ v.key.isSome then [v] else []
          updateColumns := lists.updateColumns ++ if needUpdate then [v] else [] }

/-- `check_columns`. -/
def checkColumns (oldColumns : List UInt8 → Option OldColumn) :
    List (NewColumn δ) → CheckLists δ → Except CheckFailure (CheckLists δ)
  | [], lists => .ok lists
  | v :: newTable, lists =>
      match oldColumns (lower v.field) with
      | none => checkColumns oldColumns newTable { lists with addColumns := lists.addColumns ++ [v] }
      | some oldV =>
          match checkColumn tostring tonumber zero v oldV lists with
          | .error failure => .error failure
          | .ok lists => checkColumns oldColumns newTable lists

end Source

namespace CheckColumns

/-! ## Agreement -/

section Specification

variable {δ ν : Type} (tostring : δ → List UInt8)
variable (tonumber : List UInt8 → Option ν) (zero : ν)

/-- The declared default as the database shows it. -/
def defaultValue : ColumnDefault δ → Option (List UInt8)
  | .nil => none
  | default => some (default.toText tostring)

/-- Whether the type is unsigned, as it is written. -/
def unsignedType (type : List UInt8) : Bool :=
  (findWord type).any fun found => isUnsigned found.1 found.2

/-- The existing column is as declared. The extra is a list of keywords, and no extra is the
empty one. -/
structure Agrees (v : NewColumn δ) (oldV : OldColumn) : Prop where
  null : v.null = oldV.null
  default : defaultValue tostring v.default = oldV.default
  extra : lower (v.extra.getD []) = lower (oldV.extra.getD [])
  key : v.key = oldV.key
  name : (findWord (lower v.type)).map Prod.fst = (findWord (lower oldV.type)).map Prod.fst
  arguments : arguments (lower v.type) = arguments (lower oldV.type)
  unsigned : unsignedType (lower v.type) = unsignedType (lower oldV.type)

/-- If no message is returned, a declared column that exists and is put into none of the
lists is as declared. -/
def MissesNothing [DecidableEq ν] (newTable : List (NewColumn δ))
    (oldColumns : List UInt8 → Option OldColumn) : Prop :=
  ∀ lists, checkColumns tostring tonumber zero oldColumns newTable .empty = .ok lists →
    ∀ v ∈ newTable, ∀ oldV, oldColumns (lower v.field) = some oldV →
      v ∉ lists.updateColumns → oldV ∉ lists.removeKeys → v ∉ lists.addKeys →
      Agrees tostring v oldV

/-! ## What is compared -/

/-- A comparison ends the call. -/
def Aborts (v : NewColumn δ) (oldV : OldColumn) : Prop :=
  (v.key ≠ oldV.key ∧ (v.key = some modlePriKey ∨ oldV.key = some modlePriKey)) ∨
    (lower v.type ≠ oldV.type ∧ (findWord (lower v.type) = none ∨ findWord oldV.type = none))

/-- The differences of types that are found. The existing type is taken as it is written. -/
def TypeSeen (vType oldVType : List UInt8) : Prop :=
  vType ≠ oldVType ∧
    ((findWord vType).map Prod.fst ≠ (findWord oldVType).map Prod.fst ∨
      typeSize tonumber zero vType ≠ typeSize tonumber zero oldVType ∨
      unsignedType vType ≠ unsignedType oldVType)

/-- The differences for which a column is updated. -/
inductive Seen (v : NewColumn δ) (oldV : OldColumn) : Prop
  | null (h : v.null ≠ oldV.null)
  | default (h : v.default = .false ∨ defaultValue tostring v.default ≠ oldV.default)
  | extra (e : List UInt8) (h : v.extra = some e) (hraw : e ≠ oldV.extra.getD [])
      (hlower : lower e ≠ oldV.extra.getD [])
  | type (h : TypeSeen tonumber zero (lower v.type) oldV.type)

/-- The differences that no comparison finds: an extra that is declared no more, arguments
whose numbers are equal or not there, and `UNSIGNED` that is not in small letters. -/
inductive Overlooked (v : NewColumn δ) (oldV : OldColumn) : Prop
  | extra (h : v.extra = none) (hold : oldV.extra.getD [] ≠ [])
  | arguments (h : arguments (lower v.type) ≠ arguments (lower oldV.type))
      (hsize : typeSize tonumber zero (lower v.type) = typeSize tonumber zero oldV.type)
  | unsigned (h : unsignedType (lower v.type) ≠ unsignedType (lower oldV.type))
      (hmark : unsignedType (lower v.type) = unsignedType oldV.type)

end Specification

/-! ## The existing columns -/

/-- The entries stand under their names, and no name is in capitals. -/
def Lowered (dict : List UInt8 → Option OldColumn) : Prop :=
  ∀ field oldV, dict field = some oldV → oldV.field = field ∧ oldV.capitalExtra = none

theorem Lowered.addOldColumn {dict : List UInt8 → Option OldColumn} (h : Lowered dict)
    (row : ColumnRow) : Lowered (addOldColumn dict row) := by
  intro field oldV hentry
  rw [RandServer.addOldColumn, Function.update_apply] at hentry
  split_ifs at hentry with hfield
  · obtain rfl := Option.some.inj hentry
    exact ⟨hfield.symm, rfl⟩
  · exact h field oldV hentry

theorem getOldColumns_lowered (first : ColumnRow) (rest : List ColumnRow) :
    Lowered (getOldColumns first rest) := by
  have hfold : ∀ (rows : List ColumnRow) (dict : List UInt8 → Option OldColumn),
      Lowered dict → Lowered (rows.foldl addOldColumn dict) := by
    intro rows
    induction rows with
    | nil => exact fun _ hdict => hdict
    | cons row rows ih => exact fun _ hdict => ih _ (hdict.addOldColumn row)
  apply hfold
  intro field oldV hnone
  cases hnone

/-! ## The comparisons -/

section Compare

variable {δ ν : Type} [DecidableEq ν] {tostring : δ → List UInt8}
variable {tonumber : List UInt8 → Option ν} {zero : ν}
variable {v w : NewColumn δ} {oldV : OldColumn} {lists t : CheckLists δ}

theorem defaultDiffers_iff {default : ColumnDefault δ} {old : Option (List UInt8)} :
    defaultDiffers tostring default old = true ↔
      default = .false ∨ defaultValue tostring default ≠ old := by
  cases default <;> cases old <;>
    simp [defaultDiffers, ColumnDefault.rawEq, ColumnDefault.truthy, defaultValue,
      ColumnDefault.toText]

theorem extraInfo_isSome_iff {extra : Option (List UInt8)} (hcapital : oldV.capitalExtra = none) :
    (extraInfo extra oldV).isSome ↔
      ∃ e, extra = some e ∧ e ≠ oldV.extra.getD [] ∧ lower e ≠ oldV.extra.getD [] := by
  cases hold : oldV.extra with
  | none => cases extra <;> simp [extraInfo, hold, hcapital]
  | some old =>
      cases extra with
      | none => simp [extraInfo, hold, hcapital]
      | some e =>
          simp only [extraInfo, hold, Option.some.injEq, Option.getD_some, exists_eq_left']
          split_ifs with hraw hlower
          · simp [hraw]
          · simp [hraw, hlower]
          · simp [hlower]

theorem typeDiffers_eq_none_iff {vType oldVType : List UInt8} :
    typeDiffers tonumber zero vType oldVType = none ↔
      vType ≠ oldVType ∧ (findWord vType = none ∨ findWord oldVType = none) := by
  rw [typeDiffers]
  split_ifs with hsame
  · simp [hsame]
  · cases findWord vType <;> cases findWord oldVType <;> simp [hsame]

theorem typeDiffers_eq_true_iff {vType oldVType : List UInt8} {differs : Bool}
    (h : typeDiffers tonumber zero vType oldVType = some differs) :
    differs = true ↔ TypeSeen tonumber zero vType oldVType := by
  rw [typeDiffers] at h
  rw [TypeSeen, unsignedType, unsignedType]
  split_ifs at h with hsame
  · obtain rfl := Option.some.inj h
    simp [hsame]
  · cases hv : findWord vType with
    | none => simp [hv] at h
    | some found =>
        cases hold : findWord oldVType with
        | none => simp [hv, hold] at h
        | some oldFound =>
            simp only [hv, hold, Option.some.injEq] at h
            simp [← h, hsame]

/-- What a turn of the loop puts into the lists. -/
structure Recorded (tostring : δ → List UInt8) (tonumber : List UInt8 → Option ν) (zero : ν)
    (v : NewColumn δ) (oldV : OldColumn) (lists t : CheckLists δ) : Prop where
  update : ∀ x, x ∈ t.updateColumns ↔
    x ∈ lists.updateColumns ∨ x = v ∧ Seen tostring tonumber zero v oldV
  remove : ∀ o, o ∈ t.removeKeys ↔
    o ∈ lists.removeKeys ∨ o = oldV ∧ v.key ≠ oldV.key ∧ oldV.key ≠ none
  add : ∀ x, x ∈ t.addKeys ↔ x ∈ lists.addKeys ∨ x = v ∧ v.key ≠ oldV.key ∧ v.key ≠ none

theorem mem_append_ite {β : Type} {x y : β} {xs : List β} {c : Prop} [Decidable c] :
    x ∈ xs ++ (if c then [y] else []) ↔ x ∈ xs ∨ x = y ∧ c := by
  split_ifs with h <;> simp [h]

theorem seen_iff (hcapital : oldV.capitalExtra = none) {differs : Bool}
    (htype : typeDiffers tonumber zero (lower v.type) oldV.type = some differs) :
    ((!v.null) != (!oldV.null) || defaultDiffers tostring v.default oldV.default ||
      (extraInfo v.extra oldV).isSome || differs) = true ↔
      Seen tostring tonumber zero v oldV := by
  have hnull : ((!v.null) != (!oldV.null)) = true ↔ v.null ≠ oldV.null := by
    cases v.null <;> cases oldV.null <;> decide
  rw [Bool.or_eq_true, Bool.or_eq_true, Bool.or_eq_true, hnull, defaultDiffers_iff,
    extraInfo_isSome_iff hcapital, typeDiffers_eq_true_iff htype]
  constructor
  · rintro (((h | h) | ⟨e, h, hraw, hlower⟩) | h)
    · exact .null h
    · exact .default h
    · exact .extra e h hraw hlower
    · exact .type h
  · intro h
    cases h with
    | null h => exact .inl (.inl (.inl h))
    | default h => exact .inl (.inl (.inr h))
    | extra e h hraw hlower => exact .inl (.inr ⟨e, h, hraw, hlower⟩)
    | type h => exact .inr h

/-- A turn fails or records the differences that are seen. -/
theorem checkColumn_cases (hcapital : oldV.capitalExtra = none) (lists : CheckLists δ) :
    (Aborts v oldV ∧ ∃ failure,
      checkColumn tostring tonumber zero v oldV lists = .error failure) ∨
    (¬ Aborts v oldV ∧ ∃ t, checkColumn tostring tonumber zero v oldV lists = .ok t ∧
      Recorded tostring tonumber zero v oldV lists t) := by
  by_cases hkey : v.key ≠ oldV.key ∧ (v.key = some modlePriKey ∨ oldV.key = some modlePriKey)
  · exact .inl ⟨.inl hkey, _, if_pos hkey⟩
  · cases htype : typeDiffers tonumber zero (lower v.type) oldV.type with
    | none =>
        refine .inl ⟨.inr (typeDiffers_eq_none_iff.mp htype), .raised, ?_⟩
        simp only [checkColumn, if_neg hkey, htype]
    | some differs =>
        have hnot : ¬ Aborts v oldV := by
          rintro (h | h)
          · exact hkey h
          · rw [typeDiffers_eq_none_iff.mpr h] at htype
            cases htype
        refine .inr ⟨hnot, _, by simp only [checkColumn, if_neg hkey, htype]; rfl, ?_, ?_, ?_⟩
        · intro x
          rw [mem_append_ite, seen_iff hcapital htype]
        · intro o
          rw [mem_append_ite, Option.isSome_iff_ne_none]
        · intro x
          rw [mem_append_ite, Option.isSome_iff_ne_none]

/-- What the loop puts into the lists. -/
structure Filled (tostring : δ → List UInt8) (tonumber : List UInt8 → Option ν) (zero : ν)
    (oldColumns : List UInt8 → Option OldColumn) (newTable : List (NewColumn δ))
    (lists t : CheckLists δ) : Prop where
  update : ∀ x, x ∈ t.updateColumns ↔ x ∈ lists.updateColumns ∨ x ∈ newTable ∧
    ∃ o, oldColumns (lower x.field) = some o ∧ Seen tostring tonumber zero x o
  remove : ∀ o, o ∈ t.removeKeys ↔ o ∈ lists.removeKeys ∨ ∃ x ∈ newTable,
    oldColumns (lower x.field) = some o ∧ x.key ≠ o.key ∧ o.key ≠ none
  add : ∀ x, x ∈ t.addKeys ↔ x ∈ lists.addKeys ∨ x ∈ newTable ∧
    ∃ o, oldColumns (lower x.field) = some o ∧ x.key ≠ o.key ∧ x.key ≠ none

variable {oldColumns : List UInt8 → Option OldColumn} {newTable : List (NewColumn δ)}

/-- An entry of the lists comes from the first column or from a later one. -/
theorem mem_cons_entry (hold : oldColumns (lower v.field) = some oldV)
    {Q : NewColumn δ → OldColumn → Prop} {x : NewColumn δ} :
    (x ∈ v :: newTable ∧ ∃ o, oldColumns (lower x.field) = some o ∧ Q x o) ↔
      (x = v ∧ Q v oldV) ∨ x ∈ newTable ∧ ∃ o, oldColumns (lower x.field) = some o ∧ Q x o := by
  rw [List.mem_cons, or_and_right]
  apply or_congr_left
  apply and_congr_right
  rintro rfl
  simp [hold]

omit [DecidableEq ν] in
/-- One more column that exists. -/
theorem Recorded.filled {mid : CheckLists δ} (hold : oldColumns (lower v.field) = some oldV)
    (h : Recorded tostring tonumber zero v oldV lists mid)
    (hrest : Filled tostring tonumber zero oldColumns newTable mid t) :
    Filled tostring tonumber zero oldColumns (v :: newTable) lists t where
  update x := by rw [hrest.update, h.update, or_assoc, mem_cons_entry hold]
  remove o := by
    have hfirst : (oldColumns (lower v.field) = some o ∧ v.key ≠ o.key ∧ o.key ≠ none) ↔
        o = oldV ∧ v.key ≠ oldV.key ∧ oldV.key ≠ none := by
      rw [hold, Option.some.injEq]
      constructor
      · rintro ⟨rfl, hkey⟩
        exact ⟨rfl, hkey⟩
      · rintro ⟨rfl, hkey⟩
        exact ⟨rfl, hkey⟩
    rw [hrest.remove, h.remove, or_assoc, List.exists_mem_cons_iff, hfirst]
  add x := by
    rw [hrest.add, h.add, or_assoc,
      @mem_cons_entry _ _ _ _ _ hold fun x o => x.key ≠ o.key ∧ x.key ≠ none]

omit [DecidableEq ν] in
/-- One more column that does not exist. -/
theorem Filled.absent (habsent : oldColumns (lower v.field) = none) {added : List (NewColumn δ)}
    (h : Filled tostring tonumber zero oldColumns newTable { lists with addColumns := added } t) :
    Filled tostring tonumber zero oldColumns (v :: newTable) lists t := by
  have hself : ∀ x o, oldColumns (lower x.field) = some o → x ≠ v := by
    rintro x o hx rfl
    rw [habsent] at hx
    cases hx
  constructor
  · intro x
    rw [h.update]
    apply or_congr_right
    constructor
    · rintro ⟨hx, hseen⟩
      exact ⟨List.mem_cons_of_mem _ hx, hseen⟩
    · rintro ⟨hx, o, hlook, hseen⟩
      exact ⟨List.mem_of_ne_of_mem (hself x o hlook) hx, o, hlook, hseen⟩
  · intro o
    rw [h.remove]
    apply or_congr_right
    constructor
    · rintro ⟨x, hx, hlook⟩
      exact ⟨x, List.mem_cons_of_mem _ hx, hlook⟩
    · rintro ⟨x, hx, hlook⟩
      exact ⟨x, List.mem_of_ne_of_mem (hself x o hlook.1) hx, hlook⟩
  · intro x
    rw [h.add]
    apply or_congr_right
    constructor
    · rintro ⟨hx, hkey⟩
      exact ⟨List.mem_cons_of_mem _ hx, hkey⟩
    · rintro ⟨hx, o, hlook, hkey⟩
      exact ⟨List.mem_of_ne_of_mem (hself x o hlook) hx, o, hlook, hkey⟩

/-- The call fails for a column whose comparison ends it, and otherwise fills the lists. -/
theorem checkColumns_cases (hlowered : Lowered oldColumns) (newTable : List (NewColumn δ))
    (lists : CheckLists δ) :
    ((∃ x ∈ newTable, ∃ o, oldColumns (lower x.field) = some o ∧ Aborts x o) ∧ ∃ failure,
      checkColumns tostring tonumber zero oldColumns newTable lists = .error failure) ∨
    ((¬ ∃ x ∈ newTable, ∃ o, oldColumns (lower x.field) = some o ∧ Aborts x o) ∧ ∃ t,
      checkColumns tostring tonumber zero oldColumns newTable lists = .ok t ∧
        Filled tostring tonumber zero oldColumns newTable lists t) := by
  induction newTable generalizing lists with
  | nil =>
      refine .inr ⟨fun ⟨x, hx, _⟩ => absurd hx List.not_mem_nil, lists, rfl, ?_, ?_, ?_⟩
      · simp
      · simp
      · simp
  | cons v newTable ih =>
      have hcons : (∃ x ∈ v :: newTable, ∃ o, oldColumns (lower x.field) = some o ∧ Aborts x o) ↔
          (∃ o, oldColumns (lower v.field) = some o ∧ Aborts v o) ∨
            ∃ x ∈ newTable, ∃ o, oldColumns (lower x.field) = some o ∧ Aborts x o :=
        List.exists_mem_cons_iff ..
      rw [hcons]
      cases hold : oldColumns (lower v.field) with
      | none =>
          simp only [checkColumns, hold]
          obtain ⟨habort, hfail⟩ | ⟨hnot, t, hcall, hfilled⟩ :=
            ih { lists with addColumns := lists.addColumns ++ [v] }
          · exact .inl ⟨.inr habort, hfail⟩
          · refine .inr ⟨?_, t, hcall, hfilled.absent hold⟩
            rintro (⟨o, hnone, -⟩ | hlater)
            · cases hnone
            · exact hnot hlater
      | some oldV =>
          simp only [checkColumns, hold]
          obtain ⟨habort, failure, hturn⟩ | ⟨hnot, mid, hturn, hrecorded⟩ :=
            @checkColumn_cases _ _ _ tostring tonumber zero v _ (hlowered _ _ hold).2 lists
          · exact .inl ⟨.inl ⟨oldV, rfl, habort⟩, failure, by rw [hturn]⟩
          · rw [hturn]
            obtain ⟨habort, hfail⟩ | ⟨hlater, t, hcall, hfilled⟩ := ih mid
            · exact .inl ⟨.inr habort, hfail⟩
            · refine .inr ⟨?_, t, hcall, hrecorded.filled hold hfilled⟩
              rintro (⟨o, ho, habort⟩ | habort)
              · obtain rfl := Option.some.inj ho
                exact hnot habort
              · exact hlater habort

/-! ## What is missed -/

omit [DecidableEq ν] in
/-- Types without differences that are seen or overlooked agree. -/
theorem type_agrees_of_not (haborts : ¬ Aborts v oldV)
    (hseen : ¬ TypeSeen tonumber zero (lower v.type) oldV.type)
    (hoverlooked : ¬ Overlooked tonumber zero v oldV) :
    (findWord (lower v.type)).map Prod.fst = (findWord (lower oldV.type)).map Prod.fst ∧
      arguments (lower v.type) = arguments (lower oldV.type) ∧
      unsignedType (lower v.type) = unsignedType (lower oldV.type) := by
  by_cases hsame : lower v.type = oldV.type
  · rw [← hsame, lower_lower]
    exact ⟨rfl, rfl, rfl⟩
  · have hequal : (findWord (lower v.type)).map Prod.fst = (findWord oldV.type).map Prod.fst ∧
        typeSize tonumber zero (lower v.type) = typeSize tonumber zero oldV.type ∧
        unsignedType (lower v.type) = unsignedType oldV.type := by
      by_contra hdiffer
      exact hseen ⟨hsame, by tauto⟩
    obtain ⟨hname, hsize, hmark⟩ := hequal
    refine ⟨?_, ?_, ?_⟩
    · cases hword : findWord (lower v.type) with
      | none => exact absurd (.inr ⟨hsame, .inl hword⟩) haborts
      | some found =>
          obtain ⟨word, behind⟩ := found
          rw [hword] at hname
          obtain ⟨oldFound, hold, hfst⟩ := Option.map_eq_some_iff.mp hname.symm
          have hlower := (lower_findWord hword).1
          simp only [findWord_lower oldV.type, hold, Option.map_some, Prod.map_fst, hfst, hlower]
    · by_contra hdiffer
      exact hoverlooked (.arguments hdiffer hsize)
    · by_contra hdiffer
      exact hoverlooked (.unsigned hdiffer hmark)

omit [DecidableEq ν] in
/-- A column without differences that are seen or overlooked is as declared. -/
theorem agrees_of_not (hkey : v.key = oldV.key) (haborts : ¬ Aborts v oldV)
    (hseen : ¬ Seen tostring tonumber zero v oldV)
    (hoverlooked : ¬ Overlooked tonumber zero v oldV) : Agrees tostring v oldV := by
  obtain ⟨hname, harguments, hunsigned⟩ :=
    type_agrees_of_not haborts (fun h => hseen (.type h)) hoverlooked
  refine ⟨?_, ?_, ?_, hkey, hname, harguments, hunsigned⟩
  · by_contra hdiffer
    exact hseen (.null hdiffer)
  · by_contra hdiffer
    exact hseen (.default (.inr hdiffer))
  · cases hextra : v.extra with
    | none =>
        have hold : oldV.extra.getD [] = [] := by
          by_contra hne
          exact hoverlooked (.extra hextra hne)
        rw [hold, Option.getD_none]
    | some e =>
        rw [Option.getD_some]
        by_contra hdiffer
        apply hseen
        apply Seen.extra e hextra
        · rintro rfl
          exact hdiffer rfl
        · intro hlower
          rw [← hlower, lower_lower] at hdiffer
          exact hdiffer rfl

omit [DecidableEq ν] in
/-- What is overlooked is a difference. -/
theorem Overlooked.not_agrees (h : Overlooked tonumber zero v oldV) : ¬ Agrees tostring v oldV := by
  intro hagrees
  cases h with
  | extra h hold =>
      have hextra := hagrees.extra
      rw [h, Option.getD_none] at hextra
      exact hold (lower_eq_nil.mp hextra.symm)
  | arguments h _ => exact h hagrees.arguments
  | unsigned h _ => exact h hagrees.unsigned

end Compare

/-- Nothing is missed exactly if each overlooked difference comes with one that is seen, or
the call ends with a failure. -/
theorem missesNothing_iff {δ ν : Type} [DecidableEq ν] (tostring : δ → List UInt8)
    (tonumber : List UInt8 → Option ν) (zero : ν) (newTable : List (NewColumn δ))
    (first : ColumnRow) (rest : List ColumnRow) :
    MissesNothing tostring tonumber zero newTable (getOldColumns first rest) ↔
      ∀ v ∈ newTable, ∀ oldV, getOldColumns first rest (lower v.field) = some oldV →
        Overlooked tonumber zero v oldV →
          v.key ≠ oldV.key ∨ Seen tostring tonumber zero v oldV ∨
            (∃ w ∈ newTable, lower w.field = lower v.field ∧ w.key ≠ oldV.key ∧
              oldV.key ≠ none) ∨
            ∃ w ∈ newTable, ∃ oldW, getOldColumns first rest (lower w.field) = some oldW ∧
              Aborts w oldW := by
  have hlowered := getOldColumns_lowered first rest
  have hcases := @checkColumns_cases _ _ _ tostring tonumber zero _ hlowered newTable .empty
  generalize getOldColumns first rest = oldColumns at hlowered hcases ⊢
  constructor
  · intro h v hv oldV hold hoverlooked
    by_contra hnot
    simp only [not_or] at hnot
    obtain ⟨hkey, hseen, hother, haborts⟩ := hnot
    obtain ⟨habort, -⟩ | ⟨-, lists, hcall, hfilled⟩ := hcases
    · exact haborts habort
    · apply hoverlooked.not_agrees
      apply h lists hcall v hv oldV hold
      · rw [hfilled.update]
        rintro (hnil | ⟨-, o, ho, hdiffer⟩)
        · exact List.not_mem_nil hnil
        · obtain rfl := Option.some.inj (hold.symm.trans ho)
          exact hseen hdiffer
      · rw [hfilled.remove]
        rintro (hnil | ⟨w, hw, hlook, hdiffer⟩)
        · exact List.not_mem_nil hnil
        · have hfield := (hlowered _ _ hlook).1.symm.trans (hlowered _ _ hold).1
          exact hother ⟨w, hw, hfield, hdiffer⟩
      · rw [hfilled.add]
        rintro (hnil | ⟨-, o, ho, hdiffer, -⟩)
        · exact List.not_mem_nil hnil
        · obtain rfl := Option.some.inj (hold.symm.trans ho)
          exact hkey hdiffer
  · intro h lists hcall v hv oldV hold hupdate hremove hadd
    obtain ⟨-, failure, hfail⟩ | ⟨haborts, t, ht, hfilled⟩ := hcases
    · rw [hcall] at hfail
      cases hfail
    · obtain rfl := Except.ok.inj (hcall.symm.trans ht)
      rw [hfilled.update] at hupdate
      rw [hfilled.remove] at hremove
      rw [hfilled.add] at hadd
      have hkey : v.key = oldV.key := by
        by_contra hdiffer
        by_cases hnone : oldV.key = none
        · exact hadd (.inr ⟨hv, oldV, hold, hdiffer, hnone ▸ hdiffer⟩)
        · exact hremove (.inr ⟨v, hv, hold, hdiffer, hnone⟩)
      have hseen : ¬ Seen tostring tonumber zero v oldV :=
        fun hdiffer => hupdate (.inr ⟨hv, oldV, hold, hdiffer⟩)
      apply agrees_of_not hkey (fun habort => haborts ⟨v, hv, oldV, hold, habort⟩) hseen
      intro hoverlooked
      obtain hdiffer | hdiffer | ⟨w, hw, hfield, hdiffer⟩ | habort := h v hv oldV hold hoverlooked
      · exact hdiffer hkey
      · exact hseen hdiffer
      · exact hremove (.inr ⟨w, hw, hfield ▸ hold, hdiffer⟩)
      · exact haborts habort

/-- The number that digits stand for. -/
def decimal (t : List UInt8) : Option Nat :=
  if t ≠ [] ∧ t.all (fun b => 48 ≤ b && b ≤ 57) then
    some (t.foldl (fun n b => 10 * n + (b.toNat - 48)) 0)
  else none

/-- The column exists with `auto_increment`, which is declared no more. -/
theorem missesNothing_dropped_extra : ¬ MissesNothing (fun _ : Unit => ascii "true") decimal 0
    [{ field := ascii "id", type := ascii "int(10)", null := false, default := .nil,
       extra := none, key := none }]
    (getOldColumns
      { field := ascii "id", type := ascii "int(10)", null := some (ascii "NO"),
        key := some (ascii ""), default := none, extra := some (ascii "auto_increment") } []) := by
  intro h
  have hcolumn := h .empty rfl _ List.mem_cons_self _ rfl List.not_mem_nil List.not_mem_nil
    List.not_mem_nil
  exact absurd hcolumn.extra (by decide)

end CheckColumns

end RandServer
