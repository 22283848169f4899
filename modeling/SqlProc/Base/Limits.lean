import SqlProc.Base.Bytes

/-!
# The limits of `sqlproc.h`

Library `Base`. Buffer sizes count the terminator.
-/

namespace SqlProc.Base

/-- `SQLPROC_MAX_NAME_LEN`. -/
abbrev maxNameLen : Nat := 64

/-- `SQLPROC_MAX_VALUE_LEN`. -/
abbrev maxValueLen : Nat := 64

/-- `SQLPROC_MAX_COLUMNS`. -/
abbrev maxColumns : Nat := 16

/-- `SQLPROC_MAX_SQL_SIZE`. -/
abbrev maxSqlSize : Nat := 8192

/-- `SQLPROC_MAX_TOKENS`. -/
abbrev maxTokens : Nat := 512

/-- `SQLPROC_MAX_STATEMENTS`. -/
abbrev maxStatements : Nat := 32

/-- `SQLPROC_MAX_STRING_TEXT_LEN`. -/
abbrev maxStringTextLen : Nat := maxValueLen - 1

/-- `SQLPROC_MAX_CSV_FIELD_LEN`. -/
abbrev maxCsvFieldLen : Nat := maxStringTextLen * 2 + 2

/-- `SQLPROC_MAX_CSV_ROW_LEN`. -/
abbrev maxCsvRowLen : Nat := maxColumns * maxCsvFieldLen + (maxColumns - 1) + 2

/-- `SQLPROC_MAX_SCHEMA_TYPE_LEN`. -/
abbrev maxSchemaTypeLen : Nat := 6

/-- `SQLPROC_MAX_SCHEMA_ENTRY_LEN`. -/
abbrev maxSchemaEntryLen : Nat := (maxNameLen - 1) + 1 + maxSchemaTypeLen

/-- `SQLPROC_MAX_SCHEMA_LINE_LEN`. -/
abbrev maxSchemaLineLen : Nat := maxColumns * maxSchemaEntryLen + (maxColumns - 1) + 2

/-- Text that fits a cell: what the tokenizer guarantees of a literal. -/
structure ValidCell (value : Bytes) : Prop where
  oneLine : OneLine value
  length_lt : value.length < maxValueLen

instance (value : Bytes) : Decidable (ValidCell value) :=
  decidable_of_iff (OneLine value ∧ value.length < maxValueLen)
    ⟨fun h ↦ ⟨h.1, h.2⟩, fun h ↦ ⟨h.1, h.2⟩⟩

/-- The empty text fits a cell. -/
theorem validCell_nil : ValidCell [] := by decide

end SqlProc.Base
