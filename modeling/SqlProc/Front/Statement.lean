import SqlProc.Base.Bytes
import SqlProc.Base.Exec
import SqlProc.Base.Limits

/-!
# SQL statements

Library `Front`. The statement structures of `sqlproc.h`. An array with its count is the
list of its meaningful cells.
-/

namespace SqlProc.Front

open Base

/-- `LiteralType`. -/
inductive LiteralType where
  | int
  | string
  deriving DecidableEq, Repr

/-- `WhereOperator`. -/
inductive WhereOperator where
  | equal
  | greater
  | less
  | notEqual
  deriving DecidableEq, Repr

/-- `LiteralValue`. -/
structure LiteralValue where
  type : LiteralType
  text : Bytes
  location : SourceLocation
  deriving DecidableEq, Repr

/-- A `LiteralValue` after `memset`. -/
def LiteralValue.zero : LiteralValue := ⟨.int, [], noLocation⟩

/-- A column of a statement: its cell of `column_names` and of `column_locations`. -/
structure ColumnName where
  name : Bytes
  location : SourceLocation
  deriving DecidableEq, Repr

/-- `InsertStatement`. -/
structure InsertStatement where
  tableName : Bytes
  tableLocation : SourceLocation
  hasColumnList : Bool
  columns : List ColumnName
  values : List LiteralValue
  deriving DecidableEq, Repr

/-- `SelectStatement`. -/
structure SelectStatement where
  tableName : Bytes
  selectAll : Bool
  columns : List ColumnName
  hasWhere : Bool
  whereColumn : Bytes
  whereColumnLocation : SourceLocation
  whereOperator : WhereOperator
  whereValue : LiteralValue
  deriving DecidableEq, Repr

/-- `Statement`, with the member of it that `type` selects. -/
inductive Statement where
  | insert (location : SourceLocation) (statement : InsertStatement)
  | select (location : SourceLocation) (statement : SelectStatement)
  deriving DecidableEq, Repr

/-- `SqlProgram`. -/
abbrev SqlProgram := List Statement

/-! ### What the parser guarantees -/

/-- The table name and the texts of the values fit their buffers. -/
structure InsertStatement.Lexical (statement : InsertStatement) : Prop where
  length_tableName : statement.tableName.length < maxNameLen
  values : ∀ value ∈ statement.values, ValidCell value.text

instance (statement : InsertStatement) : Decidable statement.Lexical :=
  decidable_of_iff (statement.tableName.length < maxNameLen ∧
      ∀ value ∈ statement.values, ValidCell value.text)
    ⟨fun h ↦ ⟨h.1, h.2⟩, fun h ↦ ⟨h.1, h.2⟩⟩

/-- The table name fits its buffer. -/
structure SelectStatement.Lexical (statement : SelectStatement) : Prop where
  length_tableName : statement.tableName.length < maxNameLen

/-- A statement whose texts fit their buffers. -/
def Statement.Lexical : Statement → Prop
  | .insert _ statement => statement.Lexical
  | .select _ statement => statement.Lexical

/-- A column list has as many columns as there are values. -/
def Statement.Counted : Statement → Prop
  | .insert _ statement =>
    statement.hasColumnList = true → statement.columns.length = statement.values.length
  | .select _ _ => True

/-- A program whose texts fit their buffers. -/
def SqlProgram.Lexical (program : SqlProgram) : Prop := ∀ statement ∈ program, statement.Lexical

end SqlProc.Front
