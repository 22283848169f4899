import SqlProc.Executor.ReadBack
import SqlProc.Executor.WhereScan

/-!
# A database of relations

Library `Relational`. What the program is for: a database holds a relation for each table, an
INSERT adds a row to one of them, and a SELECT shows columns of the rows that satisfy a
condition. There are no files, no index and no slots here.
-/

namespace SqlProc.Relational

open Base Front Schema Storage Executor

/-- What a table holds: the cells of its rows, in the order in which they were inserted, and the
id that the next INSERT without one is given. -/
structure Relation where
  rows : List (List Bytes)
  nextId : Int
  deriving DecidableEq, Repr

/-- A relation for each table name. -/
def Database := Bytes → Relation

/-- Another relation for a table. -/
def Database.set (db : Database) (tableName : Bytes) (r : Relation) : Database :=
  fun name ↦ if name = tableName then r else db name

theorem Database.set_self (db : Database) (tableName : Bytes) (r : Relation) :
    db.set tableName r tableName = r := if_pos rfl

theorem Database.set_of_ne (db : Database) {tableName name : Bytes} (hne : name ≠ tableName)
    (r : Relation) : db.set tableName r name = db name := if_neg hne

theorem Database.set_eq_self (db : Database) (tableName : Bytes) :
    db.set tableName (db tableName) = db := by
  funext name
  by_cases hname : name = tableName
  · rw [hname, set_self]
  · rw [set_of_ne db hname]

/-! ### INSERT -/

/-- A column takes the value: an `int` column an integer in range, a `string` column a string
that does not start like a formula of a spreadsheet. -/
def Takes (dataType : DataType) (value : LiteralValue) : Prop :=
  match dataType with
  | .int => value.type = .int ∧ (strtolInt value.text).isSome = true
  | .string => value.type = .string ∧ ∀ c ∈ value.text.head?, c ∉ text "=+-@"

instance (dataType : DataType) (value : LiteralValue) : Decidable (Takes dataType value) :=
  match dataType with
  | .int => inferInstanceAs (Decidable (_ ∧ _))
  | .string => inferInstanceAs (Decidable (_ ∧ _))

/-- The values fit the table. Without a column list there is one for each column of the schema,
in order; a column list names columns of the schema, each at most once. -/
structure Accepts (schema : TableSchema) (statement : InsertStatement) : Prop where
  counted : statement.hasColumnList = false → statement.values.length = schema.columnCount
  inOrder : statement.hasColumnList = false →
    ∀ p ∈ schema.columns.zip statement.values, Takes p.1.type p.2
  different : statement.hasColumnList = true → (statement.columns.map ColumnName.name).Nodup
  listed : statement.hasColumnList = true → ∀ p ∈ statement.columns.zip statement.values,
    ∃ column ∈ schema.columns, column.name = p.1.name ∧ Takes column.type p.2

instance (schema : TableSchema) (statement : InsertStatement) :
    Decidable (Accepts schema statement) :=
  decidable_of_iff
    ((statement.hasColumnList = false → statement.values.length = schema.columnCount) ∧
      (statement.hasColumnList = false →
        ∀ p ∈ schema.columns.zip statement.values, Takes p.1.type p.2) ∧
      (statement.hasColumnList = true → (statement.columns.map ColumnName.name).Nodup) ∧
      (statement.hasColumnList = true → ∀ p ∈ statement.columns.zip statement.values,
        ∃ column ∈ schema.columns, column.name = p.1.name ∧ Takes column.type p.2))
    ⟨fun h ↦ ⟨h.1, h.2.1, h.2.2.1, h.2.2.2⟩,
      fun h ↦ ⟨h.counted, h.inOrder, h.different, h.listed⟩⟩

/-- The next id was taken. -/
def Relation.taken (r : Relation) : Relation := { r with nextId := r.nextId + 1 }

/-- Add a row, unless there is one with its id; the next id stays above the ids, `INT_MAX`
excepted. -/
def Relation.store (primaryKeyIndex : Option Nat) (row : List Bytes) (r : Relation) :
    Bool × Relation :=
  match primaryKeyIndex with
  | none => (true, { r with rows := r.rows ++ [row] })
  | some k =>
    match rowId k row with
    | none => (false, r)
    | some id =>
      if some id ∈ r.rows.map (rowId k) then (false, r)
      else (true, ⟨r.rows ++ [row],
        if id ≠ intMax ∧ r.nextId ≤ id then id + 1 else r.nextId⟩)

/-- What an INSERT of the given cells does. Only the id may be missing, and is the next one then;
an id is also taken, and lost, when a later cell is missing too. -/
def Relation.insert (primaryKeyIndex : Option Nat) (cells : List (Option Bytes)) (r : Relation) :
    Bool × Relation :=
  match cells.findIdx? Option.isNone with
  | none => r.store primaryKeyIndex (cells.map (·.getD []))
  | some i =>
    if primaryKeyIndex = some i ∧ r.nextId ≠ intMax then
      if none ∈ cells.drop (i + 1) then (false, r.taken)
      else r.taken.store primaryKeyIndex (cells.map (·.getD (snprintfInt r.nextId)))
    else (false, r)

/-- The largest id of the rows, or zero when there is none. -/
def Relation.maxId (primaryKeyIndex : Nat) (r : Relation) : Int :=
  ((r.rows.filterMap (rowId primaryKeyIndex)).max?).getD 0

/-- What a restart leaves: the next id is one more than the largest. -/
def Relation.restarted (primaryKeyIndex : Option Nat) (r : Relation) : Relation :=
  match primaryKeyIndex with
  | none => r
  | some k => { r with nextId := r.maxId k + 1 }

/-! ### SELECT -/

/-- The columns that a SELECT shows, when the schema has them. -/
def selectedColumns (schema : TableSchema) (statement : SelectStatement) : Option (List Nat) :=
  if statement.selectAll then some (List.range schema.columnCount)
  else statement.columns.mapM fun column ↦ findSchemaColumn schema column.name

/-- A column can be compared with the value: an `int` column with an integer in range, a
`string` column with a string for equality. -/
def Compares (dataType : DataType) (operator : WhereOperator) (value : LiteralValue) : Prop :=
  match dataType with
  | .int => value.type = .int ∧ (strtolInt value.text).isSome = true
  | .string => value.type = .string ∧ (operator = .equal ∨ operator = .notEqual)

instance (dataType : DataType) (operator : WhereOperator) (value : LiteralValue) :
    Decidable (Compares dataType operator value) :=
  match dataType with
  | .int => inferInstanceAs (Decidable (_ ∧ _))
  | .string => inferInstanceAs (Decidable (_ ∧ _))

/-- The rows that satisfy the condition of a SELECT on the given column. -/
def Relation.matching (schema : TableSchema) (statement : SelectStatement) (column : Nat)
    (r : Relation) : List (List Bytes) :=
  r.rows.filter fun row ↦ Satisfies (columnType schema column) statement.whereOperator
    statement.whereValue.text (row.getD column [])

/-- Rows in the order of their ids. -/
def sortById (primaryKeyIndex : Nat) (rows : List (List Bytes)) : List (List Bytes) :=
  rows.mergeSort fun a b ↦
    (rowId primaryKeyIndex a).getD 0 ≤ (rowId primaryKeyIndex b).getD 0

/-- The line that precedes the rows of a scan with a condition. -/
def scanBanner (statement : SelectStatement) : Output :=
  .line (text "[SCAN] " ++ whereText statement (whereOperatorText statement.whereOperator))

/-- What is printed: a line about the access, the header, the rows, and the elapsed time. -/
def shown (schema : TableSchema) (selected : List Nat) (banner : List Output)
    (rows : List (List Bytes)) : List Output :=
  banner ++ headerOutput schema selected ::
    rows.map (fun row ↦ Output.line (selectedText row selected)) ++ [.elapsed]

/-- What a SELECT prints. A comparison of the primary key shows the rows by id, every other
SELECT in the order in which they were inserted. -/
def Relation.select (schema : TableSchema) (statement : SelectStatement) (r : Relation) :
    Option (List Output) := do
  let selected ← selectedColumns schema statement
  if statement.hasWhere then do
    let column ← findSchemaColumn schema statement.whereColumn
    if Compares (columnType schema column) statement.whereOperator statement.whereValue then
      let rows := r.matching schema statement column
      if schema.primaryKeyIndex = some column ∧ statement.whereOperator ≠ .notEqual then
        some (shown schema selected [keyBanner statement rows.length] (sortById column rows))
      else some (shown schema selected [scanBanner statement] rows)
    else none
  else some (shown schema selected [] r.rows)

/-! ### Statements -/

/-- One statement: what it prints, unless it is refused. -/
def Database.execute (tables : List TableSchema) (db : Database) :
    Statement → Option (List Output) × Database
  | .insert _ statement =>
    match tables.find? (·.tableName = statement.tableName) with
    | none => (none, db)
    | some schema =>
      if Accepts schema statement then
        let (stored, r) := (db statement.tableName).insert schema.primaryKeyIndex
          (givenCells schema statement)
        (if stored then some [] else none, db.set statement.tableName r)
      else (none, db)
  | .select _ statement =>
    match tables.find? (·.tableName = statement.tableName) with
    | none => (none, db)
    | some schema => ((db statement.tableName).select schema statement, db)

/-- The statements of a program up to the first that is refused: whether there is none, and what
they print. -/
def Database.executeProgram (tables : List TableSchema) :
    SqlProgram → Database → (Bool × List Output) × Database
  | [], db => ((true, []), db)
  | statement :: program, db =>
    match db.execute tables statement with
    | (none, db) => ((false, []), db)
    | (some output, db) =>
      let ((done, outputs), db) := executeProgram tables program db
      ((done, output ++ outputs), db)

/-- A text that the front end takes for a program; any other text is refused. -/
def Database.runText (tables : List TableSchema) (db : Database) (sqlText : Bytes) :
    (Bool × List Output) × Database :=
  match tokenizeSql sqlText >>= parseProgram with
  | .error _ => ((false, []), db)
  | .ok program => db.executeProgram tables program

/-- No relation. -/
def Database.empty : Database := fun _ ↦ ⟨[], 1⟩

/-- A restart of the database. -/
def Database.restarted (tables : List TableSchema) (db : Database) : Database := fun name ↦
  match tables.find? (·.tableName = name) with
  | none => db name
  | some schema => (db name).restarted schema.primaryKeyIndex

/-- No table has a row with the id `INT_MAX`, after which there is no next id. -/
def Database.Restartable (tables : List TableSchema) (db : Database) : Prop :=
  ∀ schema ∈ tables, ∀ k ∈ schema.primaryKeyIndex,
    some intMax ∉ (db schema.tableName).rows.map (rowId k)

instance (tables : List TableSchema) (db : Database) : Decidable (db.Restartable tables) :=
  inferInstanceAs (Decidable (∀ schema ∈ tables, ∀ k ∈ schema.primaryKeyIndex,
    some intMax ∉ (db schema.tableName).rows.map (rowId k)))

end SqlProc.Relational
