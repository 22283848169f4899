import SqlProc.Storage.Table

/-!
# Executing statements

Library `Executor`. Models `src/executor.c`: the table states that live as long as the
process, with the primary-key index and the next automatic id, and the execution of INSERT
and SELECT statements.
-/

namespace SqlProc.Executor

open Base Front Index Schema Storage

/-- `EXECUTOR_MAX_TABLE_STATES`. -/
abbrev executorMaxTableStates : Nat := 32

/-- `TableRuntimeState` of a slot in use. -/
structure TableRuntimeState where
  schemaDir : Bytes
  dataDir : Bytes
  tableName : Bytes
  nextId : Int
  pkIndex : Option PkIndex

/-- The process: its files, its output and the slots of `table_states` in use, which are the
first ones. -/
structure World where
  disk : Disk
  tableStates : List TableRuntimeState

/-- A step of the storage module. -/
def onDisk {α : Type} (x : Exec Disk α) : Exec World α :=
  Exec.zoom World.disk (fun w disk ↦ { w with disk := disk }) x

/-- `find_schema_column`. -/
def findSchemaColumn (schema : TableSchema) (name : Bytes) : Option Nat :=
  schema.columns.findIdx? (·.name = name)

/-- `validate_literal_type`. -/
def validateLiteralType (dataType : DataType) (value : LiteralValue) : Bool :=
  match dataType, value.type with
  | .int, .int => true
  | .string, .string => true
  | _, _ => false

/-- `int_literal_in_range`. -/
def intLiteralInRange (value : LiteralValue) : Bool := (strtolInt value.text).isSome

/-- `string_literal_is_safe_for_csv`. -/
def stringLiteralIsSafeForCsv (value : LiteralValue) : Bool :=
  match value.text with
  | [] => true
  | c :: _ => c ∉ text "=+-@"

/-! ### Table states -/

/-- The slot belongs to the table. -/
def TableRuntimeState.isFor (state : TableRuntimeState) (config : AppConfig)
    (tableName : Bytes) : Bool :=
  state.schemaDir = config.schemaDir && state.dataDir = config.dataDir &&
    state.tableName = tableName

/-- `find_table_state`. -/
def findTableState (config : AppConfig) (schema : TableSchema)
    (tableStates : List TableRuntimeState) : Option Nat :=
  tableStates.findIdx? (·.isFor config schema.tableName)

/-- The index of a new slot and the largest id of the table. -/
def buildIndex (config : AppConfig) (schema : TableSchema) :
    Exec World (Option PkIndex × Int) :=
  match schema.primaryKeyIndex with
  | none => pure (none, 0)
  | some _ => do
    let (index, maxId) ← onDisk (storageRebuildPkIndex config schema .create)
    pure (some index, maxId)

/-- `create_table_state`. -/
def createTableState (config : AppConfig) (schema : TableSchema) : Exec World Nat := do
  let (index, maxId) ← buildIndex config schema
  if maxId = intMax then
    Exec.fail (runtimeError "자동 PK 값이 int 범위를 벗어났습니다." noLocation)
  else
    let w ← Exec.get
    if w.tableStates.length < executorMaxTableStates then do
      let state := ⟨config.schemaDir, config.dataDir, schema.tableName, maxId + 1, index⟩
      Exec.modify fun w ↦ { w with tableStates := w.tableStates ++ [state] }
      pure w.tableStates.length
    else Exec.fail (runtimeError "테이블 상태 저장 공간이 부족합니다." noLocation)

/-- `get_table_state_index`. -/
def getTableStateIndex (config : AppConfig) (schema : TableSchema) : Exec World Nat := do
  let w ← Exec.get
  match findTableState config schema w.tableStates with
  | some i => pure i
  | none => createTableState config schema

/-- A slot that `get_table_state_index` has returned. -/
def slotAt (w : World) (i : Nat) : TableRuntimeState :=
  w.tableStates.getD i ⟨[], [], [], 0, none⟩

/-- Change a slot. -/
def modifySlot (i : Nat) (f : TableRuntimeState → TableRuntimeState) : Exec World Unit :=
  Exec.modify fun w ↦ { w with tableStates := w.tableStates.modify i f }

/-- `allocate_next_primary_key`. -/
def allocateNextPrimaryKey (config : AppConfig) (schema : TableSchema) : Exec World Int := do
  let i ← getTableStateIndex config schema
  let w ← Exec.get
  let nextId := (slotAt w i).nextId
  if nextId = intMax then
    Exec.fail (runtimeError "자동 PK 값이 int 범위를 벗어났습니다." noLocation)
  else do
    modifySlot i fun state ↦ { state with nextId := nextId + 1 }
    pure nextId

/-- `remember_explicit_primary_key`. -/
def rememberExplicitPrimaryKey (config : AppConfig) (schema : TableSchema) (explicitId : Int) :
    Exec World Unit := do
  let w ← Exec.get
  match findTableState config schema w.tableStates with
  | none => pure ()
  | some i =>
    if explicitId = intMax then pure ()
    else if (slotAt w i).nextId ≤ explicitId then
      modifySlot i fun state ↦ { state with nextId := explicitId + 1 }
    else pure ()

/-- `parse_row_primary_key`. -/
def parseRowPrimaryKey (primaryKeyIndex : Nat) (rowValues : List Bytes) : Except ErrorInfo Int :=
  match strtolInt (rowValues.getD primaryKeyIndex []) with
  | none => .error (runtimeError "PK 값을 읽을 수 없습니다." noLocation)
  | some value => .ok value

/-- `validate_primary_key_unique`. -/
def validatePrimaryKeyUnique (config : AppConfig) (schema : TableSchema)
    (primaryKeyValue : Int) : Exec World Unit := do
  let i ← getTableStateIndex config schema
  let w ← Exec.get
  if ((slotAt w i).pkIndex.bind (·.search primaryKeyValue)).isSome then
    Exec.fail (runtimeError "PK 값이 이미 존재합니다." noLocation)
  else pure ()

/-! ### INSERT -/

/-- The checks on a value, for a column of the given type. -/
def checkInsertValue (dataType : DataType) (value : LiteralValue) : Except ErrorInfo Unit :=
  if !validateLiteralType dataType value then
    .error (runtimeError "INSERT 값 타입이 스키마와 맞지 않습니다." value.location)
  else if dataType = .int && !intLiteralInRange value then
    .error (runtimeError "정수 값이 int 범위를 벗어났습니다." value.location)
  else if dataType = .string && !stringLiteralIsSafeForCsv value then
    .error (runtimeError "문자열 값이 CSV에서 수식으로 해석될 수 없습니다." value.location)
  else .ok ()

/-- The loop of `build_insert_row_values` without a column list; a value past the last one is
zeroed. -/
def copyValues : List ColumnSchema → List LiteralValue → Except ErrorInfo (List Bytes)
  | [], _ => .ok []
  | column :: columns, values => do
    checkInsertValue column.type (values.headD .zero)
    let rest ← copyValues columns values.tail
    .ok (snprintfStr maxValueLen (values.headD .zero).text :: rest)

/-- The first loop of `build_insert_row_values` with a column list. A cell is the text of a
used column. -/
def placeValues (schema : TableSchema) : List ColumnName → List LiteralValue →
    List (Option Bytes) → Except ErrorInfo (List (Option Bytes))
  | [], _, cells => .ok cells
  | column :: columns, values, cells =>
    match findSchemaColumn schema column.name with
    | none => .error (runtimeError "INSERT 대상 컬럼이 스키마에 없습니다." column.location)
    | some i =>
      if (cells.getD i none).isSome then
        .error (runtimeError "같은 컬럼이 INSERT 문에 두 번 들어왔습니다." column.location)
      else do
        checkInsertValue (columnType schema i) (values.headD .zero)
        let cell := snprintfStr maxValueLen (values.headD .zero).text
        placeValues schema columns values.tail (cells.set i (some cell))

/-- The second loop of `build_insert_row_values` with a column list, from column `i` on. -/
def fillCells (config : AppConfig) (schema : TableSchema) (tableLocation : SourceLocation) :
    Nat → List (Option Bytes) → Exec World (List Bytes)
  | _, [] => pure []
  | i, some cell :: cells => do
    let rest ← fillCells config schema tableLocation (i + 1) cells
    pure (cell :: rest)
  | i, none :: cells =>
    if schema.primaryKeyIndex = some i then do
      let nextId ← allocateNextPrimaryKey config schema
      let rest ← fillCells config schema tableLocation (i + 1) cells
      pure (snprintfStr maxValueLen (snprintfInt nextId) :: rest)
    else
      Exec.fail (runtimeError "INSERT 문에 스키마의 모든 컬럼 값이 필요합니다." tableLocation)

/-- `build_insert_row_values`. -/
def buildInsertRowValues (config : AppConfig) (schema : TableSchema)
    (statement : InsertStatement) : Exec World (List Bytes) :=
  if !statement.hasColumnList then
    if statement.values.length ≠ schema.columnCount then
      Exec.fail (runtimeError "VALUES 값 수가 스키마 컬럼 수와 일치하지 않습니다."
        statement.tableLocation)
    else Exec.lift (copyValues schema.columns statement.values)
  else do
    let unused := List.replicate schema.columnCount none
    let cells ← Exec.lift (placeValues schema statement.columns statement.values unused)
    fillCells config schema statement.tableLocation 0 cells

/-- The end of `execute_insert` for a table with a primary key: enter the row into the
index. -/
def registerPrimaryKey (config : AppConfig) (schema : TableSchema) (primaryKeyValue : Int)
    (rowOffset : Int) : Exec World Unit := do
  let i ← getTableStateIndex config schema
  let w ← Exec.get
  match (slotAt w i).pkIndex.map (·.insert primaryKeyValue rowOffset) with
  | some (index, true) => do
    modifySlot i fun state ↦ { state with pkIndex := some index }
    rememberExplicitPrimaryKey config schema primaryKeyValue
  | _ => Exec.fail (runtimeError "PK 인덱스에 값을 등록할 수 없습니다." noLocation)

/-- The end of `execute_insert`, which stores the row. -/
def storeRow (config : AppConfig) (schema : TableSchema) (rowValues : List Bytes) :
    Exec World Unit :=
  match schema.primaryKeyIndex with
  | none => do
    let _ ← onDisk (storageAppendRow config schema rowValues)
    pure ()
  | some primaryKeyIndex => do
    let primaryKeyValue ← Exec.lift (parseRowPrimaryKey primaryKeyIndex rowValues)
    validatePrimaryKeyUnique config schema primaryKeyValue
    let rowOffset ← onDisk (storageAppendRow config schema rowValues)
    registerPrimaryKey config schema primaryKeyValue rowOffset

/-- `execute_insert`. -/
def executeInsert (config : AppConfig) (statement : InsertStatement) : Exec World Unit := do
  let w ← Exec.get
  let schema ← Exec.lift (loadTableSchema w.disk.files config.schemaDir statement.tableName)
  let rowValues ← buildInsertRowValues config schema statement
  storeRow config schema rowValues

/-! ### SELECT -/

/-- `resolve_selected_columns`. -/
def resolveSelectedColumns (schema : TableSchema) (statement : SelectStatement) :
    Except ErrorInfo (List Nat) :=
  if statement.selectAll then .ok (List.range schema.columnCount)
  else
    statement.columns.mapM fun column ↦
      match findSchemaColumn schema column.name with
      | none => .error (runtimeError "SELECT 대상 컬럼이 스키마에 없습니다." column.location)
      | some i => .ok i

/-- `resolve_where_column`. -/
def resolveWhereColumn (schema : TableSchema) (statement : SelectStatement) :
    Except ErrorInfo Nat :=
  match findSchemaColumn schema statement.whereColumn with
  | none =>
    .error (runtimeError "WHERE 대상 컬럼이 스키마에 없습니다." statement.whereColumnLocation)
  | some i =>
    let location := statement.whereValue.location
    if !validateLiteralType (columnType schema i) statement.whereValue then
      .error (runtimeError "WHERE 값 타입이 스키마와 맞지 않습니다." location)
    else if columnType schema i = .int && !intLiteralInRange statement.whereValue then
      .error (runtimeError "정수 값이 int 범위를 벗어났습니다." location)
    else if columnType schema i = .string &&
        (statement.whereOperator = .greater || statement.whereOperator = .less) then
      .error (runtimeError "문자열 컬럼은 >, < 조건을 사용할 수 없습니다." location)
    else .ok i

/-- `parse_where_int_value`, with the error of its callers. -/
def parseWhereIntValue (value : LiteralValue) : Except ErrorInfo Int :=
  match strtolInt value.text with
  | none => .error (runtimeError "정수 값이 int 범위를 벗어났습니다." value.location)
  | some v => .ok v

/-- `where_operator_text`. -/
def whereOperatorText : WhereOperator → Bytes
  | .equal => text "="
  | .greater => text ">"
  | .less => text "<"
  | .notEqual => text "!="

/-- The condition as the executor prints it. -/
def whereText (statement : SelectStatement) (operator : Bytes) : Bytes :=
  text "WHERE " ++ statement.whereColumn ++ text " " ++ operator ++ text " " ++
    statement.whereValue.text

/-- `execute_select_with_index`. -/
def executeSelectWithIndex (config : AppConfig) (schema : TableSchema)
    (statement : SelectStatement) (selected : List Nat) : Exec World Unit := do
  let targetId ← Exec.lift (parseWhereIntValue statement.whereValue)
  let i ← getTableStateIndex config schema
  onDisk (printLine (text "[INDEX] " ++ whereText statement (text "=")))
  let w ← Exec.get
  let rowOffset := ((slotAt w i).pkIndex.bind (·.search targetId)).getD (-1)
  onDisk (storagePrintRowAtOffset config schema rowOffset selected)

/-- `append_offset`. The growth of the `OffsetList`, an `int` capacity that is doubled and a
`realloc`, is taken to succeed. -/
def appendOffset : BptreeVisitFn (List Int) := fun _ offset list ↦ (true, list ++ [offset])

/-- The offsets that the range scan collects, with its return value. -/
def rangeOffsets (index : Option PkIndex) (operator : WhereOperator) (targetId : Int) :
    Bool × List Int :=
  match index with
  | none => (true, [])
  | some index =>
    if operator = .greater then index.visitGreaterThan targetId appendOffset []
    else index.visitLessThan targetId appendOffset []

/-- `execute_select_with_index_range`. -/
def executeSelectWithIndexRange (config : AppConfig) (schema : TableSchema)
    (statement : SelectStatement) (selected : List Nat) : Exec World Unit := do
  let targetId ← Exec.lift (parseWhereIntValue statement.whereValue)
  let i ← getTableStateIndex config schema
  let w ← Exec.get
  match rangeOffsets (slotAt w i).pkIndex statement.whereOperator targetId with
  | (false, _) =>
    Exec.fail (runtimeError "PK 인덱스 range scan 중 오류가 발생했습니다." noLocation)
  | (true, offsets) => do
    let condition := whereText statement (whereOperatorText statement.whereOperator)
    let count := snprintfInt offsets.length
    onDisk (printLine (text "[INDEX-RANGE] " ++ condition ++ text " (" ++ count ++ text " rows)"))
    onDisk (storagePrintRowsAtOffsets config schema offsets selected)

/-- `execute_select_with_scan`. -/
def executeSelectWithScan (config : AppConfig) (schema : TableSchema)
    (statement : SelectStatement) (selected : List Nat) (whereColumnIndex : Nat) :
    Exec World Unit := do
  let condition := whereText statement (whereOperatorText statement.whereOperator)
  onDisk (printLine (text "[SCAN] " ++ condition))
  onDisk (storagePrintRowsWhereEquals config schema selected whereColumnIndex
    statement.whereOperator statement.whereValue)

/-- The line that follows a successful SELECT. -/
def printElapsed : Exec World Unit :=
  onDisk (Exec.modify fun disk ↦ { disk with stdout := disk.stdout ++ [.elapsed] })

/-- The end of `execute_select` for a statement with a condition: the index is used for a
comparison of the primary key with `=`, `>` or `<`. -/
def executeSelectWhere (config : AppConfig) (schema : TableSchema) (statement : SelectStatement)
    (selected : List Nat) (whereColumnIndex : Nat) : Exec World Unit :=
  let onKey : Bool := schema.primaryKeyIndex = some whereColumnIndex &&
    statement.whereValue.type = .int
  let useIndexLookup : Bool := onKey && statement.whereOperator = .equal
  let useIndexRange : Bool :=
    onKey && (statement.whereOperator = .greater || statement.whereOperator = .less)
  if useIndexLookup then do
    let _ ← getTableStateIndex config schema
    executeSelectWithIndex config schema statement selected
  else if useIndexRange then do
    let _ ← getTableStateIndex config schema
    executeSelectWithIndexRange config schema statement selected
  else executeSelectWithScan config schema statement selected whereColumnIndex

/-- `execute_select`. -/
def executeSelect (config : AppConfig) (statement : SelectStatement) : Exec World Unit := do
  let w ← Exec.get
  let schema ← Exec.lift (loadTableSchema w.disk.files config.schemaDir statement.tableName)
  let selected ← Exec.lift (resolveSelectedColumns schema statement)
  if !statement.hasWhere then do
    onDisk (storagePrintRows config schema selected)
    printElapsed
  else do
    let whereColumnIndex ← Exec.lift (resolveWhereColumn schema statement)
    executeSelectWhere config schema statement selected whereColumnIndex
    printElapsed

/-- One statement of `execute_program`. -/
def executeStatement (config : AppConfig) : Statement → Exec World Unit
  | .insert _ statement => executeInsert config statement
  | .select _ statement => executeSelect config statement

/-- `execute_program`. -/
def executeProgram (config : AppConfig) : SqlProgram → Exec World Unit
  | [] => pure ()
  | statement :: program => do
    executeStatement config statement
    executeProgram config program

end SqlProc.Executor
