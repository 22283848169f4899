import SqlProc.Base.Numbers
import SqlProc.Front.Statement
import SqlProc.Index.PkIndex
import SqlProc.Schema.Load
import SqlProc.Storage.Csv
import Mathlib.Logic.Function.Basic

/-!
# Tables as CSV files

Library `Storage`. Models the file operations of `src/storage.c`: creating a data file,
appending a row, and the scans and single reads that print, search or index rows. A file that
exists can be opened and read, and every file can be opened for writing and written: the data
directory exists.
-/

namespace SqlProc.Storage

open Base Front Index Schema

/-- The directories of `AppConfig`. -/
structure AppConfig where
  schemaDir : Bytes
  dataDir : Bytes
  length_schemaDir : schemaDir.length < 256
  length_dataDir : dataDir.length < 256

/-- One line of standard output; what `elapsed` prints depends on the clock. -/
inductive Output where
  | line (text : Bytes)
  | elapsed
  deriving DecidableEq, Repr

/-- The files of the process and what it has printed. -/
structure Disk where
  files : Files
  stdout : List Output

/-- Print one line. -/
def printLine (text : Bytes) : Exec Disk Unit :=
  Exec.modify fun disk ↦ { disk with stdout := disk.stdout ++ [.line text] }

/-- Set the content of a file. -/
def writeFile (path content : Bytes) : Exec Disk Unit :=
  Exec.modify fun disk ↦ { disk with files := Function.update disk.files path (some content) }

/-- `build_table_path` for a data file. -/
def tablePath (config : AppConfig) (tableName : Bytes) : Bytes :=
  snprintfStr 512 (config.dataDir ++ text "/" ++ tableName ++ text ".csv")

/-- `validate_line_length`. -/
def validateLineLength (line : Bytes) (lineSize : Nat) (file : CFile) : Bool :=
  !(line.length = lineSize - 1 && line.getLast? ≠ some lf && !file.eof)

/-- The messages about a header, which differ between `ensure_data_file` and the readers. -/
structure HeaderMessages where
  tooLong : String
  badFormat : String
  badCount : String
  badOrder : String

/-- The messages of `ensure_data_file`. -/
def dataFileMessages : HeaderMessages :=
  ⟨"기존 데이터 파일 헤더 행이 너무 깁니다.",
    "기존 데이터 파일 헤더 형식이 잘못되었습니다.",
    "기존 데이터 파일 헤더가 스키마와 다릅니다.",
    "기존 데이터 파일 헤더 순서가 스키마와 다릅니다."⟩

/-- The messages of the readers. -/
def csvMessages : HeaderMessages :=
  ⟨"CSV 헤더 행이 너무 깁니다.",
    "CSV 헤더 형식이 잘못되었습니다.",
    "CSV 헤더가 스키마와 다릅니다.",
    "CSV 헤더 순서가 스키마와 다릅니다."⟩

/-- `validate_header_values`. -/
def validateHeaderValues (schema : TableSchema) (headerValues : List Bytes)
    (countMessage orderMessage : String) : Except ErrorInfo Unit :=
  if headerValues.length ≠ schema.columnCount then .error (fileError countMessage)
  else if headerValues ≠ schema.columns.map ColumnSchema.name then
    .error (fileError orderMessage)
  else .ok ()

/-- The checks that every operation makes on the header line; `fits` is what
`validate_line_length` has returned for it. -/
def checkHeader (messages : HeaderMessages) (schema : TableSchema) (fits : Bool)
    (line : Bytes) : Except ErrorInfo Unit :=
  if !fits then .error (fileError messages.tooLong)
  else
    match parseCsvLine line with
    | none => .error (fileError messages.badFormat)
    | some headerValues =>
      validateHeaderValues schema headerValues messages.badCount messages.badOrder

/-- The header line that `ensure_data_file` writes. -/
def headerLine (schema : TableSchema) : Bytes :=
  joinFields (schema.columns.map ColumnSchema.name) ++ [lf]

/-- `ensure_data_file`. -/
def ensureDataFile (config : AppConfig) (schema : TableSchema) : Exec Disk Unit := do
  let disk ← Exec.get
  match disk.files (tablePath config schema.tableName) with
  | some content =>
    match fgets maxCsvRowLen (.start content) with
    | none => Exec.fail (fileError "기존 데이터 파일 헤더를 읽을 수 없습니다.")
    | some (line, file) =>
      let fits := validateLineLength line maxCsvRowLen file
      Exec.lift (checkHeader dataFileMessages schema fits line)
  | none => writeFile (tablePath config schema.tableName) (headerLine schema)

/-- `ensure_append_starts_on_new_line`: the content of the file after it. -/
def ensureAppendStartsOnNewLine (content : Bytes) : Bytes :=
  if content = [] then content
  else if content.getLast? ≠ some lf then content ++ [lf]
  else content

/-- `storage_append_row`: the offset of the row. -/
def storageAppendRow (config : AppConfig) (schema : TableSchema) (rowValues : List Bytes) :
    Exec Disk Int := do
  ensureDataFile config schema
  let disk ← Exec.get
  let path := tablePath config schema.tableName
  let content := ensureAppendStartsOnNewLine ((disk.files path).getD [])
  writeFile path (content ++ writeCsvRow rowValues)
  pure content.length

/-- Selected cells of a row or of the header, separated by tabs. -/
def selectedText (cells : List Bytes) (selected : List Nat) : Bytes :=
  [tab].intercalate (selected.map fun i ↦ cells.getD i [])

/-- `print_selected_header`. -/
def printSelectedHeader (schema : TableSchema) (selected : List Nat) : Exec Disk Unit :=
  printLine (selectedText (schema.columns.map ColumnSchema.name) selected)

/-- The checks that every operation makes on the line of a row; `fits` is what
`validate_line_length` has returned for it. -/
def readRow (schema : TableSchema) (fits : Bool) (line : Bytes) :
    Except ErrorInfo (List Bytes) :=
  if !fits then .error (fileError "CSV 행이 너무 깁니다.")
  else
    match parseCsvLine line with
    | none => .error (fileError "CSV 행을 읽는 중 오류가 발생했습니다.")
    | some values =>
      if values.length ≠ schema.columnCount then
        .error (fileError "CSV 컬럼 수가 스키마와 맞지 않습니다.")
      else .ok values

section Scan

variable {σ : Type}

/-- The loop of the scans: read lines up to the end of the file and hand the offset and the
cells of each to `visit`, which says whether to go on. The first argument bounds the number
of lines. -/
def forEachRow (schema : TableSchema) (visit : Int → List Bytes → Exec σ Bool) :
    Nat → CFile → Exec σ Unit
  | 0, _ => pure ()
  | fuel + 1, file =>
    let rowOffset := ftell file
    match fgets maxCsvRowLen file with
    | none => pure ()
    | some (line, file) => do
      let fits := validateLineLength line maxCsvRowLen file
      let values ← Exec.lift (readRow schema fits line)
      if ← visit rowOffset values then forEachRow schema visit fuel file
      else pure ()

end Scan

/-- `storage_print_rows`. -/
def storagePrintRows (config : AppConfig) (schema : TableSchema) (selected : List Nat) :
    Exec Disk Unit := do
  let disk ← Exec.get
  match disk.files (tablePath config schema.tableName) with
  | none => printSelectedHeader schema selected
  | some content =>
    match fgets maxCsvRowLen (.start content) with
    | none => pure ()
    | some (line, file) => do
      let fits := validateLineLength line maxCsvRowLen file
      Exec.lift (checkHeader csvMessages schema fits line)
      printSelectedHeader schema selected
      let visit := fun (_ : Int) values ↦ do
        printLine (selectedText values selected)
        pure true
      forEachRow schema visit content.length file

/-- The reads at offsets: `print_row_from_open_file`, and the end of
`storage_print_row_at_offset`. -/
def printRowFromOpenFile (schema : TableSchema) (file : CFile) (offset : Int)
    (selected : List Nat) : Exec Disk Unit :=
  match fseek file offset with
  | none => Exec.fail (fileError "CSV 행 위치로 이동할 수 없습니다.")
  | some file =>
    match fgets maxCsvRowLen file with
    | none => Exec.fail (fileError "CSV 행을 읽을 수 없습니다.")
    | some (line, file) => do
      let fits := validateLineLength line maxCsvRowLen file
      let values ← Exec.lift (readRow schema fits line)
      printLine (selectedText values selected)

/-- The rows at the given offsets, one after the other. -/
def printRowsFromOpenFile (schema : TableSchema) (file : CFile) (selected : List Nat) :
    List Int → Exec Disk Unit
  | [] => pure ()
  | offset :: offsets => do
    printRowFromOpenFile schema file offset selected
    printRowsFromOpenFile schema file selected offsets

/-- What `storage_print_row_at_offset` and `storage_print_rows_at_offsets` do for at least one
offset after they have printed the header. -/
def printRowsAtOffsets (config : AppConfig) (schema : TableSchema) (offsets : List Int)
    (selected : List Nat) : Exec Disk Unit := do
  let disk ← Exec.get
  match disk.files (tablePath config schema.tableName) with
  | none => Exec.fail (fileError "데이터 파일을 열 수 없습니다.")
  | some content =>
    match fgets maxCsvRowLen (.start content) with
    | none => Exec.fail (fileError "CSV 헤더를 읽을 수 없습니다.")
    | some (line, file) => do
      let fits := validateLineLength line maxCsvRowLen file
      Exec.lift (checkHeader csvMessages schema fits line)
      printRowsFromOpenFile schema file selected offsets

/-- `storage_print_row_at_offset`; a negative offset stands for no row. -/
def storagePrintRowAtOffset (config : AppConfig) (schema : TableSchema) (offset : Int)
    (selected : List Nat) : Exec Disk Unit := do
  printSelectedHeader schema selected
  if offset < 0 then pure ()
  else printRowsAtOffsets config schema [offset] selected

/-- `storage_print_rows_at_offsets`. -/
def storagePrintRowsAtOffsets (config : AppConfig) (schema : TableSchema) (offsets : List Int)
    (selected : List Nat) : Exec Disk Unit := do
  printSelectedHeader schema selected
  if offsets.length = 0 then pure ()
  else printRowsAtOffsets config schema offsets selected

/-- The type of a column; a cell of the array past the last column is zeroed. -/
def columnType (schema : TableSchema) (i : Nat) : DataType :=
  match schema.columns[i]? with
  | some column => column.type
  | none => .int

/-- `csv_value_matches_where`: whether the row matches, or nothing when it returns 0. -/
def csvValueMatchesWhere (schema : TableSchema) (values : List Bytes) (whereColumnIndex : Nat)
    (whereOperator : WhereOperator) (whereValue : LiteralValue) : Option Bool :=
  let cell := values.getD whereColumnIndex []
  match columnType schema whereColumnIndex with
  | .string =>
    match whereOperator with
    | .equal => some (cell = whereValue.text)
    | .notEqual => some (cell ≠ whereValue.text)
    | _ => none
  | .int =>
    if whereValue.type ≠ .int then none
    else
      match strtolInt cell with
      | none => none
      | some rowValue =>
        match strtolInt whereValue.text with
        | none => none
        | some targetValue =>
          match whereOperator with
          | .equal => some (rowValue = targetValue)
          | .greater => some (rowValue > targetValue)
          | .less => some (rowValue < targetValue)
          | .notEqual => some (rowValue ≠ targetValue)

/-- `storage_print_rows_where_equals`. -/
def storagePrintRowsWhereEquals (config : AppConfig) (schema : TableSchema)
    (selected : List Nat) (whereColumnIndex : Nat) (whereOperator : WhereOperator)
    (whereValue : LiteralValue) : Exec Disk Unit := do
  let disk ← Exec.get
  match disk.files (tablePath config schema.tableName) with
  | none => printSelectedHeader schema selected
  | some content =>
    match fgets maxCsvRowLen (.start content) with
    | none => printSelectedHeader schema selected
    | some (line, file) => do
      let fits := validateLineLength line maxCsvRowLen file
      Exec.lift (checkHeader csvMessages schema fits line)
      printSelectedHeader schema selected
      let visit := fun (_ : Int) values ↦
        match csvValueMatchesWhere schema values whereColumnIndex whereOperator whereValue with
        | none => Exec.fail (fileError "CSV 조건 값을 비교할 수 없습니다.")
        | some false => pure true
        | some true => do
          printLine (selectedText values selected)
          pure true
      forEachRow schema visit content.length file

/-- What the loop of `storage_find_max_int_value` carries. -/
structure MaxState where
  maxValue : Int
  foundValue : Bool

/-- The body of the loop of `storage_find_max_int_value` for one row. -/
def maxVisit (columnIndex : Nat) (_ : Int) (values : List Bytes) : Exec MaxState Bool :=
  match strtolInt (values.getD columnIndex []) with
  | none => Exec.fail (fileError "CSV 정수 값을 읽을 수 없습니다.")
  | some parsedValue => do
    Exec.modify fun state ↦
      if !state.foundValue || parsedValue > state.maxValue then ⟨parsedValue, true⟩ else state
    pure true

/-- `storage_find_max_int_value`. -/
def storageFindMaxIntValue (config : AppConfig) (schema : TableSchema) (columnIndex : Nat) :
    Exec Disk Int := do
  let disk ← Exec.get
  match disk.files (tablePath config schema.tableName) with
  | none => pure 0
  | some content =>
    match fgets maxCsvRowLen (.start content) with
    | none => pure 0
    | some (line, file) => do
      let fits := validateLineLength line maxCsvRowLen file
      Exec.lift (checkHeader csvMessages schema fits line)
      match forEachRow schema (maxVisit columnIndex) content.length file ⟨0, false⟩ with
      | (.error e, _) => Exec.fail e
      | (.ok (), state) => pure state.maxValue

/-- The body of the loop of `storage_int_value_exists` for one row; the state is `*exists`. -/
def existsVisit (columnIndex : Nat) (targetValue : Int) (_ : Int) (values : List Bytes) :
    Exec Bool Bool :=
  match strtolInt (values.getD columnIndex []) with
  | none => Exec.fail (fileError "CSV 정수 값을 읽을 수 없습니다.")
  | some parsedValue =>
    if parsedValue = targetValue then do
      Exec.modify fun _ ↦ true
      pure false
    else pure true

/-- `storage_int_value_exists`. -/
def storageIntValueExists (config : AppConfig) (schema : TableSchema) (columnIndex : Nat)
    (targetValue : Int) : Exec Disk Bool := do
  let disk ← Exec.get
  match disk.files (tablePath config schema.tableName) with
  | none => pure false
  | some content =>
    match fgets maxCsvRowLen (.start content) with
    | none => pure false
    | some (line, file) => do
      let fits := validateLineLength line maxCsvRowLen file
      Exec.lift (checkHeader csvMessages schema fits line)
      match forEachRow schema (existsVisit columnIndex targetValue) content.length file false with
      | (.error e, _) => Exec.fail e
      | (.ok (), found) => pure found

/-- What the loop of `storage_rebuild_pk_index` carries. -/
structure RebuildState where
  index : PkIndex
  maxValue : Int
  foundValue : Bool

/-- The body of the loop of `storage_rebuild_pk_index` for one row. -/
def rebuildVisit (primaryKeyIndex : Nat) (rowOffset : Int) (values : List Bytes) :
    Exec RebuildState Bool := do
  let state ← Exec.get
  match strtolInt (values.getD primaryKeyIndex []) with
  | none => Exec.fail (fileError "CSV 정수 값을 읽을 수 없습니다.")
  | some parsedValue =>
    if (state.index.search parsedValue).isSome then
      Exec.fail (fileError "CSV에 중복 PK 값이 있어 인덱스를 만들 수 없습니다.")
    else
      let (index, inserted) := state.index.insert parsedValue rowOffset
      if !inserted then Exec.fail (fileError "PK 인덱스를 만들 수 없습니다.")
      else do
        Exec.modify fun state ↦
          if !state.foundValue || parsedValue > state.maxValue then ⟨index, parsedValue, true⟩
          else { state with index := index }
        pure true

/-- `storage_rebuild_pk_index`: the index and `max_value`. -/
def storageRebuildPkIndex (config : AppConfig) (schema : TableSchema) (index : PkIndex) :
    Exec Disk (PkIndex × Int) := do
  match schema.primaryKeyIndex with
  | none => pure (index, 0)
  | some primaryKeyIndex =>
    let disk ← Exec.get
    match disk.files (tablePath config schema.tableName) with
    | none => pure (index, 0)
    | some content =>
      match fgets maxCsvRowLen (.start content) with
      | none => pure (index, 0)
      | some (line, file) => do
        let fits := validateLineLength line maxCsvRowLen file
        Exec.lift (checkHeader csvMessages schema fits line)
        match forEachRow schema (rebuildVisit primaryKeyIndex) content.length file
            ⟨index, 0, false⟩ with
        | (.error e, _) => Exec.fail e
        | (.ok (), state) => pure (state.index, state.maxValue)

end SqlProc.Storage
