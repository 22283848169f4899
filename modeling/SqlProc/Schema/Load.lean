import SqlProc.Base.Exec
import SqlProc.Base.File
import SqlProc.Base.Limits

/-!
# The schema loader

Library `Schema`. Models `src/schema.c`: the first line of `<table>.schema`, comma-separated
entries `name:type`, becomes a `TableSchema`.
-/

namespace SqlProc.Schema

open Base

/-- `DataType`. -/
inductive DataType where
  | int
  | string
  deriving DecidableEq, Repr

/-- `ColumnSchema`. -/
structure ColumnSchema where
  name : Bytes
  type : DataType
  deriving DecidableEq, Repr

/-- `TableSchema`; `column_count` is the length of `columns`, and an absent
`primary_key_index` is `-1`. -/
structure TableSchema where
  tableName : Bytes
  primaryKeyIndex : Option Nat
  columns : List ColumnSchema
  deriving DecidableEq, Repr

/-- `column_count`. -/
abbrev TableSchema.columnCount (schema : TableSchema) : Nat := schema.columns.length

/-- The files of the process, by path. -/
abbrev Files := Bytes → Option Bytes

/-- `to_lowercase_copy`. -/
def toLowercaseCopy (destSize : Nat) (src : Bytes) : Bytes := (src.take (destSize - 1)).map tolower

/-- `parse_data_type`. -/
def parseDataType (s : Bytes) : Option DataType :=
  if s = text "int" then some .int
  else if s = text "string" then some .string
  else none

/-- `has_duplicate_column_name`. -/
def hasDuplicateColumnName (schema : TableSchema) (name : Bytes) : Bool :=
  schema.columns.any (·.name = name)

/-- The body of the loop of `load_table_schema` after an entry is cut off at its comma. -/
def addEntry (schema : TableSchema) (entry : Bytes) : Except ErrorInfo TableSchema :=
  if colon ∉ entry then .error (fileError "스키마 형식이 잘못되었습니다.")
  else
    let name := entry.takeWhile (· ≠ colon)
    let type := (entry.dropWhile (· ≠ colon)).drop 1
    if name.length ≥ maxNameLen then .error (fileError "스키마 컬럼 이름이 너무 깁니다.")
    else
      let lowerName := toLowercaseCopy maxNameLen name
      let lowerType := toLowercaseCopy maxNameLen type
      if lowerName = [] then .error (fileError "스키마 컬럼 이름이 비어 있습니다.")
      else if hasDuplicateColumnName schema lowerName then
        .error (fileError "스키마 컬럼 이름이 중복됩니다.")
      else
        match parseDataType lowerType with
        | none => .error (fileError "지원하지 않는 스키마 타입입니다.")
        | some dataType =>
          .ok { schema with
            primaryKeyIndex :=
              if lowerName = text "id" ∧ dataType = .int then some schema.columnCount
              else schema.primaryKeyIndex
            columns := schema.columns ++ [⟨lowerName, dataType⟩] }

/-- The loop of `load_table_schema`; the first argument bounds the length of the cursor. -/
def readEntries : Nat → Bytes → TableSchema → Except ErrorInfo TableSchema
  | 0, _, schema => .ok schema
  | fuel + 1, cursor, schema =>
    if cursor = [] then .ok schema
    else if schema.columnCount ≥ maxColumns then
      .error (fileError "스키마 컬럼 수가 최대 개수를 넘었습니다.")
    else
      match addEntry schema (cursor.takeWhile (· ≠ comma)) with
      | .error e => .error e
      | .ok schema => readEntries fuel ((cursor.dropWhile (· ≠ comma)).drop 1) schema

/-- The path of a schema file. -/
def schemaPath (schemaDir tableName : Bytes) : Bytes :=
  snprintfStr 512 (schemaDir ++ text "/" ++ tableName ++ text ".schema")

/-- `load_table_schema` on a first line. -/
def parseSchemaLine (tableName line : Bytes) : Except ErrorInfo TableSchema :=
  let line := line.takeWhile fun c ↦ c ≠ cr && c ≠ lf
  match readEntries line.length line ⟨snprintfStr maxNameLen tableName, none, []⟩ with
  | .error e => .error e
  | .ok schema =>
    if schema.columnCount = 0 then .error (fileError "스키마에 컬럼이 없습니다.")
    else .ok schema

/-- `load_table_schema`. -/
def loadTableSchema (files : Files) (schemaDir tableName : Bytes) :
    Except ErrorInfo TableSchema :=
  match files (schemaPath schemaDir tableName) with
  | none => .error (fileError "스키마 파일을 열 수 없습니다.")
  | some content =>
    match fgets maxSchemaLineLen (.start content) with
    | none => .error (fileError "스키마 파일이 비어 있습니다.")
    | some (line, _) => parseSchemaLine tableName line

/-! ### What the loader accepts -/

/-- A column name as the loader stores it. -/
structure ValidName (name : Bytes) : Prop where
  ne_nil : name ≠ []
  length_lt : name.length < maxNameLen
  oneLine : OneLine name
  comma_notMem : comma ∉ name

/-- A schema with at most `maxColumns` columns, well-formed distinct names, and a primary
key that is the `int` column `id`. -/
structure Valid (schema : TableSchema) : Prop where
  length_le : schema.columnCount ≤ maxColumns
  names : ∀ c ∈ schema.columns, ValidName c.name
  nodup : (schema.columns.map ColumnSchema.name).Nodup
  primaryKey : ∀ i, schema.primaryKeyIndex = some i →
    schema.columns[i]? = some ⟨text "id", .int⟩

private theorem mem_map_tolower {s : Bytes} {d : UInt8}
    (hd : d ∈ [nul, lf, cr, dquote, comma, colon]) : d ∈ s.map tolower ↔ d ∈ s := by
  simp only [List.mem_map, tolower_eq_iff_of_mem hd, exists_eq_right]

/-- The lower-cased name of an entry is well formed when it is not empty. -/
private theorem validName_lower {name : Bytes} (hc : OneLine name) (hcomma : comma ∉ name)
    (hlen : name.length < maxNameLen) (hne : toLowercaseCopy maxNameLen name ≠ []) :
    ValidName (toLowercaseCopy maxNameLen name) := by
  have ht : toLowercaseCopy maxNameLen name = name.map tolower := by
    rw [toLowercaseCopy, List.take_of_length_le (by omega)]
  rw [ht] at hne ⊢
  refine ⟨hne, by rw [List.length_map]; exact hlen, ⟨?_, ?_, ?_⟩, ?_⟩
  · rw [mem_map_tolower (by simp)]
    exact hc.nul_notMem
  · rw [mem_map_tolower (by simp)]
    exact hc.lf_notMem
  · rw [mem_map_tolower (by simp)]
    exact hc.cr_notMem
  · rw [mem_map_tolower (by simp)]
    exact hcomma

theorem addEntry_valid {schema schema' : TableSchema} {entry : Bytes} (hv : Valid schema)
    (hc : OneLine entry) (hcomma : comma ∉ entry) (hl : schema.columnCount < maxColumns)
    (h : addEntry schema entry = .ok schema') : Valid schema' := by
  have hsub : entry.takeWhile (· ≠ colon) ⊆ entry := (List.takeWhile_prefix _).subset
  simp only [addEntry] at h
  split at h
  · cases h
  · split at h
    · cases h
    · next hlen =>
      split at h
      · cases h
      · next hne =>
        split at h
        · cases h
        · next hdup =>
          split at h
          · cases h
          · next dataType htype =>
            obtain rfl := Except.ok.inj h
            have hname := validName_lower (hc.mono hsub) (fun hm ↦ hcomma (hsub hm))
              (Nat.lt_of_not_le hlen) hne
            have hnew : ∀ c ∈ schema.columns,
                c.name ≠ toLowercaseCopy maxNameLen (entry.takeWhile (· ≠ colon)) := by
              simpa [hasDuplicateColumnName] using hdup
            refine ⟨?_, ?_, ?_, ?_⟩
            · simp only [TableSchema.columnCount, List.length_append, List.length_singleton]
              exact hl
            · intro c hm
              rcases List.mem_append.mp hm with hm | hm
              · exact hv.names c hm
              · rw [List.mem_singleton.mp hm]
                exact hname
            · rw [List.map_append, List.nodup_append]
              refine ⟨hv.nodup, List.pairwise_singleton _ _, ?_⟩
              rintro a ha b hb rfl
              obtain ⟨c, hm, rfl⟩ := List.mem_map.mp ha
              exact hnew c hm (by simpa using hb)
            · intro i hi
              simp only at hi
              split at hi
              · next hid =>
                obtain rfl := Option.some.inj hi
                rw [List.getElem?_append_right (Nat.le_refl _), hid.1, hid.2]
                simp
              · have := hv.primaryKey i hi
                rw [List.getElem?_append_left (List.getElem?_eq_some_iff.mp this).1]
                exact this

theorem readEntries_valid {fuel : Nat} {cursor : Bytes} {schema schema' : TableSchema}
    (hv : Valid schema) (hc : OneLine cursor) (h : readEntries fuel cursor schema = .ok schema') :
    Valid schema' := by
  induction fuel generalizing cursor schema with
  | zero =>
    obtain rfl := Except.ok.inj h
    exact hv
  | succ fuel ih =>
    rw [readEntries] at h
    split at h
    · obtain rfl := Except.ok.inj h
      exact hv
    · split at h
      · cases h
      · next hl =>
        have hentry : cursor.takeWhile (· ≠ comma) ⊆ cursor := (List.takeWhile_prefix _).subset
        have hcomma : comma ∉ cursor.takeWhile (· ≠ comma) := by
          intro hm
          simpa using List.mem_takeWhile_imp hm
        split at h
        · cases h
        · next schema₁ hadd =>
          refine ih (addEntry_valid hv (hc.mono hentry) hcomma (Nat.lt_of_not_le hl) hadd)
            (hc.mono ?_) h
          exact List.Subset.trans (List.drop_subset _ _) (List.dropWhile_suffix _).subset

theorem addEntry_tableName {schema schema' : TableSchema} {entry : Bytes}
    (h : addEntry schema entry = .ok schema') : schema'.tableName = schema.tableName := by
  simp only [addEntry] at h
  split at h
  · cases h
  · split at h
    · cases h
    · split at h
      · cases h
      · split at h
        · cases h
        · split at h
          · cases h
          · obtain rfl := Except.ok.inj h
            rfl

theorem readEntries_tableName {fuel : Nat} {cursor : Bytes} {schema schema' : TableSchema}
    (h : readEntries fuel cursor schema = .ok schema') : schema'.tableName = schema.tableName := by
  induction fuel generalizing cursor schema with
  | zero =>
    obtain rfl := Except.ok.inj h
    rfl
  | succ fuel ih =>
    rw [readEntries] at h
    split at h
    · obtain rfl := Except.ok.inj h
      rfl
    · split at h
      · cases h
      · split at h
        · cases h
        · next hadd => exact (ih h).trans (addEntry_tableName hadd)

/-- The name in a loaded schema is what fits of the table's name. -/
theorem loadTableSchema_tableName {files : Files} {schemaDir tableName : Bytes}
    {schema : TableSchema} (h : loadTableSchema files schemaDir tableName = .ok schema) :
    schema.tableName = snprintfStr maxNameLen tableName := by
  simp only [loadTableSchema] at h
  split at h
  · cases h
  · split at h
    · cases h
    · simp only [parseSchemaLine] at h
      split at h
      · cases h
      · next schema₁ hread =>
        split at h
        · cases h
        · obtain rfl := Except.ok.inj h
          exact readEntries_tableName hread

/-- A name that the loader keeps fits its buffer. -/
theorem length_tableName_of_loadTableSchema {files : Files} {schemaDir : Bytes}
    {schema : TableSchema} (h : loadTableSchema files schemaDir schema.tableName = .ok schema) :
    schema.tableName.length < maxNameLen := by
  rw [loadTableSchema_tableName h]
  exact length_snprintfStr_lt (by decide) _

/-- The loader reads the schema file only. -/
theorem loadTableSchema_congr {files files' : Files} {schemaDir tableName : Bytes}
    (h : files' (schemaPath schemaDir tableName) = files (schemaPath schemaDir tableName)) :
    loadTableSchema files' schemaDir tableName = loadTableSchema files schemaDir tableName := by
  simp only [loadTableSchema, h]

/-- Every schema that the loader accepts is well formed. -/
theorem loadTableSchema_valid {files : Files} {schemaDir tableName : Bytes}
    {schema : TableSchema} (h : loadTableSchema files schemaDir tableName = .ok schema) :
    Valid schema ∧ schema.columns ≠ [] := by
  simp only [loadTableSchema] at h
  split at h
  · cases h
  · next content _ =>
    split at h
    · cases h
    · next line file hline =>
      simp only [parseSchemaLine] at h
      split at h
      · cases h
      · next schema₁ hread =>
        split at h
        · cases h
        · next hne =>
          obtain rfl := Except.ok.inj h
          have hempty : Valid ⟨snprintfStr maxNameLen tableName, none, []⟩ :=
            ⟨Nat.zero_le _, by simp, List.Pairwise.nil, by simp⟩
          refine ⟨readEntries_valid hempty ⟨?_, ?_, ?_⟩ hread, ?_⟩
          · exact fun hm ↦ nul_notMem_of_fgets hline ((List.takeWhile_prefix _).subset hm)
          · intro hm
            simpa using List.mem_takeWhile_imp hm
          · intro hm
            simpa using List.mem_takeWhile_imp hm
          · rintro hnil
            exact hne (by rw [TableSchema.columnCount, hnil]; rfl)

end SqlProc.Schema
