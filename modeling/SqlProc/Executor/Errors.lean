import SqlProc.Executor.Insert

/-!
# The error of a duplicate id

Library `Executor`. Only the uniqueness check reports that an id is there already; every
other error on the way of an INSERT has another message.
-/

namespace SqlProc.Executor

open Base Front Index Schema Storage Support

/-- The error of `validate_primary_key_unique`. -/
def duplicateKeyError : ErrorInfo := runtimeError "PK 값이 이미 존재합니다." noLocation

/-- An error with another message. -/
def NotDuplicate (e : ErrorInfo) : Prop := e.message ≠ duplicateKeyError.message

variable {config : AppConfig} {schema : TableSchema} {w : World} {slot : TableRuntimeState}

/-- The messages about a header are different from it. -/
structure HeaderMessages.NotDuplicate (messages : HeaderMessages) : Prop where
  tooLong : messages.tooLong ≠ duplicateKeyError.message
  badFormat : messages.badFormat ≠ duplicateKeyError.message
  badCount : messages.badCount ≠ duplicateKeyError.message
  badOrder : messages.badOrder ≠ duplicateKeyError.message

theorem notDuplicate_dataFileMessages : HeaderMessages.NotDuplicate dataFileMessages :=
  ⟨by decide, by decide, by decide, by decide⟩

theorem notDuplicate_csvMessages : HeaderMessages.NotDuplicate csvMessages :=
  ⟨by decide, by decide, by decide, by decide⟩

theorem notDuplicate_checkHeader {messages : HeaderMessages}
    (hm : HeaderMessages.NotDuplicate messages) {fits : Bool} {line : Bytes} {e : ErrorInfo}
    (h : checkHeader messages schema fits line = .error e) : NotDuplicate e := by
  unfold checkHeader at h
  split at h
  · cases h
    exact hm.tooLong
  · split at h
    · cases h
      exact hm.badFormat
    · unfold validateHeaderValues at h
      split at h
      · cases h
        exact hm.badCount
      · split at h
        · cases h
          exact hm.badOrder
        · cases h

theorem notDuplicate_readRow {fits : Bool} {line : Bytes} {e : ErrorInfo}
    (h : readRow schema fits line = .error e) : NotDuplicate e := by
  unfold readRow at h
  split at h
  · cases h
    change "CSV 행이 너무 깁니다." ≠ "PK 값이 이미 존재합니다."
    decide
  · split at h
    · cases h
      change "CSV 행을 읽는 중 오류가 발생했습니다." ≠ "PK 값이 이미 존재합니다."
      decide
    · split at h
      · cases h
        change "CSV 컬럼 수가 스키마와 맞지 않습니다." ≠ "PK 값이 이미 존재합니다."
        decide
      · cases h

theorem raises_forEachRow {σ : Type} {P : ErrorInfo → Prop}
    {visit : Int → List Bytes → Exec σ Bool} (hr : ∀ fits line e,
      readRow schema fits line = .error e → P e)
    (hv : ∀ offset values, (visit offset values).Raises P) (fuel : Nat) (file : CFile) :
    (forEachRow schema visit fuel file).Raises P := by
  induction fuel generalizing file with
  | zero => exact Exec.raises_pure ()
  | succ fuel ih =>
    rw [forEachRow]
    cases fgets maxCsvRowLen file with
    | none => exact Exec.raises_pure ()
    | some p =>
      refine Exec.raises_bind (Exec.raises_lift fun e he ↦ hr _ _ e he) fun values ↦ ?_
      refine Exec.raises_bind (hv _ values) fun goOn ↦ ?_
      cases goOn with
      | true => exact ih p.2
      | false => exact Exec.raises_pure ()

theorem raises_rebuildVisit (primaryKeyIndex : Nat) (offset : Int) (values : List Bytes) :
    (rebuildVisit primaryKeyIndex offset values).Raises NotDuplicate := by
  refine Exec.raises_bind Exec.raises_get fun state ↦ ?_
  cases strtolInt (values.getD primaryKeyIndex []) with
  | none => exact Exec.raises_fail (by rw [NotDuplicate]; decide)
  | some key =>
    simp only
    split
    · exact Exec.raises_fail (by rw [NotDuplicate]; decide)
    · split
      · exact Exec.raises_fail (by rw [NotDuplicate]; decide)
      · exact Exec.raises_bind (Exec.raises_modify _) fun _ ↦ Exec.raises_pure _

theorem raises_storageRebuildPkIndex (index : PkIndex) :
    (storageRebuildPkIndex config schema index).Raises NotDuplicate := by
  unfold storageRebuildPkIndex
  cases schema.primaryKeyIndex with
  | none => exact Exec.raises_pure _
  | some primaryKeyIndex =>
    refine Exec.raises_bind Exec.raises_get fun disk ↦ ?_
    cases disk.files (tablePath config schema.tableName) with
    | none => exact Exec.raises_pure _
    | some content =>
      simp only
      cases fgets maxCsvRowLen (.start content) with
      | none => exact Exec.raises_pure _
      | some p =>
        refine Exec.raises_bind (Exec.raises_lift fun e he ↦
          notDuplicate_checkHeader notDuplicate_csvMessages he) fun _ ↦ ?_
        have hread : ∀ fits line e, readRow schema fits line = .error e → NotDuplicate e :=
          fun _ _ _ ↦ notDuplicate_readRow
        have hscan := raises_forEachRow hread
          (raises_rebuildVisit primaryKeyIndex) content.length p.2 ⟨index, 0, false⟩
        cases hrun : forEachRow schema (rebuildVisit primaryKeyIndex) content.length p.2
            ⟨index, 0, false⟩ with
        | mk r state =>
          rw [hrun] at hscan
          cases r with
          | error e => exact Exec.raises_fail (hscan e rfl)
          | ok u => exact Exec.raises_pure _

theorem raises_getTableStateIndex :
    (getTableStateIndex config schema).Raises NotDuplicate := by
  refine Exec.raises_bind Exec.raises_get fun w ↦ ?_
  cases findTableState config schema w.tableStates with
  | some i => exact Exec.raises_pure i
  | none =>
    refine Exec.raises_bind ?_ fun p ↦ ?_
    · unfold buildIndex
      cases schema.primaryKeyIndex with
      | none => exact Exec.raises_pure _
      | some primaryKeyIndex =>
        refine Exec.raises_bind (Exec.raises_zoom (raises_storageRebuildPkIndex _)) fun p ↦ ?_
        exact Exec.raises_pure _
    · simp only
      split
      · exact Exec.raises_fail (by rw [NotDuplicate]; decide)
      · refine Exec.raises_bind Exec.raises_get fun w ↦ ?_
        split
        · exact Exec.raises_bind (Exec.raises_modify _) fun _ ↦ Exec.raises_pure _
        · exact Exec.raises_fail (by rw [NotDuplicate]; decide)

theorem raises_storageAppendRow (row : List Bytes) :
    (storageAppendRow config schema row).Raises NotDuplicate := by
  refine Exec.raises_bind ?_ fun _ ↦ ?_
  · refine Exec.raises_bind Exec.raises_get fun disk ↦ ?_
    cases disk.files (tablePath config schema.tableName) with
    | none => exact Exec.raises_modify _
    | some content =>
      simp only
      cases fgets maxCsvRowLen (.start content) with
      | none =>
        apply Exec.raises_fail
        change "기존 데이터 파일 헤더를 읽을 수 없습니다." ≠ "PK 값이 이미 존재합니다."
        decide
      | some p =>
        exact Exec.raises_lift fun e he ↦
          notDuplicate_checkHeader notDuplicate_dataFileMessages he
  · refine Exec.raises_bind Exec.raises_get fun disk ↦ ?_
    exact Exec.raises_bind (Exec.raises_modify _) fun _ ↦ Exec.raises_pure _

theorem notDuplicate_checkInsertValue {dataType : DataType} {value : LiteralValue} {e : ErrorInfo}
    (h : checkInsertValue dataType value = .error e) : NotDuplicate e := by
  unfold checkInsertValue at h
  split at h
  · cases h
    change "INSERT 값 타입이 스키마와 맞지 않습니다." ≠ "PK 값이 이미 존재합니다."
    decide
  · split at h
    · cases h
      change "정수 값이 int 범위를 벗어났습니다." ≠ "PK 값이 이미 존재합니다."
      decide
    · split at h
      · cases h
        change "문자열 값이 CSV에서 수식으로 해석될 수 없습니다." ≠ "PK 값이 이미 존재합니다."
        decide
      · cases h

theorem notDuplicate_copyValues {columns : List ColumnSchema} {values : List LiteralValue}
    {e : ErrorInfo} (h : copyValues columns values = .error e) : NotDuplicate e := by
  induction columns generalizing values e with
  | nil => cases h
  | cons column columns ih =>
    rw [copyValues] at h
    cases hc : checkInsertValue column.type (values.headD .zero) with
    | error e' =>
      rw [hc] at h
      cases h
      exact notDuplicate_checkInsertValue hc
    | ok u =>
      cases hr : copyValues columns values.tail with
      | error e' =>
        rw [hc, hr] at h
        cases h
        exact ih hr
      | ok rest =>
        rw [hc, hr] at h
        cases h

theorem notDuplicate_placeValues {columns : List ColumnName} {values : List LiteralValue}
    {cells : List (Option Bytes)} {e : ErrorInfo}
    (h : placeValues schema columns values cells = .error e) : NotDuplicate e := by
  induction columns generalizing values cells with
  | nil => cases h
  | cons column columns ih =>
    rw [placeValues] at h
    cases hf : findSchemaColumn schema column.name with
    | none =>
      rw [hf] at h
      cases h
      change "INSERT 대상 컬럼이 스키마에 없습니다." ≠ "PK 값이 이미 존재합니다."
      decide
    | some i =>
      simp only [hf] at h
      split at h
      · cases h
        change "같은 컬럼이 INSERT 문에 두 번 들어왔습니다." ≠ "PK 값이 이미 존재합니다."
        decide
      · cases hcheck : checkInsertValue (columnType schema i) (values.headD .zero) with
        | error e' =>
          rw [hcheck] at h
          cases h
          exact notDuplicate_checkInsertValue hcheck
        | ok u =>
          rw [hcheck] at h
          exact ih h

theorem notDuplicate_rowCells {statement : InsertStatement} {e : ErrorInfo}
    (h : rowCells schema statement = .error e) : NotDuplicate e := by
  unfold rowCells at h
  split at h
  · split at h
    · cases h
      change "VALUES 값 수가 스키마 컬럼 수와 일치하지 않습니다." ≠ "PK 값이 이미 존재합니다."
      decide
    · cases hc : copyValues schema.columns statement.values with
      | error e' =>
        rw [hc] at h
        cases h
        exact notDuplicate_copyValues hc
      | ok texts =>
        rw [hc] at h
        cases h
  · exact notDuplicate_placeValues h

theorem raises_fillCells (location : SourceLocation) (i : Nat) (cells : List (Option Bytes)) :
    (fillCells config schema location i cells).Raises NotDuplicate := by
  induction cells generalizing i with
  | nil => exact Exec.raises_pure _
  | cons cell cells ih =>
    cases cell with
    | some cell => exact Exec.raises_bind (ih (i + 1)) fun _ ↦ Exec.raises_pure _
    | none =>
      rw [fillCells]
      split
      · refine Exec.raises_bind ?_ fun _ ↦ ?_
        · refine Exec.raises_bind raises_getTableStateIndex fun i ↦ ?_
          refine Exec.raises_bind Exec.raises_get fun w ↦ ?_
          simp only
          split
          · exact Exec.raises_fail (by rw [NotDuplicate]; decide)
          · exact Exec.raises_bind (Exec.raises_modify _) fun _ ↦ Exec.raises_pure _
        · exact Exec.raises_bind (ih (i + 1)) fun _ ↦ Exec.raises_pure _
      · apply Exec.raises_fail
        change "INSERT 문에 스키마의 모든 컬럼 값이 필요합니다." ≠ "PK 값이 이미 존재합니다."
        decide

/-- Storing a row whose id is not in the index does not report a duplicate. -/
theorem notDuplicate_storeRow {primaryKeyIndex : Nat} {row : List Bytes} {key : Int}
    {index : PkIndex} (hp : schema.primaryKeyIndex = some primaryKeyIndex)
    (hs : obtainSlot config schema w = some slot) (hi : slot.pkIndex = some index)
    (hid : rowId primaryKeyIndex row = some key) (hk : findEntry key index.entries = none)
    {e : ErrorInfo} (h : (storeRow config schema row w).1 = .error e) : NotDuplicate e := by
  by_cases happ : Appendable schema (w.file config schema.tableName)
  · rw [storeRow_stored hp hs hi hid hk happ] at h
    cases h
  · have hvalid := validatePrimaryKeyUnique_apply hs hi key
    rw [hk, Option.isSome_none, if_neg Bool.false_ne_true] at hvalid
    have happ' : ¬ Appendable schema
        ((opened config schema w).disk.files (tablePath config schema.tableName)) := by
      rw [opened_disk]
      exact happ
    obtain ⟨e', he⟩ := storageAppendRow_of_not_appendable happ' row
    have hraise := raises_storageAppendRow row
      (opened config schema w).disk e' (by rw [he])
    unfold rowId at hid
    simp only [storeRow, hp] at h
    rw [Exec.bind_ok (by rw [Exec.lift_apply, parseRowPrimaryKey, hid]), Exec.bind_ok hvalid,
      Exec.bind_error (onDisk_error he)] at h
    cases h
    exact hraise

/-- An INSERT that leaves the id to the program does not report a duplicate. -/
theorem notDuplicate_executeInsert {primaryKeyIndex : Nat} {statement : InsertStatement}
    (hp : schema.primaryKeyIndex = some primaryKeyIndex)
    (hschema : loadTableSchema w.disk.files config.schemaDir statement.tableName = .ok schema)
    (hw : ∀ slot, w.slot config schema.tableName = some slot → NextIdOk slot)
    (hid : ∀ cells, rowCells schema statement = .ok cells → cells[primaryKeyIndex]? = some none)
    {e : ErrorInfo} (h : (executeInsert config statement w).1 = .error e) : NotDuplicate e := by
  rw [executeInsert_apply hschema, Exec.bind_apply, buildInsertRowValues_apply] at h
  cases hc : rowCells schema statement with
  | error e' =>
    rw [hc] at h
    cases h
    exact notDuplicate_rowCells hc
  | ok cells =>
    have hraise : ∀ e, (fillCells config schema statement.tableLocation 0 cells w).1 = .error e →
        NotDuplicate e := raises_fillCells statement.tableLocation 0 cells w
    have hfill := fillCells_outcome config schema statement.tableLocation cells w
    simp only [hc] at h
    generalize fillCells config schema statement.tableLocation 0 cells w = out at h hfill hraise
    obtain ⟨r, w'⟩ := out
    cases hfill with
    | complete texts hcells =>
      have hnone := hid cells hc
      rw [hcells] at hnone
      exact absurd hnone (getElem?_map_some_ne texts primaryKeyIndex)
    | failed e' =>
      cases h
      exact hraise _ rfl
    | exhausted e' slot hs hm =>
      cases h
      exact hraise _ rfl
    | burned e' slot before after hcells hp' hn hs hm =>
      cases h
      exact hraise _ rfl
    | assigned slot before after hcells hp' hs hm =>
      obtain rfl := Option.some.inj (hp'.symm.trans hp)
      have hok := nextIdOk_obtainSlot hp hw hs
      obtain ⟨index, hi, -⟩ := hok.index
      exact notDuplicate_storeRow hp (obtainSlot_of_slot (slot_taken hs)) hi
        (rowId_assigned hok.range.1 hok.range.2) (hok.findEntry_eq_none hi hm) h

end SqlProc.Executor
