import SqlProc.Base.Errors
import SqlProc.Executor.Errors
import SqlProc.Front.Places

/-!
# Places of errors

Library `Executor`. Every error of the schema loader, of the storage and of the executor has a
message. The first two know no place; the executor reports the place of a name or of a literal
of the statement, or none.
-/

namespace SqlProc.Executor

open Base Front Index Schema Storage

variable {place : Int → Int → Prop} {config : AppConfig} {schema : TableSchema}

/-! ### The schema loader -/

section NoPlace

variable (h0 : place 0 0)

include h0

theorem explained_fileError {message : String} (h : message ≠ "") :
    Explained place (fileError message) := ⟨h, h0⟩

theorem explained_noLocation {message : String} (h : message ≠ "") :
    Explained place (runtimeError message noLocation) := ⟨h, h0⟩

theorem fails_addEntry (entry : Bytes) : Fails (Explained place) (addEntry schema entry) := by
  unfold addEntry
  split
  · exact fails_error (explained_fileError h0 (by decide))
  · simp only
    split
    · exact fails_error (explained_fileError h0 (by decide))
    · split
      · exact fails_error (explained_fileError h0 (by decide))
      · split
        · exact fails_error (explained_fileError h0 (by decide))
        · split
          · exact fails_error (explained_fileError h0 (by decide))
          · exact fails_ok _

theorem fails_readEntries (fuel : Nat) (cursor : Bytes) :
    Fails (Explained place) (readEntries fuel cursor schema) := by
  induction fuel generalizing cursor schema with
  | zero => exact fails_ok _
  | succ fuel ih =>
    rw [readEntries]
    split
    · exact fails_ok _
    · split
      · exact fails_error (explained_fileError h0 (by decide))
      · split
        · next e he => exact fails_error (fails_addEntry h0 _ e he)
        · exact ih _

theorem fails_loadTableSchema (files : Files) (schemaDir tableName : Bytes) :
    Fails (Explained place) (loadTableSchema files schemaDir tableName) := by
  unfold loadTableSchema
  split
  · exact fails_error (explained_fileError h0 (by decide))
  · split
    · exact fails_error (explained_fileError h0 (by decide))
    · unfold parseSchemaLine
      simp only
      split
      · next e he => exact fails_error (fails_readEntries h0 _ _ e he)
      · split
        · exact fails_error (explained_fileError h0 (by decide))
        · exact fails_ok _

/-! ### The storage -/

/-- The messages about a header are there. -/
structure HeaderMessages.Present (messages : HeaderMessages) : Prop where
  tooLong : messages.tooLong ≠ ""
  badFormat : messages.badFormat ≠ ""
  badCount : messages.badCount ≠ ""
  badOrder : messages.badOrder ≠ ""

omit h0 in
theorem present_dataFileMessages : HeaderMessages.Present dataFileMessages :=
  ⟨by decide, by decide, by decide, by decide⟩

omit h0 in
theorem present_csvMessages : HeaderMessages.Present csvMessages :=
  ⟨by decide, by decide, by decide, by decide⟩

theorem fails_checkHeader {messages : HeaderMessages} (hm : HeaderMessages.Present messages)
    (fits : Bool) (line : Bytes) :
    Fails (Explained place) (checkHeader messages schema fits line) := by
  unfold checkHeader
  split
  · exact fails_error (explained_fileError h0 hm.tooLong)
  · split
    · exact fails_error (explained_fileError h0 hm.badFormat)
    · unfold validateHeaderValues
      split
      · exact fails_error (explained_fileError h0 hm.badCount)
      · split
        · exact fails_error (explained_fileError h0 hm.badOrder)
        · exact fails_ok _

theorem fails_readRow (fits : Bool) (line : Bytes) :
    Fails (Explained place) (readRow schema fits line) := by
  unfold readRow
  split
  · exact fails_error (explained_fileError h0 (by decide))
  · split
    · exact fails_error (explained_fileError h0 (by decide))
    · split
      · exact fails_error (explained_fileError h0 (by decide))
      · exact fails_ok _

/-- A scan explains its errors when what it does with a row does. -/
theorem explains_forEachRow {σ : Type} {visit : Int → List Bytes → Exec σ Bool}
    (hv : ∀ offset values, (visit offset values).Raises (Explained place)) (fuel : Nat)
    (file : CFile) : (forEachRow schema visit fuel file).Raises (Explained place) :=
  raises_forEachRow (fun fits line ↦ fails_readRow h0 fits line) hv fuel file

theorem explains_storageAppendRow (row : List Bytes) :
    (storageAppendRow config schema row).Raises (Explained place) := by
  refine Exec.raises_bind ?_ fun _ ↦ ?_
  · refine Exec.raises_bind Exec.raises_get fun disk ↦ ?_
    split
    · split
      · exact Exec.raises_fail (explained_fileError h0 (by decide))
      · exact Exec.raises_lift (fails_checkHeader h0 present_dataFileMessages _ _)
    · exact Exec.raises_modify _
  · refine Exec.raises_bind Exec.raises_get fun disk ↦ ?_
    exact Exec.raises_bind (Exec.raises_modify _) fun _ ↦ Exec.raises_pure _

theorem explains_storagePrintRows (selected : List Nat) :
    (storagePrintRows config schema selected).Raises (Explained place) := by
  refine Exec.raises_bind Exec.raises_get fun disk ↦ ?_
  split
  · exact Exec.raises_modify _
  · split
    · exact Exec.raises_pure _
    · refine Exec.raises_bind
        (Exec.raises_lift (fails_checkHeader h0 present_csvMessages _ _)) fun _ ↦ ?_
      refine Exec.raises_bind (Exec.raises_modify _) fun _ ↦ explains_forEachRow h0 ?_ _ _
      exact fun _ _ ↦ Exec.raises_bind (Exec.raises_modify _) fun _ ↦ Exec.raises_pure _

theorem explains_storagePrintRowsWhereEquals (selected : List Nat) (whereColumnIndex : Nat)
    (whereOperator : WhereOperator) (whereValue : LiteralValue) :
    (storagePrintRowsWhereEquals config schema selected whereColumnIndex whereOperator
      whereValue).Raises (Explained place) := by
  refine Exec.raises_bind Exec.raises_get fun disk ↦ ?_
  split
  · exact Exec.raises_modify _
  · split
    · exact Exec.raises_modify _
    · refine Exec.raises_bind
        (Exec.raises_lift (fails_checkHeader h0 present_csvMessages _ _)) fun _ ↦ ?_
      refine Exec.raises_bind (Exec.raises_modify _) fun _ ↦ explains_forEachRow h0 ?_ _ _
      intro _ values
      split
      · exact Exec.raises_fail (explained_fileError h0 (by decide))
      · exact Exec.raises_pure _
      · exact Exec.raises_bind (Exec.raises_modify _) fun _ ↦ Exec.raises_pure _

theorem explains_printRowFromOpenFile (file : CFile) (offset : Int) (selected : List Nat) :
    (printRowFromOpenFile schema file offset selected).Raises (Explained place) := by
  unfold printRowFromOpenFile
  split
  · exact Exec.raises_fail (explained_fileError h0 (by decide))
  · split
    · exact Exec.raises_fail (explained_fileError h0 (by decide))
    · exact Exec.raises_bind (Exec.raises_lift (fails_readRow h0 _ _)) fun _ ↦
        Exec.raises_modify _

theorem explains_printRowsFromOpenFile (file : CFile) (selected : List Nat)
    (offsets : List Int) :
    (printRowsFromOpenFile schema file selected offsets).Raises (Explained place) := by
  induction offsets with
  | nil => exact Exec.raises_pure _
  | cons offset offsets ih =>
    exact Exec.raises_bind (explains_printRowFromOpenFile h0 _ _ _) fun _ ↦ ih

theorem explains_printRowsAtOffsets (offsets : List Int) (selected : List Nat) :
    (printRowsAtOffsets config schema offsets selected).Raises (Explained place) := by
  refine Exec.raises_bind Exec.raises_get fun disk ↦ ?_
  split
  · exact Exec.raises_fail (explained_fileError h0 (by decide))
  · split
    · exact Exec.raises_fail (explained_fileError h0 (by decide))
    · exact Exec.raises_bind
        (Exec.raises_lift (fails_checkHeader h0 present_csvMessages _ _)) fun _ ↦
          explains_printRowsFromOpenFile h0 _ _ _

theorem explains_storagePrintRowAtOffset (offset : Int) (selected : List Nat) :
    (storagePrintRowAtOffset config schema offset selected).Raises (Explained place) := by
  refine Exec.raises_bind (Exec.raises_modify _) fun _ ↦ ?_
  split
  · exact Exec.raises_pure _
  · exact explains_printRowsAtOffsets h0 _ _

theorem explains_storagePrintRowsAtOffsets (offsets : List Int) (selected : List Nat) :
    (storagePrintRowsAtOffsets config schema offsets selected).Raises (Explained place) := by
  refine Exec.raises_bind (Exec.raises_modify _) fun _ ↦ ?_
  split
  · exact Exec.raises_pure _
  · exact explains_printRowsAtOffsets h0 _ _

theorem explains_rebuildVisit (primaryKeyIndex : Nat) (offset : Int) (values : List Bytes) :
    (rebuildVisit primaryKeyIndex offset values).Raises (Explained place) := by
  refine Exec.raises_bind Exec.raises_get fun state ↦ ?_
  split
  · exact Exec.raises_fail (explained_fileError h0 (by decide))
  · split
    · exact Exec.raises_fail (explained_fileError h0 (by decide))
    · simp only
      split
      · exact Exec.raises_fail (explained_fileError h0 (by decide))
      · exact Exec.raises_bind (Exec.raises_modify _) fun _ ↦ Exec.raises_pure _

theorem explains_storageRebuildPkIndex (index : PkIndex) :
    (storageRebuildPkIndex config schema index).Raises (Explained place) := by
  unfold storageRebuildPkIndex
  split
  · exact Exec.raises_pure _
  · next primaryKeyIndex _ =>
    refine Exec.raises_bind Exec.raises_get fun disk ↦ ?_
    split
    · exact Exec.raises_pure _
    · next content _ =>
      split
      · exact Exec.raises_pure _
      · next line file _ =>
        refine Exec.raises_bind
          (Exec.raises_lift (fails_checkHeader h0 present_csvMessages _ _)) fun _ ↦ ?_
        have hscan : (forEachRow schema (rebuildVisit primaryKeyIndex) content.length
            file).Raises (Explained place) :=
          explains_forEachRow h0 (explains_rebuildVisit h0 primaryKeyIndex) _ _
        split
        · next e _ hrun => exact Exec.raises_fail (hscan _ e (by rw [hrun]))
        · exact Exec.raises_pure _

/-! ### Slots -/

theorem explains_getTableStateIndex :
    (getTableStateIndex config schema).Raises (Explained place) := by
  refine Exec.raises_bind Exec.raises_get fun w ↦ ?_
  split
  · exact Exec.raises_pure _
  · refine Exec.raises_bind ?_ fun p ↦ ?_
    · unfold buildIndex
      split
      · exact Exec.raises_pure _
      · exact Exec.raises_bind
          (Exec.raises_zoom (explains_storageRebuildPkIndex h0 _)) fun p ↦ Exec.raises_pure _
    · simp only
      split
      · exact Exec.raises_fail (explained_noLocation h0 (by decide))
      · refine Exec.raises_bind Exec.raises_get fun w ↦ ?_
        split
        · exact Exec.raises_bind (Exec.raises_modify _) fun _ ↦ Exec.raises_pure _
        · exact Exec.raises_fail (explained_noLocation h0 (by decide))

theorem explains_allocateNextPrimaryKey :
    (allocateNextPrimaryKey config schema).Raises (Explained place) := by
  refine Exec.raises_bind (explains_getTableStateIndex h0) fun i ↦ ?_
  refine Exec.raises_bind Exec.raises_get fun w ↦ ?_
  simp only
  split
  · exact Exec.raises_fail (explained_noLocation h0 (by decide))
  · exact Exec.raises_bind (Exec.raises_modify _) fun _ ↦ Exec.raises_pure _

omit h0 in
theorem explains_rememberExplicitPrimaryKey (explicitId : Int) :
    (rememberExplicitPrimaryKey config schema explicitId).Raises (Explained place) := by
  refine Exec.raises_bind Exec.raises_get fun w ↦ ?_
  split
  · exact Exec.raises_pure _
  · split
    · exact Exec.raises_pure _
    · split
      · exact Exec.raises_modify _
      · exact Exec.raises_pure _

/-! ### INSERT -/

/-- A literal of the statement, or the zeroed one past the last. -/
theorem placed_headD {values : List LiteralValue}
    (h : ∀ value ∈ values, value.location.Placed place) :
    (values.headD .zero).location.Placed place := by
  cases values with
  | nil => exact h0
  | cons value values => exact h value List.mem_cons_self

omit h0 in
theorem fails_checkInsertValue {value : LiteralValue} (h : value.location.Placed place)
    (dataType : DataType) : Fails (Explained place) (checkInsertValue dataType value) := by
  have hplace : ∀ {message : String}, message ≠ "" →
      Explained place (runtimeError message value.location) := fun hm ↦ ⟨hm, h⟩
  unfold checkInsertValue
  split
  · exact fails_error (hplace (by decide))
  · split
    · exact fails_error (hplace (by decide))
    · split
      · exact fails_error (hplace (by decide))
      · exact fails_ok _

theorem fails_copyValues {columns : List ColumnSchema} {values : List LiteralValue}
    (h : ∀ value ∈ values, value.location.Placed place) :
    Fails (Explained place) (copyValues columns values) := by
  induction columns generalizing values with
  | nil => exact fails_ok _
  | cons column columns ih =>
    refine fails_bind (fails_checkInsertValue (placed_headD h0 h) _) fun _ _ ↦ ?_
    exact fails_bind (ih fun value hm ↦ h value (List.mem_of_mem_tail hm)) fun _ _ ↦ fails_ok _

theorem fails_placeValues {columns : List ColumnName} {values : List LiteralValue}
    {cells : List (Option Bytes)} (hc : ∀ column ∈ columns, column.location.Placed place)
    (hv : ∀ value ∈ values, value.location.Placed place) :
    Fails (Explained place) (placeValues schema columns values cells) := by
  induction columns generalizing values cells with
  | nil => exact fails_ok _
  | cons column columns ih =>
    obtain ⟨hcolumn, hcolumns⟩ := List.forall_mem_cons.mp hc
    have hplace : ∀ {message : String}, message ≠ "" →
        Explained place (runtimeError message column.location) := fun hm ↦ ⟨hm, hcolumn⟩
    rw [placeValues]
    split
    · exact fails_error (hplace (by decide))
    · split
      · exact fails_error (hplace (by decide))
      · refine fails_bind (fails_checkInsertValue (placed_headD h0 hv) _) fun _ _ ↦ ?_
        exact ih hcolumns fun value hm ↦ hv value (List.mem_of_mem_tail hm)

theorem explains_fillCells {location : SourceLocation} (hl : location.Placed place) (i : Nat)
    (cells : List (Option Bytes)) :
    (fillCells config schema location i cells).Raises (Explained place) := by
  induction cells generalizing i with
  | nil => exact Exec.raises_pure _
  | cons cell cells ih =>
    cases cell with
    | some cell => exact Exec.raises_bind (ih (i + 1)) fun _ ↦ Exec.raises_pure _
    | none =>
      rw [fillCells]
      split
      · refine Exec.raises_bind (explains_allocateNextPrimaryKey h0) fun _ ↦ ?_
        exact Exec.raises_bind (ih (i + 1)) fun _ ↦ Exec.raises_pure _
      · have hm : "INSERT 문에 스키마의 모든 컬럼 값이 필요합니다." ≠ "" := by decide
        exact Exec.raises_fail ⟨hm, hl⟩

theorem explains_buildInsertRowValues {location : SourceLocation} {statement : InsertStatement}
    (h : (Statement.insert location statement).Placed place) :
    (buildInsertRowValues config schema statement).Raises (Explained place) := by
  obtain ⟨htable, hcolumns, hvalues⟩ := h
  unfold buildInsertRowValues
  split
  · split
    · have hm : "VALUES 값 수가 스키마 컬럼 수와 일치하지 않습니다." ≠ "" := by decide
      exact Exec.raises_fail ⟨hm, htable⟩
    · exact Exec.raises_lift (fails_copyValues h0 hvalues)
  · exact Exec.raises_bind (Exec.raises_lift (fails_placeValues h0 hcolumns hvalues)) fun _ ↦
      explains_fillCells h0 htable _ _

theorem explains_storeRow (row : List Bytes) :
    (storeRow config schema row).Raises (Explained place) := by
  unfold storeRow
  split
  · exact Exec.raises_bind (Exec.raises_zoom (explains_storageAppendRow h0 _)) fun _ ↦
      Exec.raises_pure _
  · refine Exec.raises_bind (Exec.raises_lift ?_) fun key ↦ ?_
    · unfold parseRowPrimaryKey
      split
      · exact fails_error (explained_noLocation h0 (by decide))
      · exact fails_ok _
    refine Exec.raises_bind ?_ fun _ ↦ ?_
    · refine Exec.raises_bind (explains_getTableStateIndex h0) fun i ↦ ?_
      refine Exec.raises_bind Exec.raises_get fun w ↦ ?_
      split
      · exact Exec.raises_fail (explained_noLocation h0 (by decide))
      · exact Exec.raises_pure _
    refine Exec.raises_bind (Exec.raises_zoom (explains_storageAppendRow h0 _)) fun _ ↦ ?_
    refine Exec.raises_bind (explains_getTableStateIndex h0) fun i ↦ ?_
    refine Exec.raises_bind Exec.raises_get fun w ↦ ?_
    split
    · exact Exec.raises_bind (Exec.raises_modify _) fun _ ↦
        explains_rememberExplicitPrimaryKey _
    · exact Exec.raises_fail (explained_noLocation h0 (by decide))

theorem explains_executeInsert {location : SourceLocation} {statement : InsertStatement}
    (h : (Statement.insert location statement).Placed place) :
    (executeInsert config statement).Raises (Explained place) := by
  refine Exec.raises_bind Exec.raises_get fun w ↦ ?_
  refine Exec.raises_bind (Exec.raises_lift (fails_loadTableSchema h0 _ _ _)) fun schema ↦ ?_
  exact Exec.raises_bind (explains_buildInsertRowValues h0 h) fun _ ↦ explains_storeRow h0 _

/-! ### SELECT -/

omit h0 in
theorem fails_mapM {α β : Type} {P : ErrorInfo → Prop} {f : α → Except ErrorInfo β} {xs : List α}
    (h : ∀ x ∈ xs, Fails P (f x)) : Fails P (xs.mapM f) := by
  induction xs with
  | nil => exact fails_ok _
  | cons x xs ih =>
    obtain ⟨hx, hxs⟩ := List.forall_mem_cons.mp h
    rw [List.mapM_cons]
    exact fails_bind hx fun _ _ ↦ fails_bind (ih hxs) fun _ _ ↦ fails_ok _

omit h0 in
theorem fails_resolveSelectedColumns {statement : SelectStatement}
    (h : ∀ column ∈ statement.columns, column.location.Placed place) :
    Fails (Explained place) (resolveSelectedColumns schema statement) := by
  unfold resolveSelectedColumns
  split
  · exact fails_ok _
  · refine fails_mapM fun column hm ↦ ?_
    split
    · have hmessage : "SELECT 대상 컬럼이 스키마에 없습니다." ≠ "" := by decide
      exact fails_error ⟨hmessage, h column hm⟩
    · exact fails_ok _

omit h0 in
theorem fails_resolveWhereColumn {statement : SelectStatement}
    (hc : statement.whereColumnLocation.Placed place)
    (hv : statement.whereValue.location.Placed place) :
    Fails (Explained place) (resolveWhereColumn schema statement) := by
  have hplace : ∀ {message : String}, message ≠ "" →
      Explained place (runtimeError message statement.whereValue.location) := fun hm ↦ ⟨hm, hv⟩
  unfold resolveWhereColumn
  split
  · have hmessage : "WHERE 대상 컬럼이 스키마에 없습니다." ≠ "" := by decide
    exact fails_error ⟨hmessage, hc⟩
  · simp only
    split
    · exact fails_error (hplace (by decide))
    · split
      · exact fails_error (hplace (by decide))
      · split
        · exact fails_error (hplace (by decide))
        · exact fails_ok _

omit h0 in
theorem fails_parseWhereIntValue {value : LiteralValue} (h : value.location.Placed place) :
    Fails (Explained place) (parseWhereIntValue value) := by
  unfold parseWhereIntValue
  split
  · have hmessage : "정수 값이 int 범위를 벗어났습니다." ≠ "" := by decide
    exact fails_error ⟨hmessage, h⟩
  · exact fails_ok _

theorem explains_executeSelectWhere {statement : SelectStatement}
    (hv : statement.whereValue.location.Placed place) (selected : List Nat)
    (whereColumnIndex : Nat) :
    (executeSelectWhere config schema statement selected whereColumnIndex).Raises
      (Explained place) := by
  unfold executeSelectWhere
  simp only
  split
  · refine Exec.raises_bind (explains_getTableStateIndex h0) fun _ ↦ ?_
    refine Exec.raises_bind (Exec.raises_lift (fails_parseWhereIntValue hv)) fun _ ↦ ?_
    refine Exec.raises_bind (explains_getTableStateIndex h0) fun _ ↦ ?_
    refine Exec.raises_bind (Exec.raises_zoom (Exec.raises_modify _)) fun _ ↦ ?_
    exact Exec.raises_bind Exec.raises_get fun _ ↦
      Exec.raises_zoom (explains_storagePrintRowAtOffset h0 _ _)
  · split
    · refine Exec.raises_bind (explains_getTableStateIndex h0) fun _ ↦ ?_
      refine Exec.raises_bind (Exec.raises_lift (fails_parseWhereIntValue hv)) fun _ ↦ ?_
      refine Exec.raises_bind (explains_getTableStateIndex h0) fun _ ↦ ?_
      refine Exec.raises_bind Exec.raises_get fun _ ↦ ?_
      split
      · exact Exec.raises_fail (explained_noLocation h0 (by decide))
      · exact Exec.raises_bind (Exec.raises_zoom (Exec.raises_modify _)) fun _ ↦
          Exec.raises_zoom (explains_storagePrintRowsAtOffsets h0 _ _)
    · exact Exec.raises_bind (Exec.raises_zoom (Exec.raises_modify _)) fun _ ↦
        Exec.raises_zoom (explains_storagePrintRowsWhereEquals h0 _ _ _ _)

theorem explains_executeSelect {location : SourceLocation} {statement : SelectStatement}
    (h : (Statement.select location statement).Placed place) :
    (executeSelect config statement).Raises (Explained place) := by
  obtain ⟨hcolumns, hcondition⟩ := h
  refine Exec.raises_bind Exec.raises_get fun w ↦ ?_
  refine Exec.raises_bind (Exec.raises_lift (fails_loadTableSchema h0 _ _ _)) fun schema ↦ ?_
  refine Exec.raises_bind
    (Exec.raises_lift (fails_resolveSelectedColumns hcolumns)) fun selected ↦ ?_
  split
  · exact Exec.raises_bind (Exec.raises_zoom (explains_storagePrintRows h0 _)) fun _ ↦
      Exec.raises_zoom (Exec.raises_modify _)
  · next hw =>
    rw [Bool.not_eq_true', Bool.not_eq_false] at hw
    obtain ⟨hcolumn, hvalue⟩ := hcondition hw
    refine Exec.raises_bind
      (Exec.raises_lift (fails_resolveWhereColumn hcolumn hvalue)) fun i ↦ ?_
    exact Exec.raises_bind (explains_executeSelectWhere h0 hvalue _ _) fun _ ↦
      Exec.raises_zoom (Exec.raises_modify _)

/-! ### Programs -/

theorem explains_executeStatement {statement : Statement} (h : statement.Placed place) :
    (executeStatement config statement).Raises (Explained place) := by
  cases statement with
  | insert location statement => exact explains_executeInsert h0 h
  | select location statement => exact explains_executeSelect h0 h

/-- The executor explains why it stops. -/
theorem explains_executeProgram {program : SqlProgram}
    (h : ∀ statement ∈ program, statement.Placed place) :
    (executeProgram config program).Raises (Explained place) := by
  induction program with
  | nil => exact Exec.raises_pure _
  | cons statement program ih =>
    obtain ⟨hstatement, hprogram⟩ := List.forall_mem_cons.mp h
    exact Exec.raises_bind (explains_executeStatement h0 hstatement) fun _ ↦ ih hprogram

end NoPlace

end SqlProc.Executor
