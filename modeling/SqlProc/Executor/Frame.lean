import SqlProc.Executor.Insert

/-!
# A statement touches one table

Library `Executor`. Whatever its result, a statement changes at most the data file and the slot
of the table that it names, and standard output.
-/

namespace SqlProc.Executor

open Base Front Index Schema Storage

/-! ### Steps that leave the files alone -/

/-- The files are the same. -/
def SameFiles (disk disk' : Disk) : Prop := disk'.files = disk.files

instance : IsPreorder Disk SameFiles where
  refl _ := rfl
  trans _ _ _ h h' := h'.trans h

section Readers

variable (config : AppConfig) (schema : TableSchema) (selected : List Nat)

theorem sameFiles_printLine (text : Bytes) : (printLine text).Within SameFiles := fun _ ↦ rfl

theorem sameFiles_forEachRow {visit : Int → List Bytes → Exec Disk Bool}
    (hv : ∀ offset values, (visit offset values).Within SameFiles) (fuel : Nat) (file : CFile) :
    (forEachRow schema visit fuel file).Within SameFiles := by
  induction fuel generalizing file with
  | zero => exact Exec.within_pure ()
  | succ fuel ih =>
    rw [forEachRow]
    cases fgets maxCsvRowLen file with
    | none => exact Exec.within_pure ()
    | some p =>
      refine Exec.within_bind (Exec.within_lift _) fun values ↦ ?_
      refine Exec.within_bind (hv _ values) fun goOn ↦ ?_
      cases goOn with
      | true => exact ih p.2
      | false => exact Exec.within_pure ()

theorem sameFiles_storagePrintRows :
    (storagePrintRows config schema selected).Within SameFiles := by
  refine Exec.within_bind Exec.within_get fun disk ↦ ?_
  cases disk.files (tablePath config schema.tableName) with
  | none => exact sameFiles_printLine _
  | some content =>
    simp only
    cases fgets maxCsvRowLen (.start content) with
    | none => exact Exec.within_pure ()
    | some p =>
      refine Exec.within_bind (Exec.within_lift _) fun _ ↦ ?_
      refine Exec.within_bind (sameFiles_printLine _) fun _ ↦ ?_
      refine sameFiles_forEachRow schema (fun offset values ↦ ?_) _ _
      exact Exec.within_bind (sameFiles_printLine _) fun _ ↦ Exec.within_pure _

theorem sameFiles_storagePrintRowsWhereEquals (whereColumnIndex : Nat)
    (whereOperator : WhereOperator) (whereValue : LiteralValue) :
    (storagePrintRowsWhereEquals config schema selected whereColumnIndex whereOperator
      whereValue).Within SameFiles := by
  refine Exec.within_bind Exec.within_get fun disk ↦ ?_
  cases disk.files (tablePath config schema.tableName) with
  | none => exact sameFiles_printLine _
  | some content =>
    simp only
    cases fgets maxCsvRowLen (.start content) with
    | none => exact sameFiles_printLine _
    | some p =>
      refine Exec.within_bind (Exec.within_lift _) fun _ ↦ ?_
      refine Exec.within_bind (sameFiles_printLine _) fun _ ↦ ?_
      refine sameFiles_forEachRow schema (fun offset values ↦ ?_) _ _
      cases csvValueMatchesWhere schema values whereColumnIndex whereOperator whereValue with
      | none => exact Exec.within_fail _
      | some b =>
        cases b with
        | false => exact Exec.within_pure _
        | true => exact Exec.within_bind (sameFiles_printLine _) fun _ ↦ Exec.within_pure _

theorem sameFiles_printRowsFromOpenFile (file : CFile) (offsets : List Int) :
    (printRowsFromOpenFile schema file selected offsets).Within SameFiles := by
  induction offsets with
  | nil => exact Exec.within_pure ()
  | cons offset offsets ih =>
    refine Exec.within_bind ?_ fun _ ↦ ih
    unfold printRowFromOpenFile
    cases fseek file offset with
    | none => exact Exec.within_fail _
    | some file =>
      simp only
      cases fgets maxCsvRowLen file with
      | none => exact Exec.within_fail _
      | some p => exact Exec.within_bind (Exec.within_lift _) fun _ ↦ sameFiles_printLine _

theorem sameFiles_printRowsAtOffsets (offsets : List Int) :
    (printRowsAtOffsets config schema offsets selected).Within SameFiles := by
  refine Exec.within_bind Exec.within_get fun disk ↦ ?_
  cases disk.files (tablePath config schema.tableName) with
  | none => exact Exec.within_fail _
  | some content =>
    simp only
    cases fgets maxCsvRowLen (.start content) with
    | none => exact Exec.within_fail _
    | some p =>
      refine Exec.within_bind (Exec.within_lift _) fun _ ↦ ?_
      exact sameFiles_printRowsFromOpenFile schema selected p.2 offsets

theorem sameFiles_storagePrintRowAtOffset (offset : Int) :
    (storagePrintRowAtOffset config schema offset selected).Within SameFiles := by
  refine Exec.within_bind (sameFiles_printLine _) fun _ ↦ ?_
  split
  · exact Exec.within_pure ()
  · exact sameFiles_printRowsAtOffsets config schema selected _

theorem sameFiles_storagePrintRowsAtOffsets (offsets : List Int) :
    (storagePrintRowsAtOffsets config schema offsets selected).Within SameFiles := by
  refine Exec.within_bind (sameFiles_printLine _) fun _ ↦ ?_
  split
  · exact Exec.within_pure ()
  · exact sameFiles_printRowsAtOffsets config schema selected _

end Readers

/-! ### Steps that change one table -/

variable {config : AppConfig} {schema : TableSchema} {w : World} {slot : TableRuntimeState}
  {R : World → World → Prop}

/-- A relation that allows every change of the slot and the data file of one table, and of
standard output. -/
structure AllowsTable (config : AppConfig) (schema : TableSchema) (R : World → World → Prop) :
    Prop where
  opened : ∀ w, R w (opened config schema w)
  setSlot : ∀ w slot, slot.isFor config schema.tableName = true →
    R w (w.setSlot config schema.tableName slot)
  onDisk : ∀ (w : World) (disk : Disk), (∀ path, path ≠ tablePath config schema.tableName →
    disk.files path = w.disk.files path) → R w { w with disk := disk }

section Allowed

variable (h : AllowsTable config schema R)

include h

theorem within_onDisk {α : Type} {x : Exec Disk α} (hx : x.Within SameFiles) :
    (onDisk x).Within R :=
  fun w ↦ h.onDisk w _ fun path _ ↦ congrFun (hx w.disk) path

variable [IsPreorder World R]

theorem within_getTableStateIndex : (getTableStateIndex config schema).Within R := by
  intro w
  cases hs : obtainSlot config schema w with
  | none =>
    obtain ⟨e, he⟩ := getTableStateIndex_of_none hs
    rw [he]
    exact refl_of R w
  | some slot =>
    obtain ⟨i, hi, -⟩ := getTableStateIndex_of_some hs
    rw [hi]
    exact h.opened w

theorem within_allocateNextPrimaryKey : (allocateNextPrimaryKey config schema).Within R := by
  intro w
  cases hs : obtainSlot config schema w with
  | none =>
    obtain ⟨e, he⟩ := allocateNextPrimaryKey_of_none hs
    rw [he]
    exact refl_of R w
  | some slot =>
    by_cases hm : slot.nextId = intMax
    · obtain ⟨e, he⟩ := allocateNextPrimaryKey_of_max hs hm
      rw [he]
      exact h.opened w
    · have hfor := isFor_allocated_obtainSlot hs
      rw [allocateNextPrimaryKey_of_ne hs hm]
      exact trans_of R (h.opened w) (h.setSlot _ _ hfor)

theorem within_fillCells (location : SourceLocation) (i : Nat) (cells : List (Option Bytes)) :
    (fillCells config schema location i cells).Within R := by
  induction cells generalizing i with
  | nil => exact Exec.within_pure _
  | cons cell cells ih =>
    cases cell with
    | some cell => exact Exec.within_bind (ih (i + 1)) fun _ ↦ Exec.within_pure _
    | none =>
      rw [fillCells]
      split
      · refine Exec.within_bind (within_allocateNextPrimaryKey h) fun _ ↦ ?_
        exact Exec.within_bind (ih (i + 1)) fun _ ↦ Exec.within_pure _
      · exact Exec.within_fail _

theorem within_buildInsertRowValues (statement : InsertStatement) :
    (buildInsertRowValues config schema statement).Within R := by
  intro w
  rw [buildInsertRowValues_apply]
  cases rowCells schema statement with
  | error e => exact refl_of R w
  | ok cells => exact within_fillCells h statement.tableLocation 0 cells w

theorem within_rememberExplicitPrimaryKey (explicitId : Int) :
    (rememberExplicitPrimaryKey config schema explicitId).Within R := by
  intro w
  rw [rememberExplicitPrimaryKey, Exec.bind_ok (Exec.get_apply w)]
  cases hf : findTableState config schema w.tableStates with
  | none => exact refl_of R w
  | some i =>
    obtain ⟨slot, hs⟩ := slotAt_of_findTableState hf
    simp only
    split
    · exact refl_of R w
    · split
      · rw [hs.modifySlot]
        exact h.setSlot w _ (isFor_of_slot hs.slot_eq :)
      · exact refl_of R w

theorem within_registerPrimaryKey (primaryKeyValue rowOffset : Int) :
    (registerPrimaryKey config schema primaryKeyValue rowOffset).Within R := by
  intro w
  cases hs : obtainSlot config schema w with
  | none =>
    obtain ⟨e, he⟩ := getTableStateIndex_of_none hs
    rw [registerPrimaryKey, Exec.bind_error he]
    exact refl_of R w
  | some slot =>
    obtain ⟨i, hi, hat⟩ := getTableStateIndex_of_some hs
    rw [registerPrimaryKey, Exec.bind_ok hi, Exec.bind_ok (Exec.get_apply _)]
    apply trans_of R (h.opened w)
    cases (slotAt (opened config schema w) i).pkIndex.map (·.insert primaryKeyValue rowOffset) with
    | none => exact refl_of R _
    | some p =>
      obtain ⟨index, inserted⟩ := p
      cases inserted with
      | false => exact refl_of R _
      | true =>
        have hfor : TableRuntimeState.isFor { slot with pkIndex := some index } config
            schema.tableName = true := (isFor_obtainSlot hs :)
        simp only
        rw [Exec.bind_ok (hat.modifySlot _)]
        exact trans_of R (h.setSlot _ _ hfor)
          (within_rememberExplicitPrimaryKey h primaryKeyValue _)

theorem within_storageAppendRow (row : List Bytes) :
    (onDisk (storageAppendRow config schema row)).Within R := by
  intro w
  by_cases happ : Appendable schema (w.disk.files (tablePath config schema.tableName))
  · rw [onDisk_ok (storageAppendRow_of_appendable rfl happ row)]
    exact h.onDisk w _ fun path hp ↦ Disk.write_files_of_ne w.disk hp _
  · obtain ⟨e, he⟩ := storageAppendRow_of_not_appendable happ row
    rw [onDisk_error he]
    exact refl_of R w

theorem within_storeRow (row : List Bytes) : (storeRow config schema row).Within R := by
  unfold storeRow
  cases schema.primaryKeyIndex with
  | none => exact Exec.within_bind (within_storageAppendRow h row) fun _ ↦ Exec.within_pure _
  | some pk =>
    refine Exec.within_bind (Exec.within_lift _) fun key ↦ ?_
    refine Exec.within_bind ?_ fun _ ↦ ?_
    · refine Exec.within_bind (within_getTableStateIndex h) fun i ↦ ?_
      refine Exec.within_bind Exec.within_get fun w ↦ ?_
      split
      · exact Exec.within_fail _
      · exact Exec.within_pure _
    · exact Exec.within_bind (within_storageAppendRow h row) fun offset ↦
        within_registerPrimaryKey h key offset

end Allowed

/-- A SELECT stays within every relation that contains what `get_table_state_index` does and
what leaves the files and the slots alone. -/
theorem within_executeSelect [IsPreorder World R]
    (hopen : (getTableStateIndex config schema).Within R)
    (hdisk : ∀ x : Exec Disk Unit, x.Within SameFiles → (onDisk x).Within R)
    {statement : SelectStatement}
    (hs : loadTableSchema w.disk.files config.schemaDir statement.tableName = .ok schema) :
    R w (executeSelect config statement w).2 := by
  have hprint := fun text ↦ hdisk _ (sameFiles_printLine text)
  have helapsed : printElapsed.Within R := hdisk _ fun _ ↦ rfl
  have hwhere : ∀ selected i,
      (executeSelectWhere config schema statement selected i).Within R := by
    intro selected i
    rw [executeSelectWhere]
    split
    · refine Exec.within_bind hopen fun _ ↦ ?_
      refine Exec.within_bind (Exec.within_lift _) fun _ ↦ ?_
      refine Exec.within_bind hopen fun _ ↦ ?_
      refine Exec.within_bind (hprint _) fun _ ↦ ?_
      refine Exec.within_bind Exec.within_get fun w ↦ ?_
      exact hdisk _ (sameFiles_storagePrintRowAtOffset config schema selected _)
    · split
      · refine Exec.within_bind hopen fun _ ↦ ?_
        refine Exec.within_bind (Exec.within_lift _) fun _ ↦ ?_
        refine Exec.within_bind hopen fun _ ↦ ?_
        refine Exec.within_bind Exec.within_get fun w ↦ ?_
        split
        · exact Exec.within_fail _
        · refine Exec.within_bind (hprint _) fun _ ↦ ?_
          exact hdisk _ (sameFiles_storagePrintRowsAtOffsets config schema selected _)
      · refine Exec.within_bind (hprint _) fun _ ↦ ?_
        exact hdisk _ (sameFiles_storagePrintRowsWhereEquals config schema selected _ _ _)
  rw [executeSelect, Exec.bind_ok (Exec.get_apply w),
    Exec.bind_ok (by rw [Exec.lift_apply, hs])]
  refine Exec.within_bind (Exec.within_lift _) (fun selected ↦ ?_) w
  split
  · refine Exec.within_bind ?_ fun _ ↦ helapsed
    exact hdisk _ (sameFiles_storagePrintRows config schema selected)
  · refine Exec.within_bind (Exec.within_lift _) fun i ↦ ?_
    exact Exec.within_bind (hwhere selected i) fun _ ↦ helapsed

/-! ### Statements -/

/-- The table that a statement names. -/
def statementTable : Statement → Bytes
  | .insert _ statement => statement.tableName
  | .select _ statement => statement.tableName

/-- A statement stays within every relation that allows the changes of its table. -/
theorem within_executeStatement [IsPreorder World R] {statement : Statement}
    (hl : (statementTable statement).length < maxNameLen)
    (h : ∀ schema : TableSchema, schema.tableName = statementTable statement →
      AllowsTable config schema R) : (executeStatement config statement).Within R := by
  have hname : ∀ {w : World} {schema : TableSchema}, loadTableSchema w.disk.files config.schemaDir
      (statementTable statement) = .ok schema → schema.tableName = statementTable statement := by
    intro w schema hs
    rw [loadTableSchema_tableName hs, snprintfStr_of_lt hl]
  intro w
  cases statement with
  | insert location statement =>
    rw [executeStatement, executeInsert, Exec.bind_ok (Exec.get_apply w), Exec.bind_apply,
      Exec.lift_apply]
    cases hs : loadTableSchema w.disk.files config.schemaDir statement.tableName with
    | error e => exact refl_of R w
    | ok schema =>
      have hallows := h schema (hname hs)
      exact Exec.within_bind (within_buildInsertRowValues hallows statement)
        (within_storeRow hallows) w
  | select location statement =>
    rw [executeStatement]
    cases hs : loadTableSchema w.disk.files config.schemaDir statement.tableName with
    | error e =>
      rw [executeSelect, Exec.bind_ok (Exec.get_apply w),
        Exec.bind_error (by rw [Exec.lift_apply, hs])]
      exact refl_of R w
    | ok schema =>
      have hallows := h schema (hname hs)
      exact within_executeSelect (within_getTableStateIndex hallows)
        (fun x ↦ within_onDisk hallows) hs

/-- Only the data file and the slot of the table may differ, besides standard output. -/
structure Touches (config : AppConfig) (tableName : Bytes) (w w' : World) : Prop where
  files : ∀ path, path ≠ tablePath config tableName → w'.disk.files path = w.disk.files path
  slots : ∀ name, name ≠ tableName → w'.slot config name = w.slot config name

instance (config : AppConfig) (tableName : Bytes) :
    IsPreorder World (Touches config tableName) where
  refl _ := ⟨fun _ _ ↦ rfl, fun _ _ ↦ rfl⟩
  trans _ _ _ h h' :=
    ⟨fun path hp ↦ (h'.files path hp).trans (h.files path hp),
      fun name hn ↦ (h'.slots name hn).trans (h.slots name hn)⟩

/-- A statement touches the table that it names. -/
theorem touches_executeStatement (config : AppConfig) {statement : Statement}
    (hl : (statementTable statement).length < maxNameLen) :
    (executeStatement config statement).Within (Touches config (statementTable statement)) := by
  refine within_executeStatement hl fun schema hn ↦ ?_
  rw [← hn]
  refine ⟨fun w ↦ ⟨fun path _ ↦ by rw [opened_disk], fun _ hne ↦ slot_opened_of_ne hne⟩,
    fun w slot hs ↦ ⟨fun path _ ↦ by rw [World.setSlot_disk],
      fun _ hne ↦ World.slot_setSlot_of_ne hne hs⟩, fun w disk hfiles ↦ ⟨hfiles, fun _ _ ↦ rfl⟩⟩

end SqlProc.Executor
