import SqlProc.Base.Lockstep
import SqlProc.Storage.Table

/-!
# Disks with the same file of a table

Library `Storage`. The functions that print or append rows of a table read no file but that of
the table: on two disks with the same one they give the same result, print the same lines and
leave the same file.
-/

namespace SqlProc.Storage

open Base Base.Exec Front Index Schema

/-- The disks hold the same files at the paths of `P`, and `printed` was printed last on both. -/
structure SameOn (P : Bytes → Prop) (out out' : List Output) (disk disk' : Disk) : Prop where
  files : ∀ path, P path → disk'.files path = disk.files path
  output : ∃ printed, disk.stdout = out ++ printed ∧ disk'.stdout = out' ++ printed

variable {P : Bytes → Prop} {out out' : List Output} {config : AppConfig} {schema : TableSchema}

/-- Printing the same lines. -/
theorem SameOn.print {disk disk' : Disk} (h : SameOn P out out' disk disk')
    (printed : List Output) :
    SameOn P out out' { disk with stdout := disk.stdout ++ printed }
      { disk' with stdout := disk'.stdout ++ printed } := by
  obtain ⟨before, ho, ho'⟩ := h.output
  refine ⟨h.files, before ++ printed, ?_, ?_⟩
  · rw [ho, List.append_assoc]
  · rw [ho', List.append_assoc]

theorem agree_printLine (text : Bytes) :
    Agree (SameOn P out out') (printLine text) (printLine text) :=
  agree_modify fun _ _ h ↦ h.print [.line text]

/-- Writing the same file. -/
theorem agree_writeFile (path content : Bytes) :
    Agree (SameOn P out out') (writeFile path content) (writeFile path content) := by
  refine agree_modify fun disk disk' h ↦ ⟨fun path' hp ↦ ?_, h.output⟩
  simp only
  by_cases he : path' = path
  · rw [he, Function.update_self, Function.update_self]
  · rw [Function.update_of_ne he, Function.update_of_ne he]
    exact h.files path' hp

theorem agree_forEachRow {σ : Type} {R : σ → σ → Prop} {visit : Int → List Bytes → Exec σ Bool}
    (hv : ∀ offset values, Agree R (visit offset values) (visit offset values)) (fuel : Nat)
    (file : CFile) :
    Agree R (forEachRow schema visit fuel file) (forEachRow schema visit fuel file) := by
  induction fuel generalizing file with
  | zero => exact agree_pure ()
  | succ fuel ih =>
    rw [forEachRow]
    cases fgets maxCsvRowLen file with
    | none => exact agree_pure ()
    | some p =>
      apply agree_bind (agree_lift _)
      intro values
      apply agree_bind (hv _ values)
      intro goOn
      cases goOn with
      | true => exact ih p.2
      | false => exact agree_pure ()

theorem agree_printRowFromOpenFile (file : CFile) (offset : Int) (selected : List Nat) :
    Agree (SameOn P out out') (printRowFromOpenFile schema file offset selected)
      (printRowFromOpenFile schema file offset selected) := by
  unfold printRowFromOpenFile
  cases fseek file offset with
  | none => exact agree_fail _
  | some file =>
    simp only
    cases fgets maxCsvRowLen file with
    | none => exact agree_fail _
    | some p => exact agree_bind (agree_lift _) fun _ ↦ agree_printLine _

theorem agree_printRowsFromOpenFile (file : CFile) (selected : List Nat) (offsets : List Int) :
    Agree (SameOn P out out') (printRowsFromOpenFile schema file selected offsets)
      (printRowsFromOpenFile schema file selected offsets) := by
  induction offsets with
  | nil => exact agree_pure ()
  | cons offset offsets ih =>
    exact agree_bind (agree_printRowFromOpenFile file offset selected) fun _ ↦ ih

section Table

variable (hp : P (tablePath config schema.tableName))

include hp

theorem agree_storagePrintRows (selected : List Nat) :
    Agree (SameOn P out out') (storagePrintRows config schema selected)
      (storagePrintRows config schema selected) := by
  apply agree_get_bind
  intro disk disk' h
  rw [h.files _ hp]
  cases disk.files (tablePath config schema.tableName) with
  | none => exact agree_printLine _ disk disk' h
  | some content =>
    simp only
    cases fgets maxCsvRowLen (.start content) with
    | none => exact agreeAt_pure h ()
    | some p =>
      refine agree_bind (agree_lift _) (fun _ ↦ ?_) disk disk' h
      refine agree_bind (agree_printLine _) fun _ ↦ agree_forEachRow (fun offset values ↦ ?_) _ _
      exact agree_bind (agree_printLine _) fun _ ↦ agree_pure true

theorem agree_storagePrintRowsWhereEquals (selected : List Nat) (whereColumnIndex : Nat)
    (whereOperator : WhereOperator) (whereValue : LiteralValue) :
    Agree (SameOn P out out')
      (storagePrintRowsWhereEquals config schema selected whereColumnIndex whereOperator whereValue)
      (storagePrintRowsWhereEquals config schema selected whereColumnIndex whereOperator
        whereValue) := by
  apply agree_get_bind
  intro disk disk' h
  rw [h.files _ hp]
  cases disk.files (tablePath config schema.tableName) with
  | none => exact agree_printLine _ disk disk' h
  | some content =>
    simp only
    cases fgets maxCsvRowLen (.start content) with
    | none => exact agree_printLine _ disk disk' h
    | some p =>
      refine agree_bind (agree_lift _) (fun _ ↦ ?_) disk disk' h
      refine agree_bind (agree_printLine _) fun _ ↦ agree_forEachRow (fun offset values ↦ ?_) _ _
      cases csvValueMatchesWhere schema values whereColumnIndex whereOperator whereValue with
      | none => exact agree_fail _
      | some b =>
        cases b with
        | false => exact agree_pure true
        | true => exact agree_bind (agree_printLine _) fun _ ↦ agree_pure true

theorem agree_printRowsAtOffsets (offsets : List Int) (selected : List Nat) :
    Agree (SameOn P out out') (printRowsAtOffsets config schema offsets selected)
      (printRowsAtOffsets config schema offsets selected) := by
  apply agree_get_bind
  intro disk disk' h
  rw [h.files _ hp]
  cases disk.files (tablePath config schema.tableName) with
  | none => exact agreeAt_fail h _
  | some content =>
    simp only
    cases fgets maxCsvRowLen (.start content) with
    | none => exact agreeAt_fail h _
    | some p =>
      refine agree_bind (agree_lift _) (fun _ ↦ ?_) disk disk' h
      exact agree_printRowsFromOpenFile p.2 selected offsets

theorem agree_storagePrintRowAtOffset (offset : Int) (selected : List Nat) :
    Agree (SameOn P out out') (storagePrintRowAtOffset config schema offset selected)
      (storagePrintRowAtOffset config schema offset selected) := by
  apply agree_bind (agree_printLine _)
  intro _
  split
  · exact agree_pure ()
  · exact agree_printRowsAtOffsets hp [offset] selected

theorem agree_storagePrintRowsAtOffsets (offsets : List Int) (selected : List Nat) :
    Agree (SameOn P out out') (storagePrintRowsAtOffsets config schema offsets selected)
      (storagePrintRowsAtOffsets config schema offsets selected) := by
  apply agree_bind (agree_printLine _)
  intro _
  split
  · exact agree_pure ()
  · exact agree_printRowsAtOffsets hp offsets selected

theorem agree_ensureDataFile :
    Agree (SameOn P out out') (ensureDataFile config schema) (ensureDataFile config schema) := by
  apply agree_get_bind
  intro disk disk' h
  rw [h.files _ hp]
  cases disk.files (tablePath config schema.tableName) with
  | none => exact agree_writeFile _ _ disk disk' h
  | some content =>
    simp only
    cases fgets maxCsvRowLen (.start content) with
    | none => exact agreeAt_fail h _
    | some p => exact agree_lift _ disk disk' h

theorem agree_storageAppendRow (rowValues : List Bytes) :
    Agree (SameOn P out out') (storageAppendRow config schema rowValues)
      (storageAppendRow config schema rowValues) := by
  refine agree_bind (agree_ensureDataFile hp) fun _ ↦ agree_get_bind fun disk disk' h ↦ ?_
  simp only [h.files _ hp]
  exact agree_bind (agree_writeFile _ _) (fun _ ↦ agree_pure _) disk disk' h

end Table

end SqlProc.Storage
