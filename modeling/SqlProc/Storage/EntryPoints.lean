import SqlProc.Storage.LinearChecks

/-!
# How the entry points judge a file

Library `Storage`. The functions of `src/storage.c` that open a data file each check its header
on their own. Those that open it agree on a file that is missing or holds one line. They differ on
a file of zero bytes, which `ensure_data_file` refuses and the readers take for an empty table,
`storage_print_rows` without its header; and `storage_rebuild_pk_index` does not open the file of a
table without a primary key, so that it does not see a bad header.
-/

namespace SqlProc.Storage

open Base Front Index Schema Support

/-- The functions that open the data file of a table, with their arguments. -/
inductive EntryPoint where
  | printRows (selected : List Nat)
  | printRowsWhereEquals (selected : List Nat) (whereColumnIndex : Nat)
      (whereOperator : WhereOperator) (whereValue : LiteralValue)
  | findMaxIntValue (columnIndex : Nat)
  | intValueExists (columnIndex : Nat) (targetValue : Int)
  | rebuildPkIndex (index : PkIndex)
  | ensureDataFile

namespace EntryPoint

/-- The function takes the file for an empty table; the printing ones print its header. -/
def Accepts (config : AppConfig) (schema : TableSchema) (disk : Disk) : EntryPoint → Prop
  | printRows selected => storagePrintRows config schema selected disk =
      (.ok (), disk.print [headerOutput schema selected])
  | printRowsWhereEquals selected whereColumnIndex whereOperator whereValue =>
    storagePrintRowsWhereEquals config schema selected whereColumnIndex whereOperator whereValue
      disk = (.ok (), disk.print [headerOutput schema selected])
  | findMaxIntValue columnIndex =>
    storageFindMaxIntValue config schema columnIndex disk = (.ok 0, disk)
  | intValueExists columnIndex targetValue =>
    storageIntValueExists config schema columnIndex targetValue disk = (.ok false, disk)
  | rebuildPkIndex index =>
    storageRebuildPkIndex config schema index disk = (.ok (index, 0), disk)
  | ensureDataFile => (Storage.ensureDataFile config schema disk).1 = .ok ()

/-- The function fails and changes nothing. -/
def Fails (config : AppConfig) (schema : TableSchema) (disk : Disk) : EntryPoint → Prop
  | printRows selected => ∃ e, storagePrintRows config schema selected disk = (.error e, disk)
  | printRowsWhereEquals selected whereColumnIndex whereOperator whereValue =>
    ∃ e, storagePrintRowsWhereEquals config schema selected whereColumnIndex whereOperator
      whereValue disk = (.error e, disk)
  | findMaxIntValue columnIndex =>
    ∃ e, storageFindMaxIntValue config schema columnIndex disk = (.error e, disk)
  | intValueExists columnIndex targetValue =>
    ∃ e, storageIntValueExists config schema columnIndex targetValue disk = (.error e, disk)
  | rebuildPkIndex index => ∃ e, storageRebuildPkIndex config schema index disk = (.error e, disk)
  | ensureDataFile => ∃ e, Storage.ensureDataFile config schema disk = (.error e, disk)

/-- `storage_rebuild_pk_index` opens the file of a table with a primary key only. -/
def OpensFile (schema : TableSchema) : EntryPoint → Prop
  | rebuildPkIndex _ => schema.primaryKeyIndex ≠ none
  | _ => True

end EntryPoint

/-- These functions judge the file of the table alike: all take it for an empty table, or all
fail. -/
def JudgeAlike (config : AppConfig) (schema : TableSchema) (disk : Disk)
    (among : EntryPoint → Prop) : Prop :=
  (∀ e, among e → e.Accepts config schema disk) ∨ ∀ e, among e → e.Fails config schema disk

/-- The file is missing, or it is at most one line of any bytes but NUL, with or without a line
feed. -/
def EndsAfterFirstLine (file : Option Bytes) : Prop :=
  ∀ content ∈ file, nul ∉ content ∧
    ∃ line, lf ∉ line ∧ (content = line ∨ content = line ++ [lf])

variable {config : AppConfig} {schema : TableSchema} {disk : Disk} {content : Bytes}

/-- A missing file is an empty table. -/
theorem accepts_of_none (hf : disk.files (tablePath config schema.tableName) = none)
    (e : EntryPoint) : e.Accepts config schema disk := by
  have hempty := linearChecks_empty (Or.inl hf)
  cases e with
  | printRows selected =>
    rw [EntryPoint.Accepts, storagePrintRows, Exec.bind_ok (Exec.get_apply disk)]
    simp only [hf]
    rfl
  | printRowsWhereEquals selected whereColumnIndex whereOperator whereValue =>
    exact storagePrintRowsWhereEquals_empty (Or.inl hf) _ _ _ _
  | findMaxIntValue columnIndex => exact (hempty columnIndex).1
  | intValueExists columnIndex targetValue => exact (hempty columnIndex).2 targetValue
  | rebuildPkIndex index => exact storageRebuildPkIndex_empty (Or.inl hf) index
  | ensureDataFile =>
    rw [EntryPoint.Accepts, ensureDataFile, Exec.bind_ok (Exec.get_apply disk)]
    simp only [hf]
    rfl

/-- A file that consists of an accepted header is an empty table. -/
theorem accepts_of_headerOk (hf : disk.files (tablePath config schema.tableName) = some content)
    (hh : HeaderOk schema content) (hd : dataLines content = []) (e : EntryPoint) :
    e.Accepts config schema disk := by
  cases e with
  | printRows selected =>
    rw [EntryPoint.Accepts, storagePrintRows_eq hf hh, hd]
    rfl
  | printRowsWhereEquals selected whereColumnIndex whereOperator whereValue =>
    rw [EntryPoint.Accepts, storagePrintRowsWhereEquals_eq hf hh, hd]
    rfl
  | findMaxIntValue columnIndex =>
    rw [EntryPoint.Accepts, storageFindMaxIntValue_eq hf hh, hd]
    rfl
  | intValueExists columnIndex targetValue =>
    rw [EntryPoint.Accepts, storageIntValueExists_eq hf hh, hd]
    rfl
  | rebuildPkIndex index =>
    rw [EntryPoint.Accepts]
    cases hp : schema.primaryKeyIndex with
    | none =>
      simp only [storageRebuildPkIndex, hp]
      rfl
    | some primaryKeyIndex =>
      rw [storageRebuildPkIndex_eq hp hf hh, hd]
      rfl
  | ensureDataFile =>
    obtain ⟨line, file, hget, hcheck, -⟩ := hh.fgets
    rw [EntryPoint.Accepts, ensureDataFile, Exec.bind_ok (Exec.get_apply disk)]
    simp only [hf, hget]
    exact hcheck dataFileMessages

/-- Every function that opens a file with a bad header fails. -/
theorem fails_of_headerCheck {header : Nat × Bytes} {later : List (Nat × Bytes)}
    (hf : disk.files (tablePath config schema.tableName) = some content) (hn : nul ∉ content)
    (hl : lines content = header :: later)
    (hbad : ∀ messages, headerCheck messages schema header.2 ≠ .ok ()) {e : EntryPoint}
    (he : e.OpensFile schema) : e.Fails config schema disk := by
  obtain ⟨line, file, hget, hcheck, -⟩ := fgets_header hn hl
  have herror : ∀ messages, ∃ error, checkHeader messages schema
      (validateLineLength line maxCsvRowLen file) line = .error error := by
    intro messages
    rw [hcheck]
    cases hc : headerCheck messages schema header.2 with
    | error error => exact ⟨error, rfl⟩
    | ok u => exact absurd hc (hbad messages)
  obtain ⟨error, hcsv⟩ := herror csvMessages
  have hlift : Exec.lift (checkHeader csvMessages schema
      (validateLineLength line maxCsvRowLen file) line) disk = (.error error, disk) := by
    rw [Exec.lift_apply, hcsv]
  cases e with
  | printRows selected =>
    refine ⟨error, ?_⟩
    rw [storagePrintRows, Exec.bind_ok (Exec.get_apply disk)]
    simp only [hf, hget]
    rw [Exec.bind_error hlift]
  | printRowsWhereEquals selected whereColumnIndex whereOperator whereValue =>
    refine ⟨error, ?_⟩
    rw [storagePrintRowsWhereEquals, Exec.bind_ok (Exec.get_apply disk)]
    simp only [hf, hget]
    rw [Exec.bind_error hlift]
  | findMaxIntValue columnIndex =>
    refine ⟨error, ?_⟩
    rw [storageFindMaxIntValue, Exec.bind_ok (Exec.get_apply disk)]
    simp only [hf, hget]
    rw [Exec.bind_error hlift]
  | intValueExists columnIndex targetValue =>
    refine ⟨error, ?_⟩
    rw [storageIntValueExists, Exec.bind_ok (Exec.get_apply disk)]
    simp only [hf, hget]
    rw [Exec.bind_error hlift]
  | rebuildPkIndex index =>
    obtain ⟨primaryKeyIndex, hp⟩ := Option.ne_none_iff_exists'.mp he
    refine ⟨error, ?_⟩
    simp only [storageRebuildPkIndex, hp, Exec.bind_ok (Exec.get_apply disk), hf, hget]
    rw [Exec.bind_error hlift]
  | ensureDataFile =>
    obtain ⟨error', hdata⟩ := herror dataFileMessages
    refine ⟨error', ?_⟩
    rw [ensureDataFile, Exec.bind_ok (Exec.get_apply disk)]
    simp only [hf, hget]
    rw [Exec.lift_apply, hdata]

/-- No function both takes the file for an empty table and fails. -/
theorem EntryPoint.Accepts.not_fails {e : EntryPoint} (ha : e.Accepts config schema disk) :
    ¬ e.Fails config schema disk := by
  cases e with
  | ensureDataFile =>
    rintro ⟨error, hf⟩
    have hresult : (.error error : Except ErrorInfo Unit) = .ok () :=
      (congrArg Prod.fst hf).symm.trans ha
    cases hresult
  | printRows selected | printRowsWhereEquals selected whereColumnIndex whereOperator whereValue
  | findMaxIntValue columnIndex | intValueExists columnIndex targetValue | rebuildPkIndex index =>
    rintro ⟨error, hf⟩
    cases (Prod.mk.inj (hf.symm.trans ha)).1

/-- When one function accepts the file and another one fails, they do not judge it alike. -/
theorem not_judgeAlike {among : EntryPoint → Prop} {e e' : EntryPoint} (he : among e)
    (ha : e.Accepts config schema disk) (he' : among e') (hf : e'.Fails config schema disk) :
    ¬ JudgeAlike config schema disk among := by
  rintro (hall | hall)
  · exact (hall e' he').not_fails hf
  · exact ha.not_fails (hall e he)

/-- Every function opens the file of a table with a primary key. -/
theorem EntryPoint.opensFile_of_key (hp : schema.primaryKeyIndex ≠ none) (e : EntryPoint) :
    e.OpensFile schema := by
  cases e with
  | rebuildPkIndex index => exact hp
  | printRows | printRowsWhereEquals | findMaxIntValue | intValueExists | ensureDataFile => trivial

/-- `storage_rebuild_pk_index` has nothing to do for a table without a primary key. -/
theorem rebuildPkIndex_accepts (hp : schema.primaryKeyIndex = none) (index : PkIndex) :
    (EntryPoint.rebuildPkIndex index).Accepts config schema disk := by
  rw [EntryPoint.Accepts]
  simp only [storageRebuildPkIndex, hp]
  rfl

/-- `ensure_data_file` finds no header in a file of zero bytes. -/
theorem ensureDataFile_fails (hf : disk.files (tablePath config schema.tableName) = some []) :
    EntryPoint.ensureDataFile.Fails config schema disk := by
  refine ⟨fileError "기존 데이터 파일 헤더를 읽을 수 없습니다.", ?_⟩
  rw [ensureDataFile, Exec.bind_ok (Exec.get_apply disk)]
  simp only [hf]
  rfl

/-- The readers take a file of zero bytes for an empty table, but `storage_print_rows` prints no
header. -/
theorem readers_nil (hf : disk.files (tablePath config schema.tableName) = some []) :
    (∀ selected, storagePrintRows config schema selected disk = (.ok (), disk)) ∧
      (∀ selected i operator value,
        (EntryPoint.printRowsWhereEquals selected i operator value).Accepts config schema disk) ∧
      (∀ i, (EntryPoint.findMaxIntValue i).Accepts config schema disk) ∧
      (∀ i value, (EntryPoint.intValueExists i value).Accepts config schema disk) ∧
      ∀ index, (EntryPoint.rebuildPkIndex index).Accepts config schema disk := by
  have hempty := linearChecks_empty (Or.inr hf)
  refine ⟨fun selected ↦ ?_, storagePrintRowsWhereEquals_empty (Or.inr hf),
    fun i ↦ (hempty i).1, fun i ↦ (hempty i).2, storageRebuildPkIndex_empty (Or.inr hf)⟩
  rw [storagePrintRows, Exec.bind_ok (Exec.get_apply disk)]
  simp only [hf]
  rfl

/-- The first line of a file that is not of zero bytes and ends after it is its only one. -/
theorem EndsAfterFirstLine.lines_eq (h : EndsAfterFirstLine (some content)) (hne : content ≠ []) :
    ∃ line, lines content = [(0, line)] := by
  obtain ⟨-, line, hline, rfl | rfl⟩ := h content rfl
  · exact ⟨content, records_last lf 0 hline hne⟩
  · exact ⟨line, records_line lf 0 hline⟩

/-- A file that is not of zero bytes and ends after its first line is an empty table for every
function when it is missing or an accepted header; else every function that opens it fails. -/
theorem EndsAfterFirstLine.accepts_or_fails
    (h : EndsAfterFirstLine (disk.files (tablePath config schema.tableName)))
    (hne : disk.files (tablePath config schema.tableName) ≠ some []) :
    let missingOrHeader := disk.files (tablePath config schema.tableName) = none ∨
      ∃ content, disk.files (tablePath config schema.tableName) = some content ∧
        HeaderOk schema content
    missingOrHeader ∧ (∀ e : EntryPoint, e.Accepts config schema disk) ∨
      ¬ missingOrHeader ∧ ∀ e : EntryPoint, e.OpensFile schema → e.Fails config schema disk := by
  intro missingOrHeader
  cases hf : disk.files (tablePath config schema.tableName) with
  | none => exact Or.inl ⟨Or.inl hf, accepts_of_none hf⟩
  | some content =>
    rw [hf] at h hne
    have hn : nul ∉ content := (h content rfl).1
    obtain ⟨line, hl⟩ := h.lines_eq fun hnil ↦ hne (congrArg some hnil)
    have hdata : dataLines content = [] := by
      rw [dataLines, hl]
      rfl
    by_cases hok : HeaderOk schema content
    · exact Or.inl ⟨Or.inr ⟨content, hf, hok⟩, accepts_of_headerOk hf hok hdata⟩
    · right
      refine ⟨?_, fun e he ↦ fails_of_headerCheck hf hn hl (fun messages hc ↦ hok ?_) he⟩
      · rintro (hnone | ⟨content', hf', hok'⟩)
        · cases hf.symm.trans hnone
        · obtain rfl := Option.some.inj (hf.symm.trans hf')
          exact hok hok'
      · refine ⟨hn, (0, line), ?_, headerCheck_eq_ok_iff.mp hc⟩
        rw [hdata, hl]

/-- The functions that open the file of a table judge it alike when it is missing or has one
line. -/
theorem openers_judgeAlike (h : EndsAfterFirstLine (disk.files (tablePath config schema.tableName)))
    (hne : disk.files (tablePath config schema.tableName) ≠ some []) :
    JudgeAlike config schema disk (EntryPoint.OpensFile schema) := by
  rcases h.accepts_or_fails hne with ⟨-, haccepts⟩ | ⟨-, hfails⟩
  · exact Or.inl fun e _ ↦ haccepts e
  · exact Or.inr hfails

/-- The functions judge a file that ends after its first line alike if and only if it is not of
zero bytes and, when the table has no primary key, it is missing or its header is accepted. -/
theorem entryPoints_judgeAlike_iff
    (h : EndsAfterFirstLine (disk.files (tablePath config schema.tableName))) :
    JudgeAlike config schema disk (fun _ ↦ True) ↔
      disk.files (tablePath config schema.tableName) ≠ some [] ∧
        (schema.primaryKeyIndex = none → disk.files (tablePath config schema.tableName) = none ∨
          ∃ content, disk.files (tablePath config schema.tableName) = some content ∧
            HeaderOk schema content) := by
  constructor
  · intro halike
    have hne : disk.files (tablePath config schema.tableName) ≠ some [] := by
      intro hnil
      obtain ⟨-, -, hmax, -⟩ := readers_nil hnil
      exact not_judgeAlike trivial (hmax 0) trivial (ensureDataFile_fails hnil) halike
    refine ⟨hne, fun hp ↦ ?_⟩
    rcases h.accepts_or_fails hne with ⟨hempty, -⟩ | ⟨-, hfails⟩
    · exact hempty
    · have hindex := @rebuildPkIndex_accepts config schema disk hp .create
      have hensure := hfails .ensureDataFile trivial
      exact absurd halike (not_judgeAlike trivial hindex trivial hensure)
  · rintro ⟨hne, hkey⟩
    rcases h.accepts_or_fails hne with ⟨-, haccepts⟩ | ⟨hbad, hfails⟩
    · exact Or.inl fun e _ ↦ haccepts e
    · have hp : schema.primaryKeyIndex ≠ none := fun hp ↦ hbad (hkey hp)
      exact Or.inr fun e _ ↦ hfails e (EntryPoint.opensFile_of_key hp e)

theorem entryPoints_judgeAlike_iff_people :
    JudgeAlike sampleConfig peopleSchema (dataDisk (text "id,age\n")) (fun _ ↦ True) := by
  apply (entryPoints_judgeAlike_iff ?_).mpr
  · rw [dataDisk_files]
    exact ⟨by decide, fun hp ↦ absurd hp (by decide)⟩
  · rw [dataDisk_files]
    intro content hc
    obtain rfl := Option.some.inj hc
    exact ⟨by decide, text "id,age", by decide, Or.inr rfl⟩

/-- A file of zero bytes, and a bad header of a table without a primary key. -/
theorem entryPoints_not_judgeAlike :
    ¬ JudgeAlike sampleConfig peopleSchema (dataDisk []) (fun _ ↦ True) ∧
      ¬ JudgeAlike sampleConfig ⟨text "t", none, [⟨text "name", .string⟩]⟩
        (dataDisk (text "age\n")) (fun _ ↦ True) := by
  constructor
  · obtain ⟨-, -, hmax, -⟩ := @readers_nil sampleConfig peopleSchema (dataDisk []) rfl
    exact not_judgeAlike trivial (hmax 0) trivial (ensureDataFile_fails rfl)
  · have hensure : EntryPoint.ensureDataFile.Fails sampleConfig
        ⟨text "t", none, [⟨text "name", .string⟩]⟩ (dataDisk (text "age\n")) := ⟨_, rfl⟩
    exact not_judgeAlike trivial (rebuildPkIndex_accepts rfl .create) trivial hensure

end SqlProc.Storage
