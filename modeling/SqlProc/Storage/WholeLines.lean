import SqlProc.Storage.Append
import SqlProc.Storage.Print
import SqlProc.Storage.Rebuild

/-!
# Rows are whole lines

Library `Storage`. On a file with a valid header the scans of `src/storage.c` hand whole lines
to `parse_csv_line`, in the order of the file and with the positions where they start, and fail
at the first line that does not fit the buffer. A row that `write_csv_row` wrote always fits.
-/

namespace SqlProc.Storage

open Base Front Index Schema Support

/-- The error at a line that does not fit the buffer. -/
abbrev rowTooLong : ErrorInfo := fileError "CSV 행이 너무 깁니다."

/-- The cells of a line that has the right length and the right number of values. -/
structure Decoded (schema : TableSchema) (line : Bytes) (values : List Bytes) : Prop where
  length_le : line.length ≤ 2063
  parse : parseCsvLine line = some values
  count : values.length = schema.columnCount

section Processes

variable {σ : Type} (schema : TableSchema) (visit : Int → List Bytes → Exec σ Bool)

/-- A scan that starts in a state processes rows, one for each of the first lines, and ends
with a result in another state. -/
inductive Processes : σ → List (Nat × Bytes) → List (Nat × List Bytes) →
    Except ErrorInfo Unit → σ → Prop
  | finished (s : σ) : Processes s [] [] (.ok ()) s
  | tooLong (s : σ) {position : Nat} {line : Bytes} (later : List (Nat × Bytes))
      (h : 2064 ≤ line.length) :
      Processes s ((position, line) :: later) [] (.error rowTooLong) s
  | malformed (s : σ) {position : Nat} {line : Bytes} (later : List (Nat × Bytes))
      (hl : line.length ≤ 2063) (h : parseCsvLine line = none) :
      Processes s ((position, line) :: later) []
        (.error (fileError "CSV 행을 읽는 중 오류가 발생했습니다.")) s
  | miscounted (s : σ) {position : Nat} {line : Bytes} {values : List Bytes}
      (later : List (Nat × Bytes)) (hl : line.length ≤ 2063)
      (hp : parseCsvLine line = some values) (h : values.length ≠ schema.columnCount) :
      Processes s ((position, line) :: later) []
        (.error (fileError "CSV 컬럼 수가 스키마와 맞지 않습니다.")) s
  | failed {s t : σ} {position : Nat} {line : Bytes} {values : List Bytes} {e : ErrorInfo}
      (later : List (Nat × Bytes)) (hd : Decoded schema line values)
      (h : visit position values s = (.error e, t)) :
      Processes s ((position, line) :: later) [(position, values)] (.error e) t
  | stopped {s t : σ} {position : Nat} {line : Bytes} {values : List Bytes}
      (later : List (Nat × Bytes)) (hd : Decoded schema line values)
      (h : visit position values s = (.ok false, t)) :
      Processes s ((position, line) :: later) [(position, values)] (.ok ()) t
  | next {s t u : σ} {position : Nat} {line : Bytes} {values : List Bytes}
      {later : List (Nat × Bytes)} {rows : List (Nat × List Bytes)} {r : Except ErrorInfo Unit}
      (hd : Decoded schema line values) (h : visit position values s = (.ok true, t))
      (ht : Processes t later rows r u) :
      Processes s ((position, line) :: later) ((position, values) :: rows) r u

variable {schema visit}

theorem fitsLine_eq_true_iff {line : Bytes} : fitsLine line = true ↔ line.length ≤ 2063 := by
  simp only [fitsLine, maxCsvRowLen, maxCsvFieldLen, maxStringTextLen, maxValueLen, maxColumns,
    decide_eq_true_eq]
  omega

/-- The loop processes the rows of whole lines. -/
theorem exists_processes_forEachLine (ls : List (Nat × Bytes)) (s : σ) :
    ∃ rows, Processes schema visit s ls rows (forEachLine schema visit ls s).1
      (forEachLine schema visit ls s).2 := by
  induction ls generalizing s with
  | nil => exact ⟨[], .finished s⟩
  | cons p later ih =>
    obtain ⟨position, line⟩ := p
    rw [forEachLine, Exec.bind_apply, Exec.lift_apply, decodeRow, readRow]
    by_cases hf : fitsLine line = true
    · have hl := fitsLine_eq_true_iff.mp hf
      simp only [hf, Bool.not_true, Bool.false_eq_true, if_false]
      cases hp : parseCsvLine line with
      | none => exact ⟨[], .malformed s later hl hp⟩
      | some values =>
        by_cases hc : values.length ≠ schema.columnCount
        · simp only [if_pos hc]
          exact ⟨[], .miscounted s later hl hp hc⟩
        · have hd : Decoded schema line values := ⟨hl, hp, not_not.mp hc⟩
          simp only [if_neg hc]
          rw [Exec.bind_apply]
          cases hv : visit position values s with
          | mk r t =>
            cases r with
            | error e => exact ⟨_, .failed later hd hv⟩
            | ok goOn =>
              cases goOn with
              | false => exact ⟨_, .stopped later hd hv⟩
              | true =>
                obtain ⟨rows, hrows⟩ := ih t
                exact ⟨_, .next hd hv hrows⟩
    · have hl : 2064 ≤ line.length := Nat.lt_of_not_le (mt fitsLine_eq_true_iff.mpr hf)
      simp only [hf, Bool.not_false, if_true]
      exact ⟨[], .tooLong s later hl⟩

/-- The body of a loop never stops it but by an error of its own. -/
def NeverStops (visit : Int → List Bytes → Exec σ Bool) : Prop :=
  ∀ offset values s, (visit offset values s).1 = .ok true ∨
    ∃ e ≠ rowTooLong, (visit offset values s).1 = .error e

theorem NeverStops.not_stopped (hv : NeverStops visit) {offset : Int} {values : List Bytes}
    {s t : σ} : visit offset values s ≠ (.ok false, t) := by
  intro h
  rcases hv offset values s with hc | ⟨e, -, hc⟩
  · rw [h] at hc
    cases hc
  · rw [h] at hc
    cases hc

theorem NeverStops.not_tooLong (hv : NeverStops visit) {offset : Int} {values : List Bytes}
    {s t : σ} : visit offset values s ≠ (.error rowTooLong, t) := by
  intro h
  rcases hv offset values s with hc | ⟨e, hne, hc⟩
  · rw [h] at hc
    cases hc
  · rw [h] at hc
    exact hne (Except.error.inj hc).symm

/-- A scan that no visit stops succeeds only when every line fits. -/
theorem Processes.length_le (hv : NeverStops visit) {s t : σ} {ls : List (Nat × Bytes)}
    {rows : List (Nat × List Bytes)} (h : Processes schema visit s ls rows (.ok ()) t) :
    ∀ p ∈ ls, p.2.length ≤ 2063 := by
  generalize hr : (Except.ok () : Except ErrorInfo Unit) = r at h
  induction h with
  | finished => simp
  | tooLong => cases hr
  | malformed => cases hr
  | miscounted => cases hr
  | failed => cases hr
  | stopped later hd h => exact absurd h hv.not_stopped
  | next hd h ht ih => exact List.forall_mem_cons.mpr ⟨hd.length_le, ih hr⟩

/-- A scan reports a line that does not fit only when there is one. -/
theorem Processes.exists_length_le (hv : NeverStops visit) {s t : σ} {ls : List (Nat × Bytes)}
    {rows : List (Nat × List Bytes)}
    (h : Processes schema visit s ls rows (.error rowTooLong) t) :
    ∃ p ∈ ls, 2064 ≤ p.2.length := by
  generalize hr : (Except.error rowTooLong : Except ErrorInfo Unit) = r at h
  induction h with
  | finished => cases hr
  | tooLong s later h => exact ⟨_, List.mem_cons_self, h⟩
  | malformed => exact absurd (Except.error.inj hr) (by decide)
  | miscounted => exact absurd (Except.error.inj hr) (by decide)
  | failed later hd h =>
    cases hr
    exact absurd h hv.not_tooLong
  | stopped => cases hr
  | next hd h ht ih =>
    obtain ⟨p, hp, hl⟩ := ih hr
    exact ⟨p, List.mem_cons_of_mem _ hp, hl⟩

/-- What a scan of lines has to do: process whole lines, succeed only when all fit, and report
a line that does not fit only when there is one. -/
structure ScansLines (schema : TableSchema) (visit : Int → List Bytes → Exec σ Bool) (start : σ)
    (ls : List (Nat × Bytes)) (r : Except ErrorInfo Unit) (t : σ) : Prop where
  processes : ∃ rows, Processes schema visit start ls rows r t
  length_le : r = .ok () → ∀ p ∈ ls, p.2.length ≤ 2063
  exists_length_le : r = .error rowTooLong → ∃ p ∈ ls, 2064 ≤ p.2.length

/-- The loop over the lines scans them. -/
theorem scansLines_forEachLine (hv : NeverStops visit) (ls : List (Nat × Bytes)) (s : σ) :
    ScansLines schema visit s ls (forEachLine schema visit ls s).1
      (forEachLine schema visit ls s).2 := by
  obtain ⟨rows, hrows⟩ : ∃ rows, Processes schema visit s ls rows _ _ :=
    exists_processes_forEachLine ls s
  refine ⟨⟨rows, hrows⟩, fun h ↦ ?_, fun h ↦ ?_⟩
  · rw [h] at hrows
    exact hrows.length_le hv
  · rw [h] at hrows
    exact hrows.exists_length_le hv

end Processes

/-! ### The three scans -/

/-- The body of the loop of `storage_print_rows`. -/
def printVisit (selected : List Nat) (_ : Int) (values : List Bytes) : Exec Disk Bool := do
  printLine (selectedText values selected)
  pure true

/-- The body of the loop of `storage_print_rows_where_equals`. -/
def printWhereVisit (schema : TableSchema) (selected : List Nat) (whereColumnIndex : Nat)
    (whereOperator : WhereOperator) (whereValue : LiteralValue) (_ : Int) (values : List Bytes) :
    Exec Disk Bool :=
  match csvValueMatchesWhere schema values whereColumnIndex whereOperator whereValue with
  | none => Exec.fail (fileError "CSV 조건 값을 비교할 수 없습니다.")
  | some false => pure true
  | some true => do
    printLine (selectedText values selected)
    pure true

theorem neverStops_printVisit (selected : List Nat) : NeverStops (printVisit selected) :=
  fun _ _ _ ↦ Or.inl rfl

theorem neverStops_printWhereVisit (schema : TableSchema) (selected : List Nat)
    (whereColumnIndex : Nat) (whereOperator : WhereOperator) (whereValue : LiteralValue) :
    NeverStops (printWhereVisit schema selected whereColumnIndex whereOperator whereValue) := by
  intro offset values disk
  unfold printWhereVisit
  cases csvValueMatchesWhere schema values whereColumnIndex whereOperator whereValue with
  | none => exact Or.inr ⟨_, by decide, rfl⟩
  | some keep =>
    cases keep with
    | false => exact Or.inl rfl
    | true => exact Or.inl rfl

theorem neverStops_rebuildVisit (primaryKeyIndex : Nat) :
    NeverStops (rebuildVisit primaryKeyIndex) := by
  intro offset values state
  rw [rebuildVisit, Exec.bind_ok (Exec.get_apply state)]
  cases strtolInt (values.getD primaryKeyIndex []) with
  | none => exact Or.inr ⟨_, by decide, rfl⟩
  | some parsedValue =>
    simp only
    split
    · exact Or.inr ⟨_, by decide, rfl⟩
    · split
      · exact Or.inr ⟨_, by decide, rfl⟩
      · exact Or.inl rfl

variable {config : AppConfig} {schema : TableSchema} {disk : Disk} {content : Bytes}

/-- `storage_print_rows` on a file with a valid header is its loop over the lines. -/
theorem storagePrintRows_eq (hf : disk.files (tablePath config schema.tableName) = some content)
    (hh : HeaderOk schema content) (selected : List Nat) :
    storagePrintRows config schema selected disk =
      forEachLine schema (printVisit selected) (dataLines content)
        (disk.print [headerOutput schema selected]) := by
  obtain ⟨line, file, hget, hcheck, -, hscan⟩ := hh.fgets
  rw [storagePrintRows, Exec.bind_ok (Exec.get_apply disk)]
  simp only [hf, hget]
  rw [Exec.bind_ok (by rw [Exec.lift_apply, hcheck]), Exec.bind_ok (printSelectedHeader_apply ..),
    hscan]
  rfl

/-- `storage_print_rows_where_equals` on a file with a valid header is its loop over the
lines. -/
theorem storagePrintRowsWhereEquals_eq
    (hf : disk.files (tablePath config schema.tableName) = some content)
    (hh : HeaderOk schema content) (selected : List Nat) (whereColumnIndex : Nat)
    (whereOperator : WhereOperator) (whereValue : LiteralValue) :
    storagePrintRowsWhereEquals config schema selected whereColumnIndex whereOperator whereValue
      disk = forEachLine schema
        (printWhereVisit schema selected whereColumnIndex whereOperator whereValue)
        (dataLines content) (disk.print [headerOutput schema selected]) := by
  obtain ⟨line, file, hget, hcheck, -, hscan⟩ := hh.fgets
  rw [storagePrintRowsWhereEquals, Exec.bind_ok (Exec.get_apply disk)]
  simp only [hf, hget]
  rw [Exec.bind_ok (by rw [Exec.lift_apply, hcheck]), Exec.bind_ok (printSelectedHeader_apply ..),
    hscan]
  rfl

/-- `storage_rebuild_pk_index` on a file with a valid header is its loop over the lines. -/
theorem storageRebuildPkIndex_eq {primaryKeyIndex : Nat}
    (hp : schema.primaryKeyIndex = some primaryKeyIndex)
    (hf : disk.files (tablePath config schema.tableName) = some content)
    (hh : HeaderOk schema content) (index : PkIndex) :
    storageRebuildPkIndex config schema index disk =
      match forEachLine schema (rebuildVisit primaryKeyIndex) (dataLines content)
        ⟨index, 0, false⟩ with
      | (.error e, _) => (.error e, disk)
      | (.ok (), state) => (.ok (state.index, state.maxValue), disk) := by
  obtain ⟨line, file, hget, hcheck, -, hscan⟩ := hh.fgets
  simp only [storageRebuildPkIndex, hp, Exec.bind_ok (Exec.get_apply disk), hf, hget]
  rw [Exec.bind_ok (by rw [Exec.lift_apply, hcheck]), hscan]
  generalize forEachLine schema (rebuildVisit primaryKeyIndex) (dataLines content)
    ⟨index, 0, false⟩ = out
  obtain ⟨r, state⟩ := out
  cases r with
  | error e => rfl
  | ok u => rfl

/-- The rows that the scans process are the lines of the file after the header, whole, in order
and at the positions where they start. -/
theorem scans_wholeLines
    (hf : disk.files (tablePath config schema.tableName) = some content)
    (hh : HeaderOk schema content) :
    ∃ header ls, CutsInto lf 0 content (header :: ls) ∧
      (∀ selected, ScansLines schema (printVisit selected)
        (disk.print [headerOutput schema selected]) ls
        (storagePrintRows config schema selected disk).1
        (storagePrintRows config schema selected disk).2) ∧
      (∀ selected whereColumnIndex whereOperator whereValue, ScansLines schema
        (printWhereVisit schema selected whereColumnIndex whereOperator whereValue)
        (disk.print [headerOutput schema selected]) ls
        (storagePrintRowsWhereEquals config schema selected whereColumnIndex whereOperator
          whereValue disk).1
        (storagePrintRowsWhereEquals config schema selected whereColumnIndex whereOperator
          whereValue disk).2) ∧
      ∀ primaryKeyIndex index, schema.primaryKeyIndex = some primaryKeyIndex →
        ∃ r state, ScansLines schema (rebuildVisit primaryKeyIndex) ⟨index, 0, false⟩ ls r state ∧
          storageRebuildPkIndex config schema index disk =
            (r.map fun _ ↦ (state.index, state.maxValue), disk) := by
  obtain ⟨header, hl, -⟩ := hh.header
  refine ⟨header, dataLines content, cutsInto_iff.mpr hl.symm, fun selected ↦ ?_,
    fun selected whereColumnIndex whereOperator whereValue ↦ ?_, fun primaryKeyIndex index hp ↦ ?_⟩
  · rw [storagePrintRows_eq hf hh]
    exact scansLines_forEachLine (neverStops_printVisit selected) _ _
  · rw [storagePrintRowsWhereEquals_eq hf hh]
    exact scansLines_forEachLine
      (neverStops_printWhereVisit schema selected whereColumnIndex whereOperator whereValue) _ _
  · have hscan : ScansLines schema _ _ _ _ _ := scansLines_forEachLine
      (neverStops_rebuildVisit primaryKeyIndex) (dataLines content) ⟨index, 0, false⟩
    refine ⟨_, _, hscan, ?_⟩
    rw [storageRebuildPkIndex_eq hp hf hh]
    generalize forEachLine schema (rebuildVisit primaryKeyIndex) (dataLines content)
      ⟨index, 0, false⟩ = out
    obtain ⟨r, state⟩ := out
    cases r with
    | error e => rfl
    | ok u => rfl

/-- The table `t` with a key and a name. -/
def peopleSchema : TableSchema :=
  ⟨text "t", some 0, [⟨text "id", .int⟩, ⟨text "name", .string⟩]⟩

/-- The disk of a process when `d/t.csv` is the only file. -/
def dataDisk (content : Bytes) : Disk :=
  ⟨fun path ↦ if path = text "d/t.csv" then some content else none, []⟩

theorem dataDisk_files (content : Bytes) :
    (dataDisk content).files (tablePath sampleConfig peopleSchema.tableName) = some content := rfl

theorem scans_wholeLines_people :
    ∃ header ls rows, CutsInto lf 0 (text "id,name\n2,b\n1,a") (header :: ls) ∧
      Processes peopleSchema (printVisit [1])
        ((dataDisk (text "id,name\n2,b\n1,a")).print [headerOutput peopleSchema [1]]) ls rows
        (storagePrintRows sampleConfig peopleSchema [1]
          (dataDisk (text "id,name\n2,b\n1,a"))).1
        (storagePrintRows sampleConfig peopleSchema [1]
          (dataDisk (text "id,name\n2,b\n1,a"))).2 := by
  have hh : HeaderOk peopleSchema (text "id,name\n2,b\n1,a") :=
    ⟨by decide, (0, text "id,name"), by decide, by decide, by decide⟩
  obtain ⟨header, ls, hc, hprint, -⟩ := scans_wholeLines (dataDisk_files _) hh
  obtain ⟨rows, hrows⟩ := (hprint [1]).processes
  exact ⟨header, ls, rows, hc, hrows⟩

/-! ### A written row -/

/-- A written row is one line that one `fgets` reads whole, and it decodes to its values. -/
theorem writeCsvRow_readsBack {values : List Bytes} (hne : values ≠ [])
    (hl : values.length ≤ maxColumns) (hv : ∀ v ∈ values, ValidCell v) :
    (∃ line, writeCsvRow values = line ++ [lf] ∧ lf ∉ line) ∧
      (writeCsvRow values).length ≤ maxCsvRowLen - 1 ∧
      (∀ before later, ∃ file', fgets maxCsvRowLen
          ⟨before ++ writeCsvRow values ++ later, before.length, false⟩ =
            some (writeCsvRow values, file') ∧
        file'.position = before.length + (writeCsvRow values).length ∧
        validateLineLength (writeCsvRow values) maxCsvRowLen file' = true) ∧
      parseCsvLine (writeCsvRow values) = some values := by
  obtain ⟨hone, hlen⟩ := fields_oneLine hv hl
  refine ⟨⟨_, rfl, hone.lf_notMem⟩, ?_, fun before later ↦ ?_, ?_⟩
  · rw [writeCsvRow, List.length_append, List.length_singleton]
    exact hlen
  · let file : CFile := ⟨before ++ writeCsvRow values ++ later, before.length, false⟩
    have hline : LineAt file.content file.position (joinFields (values.map writeCsvField))
        (lf :: later) := by
      refine ⟨?_, hone.lf_notMem, hone.nul_notMem, Or.inr ⟨later, rfl⟩⟩
      change (before ++ writeCsvRow values ++ later).drop before.length = _
      rw [List.append_assoc, List.drop_left, writeCsvRow, List.append_assoc,
        List.singleton_append]
    have heof : file.eof = false := rfl
    refine ⟨_, fgets_of_lt hline hlen heof, rfl, ?_⟩
    simp [writeCsvRow, validateLineLength]
  · rw [writeCsvRow, parseCsvLine_append_lf, parseCsvLine_fields hv hne hl]

/-- The widest row. -/
theorem writeCsvRow_readsBack_quotes :
    parseCsvLine (writeCsvRow (List.replicate 16 (List.replicate 63 dquote))) =
      some (List.replicate 16 (List.replicate 63 dquote)) := by
  refine (writeCsvRow_readsBack (by simp) (by simp) fun v hv ↦ ?_).2.2.2
  rw [List.eq_of_mem_replicate hv]
  exact ⟨⟨by decide, by decide, by decide⟩, by decide⟩

end SqlProc.Storage
