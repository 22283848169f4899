import SqlProc.Executor.Reopen
import SqlProc.Relational.Session

/-!
# What a process writes

Library `Relational`. Whatever texts processes are given, and whatever their files hold, every
byte of every file stays in its place. They only append to data files of tables, and only whole
rows that fit the schema and that a spreadsheet does not take for formulas.
-/

namespace SqlProc.Relational

open Base Front Index Schema Storage Executor App Support

variable {config : AppConfig} {schema : TableSchema} {w w' : World}

/-! ### Rows -/

/-- A cell of a column: an integer in range, or a string that does not start like a formula. -/
def CellFits (dataType : DataType) (cell : Bytes) : Prop :=
  match dataType with
  | .int => (strtolInt cell).isSome = true
  | .string => ∀ c ∈ cell.head?, c ∉ text "=+-@"

/-- A row with a cell for each column of the schema. -/
structure SafeRow (schema : TableSchema) (row : List Bytes) : Prop where
  length_eq : row.length = schema.columnCount
  valid : ∀ cell ∈ row, ValidCell cell
  fits : ∀ p ∈ schema.columns.zip row, CellFits p.1.type p.2

theorem Takes.cellFits {dataType : DataType} {value : LiteralValue} (h : Takes dataType value) :
    CellFits dataType value.text := by
  cases dataType with
  | int => exact h.2
  | string => exact h.2

/-- Only the id is filled in. -/
theorem fillCells_ok {location : SourceLocation} {i : Nat} {cells : List (Option Bytes)}
    {row : List Bytes} (h : fillCells config schema location i cells w = (.ok row, w')) {j : Nat}
    (hj : cells[j]? = some none) : schema.primaryKeyIndex = some (i + j) := by
  induction cells generalizing i j row w w' with
  | nil => cases hj
  | cons cell cells ih =>
    cases cell with
    | some cell =>
      rw [fillCells] at h
      obtain ⟨rest, w₁, hrest, -⟩ := Exec.bind_eq_ok_iff.mp h
      cases j with
      | zero => cases hj
      | succ j =>
        rw [ih hrest hj, Nat.add_right_comm, Nat.add_assoc]
    | none =>
      rw [fillCells] at h
      split at h
      · next hp =>
        obtain ⟨nextId, w₁, -, h⟩ := Exec.bind_eq_ok_iff.mp h
        obtain ⟨rest, w₂, hrest, -⟩ := Exec.bind_eq_ok_iff.mp h
        cases j with
        | zero => exact hp
        | succ j =>
          rw [ih hrest hj, Nat.add_right_comm, Nat.add_assoc]
      · cases h

/-- The row that a successful INSERT stores is safe. -/
theorem safeRow_insertedRow {statement : InsertStatement} (hv : Valid schema)
    {location : SourceLocation} (ha : (Statement.insert location statement).Accepted)
    (hschema : loadTableSchema w.disk.files config.schemaDir statement.tableName = .ok schema)
    (hrun : (executeInsert config statement w).1 = .ok ()) {id : Int}
    (hid : schema.primaryKeyIndex ≠ none → intMin ≤ id ∧ id ≤ intMax)
    (hvalid : ∀ cell ∈ insertedRow schema statement id, ValidCell cell) :
    SafeRow schema (insertedRow schema statement id) := by
  obtain ⟨hlexical, hcount⟩ := ha
  have hrun := Exec.eq_ok_of_fst hrun
  rw [executeInsert_apply hschema] at hrun
  obtain ⟨row, w₁, hbuild, -⟩ := Exec.bind_eq_ok_iff.mp hrun
  rw [buildInsertRowValues_apply] at hbuild
  cases hc : rowCells schema statement with
  | error e =>
    rw [hc] at hbuild
    cases hbuild
  | ok cells =>
    rw [hc] at hbuild
    obtain ⟨haccepts, rfl⟩ := (rowCells_eq_ok_iff hv hlexical hcount).mp hc
    refine ⟨?_, hvalid, fun p hm ↦ ?_⟩
    · rw [insertedRow, List.length_map, givenCells, List.length_mapIdx]
    · obtain ⟨i, hi⟩ := List.getElem?_of_mem hm
      obtain ⟨hcolumn, hcell⟩ := List.getElem?_zip_eq_some.mp hi
      have hgiven := getElem?_givenCells schema statement i
      rw [hcolumn, Option.map_some] at hgiven
      rw [insertedRow, List.getElem?_map, hgiven, Option.map_some, Option.some.injEq] at hcell
      rw [← hcell]
      cases htext : givenText statement i p.1.name with
      | none =>
        rw [htext] at hgiven
        have hkey := fillCells_ok hbuild hgiven
        rw [Nat.zero_add] at hkey
        have hint := hv.primaryKey i hkey
        rw [hcolumn] at hint
        obtain ⟨hl, hu⟩ := hid (by rw [hkey]; exact Option.some_ne_none _)
        rw [Option.some.inj hint, Option.getD_none]
        unfold CellFits
        rw [strtolInt_snprintfInt hl hu]
        rfl
      | some text =>
        obtain ⟨value, htakes, rfl⟩ := haccepts.takes_of_givenText hv hcount hcolumn htext
        exact htakes.cellFits

/-! ### Files that grow -/

/-- Nothing that was in a file is gone, and a file that has changed is the data file of a table,
to which safe rows were appended. -/
structure AppendsOnly (config : AppConfig) (w w' : World) : Prop where
  kept : ∀ path content, w.disk.files path = some content →
    ∃ more, w'.disk.files path = some (content ++ more)
  grown : ∀ path, w'.disk.files path ≠ w.disk.files path →
    ∃ (schema : TableSchema) (rows : List (List Bytes)),
    loadTableSchema w.disk.files config.schemaDir schema.tableName = .ok schema ∧
    path = tablePath config schema.tableName ∧ (∀ row ∈ rows, SafeRow schema row) ∧
    w'.disk.files path =
      some (appendBase schema (w.disk.files path) ++ rows.flatMap writeCsvRow)

theorem AppendsOnly.of_files_eq (h : w'.disk.files = w.disk.files) : AppendsOnly config w w' := by
  constructor
  · intro path content hc
    exact ⟨[], by rw [h, hc, List.append_nil]⟩
  · intro path hne
    rw [h] at hne
    exact absurd rfl hne

/-- The schema files are no data files. -/
theorem AppendsOnly.loads_iff (h : AppendsOnly config w w') {name : Bytes}
    (hl : name.length < maxNameLen) : loadTableSchema w'.disk.files config.schemaDir name =
      loadTableSchema w.disk.files config.schemaDir name := by
  apply loadTableSchema_congr
  by_contra hne
  obtain ⟨schema, rows, hload, hpath, -⟩ := h.grown _ hne
  exact schemaPath_ne_tablePath hl (length_tableName_of_loadTableSchema hload) hpath

/-- A file that ends with a whole line is not repaired. -/
theorem appendBase_of_terminated {content : Bytes} (h : Terminated lf content) :
    appendBase schema (some content) = content := by
  simp only [appendBase, ensureAppendStartsOnNewLine]
  rcases h with rfl | ⟨ys, rfl⟩
  · rfl
  · simp

theorem terminated_rows {base : Bytes} (h : Terminated lf base) (rows : List (List Bytes)) :
    Terminated lf (base ++ rows.flatMap writeCsvRow) := by
  induction rows generalizing base with
  | nil => rwa [List.flatMap_nil, List.append_nil]
  | cons row rows ih =>
    rw [List.flatMap_cons, ← List.append_assoc]
    apply ih
    exact Or.inr
      ⟨base ++ joinFields (row.map writeCsvField), by rw [writeCsvRow, List.append_assoc]⟩

theorem AppendsOnly.trans {w₁ w₂ : World} (h : AppendsOnly config w w₁)
    (h' : AppendsOnly config w₁ w₂) : AppendsOnly config w w₂ := by
  constructor
  · intro path content hc
    obtain ⟨more, hc₁⟩ := h.kept path content hc
    obtain ⟨more', hc₂⟩ := h'.kept path _ hc₁
    exact ⟨more ++ more', by rw [hc₂, List.append_assoc]⟩
  · intro path hne
    by_cases hfirst : w₁.disk.files path = w.disk.files path
    · obtain ⟨schema, rows, hload, hpath, hrows, hfile⟩ := h'.grown path (by rwa [hfirst])
      rw [h.loads_iff (length_tableName_of_loadTableSchema hload)] at hload
      rw [hfirst] at hfile
      exact ⟨schema, rows, hload, hpath, hrows, hfile⟩
    · obtain ⟨schema, rows, hload, hpath, hrows, hfile⟩ := h.grown path hfirst
      by_cases hsecond : w₂.disk.files path = w₁.disk.files path
      · exact ⟨schema, rows, hload, hpath, hrows, by rw [hsecond, hfile]⟩
      · obtain ⟨schema', rows', hload', hpath', hrows', hfile'⟩ := h'.grown path hsecond
        have hl := length_tableName_of_loadTableSchema hload
        have hl' := length_tableName_of_loadTableSchema hload'
        have hname := tablePath_injective hl hl' (hpath.symm.trans hpath')
        rw [h.loads_iff hl', ← hname, hload] at hload'
        obtain rfl := Except.ok.inj hload'
        refine ⟨schema, rows ++ rows', hload, hpath, List.forall_mem_append.mpr ⟨hrows, hrows'⟩, ?_⟩
        have hend := terminated_rows (terminated_appendBase schema (w.disk.files path)) rows
        rw [hfile', hfile, appendBase_of_terminated hend, List.append_assoc, List.flatMap_append]

/-! ### Statements -/

/-- Every slot of a table with a key has a next id in range, past its keys. -/
def SoundSlots (config : AppConfig) (w : World) : Prop :=
  ∀ schema : TableSchema,
    loadTableSchema w.disk.files config.schemaDir schema.tableName = .ok schema →
      Sound config schema w

theorem soundSlots_fresh (h : w.tableStates = []) : SoundSlots config w := by
  intro schema hload
  refine ⟨hload, fun _ slot hs ↦ ?_⟩
  rw [World.slot, h] at hs
  cases hs

/-- The row that is appended by one INSERT. -/
theorem appendsOnly_appended (hschema : loadTableSchema w.disk.files config.schemaDir
      schema.tableName = .ok schema) {row : List Bytes} (hrow : SafeRow schema row)
    (htouch : Touches config schema.tableName w w')
    (hfile : w'.file config schema.tableName = some (appended config schema w row)) :
    AppendsOnly config w w' := by
  have hfile' : w'.disk.files (tablePath config schema.tableName) =
      some (appendBase schema (w.disk.files (tablePath config schema.tableName)) ++
        writeCsvRow row) := hfile
  constructor
  · intro path content hc
    by_cases hpath : path = tablePath config schema.tableName
    · subst hpath
      rw [hc] at hfile'
      obtain ⟨more, hmore⟩ := isPrefix_ensureAppend content
      refine ⟨more ++ writeCsvRow row, ?_⟩
      rw [hfile', appendBase, ← hmore, List.append_assoc]
    · exact ⟨[], by rw [htouch.files path hpath, hc, List.append_nil]⟩
  · intro path hne
    have hpath : path = tablePath config schema.tableName := by
      by_contra hpath
      exact hne (htouch.files path hpath)
    subst hpath
    refine ⟨schema, [row], hschema, rfl, List.forall_mem_singleton.mpr hrow, ?_⟩
    rw [hfile', List.flatMap_singleton]

theorem appendsOnly_executeInsert {statement : InsertStatement} {location : SourceLocation}
    (ha : (Statement.insert location statement).Accepted) (h : SoundSlots config w) :
    AppendsOnly config w (executeInsert config statement w).2 := by
  obtain ⟨hl, hcount⟩ := ha
  have htouch := touches_executeStatement config (length_statementTable hl) w
  have hl : statement.Lexical := hl
  cases hschema : loadTableSchema w.disk.files config.schemaDir statement.tableName with
  | error e =>
    rw [executeInsert, Exec.bind_ok (Exec.get_apply w),
      Exec.bind_error (by rw [Exec.lift_apply, hschema])]
    exact .of_files_eq rfl
  | ok schema =>
    have hname : schema.tableName = statement.tableName := by
      rw [loadTableSchema_tableName hschema, snprintfStr_of_lt hl.length_tableName]
    have hload : loadTableSchema w.disk.files config.schemaDir schema.tableName = .ok schema := by
      rw [hname]
      exact hschema
    have hsound := h schema hload
    have hafter := fileAfter_executeInsert hsound hl hname.symm
    rw [statementTable, ← hname] at htouch
    generalize hresult : (executeInsert config statement w).1 = result at hafter
    generalize hfile : (executeInsert config statement w).2.file config schema.tableName = file
      at hafter
    cases hafter with
    | kept e =>
      apply AppendsOnly.of_files_eq
      funext path
      by_cases hpath : path = tablePath config schema.tableName
      · rw [hpath]
        exact hfile
      · exact htouch.files path hpath
    | appended row hrow happ hlen hvalid =>
      subst hrow
      refine appendsOnly_appended hload ?_ htouch hfile
      refine safeRow_insertedRow (loadTableSchema_valid hload).1 ⟨hl, hcount⟩ hschema hresult ?_
        hvalid
      intro hkey
      obtain ⟨primaryKeyIndex, hp⟩ := Option.ne_none_iff_exists'.mp hkey
      unfold nextAutoId
      cases hs : obtainSlot config schema w with
      | none => exact ⟨by decide, by decide⟩
      | some slot => exact (nextIdOk_obtainSlot hp (hsound.slot hkey) hs).range

/-- The files are the same. -/
def LeavesFiles (w w' : World) : Prop := SameFiles w.disk w'.disk

instance : IsPreorder World LeavesFiles where
  refl w := refl_of SameFiles w.disk
  trans _ _ _ h h' := trans_of SameFiles h h'

theorem leavesFiles_executeSelect (config : AppConfig) (statement : SelectStatement) (w : World) :
    LeavesFiles w (executeSelect config statement w).2 := by
  cases hschema : loadTableSchema w.disk.files config.schemaDir statement.tableName with
  | error e =>
    rw [executeSelect, Exec.bind_ok (Exec.get_apply w),
      Exec.bind_error (by rw [Exec.lift_apply, hschema])]
    exact refl_of LeavesFiles w
  | ok schema =>
    refine within_executeSelect (fun w ↦ ?_) (fun x hx w ↦ hx w.disk) hschema
    cases hs : obtainSlot config schema w with
    | none =>
      obtain ⟨e, he⟩ := getTableStateIndex_of_none hs
      rw [he]
      exact refl_of LeavesFiles w
    | some slot =>
      obtain ⟨i, hi, -⟩ := getTableStateIndex_of_some hs
      rw [hi, LeavesFiles, opened_disk]
      exact refl_of SameFiles w.disk

/-! ### Runs -/

/-- From sound slots the process appends only, and keeps its slots sound. -/
def KeepsAppending (config : AppConfig) (w w' : World) : Prop :=
  SoundSlots config w → SoundSlots config w' ∧ AppendsOnly config w w'

instance (config : AppConfig) : IsPreorder World (KeepsAppending config) where
  refl _ h := ⟨h, .of_files_eq rfl⟩
  trans _ _ _ h h' hw :=
    ⟨(h' (h hw).1).1, (h hw).2.trans (h' (h hw).1).2⟩

/-- One statement. -/
theorem keepsAppending_executeStatement {statement : Statement} (ha : statement.Accepted) :
    (executeStatement config statement).Within (KeepsAppending config) := by
  intro w hw
  have happends : AppendsOnly config w (executeStatement config statement w).2 := by
    cases statement with
    | insert location statement => exact appendsOnly_executeInsert ha hw
    | select location statement =>
      exact .of_files_eq (leavesFiles_executeSelect config statement w)
  refine ⟨fun schema hload ↦ ?_, happends⟩
  have hl := length_tableName_of_loadTableSchema hload
  rw [happends.loads_iff hl] at hload
  exact (hw schema hload).executeStatement ha.1

/-- One text. -/
theorem keepsAppending_answerText (config : AppConfig) (w : World) (sqlText : Bytes) :
    KeepsAppending config w (answerText config w sqlText).2 := by
  simp only [answerText, runSqlText_apply]
  cases hprogram : tokenizeSql sqlText >>= parseProgram with
  | error e => exact refl_of (KeepsAppending config) w
  | ok program =>
    have hrun : KeepsAppending config w (runPrograms config [program] w) := by
      apply runPrograms_within
      intro program' hm statement hs
      rw [List.mem_singleton.mp hm] at hs
      exact keepsAppending_executeStatement (IsParsed.accepted ⟨sqlText, program, hprogram, hs⟩)
    exact hrun

/-- The end of a process. -/
theorem keepsAppending_reopened (config : AppConfig) (w : World) :
    KeepsAppending config w w.reopened :=
  fun _ ↦ ⟨soundSlots_fresh rfl, .of_files_eq rfl⟩

/-- Processes one after the other append only, whatever texts they are given and whatever the
files hold. -/
theorem runLives_appendsOnly (config : AppConfig) (disk : Disk) (lives : List (List Bytes)) :
    AppendsOnly config ⟨disk, []⟩
      (runLives (answerText config) World.reopened lives ⟨disk, []⟩).2 :=
  (runLives_within (keepsAppending_answerText config) (keepsAppending_reopened config) lives
    ⟨disk, []⟩ (soundSlots_fresh rfl)).2

end SqlProc.Relational
