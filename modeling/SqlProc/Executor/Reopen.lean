import SqlProc.Executor.Select

/-!
# A file in a new process

Library `Executor`. A new process rebuilds the index of a table from the file that another
process has created and filled. It can do so unless a column name holds a double quote or a
row has the id `INT_MAX`, and then it answers like the process that wrote the file.
-/

namespace SqlProc.Executor

open Base Front Index Schema Storage Support

variable {config : AppConfig} {schema : TableSchema} {primaryKeyIndex : Nat} {w w₀ : World}
  {programs : List SqlProgram} {content : Bytes} {rows : List (Nat × List Bytes)}

/-- A new process on the same files. -/
def World.reopened (w : World) : World := ⟨⟨w.disk.files, []⟩, []⟩

/-! ### Files that the program has created -/

/-- The table has no file yet, or a file that starts with the header that the program writes,
and a slot. -/
structure Created (schema : TableSchema) (v : TableView) : Prop where
  headed : ∀ content, v.file = some content → headerLine schema <+: content
  slot : v.file.isSome = true → v.slot.isSome = true

/-- A table without a file. -/
theorem created_empty {schema : TableSchema} {slot : Option TableRuntimeState} :
    Created schema ⟨none, slot⟩ where
  headed _ h := by cases h
  slot h := by cases h

theorem isPrefix_ensureAppend (content : Bytes) :
    content <+: ensureAppendStartsOnNewLine content := by
  unfold ensureAppendStartsOnNewLine
  split
  · exact List.prefix_rfl
  · split
    · exact List.prefix_append ..
    · exact List.prefix_rfl

/-- Every step keeps the header in its place. -/
theorem TableStep.created {v v' : TableView} (h : TableStep config schema primaryKeyIndex v v')
    (hv : Created schema v) : Created schema v' := by
  cases h with
  | opened w slot hf => exact ⟨hv.headed, fun _ ↦ rfl⟩
  | allocated file slot hm => exact ⟨hv.headed, fun _ ↦ rfl⟩
  | stored file slot row key index hi hk happ hrow =>
    refine ⟨?_, fun _ ↦ rfl⟩
    rintro _ ⟨⟩
    refine List.IsPrefix.trans ?_ (List.prefix_append ..)
    cases file with
    | none => exact List.prefix_rfl
    | some content => exact (hv.headed content rfl).trans (isPrefix_ensureAppend content)

/-- A file that starts with the written header has an accepted header unless a column name
holds a double quote. -/
theorem headerOk_iff_of_headed (hv : Valid schema) (hne : schema.columns ≠ [])
    (hn : nul ∉ content) (h : headerLine schema <+: content) :
    HeaderOk schema content ↔ ∀ column ∈ schema.columns, dquote ∉ column.name := by
  obtain ⟨later, rfl⟩ := h
  constructor
  · intro hh
    obtain ⟨header, hl, -, hparse⟩ := hh.header
    rw [lines, records_append_of_terminated lf 0 (terminated_headerLine schema), ← lines,
      lines_headerLine hv] at hl
    obtain ⟨rfl, -⟩ := List.cons.inj hl
    exact (parseCsvLine_headerText_iff hv hne).mp hparse
  · intro hq
    apply (headerOk_headerLine hv hne hq).append (terminated_headerLine schema)
    exact fun hm ↦ hn (List.mem_append_right _ hm)

/-! ### The slot in the new process -/

/-- The rows of a file without a double quote in the names and without the id `INT_MAX`. -/
structure Reopenable (schema : TableSchema) (primaryKeyIndex : Nat) (content : Bytes) : Prop where
  names : ∀ column ∈ schema.columns, dquote ∉ column.name
  ids : ∀ position, ¬ IsDataRow schema primaryKeyIndex content position intMax

/-- The largest id of a table is `INT_MAX` exactly when a row has that id. -/
theorem maxKey_eq_intMax_iff {index : PkIndex} {maxId : Int} (h : MaxKey index maxId)
    (hu : maxId ≤ intMax) : maxId = intMax ↔ ∃ offset, index.search intMax = some offset := by
  simp only [PkIndex.search_eq, findEntry_eq_some_iff index.sortedKeys_entries]
  constructor
  · rintro rfl
    rcases h.attained with ⟨-, h0⟩ | ⟨⟨key, offset⟩, hm, rfl⟩
    · exact absurd h0 (by decide)
    · exact ⟨offset, hm⟩
  · rintro ⟨offset, hm⟩
    exact Int.le_antisymm hu (h.le _ hm)

/-- A new process gets a slot for a file with accepted rows exactly when it is reopenable. -/
theorem isSome_obtainSlot_reopened_iff
    (hschema : loadTableSchema w.disk.files config.schemaDir schema.tableName = .ok schema)
    (hp : schema.primaryKeyIndex = some primaryKeyIndex)
    (hf : w.file config schema.tableName = some content)
    (hn : nul ∉ content) (hheaded : headerLine schema <+: content)
    (hr : TableRows schema content rows) (hu : UniqueIds primaryKeyIndex rows) :
    (obtainSlot config schema w.reopened).isSome = true ↔
      Reopenable schema primaryKeyIndex content := by
  obtain ⟨hv, hne⟩ := loadTableSchema_valid hschema
  have hcontent : content ≠ [] := by
    rintro rfl
    exact absurd (List.prefix_nil.mp hheaded) (by simp [headerLine])
  have hf' : w.reopened.disk.files (tablePath config schema.tableName) = some content := hf
  have hobtain : obtainSlot config schema w.reopened = freshSlot config schema w.reopened := rfl
  have hids : ∀ {index : PkIndex} {maxId : Int}, storageRebuildPkIndex config schema .create
      w.reopened.disk = (.ok (index, maxId), w.reopened.disk) →
        (maxId = intMax ↔
          ∃ position, IsDataRow schema primaryKeyIndex content position intMax) := by
    intro index maxId hrun
    obtain ⟨hmax, -, hle⟩ := storageRebuildPkIndex_maxKey hrun
    obtain ⟨-, rows', hr', hindex⟩ := storageRebuildPkIndex_indexes hp hf' hn hcontent hrun
    rw [maxKey_eq_intMax_iff hmax hle]
    constructor
    · rintro ⟨offset, hs⟩
      obtain ⟨position, -, hrow⟩ := (search_eq_some_iff_isDataRow hr' hindex _ _).mp hs
      exact ⟨position, hrow⟩
    · rintro ⟨position, hrow⟩
      exact ⟨_, (search_eq_some_iff_isDataRow hr' hindex _ _).mpr ⟨position, rfl, hrow⟩⟩
  rw [hobtain, Option.isSome_iff_exists]
  simp only [freshSlot_eq_some_iff hp]
  constructor
  · rintro ⟨_, index, maxId, hrun, hm, -⟩
    obtain ⟨hh, -⟩ := storageRebuildPkIndex_indexes hp hf' hn hcontent hrun
    refine ⟨(headerOk_iff_of_headed hv hne hn hheaded).mp hh, fun position hrow ↦ ?_⟩
    exact hm ((hids hrun).mpr ⟨position, hrow⟩)
  · rintro ⟨hq, hmax⟩
    have hh := (headerOk_iff_of_headed hv hne hn hheaded).mpr hq
    obtain ⟨index, maxId, hrun⟩ := exists_storageRebuildPkIndex
      hp hf' hh hr hu
    refine ⟨_, index, maxId, hrun, fun hm ↦ ?_, rfl⟩
    obtain ⟨position, hrow⟩ := (hids hrun).mp hm
    exact hmax position hrow

/-! ### The answers -/

/-- A SELECT succeeds in both the process and a new one and prints the same lines in both. -/
def SameAnswer (config : AppConfig) (w : World) (statement : SelectStatement) : Prop :=
  ∃ output : List Output,
    (executeSelect config statement w.reopened).1 = .ok () ∧
    (executeSelect config statement w.reopened).2.disk.stdout = output ∧
    (executeSelect config statement w).1 = .ok () ∧
    (executeSelect config statement w).2.disk.stdout = w.disk.stdout ++ output

/-- A statement on the key, for every table with a primary key. -/
theorem keySelect_sample (schema : TableSchema) :
    KeySelect schema { sampleKeySelect with tableName := schema.tableName }
      (List.range schema.columnCount) 7 := by
  refine ⟨rfl, rfl, rfl, rfl, rfl, rfl, fun h ↦ ?_⟩
  cases h

/-- A SELECT on the key fails when the table can have no slot. -/
theorem executeSelect_onKey_of_none {statement : SelectStatement} {selected : List Nat} {v : Int}
    (hschema : loadTableSchema w.disk.files config.schemaDir schema.tableName = .ok schema)
    (hp : schema.primaryKeyIndex = some primaryKeyIndex)
    (hk : KeySelect schema statement selected v) (hs : obtainSlot config schema w = none) :
    ∃ e, executeSelect config statement w = (.error e, w) := by
  obtain ⟨hv, -⟩ := loadTableSchema_valid hschema
  obtain ⟨e, he⟩ := getTableStateIndex_of_none hs
  have hwhere : executeSelectWhere config schema statement selected primaryKeyIndex w =
      (.error e, w) := by
    unfold executeSelectWhere
    cases ho : statement.whereOperator with
    | equal =>
      simp only [hp, hk.type, decide_true, Bool.and_true, if_true]
      exact Exec.bind_error he _
    | greater =>
      simp only [hp, hk.type, decide_true, Bool.and_true]
      rw [if_neg (by decide), if_pos (by decide)]
      exact Exec.bind_error he _
    | less =>
      simp only [hp, hk.type, decide_true, Bool.and_true]
      rw [if_neg (by decide), if_pos (by decide)]
      exact Exec.bind_error he _
    | notEqual => exact absurd ho hk.operator
  refine ⟨e, ?_⟩
  rw [executeSelect, Exec.bind_ok (Exec.get_apply w),
    Exec.bind_ok (by rw [Exec.lift_apply, hk.tableName, hschema]),
    Exec.bind_ok (by rw [Exec.lift_apply, hk.selected]), hk.hasWhere, if_neg (by decide),
    Exec.bind_ok (by rw [Exec.lift_apply, hk.resolveWhereColumn hv hp])]
  exact Exec.bind_error hwhere _

/-- A process that has created and filled the file of a table, and a new process, give the same
answers to every SELECT on its key exactly when the file is reopenable. -/
theorem sameAnswer_iff_reopenable
    (hschema : loadTableSchema w.disk.files config.schemaDir schema.tableName = .ok schema)
    (hp : schema.primaryKeyIndex = some primaryKeyIndex)
    (hf : w.file config schema.tableName = some content)
    (hcreated : Created schema (w.view config schema.tableName))
    (hok : ViewOk schema primaryKeyIndex (w.view config schema.tableName)) :
    (∀ statement selected v, KeySelect schema statement selected v →
      SameAnswer config w statement) ↔ Reopenable schema primaryKeyIndex content := by
  obtain ⟨hv, hne⟩ := loadTableSchema_valid hschema
  have hheaded : headerLine schema <+: content := hcreated.headed content hf
  obtain ⟨slot, hslot⟩ := Option.isSome_iff_exists.mp (hcreated.slot (by rw [World.view, hf]; rfl))
  obtain ⟨index, rows, hi, hr, hindex⟩ := hok.slot slot hslot
  have hn := hok.nul_notMem
  rw [World.view, hf, Option.getD_some] at hr hn
  rw [← isSome_obtainSlot_reopened_iff hschema hp hf hn hheaded hr hindex.uniqueIds]
  constructor
  · intro h
    obtain ⟨output, hsuccess, -⟩ := h _ _ _ (keySelect_sample schema)
    cases hs : obtainSlot config schema w.reopened with
    | some slot' => rfl
    | none =>
      obtain ⟨e, he⟩ := executeSelect_onKey_of_none (w := w.reopened) hschema hp
        (keySelect_sample schema) hs
      rw [he] at hsuccess
      cases hsuccess
  · intro hs statement selected v hk
    obtain ⟨slot', hs'⟩ := Option.isSome_iff_exists.mp hs
    have hreopen := (isSome_obtainSlot_reopened_iff hschema hp hf hn hheaded hr
      hindex.uniqueIds).mp hs
    have hh := (headerOk_iff_of_headed hv hne hn hheaded).mpr hreopen.names
    have hread : Readable schema (w.file config schema.tableName) rows := by
      rw [hf]
      exact .file content rows hh hr
    have hf' : w.reopened.file config schema.tableName = some content := hf
    obtain ⟨index', rows', hi', hr', hindex'⟩ :=
      exists_rows_of_freshSlot (w := w.reopened) hp (by rw [hf']; exact hn) hs'
    rw [hf', Option.getD_some] at hr'
    obtain rfl := hr.unique hr'
    obtain ⟨sorted, hsorted, hperm⟩ := hindex.exists_sorted
    have hsorted' : List.Forall₂ (IsEntry primaryKeyIndex) index'.entries sorted := by
      rw [hindex.entries_eq hindex']
      exact hsorted
    have hold := executeSelect_onKey hschema hp hk (obtainSlot_of_slot hslot) hi hread hsorted
      hperm.subset
    have hnew := executeSelect_onKey (w := w.reopened) hschema hp hk hs' hi' hread hsorted'
      hperm.subset
    rw [opened_of_slot hslot] at hold
    rw [SameAnswer, hold, hnew]
    refine ⟨_, rfl, ?_, rfl, rfl⟩
    rw [World.print, opened_disk]
    exact List.nil_append _

/-- After every run that has created the file of a table, a new process gives the same answers
to every SELECT on the key as the old one exactly when no column name holds a double quote and
no row has the id `INT_MAX`. -/
theorem runPrograms_reopen_iff (hp : schema.primaryKeyIndex = some primaryKeyIndex)
    (hschema : loadTableSchema w₀.disk.files config.schemaDir schema.tableName = .ok schema)
    (hfresh : w₀.slot config schema.tableName = none)
    (hmissing : w₀.file config schema.tableName = none)
    (hprograms : ∀ program ∈ programs, program.Lexical)
    (hfile : (runPrograms config programs w₀).file config schema.tableName = some content) :
    (∀ statement selected v, KeySelect schema statement selected v →
      SameAnswer config (runPrograms config programs w₀) statement) ↔
      (∀ column ∈ schema.columns, dquote ∉ column.name) ∧
        ∀ position, ¬ IsDataRow schema primaryKeyIndex content position intMax := by
  obtain ⟨hw, hok⟩ := viewOk_runPrograms hp (tableAt_fresh hschema hfresh)
    (viewOk_fresh hfresh fun content h ↦ by rw [hmissing] at h; cases h) hprograms
  obtain ⟨-, hmoves⟩ := advances_runPrograms hp hprograms w₀ (tableAt_fresh hschema hfresh)
  have hcreated : Created schema (w₀.view config schema.tableName) := by
    rw [World.view, hmissing, hfresh]
    exact created_empty
  rw [sameAnswer_iff_reopenable hw.schema_eq hp hfile
    (TableSteps.invariant hmoves (fun _ _ h hs ↦ hs.created h) hcreated) hok]
  exact ⟨fun h ↦ ⟨h.names, h.ids⟩, fun h ↦ ⟨h.1, h.2⟩⟩

theorem runPrograms_reopen_iff_sample :
    SameAnswer sampleConfig (runPrograms sampleConfig samplePrograms sampleWorld)
      sampleKeySelect := by
  have hfile : (runPrograms sampleConfig samplePrograms sampleWorld).file sampleConfig
      sampleSchema.tableName = some (text "id,name\n7,x\n8,y\n") := by decide +kernel
  refine (runPrograms_reopen_iff rfl loadTableSchema_sampleWorld slot_sampleWorld rfl
    lexical_samplePrograms hfile).mpr ⟨?_, fun position hrow ↦ ?_⟩ sampleKeySelect [0, 1] 7
      (keySelect_sample sampleSchema)
  · simp only [sampleSchema, List.forall_mem_cons]
    decide
  · obtain ⟨line, cells, hm, hd, hid⟩ := hrow
    have hlines : dataLines (text "id,name\n7,x\n8,y\n") = [(8, text "7,x"), (12, text "8,y")] := by
      decide +kernel
    rw [hlines] at hm
    simp only [List.mem_cons, List.not_mem_nil, or_false, Prod.mk.injEq] at hm
    rcases hm with ⟨-, rfl⟩ | ⟨-, rfl⟩
    · have hx : decodeRow sampleSchema (text "7,x") = .ok [text "7", text "x"] := by
        decide +kernel
      obtain rfl := Except.ok.inj (hx.symm.trans hd)
      exact absurd hid (by decide)
    · have hy : decodeRow sampleSchema (text "8,y") = .ok [text "8", text "y"] := by
        decide +kernel
      obtain rfl := Except.ok.inj (hy.symm.trans hd)
      exact absurd hid (by decide)

/-- `INSERT INTO t VALUES (2147483647, 'x')`. -/
def sampleMaxInsert : InsertStatement :=
  ⟨text "t", noLocation, false, [],
    [⟨.int, text "2147483647", noLocation⟩, ⟨.string, text "x", noLocation⟩]⟩

/-- After a row with the id `INT_MAX` was stored, a new process refuses the file. -/
theorem not_sameAnswer_intMax :
    (executeProgram sampleConfig [.insert noLocation sampleMaxInsert] sampleWorld).1 = .ok () ∧
    KeySelect sampleSchema sampleKeySelect [0, 1] 7 ∧
    ¬ SameAnswer sampleConfig
      (runPrograms sampleConfig [[.insert noLocation sampleMaxInsert]] sampleWorld)
      sampleKeySelect := by
  refine ⟨rfl, keySelect_sample sampleSchema, ?_⟩
  rintro ⟨output, hnew, -⟩
  have herror : (executeSelect sampleConfig sampleKeySelect
      (runPrograms sampleConfig [[.insert noLocation sampleMaxInsert]] sampleWorld).reopened).1 =
        .error (runtimeError "자동 PK 값이 int 범위를 벗어났습니다." noLocation) := by decide +kernel
  rw [herror] at hnew
  cases hnew

end SqlProc.Executor
