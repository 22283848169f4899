import SqlProc.Executor.AutoId

/-!
# Rejected INSERTs

Library `Executor`. A rejected INSERT leaves the file and the index of its table as they were.
It also leaves the next automatic id as it was, unless it is rejected for a missing column
after the id was taken.
-/

namespace SqlProc.Executor

open Base Front Index Schema Storage Support

variable {config : AppConfig} {schema : TableSchema} {primaryKeyIndex : Nat} {w w' w₀ : World}
  {slot : TableRuntimeState} {statement : InsertStatement} {programs : List SqlProgram} {id : Int}

/-! ### What can be seen of a table -/

/-- The INSERT would succeed and append a row with the given id. -/
structure GivesId (config : AppConfig) (schema : TableSchema) (primaryKeyIndex : Nat) (w : World)
    (statement : InsertStatement) (id : Int) : Prop where
  succeeds : (executeInsert config statement w).1 = .ok ()
  appends : ∃ row, (executeInsert config statement w).2.file config schema.tableName =
    some (appended config schema w row) ∧ ValidRow schema primaryKeyIndex row id

/-- The file, the index and the id of the next INSERT that omits it are as before. -/
structure Unchanged (config : AppConfig) (schema : TableSchema) (w w' : World) : Prop where
  file : w'.file config schema.tableName = w.file config schema.tableName
  index : (obtainSlot config schema w').bind (·.pkIndex) =
    (obtainSlot config schema w).bind (·.pkIndex)
  nextId : ∀ primaryKeyIndex, schema.primaryKeyIndex = some primaryKeyIndex →
    ∀ statement id, statement.Lexical → statement.tableName = schema.tableName →
      OmitsId statement → (GivesId config schema primaryKeyIndex w' statement id ↔
        GivesId config schema primaryKeyIndex w statement id)

theorem Unchanged.refl (w : World) : Unchanged config schema w w :=
  ⟨rfl, rfl, fun _ _ _ _ _ _ _ ↦ Iff.rfl⟩

/-- A written row determines its cells. -/
theorem ValidRow.eq_of_writeCsvRow_eq {row row' : List Bytes} {id' : Int} (hv : Valid schema)
    (hp : schema.primaryKeyIndex = some primaryKeyIndex)
    (h : ValidRow schema primaryKeyIndex row id) (h' : ValidRow schema primaryKeyIndex row' id')
    (he : writeCsvRow row = writeCsvRow row') : row = row' := by
  have hne : ∀ {row : List Bytes}, row.length = schema.columnCount → row ≠ [] := by
    intro row hlen
    have hpk := (List.getElem?_eq_some_iff.mp (hv.primaryKey _ hp)).1
    apply List.ne_nil_of_length_pos
    change row.length = schema.columns.length at hlen
    omega
  have hd := decodeRow_writeCsvRow h.valid (hne h.length_eq) h.length_eq hv
  have hd' := decodeRow_writeCsvRow h'.valid (hne h'.length_eq) h'.length_eq hv
  rw [List.append_cancel_right he, hd'] at hd
  exact (Except.ok.inj hd).symm

/-- An INSERT that omits the id succeeds with the next id of the slot, when its other cells are
there. -/
theorem givesId_iff (hp : schema.primaryKeyIndex = some primaryKeyIndex)
    (hw : TableAt config schema w) (hl : statement.Lexical)
    (hn : statement.tableName = schema.tableName) (ho : OmitsId statement) :
    GivesId config schema primaryKeyIndex w statement id ↔
      ∃ (before after : List Bytes) (slot : TableRuntimeState),
      rowCells schema statement = .ok (before.map some ++ none :: after.map some) ∧
        before.length = primaryKeyIndex ∧ obtainSlot config schema w = some slot ∧
        slot.nextId ≠ intMax ∧ Appendable schema (w.file config schema.tableName) ∧
        slot.nextId = id := by
  have hv := hw.valid
  have hschema := hw.loads hn
  constructor
  · rintro ⟨hok, row, hfile, hrow⟩
    obtain ⟨before, after, slot, index, hc, rfl, hs, hm, hi, -, happ, hstored⟩ :=
      executeInsert_omitsId_stores hp hw hn ho hok
    refine ⟨before, after, slot, hc, rfl, hs, hm, happ, ?_⟩
    have hrow' := validRow_assigned hl hc (nextIdOk_obtainSlot hp hw.slot hs).range
    have hfor := isFor_allocated_obtainSlot hs
    rw [hstored, file_stored hs hfor] at hfile
    obtain rfl := hrow'.eq_of_writeCsvRow_eq hv hp hrow
      (List.append_cancel_left (Option.some.inj hfile))
    exact Option.some.inj (hrow'.rowId_eq.symm.trans hrow.rowId_eq)
  · rintro ⟨before, after, slot, hc, rfl, hs, hm, happ, rfl⟩
    have hok := nextIdOk_obtainSlot hp hw.slot hs
    obtain ⟨index, hi, -⟩ := hok.index
    have hrun := executeInsert_assigned hp hschema hc hs hok hm hi happ
    have hfor := isFor_allocated_obtainSlot hs
    refine ⟨by rw [hrun], _, ?_, validRow_assigned hl hc hok.range⟩
    rw [hrun]
    exact file_stored hs hfor

/-! ### Losing an id -/

/-- The column list leaves out the id and a column after it, the values before it are accepted,
and the table has an id and a file for a later row. -/
def LosesId (config : AppConfig) (schema : TableSchema) (primaryKeyIndex : Nat) (w : World)
    (statement : InsertStatement) : Prop :=
  ∃ (before : List Bytes) (after : List (Option Bytes)) (slot : TableRuntimeState),
    rowCells schema statement = .ok (before.map some ++ none :: after) ∧
    before.length = primaryKeyIndex ∧ none ∈ after ∧ obtainSlot config schema w = some slot ∧
    slot.nextId ≠ intMax ∧ Appendable schema (w.file config schema.tableName)

/-- Such an INSERT fails after it has taken the id. -/
theorem executeInsert_losesId {before : List Bytes} {after : List (Option Bytes)}
    (hp : schema.primaryKeyIndex = some before.length)
    (hschema : loadTableSchema w.disk.files config.schemaDir statement.tableName = .ok schema)
    (hc : rowCells schema statement = .ok (before.map some ++ none :: after))
    (hn : none ∈ after) (hs : obtainSlot config schema w = some slot)
    (hm : slot.nextId ≠ intMax) :
    (executeInsert config statement w).2 =
      (opened config schema w).setSlot config schema.tableName slot.allocated := by
  obtain ⟨e, he⟩ := fillCells_gap_error statement.tableLocation hp hs hm hn
  rw [executeInsert_apply hschema, Exec.bind_apply, buildInsertRowValues_apply, hc]
  simp only [he]

/-- A process in which the table has the same slot and the same file. -/
theorem unchanged_of_obtainSlot_eq (hw : TableAt config schema w) (hw' : TableAt config schema w')
    (hf : w'.file config schema.tableName = w.file config schema.tableName)
    (hs : obtainSlot config schema w' = obtainSlot config schema w) :
    Unchanged config schema w w' := by
  refine ⟨hf, by rw [hs], fun primaryKeyIndex hp statement id hl hn ho ↦ ?_⟩
  rw [givesId_iff hp hw' hl hn ho, givesId_iff hp hw hl hn ho, hs, hf]

/-- A rejected INSERT leaves its table unchanged unless it loses an id. -/
theorem unchanged_of_not_losesId (hp : schema.primaryKeyIndex = some primaryKeyIndex)
    (hw : TableAt config schema w) (hl : statement.Lexical)
    (hn : statement.tableName = schema.tableName) {e : ErrorInfo}
    (he : (executeInsert config statement w).1 = .error e)
    (h : ¬ LosesId config schema primaryKeyIndex w statement) :
    Unchanged config schema w (executeInsert config statement w).2 := by
  have hschema := hw.loads hn
  have hlexical : (Statement.insert noLocation statement).Lexical := hl
  obtain ⟨hw', -⟩ := advances_executeStatement hp hlexical w hw
  rw [executeStatement] at hw'
  have hout := executeInsert_outcome hp hschema hw.slot
  generalize executeInsert config statement w = out at he hw' hout ⊢
  obtain ⟨r, w'⟩ := out
  subst he
  cases hout with
  | rejected e => exact .refl w'
  | opened e slot hs =>
    apply unchanged_of_obtainSlot_eq hw hw'
    · change World.file (opened config schema w) config schema.tableName = _
      rw [World.file, opened_disk]
      rfl
    · exact (obtainSlot_of_slot (slot_opened hs)).trans hs.symm
  | burned e slot before after hc hlen hs hm hwhy =>
    have happ : ¬ Appendable schema (w.file config schema.tableName) := by
      intro happ
      exact h ⟨before, after, slot, hc, hlen, hwhy.resolve_right (not_not.mpr happ), hs, hm, happ⟩
    refine ⟨file_taken, ?_, fun primaryKeyIndex' hp' statement' id hl' hn' ho' ↦ ?_⟩
    · rw [obtainSlot_of_slot (slot_taken hs), hs]
      rfl
    · rw [givesId_iff hp' hw' hl' hn' ho', givesId_iff hp' hw hl' hn' ho']
      constructor
      · rintro ⟨_, _, _, -, -, -, -, happ', -⟩
        exact absurd (file_taken ▸ happ') happ
      · rintro ⟨_, _, _, -, -, -, -, happ', -⟩
        exact absurd happ' happ

/-! ### An INSERT that only omits the id -/

/-- A column in a column list. -/
def listed (column : ColumnSchema) : ColumnName := ⟨column.name, noLocation⟩

/-- A value that a column accepts. -/
def acceptedValue (column : ColumnSchema) : LiteralValue :=
  match column.type with
  | .int => ⟨.int, text "0", noLocation⟩
  | .string => ⟨.string, [], noLocation⟩

/-- The INSERT that lists every column but the id. -/
def omittingInsert (schema : TableSchema) : InsertStatement :=
  let columns := schema.columns.filter (·.name ≠ text "id")
  ⟨schema.tableName, noLocation, true, columns.map listed, columns.map acceptedValue⟩

theorem checkInsertValue_acceptedValue (column : ColumnSchema) :
    checkInsertValue column.type (acceptedValue column) = .ok () := by
  unfold acceptedValue
  cases column.type <;> rfl

/-- Different columns, each with a value that it accepts, are placed. -/
theorem exists_placeValues (hv : Valid schema) {columns : List ColumnSchema}
    (cells : List (Option Bytes)) (hsub : columns ⊆ schema.columns)
    (hnodup : (columns.map ColumnSchema.name).Nodup)
    (hfree : ∀ column ∈ columns, ∀ i, schema.columns[i]? = some column →
      cells.getD i none = none) :
    ∃ cells', placeValues schema (columns.map listed) (columns.map acceptedValue) cells =
      .ok cells' := by
  induction columns generalizing cells with
  | nil => exact ⟨cells, rfl⟩
  | cons column columns ih =>
    obtain ⟨hm, hsub⟩ := List.cons_subset.mp hsub
    rw [List.map_cons, List.nodup_cons] at hnodup
    obtain ⟨hc, hrest⟩ := List.forall_mem_cons.mp hfree
    obtain ⟨i, hi⟩ := List.mem_iff_getElem?.mp hm
    have hf : findSchemaColumn schema column.name = some i := findSchemaColumn_name hv hi
    have htype : columnType schema i = column.type := by rw [columnType, hi]
    obtain ⟨cells', hplaced⟩ := ih
      (cells.set i (some (snprintfStr maxValueLen (acceptedValue column).text)))
      hsub hnodup.2 fun column' hm' j hj ↦ by
        have hne : i ≠ j := by
          rintro rfl
          rw [hi] at hj
          obtain rfl := Option.some.inj hj
          exact hnodup.1 (List.mem_map_of_mem hm')
        rw [List.getD_eq_getElem?_getD, List.getElem?_set_ne hne, ← List.getD_eq_getElem?_getD]
        exact hrest column' hm' j hj
    refine ⟨cells', ?_⟩
    simp only [List.map_cons, listed, placeValues, hf, hc i hi, List.headD_cons, htype,
      checkInsertValue_acceptedValue]
    exact hplaced

theorem isSome_listedText {columns : List ColumnName} (values : List LiteralValue) {name : Bytes}
    (h : ∃ column ∈ columns, column.name = name) :
    (listedText columns values name).isSome = true := by
  induction columns generalizing values with
  | nil =>
    obtain ⟨_, hm, -⟩ := h
    cases hm
  | cons column columns ih =>
    rw [listedText]
    split
    · rfl
    · next hne =>
      obtain ⟨column', hm, hn⟩ := h
      rcases List.mem_cons.mp hm with rfl | hm
      · exact absurd hn hne
      · exact ih _ ⟨column', hm, hn⟩

theorem lexical_omittingInsert (hl : schema.tableName.length < maxNameLen) :
    (omittingInsert schema).Lexical := by
  refine ⟨hl, fun value hm ↦ ?_⟩
  obtain ⟨column, -, rfl⟩ := List.mem_map.mp hm
  unfold acceptedValue
  cases column.type <;> decide

theorem omitsId_omittingInsert (schema : TableSchema) : OmitsId (omittingInsert schema) := by
  refine ⟨rfl, fun column hm ↦ ?_⟩
  obtain ⟨column', hm', rfl⟩ := List.mem_map.mp hm
  exact of_decide_eq_true (List.mem_filter.mp hm').2

/-- Every cell of that INSERT but the id is there. -/
theorem rowCells_omittingInsert (hv : Valid schema)
    (hp : schema.primaryKeyIndex = some primaryKeyIndex)
    (hl : schema.tableName.length < maxNameLen) :
    ∃ before after : List Bytes, before.length = primaryKeyIndex ∧
      rowCells schema (omittingInsert schema) =
        .ok (before.map some ++ none :: after.map some) := by
  have hid := hv.primaryKey _ hp
  obtain ⟨cells, hplaced⟩ := exists_placeValues hv
    (List.replicate schema.columnCount none) List.filter_sublist.subset
    (hv.nodup.sublist (List.filter_sublist.map _)) fun column _ i _ ↦ by
      rw [List.getD_eq_getElem?_getD, List.getElem?_replicate]
      split <;> rfl
  have hcells : rowCells schema (omittingInsert schema) = .ok cells := hplaced
  have hlen := (rowCells_valid (lexical_omittingInsert hl) hcells).length_eq
  have honly : ∀ i, cells[i]? = some none → i = primaryKeyIndex := by
    intro i hi
    have hlt : i < schema.columns.length := by
      have hlt := (List.getElem?_eq_some_iff.mp hi).1
      rw [hlen] at hlt
      exact hlt
    have hcolumn := List.getElem?_eq_getElem hlt
    by_contra hne
    have hname : schema.columns[i].name ≠ text "id" := by
      intro hname
      have hfound := findSchemaColumn_name hv hcolumn
      rw [hname, show text "id" = ColumnSchema.name ⟨text "id", .int⟩ from rfl,
        findSchemaColumn_name hv hid] at hfound
      exact hne (Option.some.inj hfound).symm
    have hmem : schema.columns[i] ∈ schema.columns.filter (·.name ≠ text "id") :=
      List.mem_filter.mpr ⟨List.getElem_mem hlt, decide_eq_true hname⟩
    have hlisted := isSome_listedText
      ((schema.columns.filter (·.name ≠ text "id")).map acceptedValue)
      ⟨listed schema.columns[i], List.mem_map_of_mem hmem, rfl⟩
    obtain ⟨text, htext⟩ := Option.isSome_iff_exists.mp hlisted
    rw [getElem?_placeValues hv hplaced List.length_replicate hcolumn] at hi
    rw [listed] at htext
    rw [htext] at hi
    cases hi
  rcases exists_map_some_or cells with ⟨texts, rfl⟩ | ⟨before, after, rfl⟩
  · exact absurd hcells
      (rowCells_ne_of_omitsId hv hp (omitsId_omittingInsert schema) texts)
  · have hbefore : before.length = primaryKeyIndex := honly _ (by simp)
    rcases exists_map_some_or after with ⟨texts, rfl⟩ | ⟨xs, ys, rfl⟩
    · exact ⟨before, texts, hbefore, hcells⟩
    · have hsecond : before.length + (xs.length + 1) = primaryKeyIndex := honly _ (by simp)
      omega

/-- A rejected INSERT leaves its table unchanged exactly when it loses no id. -/
theorem unchanged_iff_not_losesId (hp : schema.primaryKeyIndex = some primaryKeyIndex)
    (hw : TableAt config schema w) (hl : statement.Lexical)
    (hn : statement.tableName = schema.tableName) {e : ErrorInfo}
    (he : (executeInsert config statement w).1 = .error e) :
    Unchanged config schema w (executeInsert config statement w).2 ↔
      ¬ LosesId config schema primaryKeyIndex w statement := by
  refine ⟨?_, unchanged_of_not_losesId hp hw hl hn he⟩
  rintro h ⟨before, after, slot, hc, rfl, hnone, hs, hm, happ⟩
  have hv := hw.valid
  have hschema := hw.loads hn
  have hlexical : (Statement.insert noLocation statement).Lexical := hl
  obtain ⟨hw', -⟩ := advances_executeStatement hp hlexical w hw
  rw [executeStatement] at hw'
  rw [executeInsert_losesId hp hschema hc hnone hs hm] at h hw'
  obtain ⟨before', after', hlen, hcells⟩ := rowCells_omittingInsert hv hp hw.length_tableName
  have hlex := lexical_omittingInsert hw.length_tableName
  have homit := omitsId_omittingInsert schema
  -- with the next id of the slot before, the INSERT of the other columns gets this id
  have hgives := (givesId_iff hp hw hlex rfl homit).mpr
    ⟨before', after', slot, hcells, hlen, hs, hm, happ, rfl⟩
  -- after the id was lost, it gets a larger one or none
  obtain ⟨_, _, slot', -, -, hs', -, -, hid⟩ := (givesId_iff hp hw' hlex rfl homit).mp
    ((h.nextId _ hp _ _ hlex rfl homit).mpr hgives)
  rw [obtainSlot_of_slot (slot_taken hs)] at hs'
  obtain rfl := Option.some.inj hs'
  simp only [TableRuntimeState.allocated] at hid
  omega

/-- In every state of every run, a rejected INSERT leaves its table unchanged exactly when it
loses no id. -/
theorem runPrograms_rejected_unchanged_iff
    (hschema : loadTableSchema w₀.disk.files config.schemaDir schema.tableName = .ok schema)
    (hfresh : w₀.slot config schema.tableName = none)
    (hprograms : ∀ program ∈ programs, program.Lexical) (hl : statement.Lexical)
    (hn : statement.tableName = schema.tableName) {e : ErrorInfo}
    (he : (executeInsert config statement (runPrograms config programs w₀)).1 = .error e) :
    let w := runPrograms config programs w₀
    Unchanged config schema w (executeInsert config statement w).2 ↔
      ∀ primaryKeyIndex, schema.primaryKeyIndex = some primaryKeyIndex →
        ¬ LosesId config schema primaryKeyIndex w statement := by
  intro w
  cases hp : schema.primaryKeyIndex with
  | none =>
    have hload := keepsSchema_runPrograms hprograms w₀ hschema
    rcases executeInsert_noKey (w := w) hp (by rw [hn]; exact hload) with
      ⟨e', he'⟩ | ⟨row, -, -, hrun⟩
    · rw [he']
      exact ⟨fun _ _ ↦ nofun, fun _ ↦ .refl w⟩
    · rw [show runPrograms config programs w₀ = w from rfl, hrun] at he
      cases he
  | some primaryKeyIndex =>
    obtain ⟨hw, -⟩ := advances_runPrograms hp hprograms w₀ (tableAt_fresh hschema hfresh)
    rw [unchanged_iff_not_losesId hp hw hl hn he]
    constructor
    · rintro h _ ⟨⟩
      exact h
    · exact fun h ↦ h _ rfl

theorem runPrograms_rejected_unchanged_iff_sample :
    let w := runPrograms sampleConfig samplePrograms sampleWorld
    Unchanged sampleConfig sampleSchema w (executeInsert sampleConfig sampleInsert w).2 := by
  intro w
  have he : (executeInsert sampleConfig sampleInsert w).1 = .error duplicateKeyError := by
    decide +kernel
  refine (runPrograms_rejected_unchanged_iff loadTableSchema_sampleWorld slot_sampleWorld
    lexical_samplePrograms (by decide) rfl he).mpr ?_
  rintro primaryKeyIndex - ⟨before, after, slot, hc, -⟩
  have hcells : rowCells sampleSchema sampleInsert =
      .ok [some (text "7"), some (text "x")] := rfl
  have hmem : none ∈ [some (text "7"), some (text "x")] := by
    rw [Except.ok.inj (hcells.symm.trans hc)]
    exact List.mem_append_right _ List.mem_cons_self
  simp at hmem

/-- A schema with a column after the name. -/
def sampleWideSchema : TableSchema :=
  ⟨text "t", some 0, [⟨text "id", .int⟩, ⟨text "name", .string⟩, ⟨text "age", .int⟩]⟩

/-- A new process that finds only the schema file of the wider table. -/
def sampleWideWorld : World := ⟨⟨schemaFiles (text "id:int,name:string,age:int\n"), []⟩, []⟩

/-- `INSERT INTO t (name) VALUES ('y')` misses the last column of the wider table. -/
theorem not_unchanged_missingColumn :
    loadTableSchema sampleWideWorld.disk.files sampleConfig.schemaDir (text "t") =
      .ok sampleWideSchema ∧
    (executeInsert sampleConfig sampleAutoInsert sampleWideWorld).1 =
      .error (runtimeError "INSERT 문에 스키마의 모든 컬럼 값이 필요합니다." noLocation) ∧
    ¬ Unchanged sampleConfig sampleWideSchema sampleWideWorld
      (executeInsert sampleConfig sampleAutoInsert sampleWideWorld).2 := by
  have he : (executeInsert sampleConfig sampleAutoInsert sampleWideWorld).1 =
      .error (runtimeError "INSERT 문에 스키마의 모든 컬럼 값이 필요합니다." noLocation) := by
    decide +kernel
  refine ⟨rfl, he, ?_⟩
  have hp : sampleWideSchema.primaryKeyIndex = some 0 := rfl
  rw [unchanged_iff_not_losesId hp (tableAt_fresh rfl rfl) (by decide) rfl he, not_not]
  have hnext : (obtainSlot sampleConfig sampleWideSchema sampleWideWorld).map (·.nextId) =
      some 1 := by decide +kernel
  obtain ⟨slot, hs, hid⟩ := Option.map_eq_some_iff.mp hnext
  exact ⟨[], [some (text "y"), none], slot, rfl, rfl, by simp, hs, by rw [hid]; decide, trivial⟩

end SqlProc.Executor
