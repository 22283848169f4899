import SqlProc.Executor.AutoId
import SqlProc.Front.Parser

/-!
# An explicit id in place of an automatic one

Library `Executor`. An INSERT that lists the id that the program would have taken stores the
same row and leaves the same process.
-/

namespace SqlProc.Executor

open Base Front Index Schema Storage Support

variable {config : AppConfig} {schema : TableSchema} {primaryKeyIndex : Nat} {w w₀ w' : World}
  {slot : TableRuntimeState} {programs : List SqlProgram}

/-! ### Placing one more value -/

section Place

variable {columns columns' : List ColumnName} {values values' : List LiteralValue}
  {cells cells' : List (Option Bytes)} {column : ColumnName} {value : LiteralValue} {i k : Nat}

/-- A value without its place in the source. -/
def literalContent (value : LiteralValue) : LiteralType × Bytes := (value.type, value.text)

/-- A value is accepted when its type is that of the column and its text is in order. -/
theorem checkInsertValue_eq_ok_iff {dataType : DataType} :
    checkInsertValue dataType value = .ok () ↔ validateLiteralType dataType value = true ∧
      (dataType = .int → intLiteralInRange value = true) ∧
      (dataType = .string → stringLiteralIsSafeForCsv value = true) := by
  unfold checkInsertValue
  cases validateLiteralType dataType value with
  | false => simp
  | true => cases dataType <;> simp

theorem checkInsertValue_congr {dataType : DataType} {value' : LiteralValue}
    (hv : literalContent value' = literalContent value)
    (h : checkInsertValue dataType value = .ok ()) : checkInsertValue dataType value' = .ok () := by
  rw [checkInsertValue_eq_ok_iff] at h ⊢
  obtain ⟨type, text, location⟩ := value
  obtain ⟨type', text', location'⟩ := value'
  obtain ⟨rfl, rfl⟩ := Prod.mk.inj hv
  exact h

/-- Placing values does not depend on their places in the source. -/
theorem placeValues_congr (hc : columns'.map ColumnName.name = columns.map ColumnName.name)
    (hv : values'.map literalContent = values.map literalContent)
    (h : placeValues schema columns values cells = .ok cells') :
    placeValues schema columns' values' cells = .ok cells' := by
  induction columns generalizing columns' values values' cells with
  | nil =>
    rw [List.map_eq_nil_iff.mp hc]
    exact h
  | cons column columns ih =>
    obtain ⟨column', columns', rfl, hname, hrest⟩ := List.map_eq_cons_iff.mp hc
    obtain ⟨k, hf, hfree, hcheck, h⟩ := placeValues_cons_eq_ok_iff.mp h
    have hhead : literalContent (values'.headD .zero) = literalContent (values.headD .zero) := by
      have := congrArg (List.headD · (literalContent .zero)) hv
      rwa [List.headD_map, List.headD_map] at this
    have htail : values'.tail.map literalContent = values.tail.map literalContent := by
      rw [List.map_tail, List.map_tail, hv]
    refine placeValues_cons_eq_ok_iff.mpr ⟨k, by rw [hname, hf], hfree,
      checkInsertValue_congr hhead hcheck, ?_⟩
    rw [(Prod.mk.inj hhead).2]
    exact ih hrest htail h

/-- A cell that no listed column uses can be filled before. -/
theorem placeValues_set (hne : ∀ listed ∈ columns, findSchemaColumn schema listed.name ≠ some k)
    (text : Option Bytes) (h : placeValues schema columns values cells = .ok cells') :
    placeValues schema columns values (cells.set k text) = .ok (cells'.set k text) := by
  induction columns generalizing values cells with
  | nil =>
    obtain rfl := Except.ok.inj h
    rfl
  | cons listed columns ih =>
    obtain ⟨hlisted, hrest⟩ := List.forall_mem_cons.mp hne
    obtain ⟨j, hf, hfree, hcheck, h⟩ := placeValues_cons_eq_ok_iff.mp h
    have hjk : k ≠ j := by
      rintro rfl
      exact hlisted hf
    refine placeValues_cons_eq_ok_iff.mpr ⟨j, hf, ?_, hcheck, ?_⟩
    · rw [List.getD_eq_getElem?_getD, List.getElem?_set_ne hjk, ← List.getD_eq_getElem?_getD, hfree]
    · rw [List.set_comm _ _ hjk]
      exact ih hrest h

/-- One more column and its value can be listed anywhere. -/
theorem placeValues_insertIdx (hf : findSchemaColumn schema column.name = some k)
    (hcheck : checkInsertValue (columnType schema k) value = .ok ())
    (hne : ∀ listed ∈ columns, findSchemaColumn schema listed.name ≠ some k)
    (hi : i ≤ columns.length) (hlen : columns.length = values.length)
    (hfree : cells.getD k none = none)
    (h : placeValues schema columns values cells = .ok cells') :
    placeValues schema (columns.insertIdx i column) (values.insertIdx i value) cells =
      .ok (cells'.set k (some (snprintfStr maxValueLen value.text))) := by
  induction i generalizing columns values cells with
  | zero =>
    rw [List.insertIdx_zero, List.insertIdx_zero]
    exact placeValues_cons_eq_ok_iff.mpr ⟨k, hf, hfree, hcheck, placeValues_set hne _ h⟩
  | succ i ih =>
    cases columns with
    | nil => cases hi
    | cons listed columns =>
      cases values with
      | nil => cases hlen
      | cons first values =>
        obtain ⟨hlisted, hrest⟩ := List.forall_mem_cons.mp hne
        obtain ⟨j, hj, hfree', hcheck', h⟩ := placeValues_cons_eq_ok_iff.mp h
        have hjk : j ≠ k := by
          rintro rfl
          exact hlisted hj
        rw [List.insertIdx_succ_cons, List.insertIdx_succ_cons]
        refine placeValues_cons_eq_ok_iff.mpr ⟨j, hj, hfree', hcheck', ?_⟩
        refine ih hrest (Nat.le_of_succ_le_succ hi) (Nat.succ.inj hlen) ?_ h
        rw [List.getD_eq_getElem?_getD, List.getElem?_set_ne hjk, ← List.getD_eq_getElem?_getD,
          hfree]

end Place

/-! ### The two statements -/

/-- The statement lists, at place `i`, the column `id` with a literal of the given id; its texts
may have other places in the source. -/
structure AddsId (i : Nat) (id : Int) (statement explicit : InsertStatement) : Prop where
  tableName : explicit.tableName = statement.tableName
  hasColumnList : explicit.hasColumnList = true
  columns : explicit.columns.map ColumnName.name =
    (statement.columns.map ColumnName.name).insertIdx i (text "id")
  values : explicit.values.map literalContent =
    (statement.values.map literalContent).insertIdx i (.int, snprintfInt id)

/-- The literal of an id. -/
def idLiteral (id : Int) : LiteralValue := ⟨.int, snprintfInt id, noLocation⟩

/-- The literal of an id in `int` is accepted for the column of the primary key. -/
theorem checkInsertValue_idLiteral {id : Int} (hl : intMin ≤ id) (hu : id ≤ intMax) :
    checkInsertValue .int (idLiteral id) = .ok () := by
  rw [checkInsertValue_eq_ok_iff]
  refine ⟨rfl, fun _ ↦ ?_, fun h ↦ by cases h⟩
  rw [intLiteralInRange, idLiteral, strtolInt_snprintfInt hl hu]
  rfl

/-- With the id listed, the cell of the primary key holds it. -/
theorem rowCells_addsId (hv : Valid schema) (hp : schema.primaryKeyIndex = some primaryKeyIndex)
    {statement explicit : InsertStatement} {i : Nat} {id : Int}
    (hl : intMin ≤ id) (hu : id ≤ intMax) (ho : OmitsId statement)
    (hcount : statement.columns.length = statement.values.length)
    (hi : i ≤ statement.columns.length) (ha : AddsId i id statement explicit)
    {cells : List (Option Bytes)} (h : rowCells schema statement = .ok cells) :
    rowCells schema explicit = .ok (cells.set primaryKeyIndex (some (idText id))) := by
  have hid := hv.primaryKey _ hp
  have hfind : findSchemaColumn schema (text "id") = some primaryKeyIndex :=
    findSchemaColumn_name hv hid
  have hne : ∀ listed ∈ statement.columns,
      findSchemaColumn schema listed.name ≠ some primaryKeyIndex := by
    intro listed hm hf
    exact findSchemaColumn_ne hid hf (ho.2 listed hm) rfl
  have htype : columnType schema primaryKeyIndex = .int := by
    rw [columnType, hid]
  have hfree : (List.replicate schema.columnCount (none : Option Bytes)).getD primaryKeyIndex none =
      none := by
    rw [List.getD_eq_getElem?_getD,
      List.getElem?_replicate_of_lt (List.getElem?_eq_some_iff.mp hid).1, Option.getD_some]
  rw [rowCells, ho.1, if_neg (by decide)] at h
  rw [rowCells, ha.hasColumnList, if_neg (by decide)]
  have hplace : placeValues schema (statement.columns.insertIdx i ⟨text "id", noLocation⟩)
      (statement.values.insertIdx i (idLiteral id)) _ = .ok _ :=
    placeValues_insertIdx hfind (by rw [htype]; exact checkInsertValue_idLiteral hl hu) hne hi
      hcount hfree h
  refine placeValues_congr ?_ ?_ hplace
  · rw [ha.columns, List.map_insertIdx]
  · rw [ha.values, List.map_insertIdx]
    rfl

/-- An INSERT that gives all cells stores them when the id is new. -/
theorem executeInsert_given {statement : InsertStatement} {row : List Bytes} {index : PkIndex}
    {key : Int} (hp : schema.primaryKeyIndex = some primaryKeyIndex)
    (hschema : loadTableSchema w.disk.files config.schemaDir statement.tableName = .ok schema)
    (hc : rowCells schema statement = .ok (row.map some))
    (hs : obtainSlot config schema w = some slot) (hi : slot.pkIndex = some index)
    (hid : rowId primaryKeyIndex row = some key) (hk : findEntry key index.entries = none)
    (happ : Appendable schema (w.file config schema.tableName)) :
    executeInsert config statement w = (.ok (), stored config schema w row slot index key) := by
  rw [executeInsert_apply hschema, Exec.bind_apply, buildInsertRowValues_apply, hc]
  simp only [fillCells_map_some]
  exact storeRow_stored hp hs hi hid hk happ

/-- Entering the next id advances the slot as taking it does. -/
theorem TableRuntimeState.registered_allocated (hm : slot.nextId ≠ intMax) (index : PkIndex)
    (offset : Int) : slot.allocated.registered index slot.nextId offset =
      slot.registered index slot.nextId offset := by
  have hlt : ¬ slot.nextId + 1 ≤ slot.nextId := by omega
  simp only [registered, allocated, hlt, and_false, if_false, hm, ne_eq, not_false_eq_true,
    le_refl, and_self, if_true]

theorem stored_registered (hm : slot.nextId ≠ intMax) (row : List Bytes) (index : PkIndex) :
    stored config schema w row slot.allocated index slot.nextId =
      stored config schema w row slot index slot.nextId := by
  rw [stored, stored, TableRuntimeState.registered_allocated hm]

/-- An INSERT that omits the id, and the one that lists the id which it takes, lead to the same
process. -/
theorem executeInsert_addsId (hp : schema.primaryKeyIndex = some primaryKeyIndex)
    (hw : TableAt config schema w) {statement : InsertStatement} (hl : statement.Lexical)
    (hn : statement.tableName = schema.tableName) (ho : OmitsId statement)
    (hcount : statement.columns.length = statement.values.length)
    (hrun : executeInsert config statement w = (.ok (), w')) :
    ∃ row id, w'.file config schema.tableName = some (appended config schema w row) ∧
      ValidRow schema primaryKeyIndex row id ∧
      ∀ i explicit, i ≤ statement.columns.length → AddsId i id statement explicit →
        executeInsert config explicit w = (.ok (), w') := by
  have hok := congrArg Prod.fst hrun
  obtain ⟨before, after, slot, index, hc, rfl, hs, hm, hi, hk, happ, hstored⟩ :=
    executeInsert_omitsId_stores hp hw hn ho hok
  obtain rfl : w' = _ := (congrArg Prod.snd hrun).symm.trans hstored
  have hnext := nextIdOk_obtainSlot hp hw.slot hs
  have hfor := isFor_allocated_obtainSlot hs
  have hrow := validRow_assigned hl hc hnext.range
  refine ⟨_, slot.nextId, file_stored hs hfor, hrow, fun i explicit hi' ha ↦ ?_⟩
  have hcells : rowCells schema explicit =
      .ok ((before ++ idText slot.nextId :: after).map some) := by
    rw [rowCells_addsId hw.valid hp hnext.range.1 hnext.range.2 ho hcount hi' ha hc]
    simp
  rw [executeInsert_given hp (hw.loads (ha.tableName.trans hn)) hcells hs hi hrow.rowId_eq hk
    happ, stored_registered hm]

/-- In every state of every run, an INSERT that omits the id and succeeds can be replaced by the
one that lists the id which it was given, at any place of the list. -/
theorem runPrograms_explicitId (hp : schema.primaryKeyIndex = some primaryKeyIndex)
    (hschema : loadTableSchema w₀.disk.files config.schemaDir schema.tableName = .ok schema)
    (hfresh : w₀.slot config schema.tableName = none)
    (hprograms : ∀ program ∈ programs, program.Lexical)
    {location : SourceLocation} {statement : InsertStatement}
    (hparsed : IsParsed (.insert location statement))
    (hn : statement.tableName = schema.tableName) (ho : OmitsId statement)
    (hrun : executeInsert config statement (runPrograms config programs w₀) = (.ok (), w')) :
    ∃ row id, w'.file config schema.tableName =
        some (appended config schema (runPrograms config programs w₀) row) ∧
      ValidRow schema primaryKeyIndex row id ∧
      ∀ i explicit, i ≤ statement.columns.length → AddsId i id statement explicit →
        executeInsert config explicit (runPrograms config programs w₀) = (.ok (), w') := by
  obtain ⟨hw, -⟩ := advances_runPrograms hp hprograms w₀ (tableAt_fresh hschema hfresh)
  obtain ⟨hl, hcount⟩ := hparsed.accepted
  exact executeInsert_addsId hp hw hl hn ho (hcount ho.1) hrun

/-- `INSERT INTO t (name) VALUES ('z');`. -/
def sampleParsedInsert : InsertStatement :=
  ⟨text "t", ⟨1, 13⟩, true, [⟨text "name", ⟨1, 16⟩⟩], [⟨.string, text "z", ⟨1, 30⟩⟩]⟩

theorem isParsed_sampleParsedInsert : IsParsed (.insert ⟨1, 1⟩ sampleParsedInsert) := by
  refine ⟨text "INSERT INTO t (name) VALUES ('z');", _, ?_, List.mem_singleton_self _⟩
  decide +kernel

theorem runPrograms_explicitId_sample :
    let w := runPrograms sampleConfig samplePrograms sampleWorld
    let w' := (executeInsert sampleConfig sampleParsedInsert w).2
    ∃ row id, w'.file sampleConfig sampleSchema.tableName =
        some (appended sampleConfig sampleSchema w row) ∧
      ValidRow sampleSchema 0 row id ∧
      ∀ i explicit, i ≤ 1 → AddsId i id sampleParsedInsert explicit →
        executeInsert sampleConfig explicit w = (.ok (), w') := by
  intro w w'
  have hok : (executeInsert sampleConfig sampleParsedInsert w).1 = .ok () := by decide +kernel
  exact runPrograms_explicitId rfl loadTableSchema_sampleWorld slot_sampleWorld
    lexical_samplePrograms isParsed_sampleParsedInsert rfl ⟨rfl, by decide⟩ (Prod.ext hok rfl)

end SqlProc.Executor
