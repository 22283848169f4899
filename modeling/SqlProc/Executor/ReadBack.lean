import SqlProc.Front.Parser
import SqlProc.Executor.Steps
import SqlProc.Storage.Print

/-!
# Rows are read back

Library `Executor`. A SELECT of all columns after INSERTs prints the rows that the file had, in
their order, and then one row for each INSERT that has succeeded, with the texts of its values
under their columns.
-/

namespace SqlProc.Executor

open Base Front Index Schema Storage Support

variable {config : AppConfig} {schema : TableSchema} {primaryKeyIndex : Nat} {w w' w₀ : World}
  {statement : InsertStatement} {content : Bytes} {rows : List (Nat × List Bytes)}

/-! ### The row of an INSERT -/

/-- The text that an INSERT gives for column `i` with the given name. -/
def givenText (statement : InsertStatement) (i : Nat) (name : Bytes) : Option Bytes :=
  if statement.hasColumnList then listedText statement.columns statement.values name
  else statement.values[i]?.map LiteralValue.text

/-- The texts that an INSERT gives for the columns of the schema. -/
def givenCells (schema : TableSchema) (statement : InsertStatement) : List (Option Bytes) :=
  schema.columns.mapIdx fun i column ↦ givenText statement i column.name

/-- The row of an INSERT: its texts, and the decimal text of the assigned id where it gives
none. -/
def insertedRow (schema : TableSchema) (statement : InsertStatement) (assignedId : Int) :
    List Bytes :=
  (givenCells schema statement).map (·.getD (snprintfInt assignedId))

/-- The id that an INSERT which omits it is given. -/
def nextAutoId (config : AppConfig) (schema : TableSchema) (w : World) : Int :=
  ((obtainSlot config schema w).map (·.nextId)).getD 0

theorem validCell_listedText {columns : List ColumnName} {values : List LiteralValue}
    {name text : Bytes} (hv : ∀ value ∈ values, ValidCell value.text)
    (h : listedText columns values name = some text) : ValidCell text := by
  induction columns generalizing values with
  | nil => cases h
  | cons column columns ih =>
    rw [listedText] at h
    split at h
    · obtain rfl := Option.some.inj h
      cases values with
      | nil => exact validCell_nil
      | cons value values => exact hv value List.mem_cons_self
    · exact ih (fun value hm ↦ hv value (List.mem_of_mem_tail hm)) h

/-- Without a column list the cells are the texts of the values. -/
theorem copyValues_eq {columns : List ColumnSchema} {values : List LiteralValue}
    {texts : List Bytes} (hv : ∀ value ∈ values, ValidCell value.text)
    (hlen : values.length = columns.length) (h : copyValues columns values = .ok texts) :
    texts = values.map LiteralValue.text := by
  induction columns generalizing values texts with
  | nil =>
    obtain rfl := Except.ok.inj h
    rw [List.eq_nil_of_length_eq_zero hlen, List.map_nil]
  | cons column columns ih =>
    cases values with
    | nil => cases hlen
    | cons value values =>
      obtain ⟨hvalue, hrest⟩ := List.forall_mem_cons.mp hv
      rw [copyValues, List.headD_cons, List.tail_cons] at h
      cases hc : checkInsertValue column.type value with
      | error e =>
        rw [hc] at h
        cases h
      | ok u =>
        cases hr : copyValues columns values with
        | error e =>
          rw [hc, hr] at h
          cases h
        | ok rest =>
          rw [hc, hr] at h
          obtain rfl := Except.ok.inj h
          rw [ih hrest (Nat.succ.inj hlen) hr, snprintfStr_of_lt hvalue.length_lt, List.map_cons]

theorem getElem?_givenCells (schema : TableSchema) (statement : InsertStatement) (i : Nat) :
    (givenCells schema statement)[i]? =
      schema.columns[i]?.map fun column ↦ givenText statement i column.name :=
  List.getElem?_mapIdx

/-- With a column list each cell is the text listed for its column. -/
theorem placeValues_eq_givenCells (hv : Valid schema) (hl : statement.Lexical)
    (hlist : statement.hasColumnList = true) {cells : List (Option Bytes)}
    (h : placeValues schema statement.columns statement.values
      (List.replicate schema.columnCount none) = .ok cells) :
    cells = givenCells schema statement := by
  have hlen := (placeValues_valid hl.values
    ⟨List.length_replicate, fun text hm ↦ absurd (List.eq_of_mem_replicate hm) (by simp)⟩
    h).length_eq
  refine List.ext_getElem? fun i ↦ ?_
  rw [getElem?_givenCells]
  cases hi : schema.columns[i]? with
  | none => exact List.getElem?_eq_none (hlen.trans_le (List.getElem?_eq_none_iff.mp hi))
  | some column =>
    have hlt := (List.getElem?_eq_some_iff.mp hi).1
    rw [getElem?_placeValues hv h List.length_replicate hi, Option.map_some, givenText, hlist,
      if_pos rfl]
    cases ht : listedText statement.columns statement.values column.name with
    | none => exact List.getElem?_replicate_of_lt hlt
    | some text => simp only [snprintfStr_of_lt (validCell_listedText hl.values ht).length_lt]

/-- Without a column list each cell is the text of the value at its place. -/
theorem copyValues_eq_givenCells (hl : statement.Lexical) (hlist : statement.hasColumnList = false)
    (hlen : statement.values.length = schema.columnCount) {texts : List Bytes}
    (h : copyValues schema.columns statement.values = .ok texts) :
    texts.map some = givenCells schema statement := by
  rw [copyValues_eq hl.values hlen h]
  refine List.ext_getElem? fun i ↦ ?_
  rw [getElem?_givenCells, List.getElem?_map, List.getElem?_map]
  cases hi : schema.columns[i]? with
  | none =>
    rw [List.getElem?_eq_none (hlen.trans_le (List.getElem?_eq_none_iff.mp hi))]
    rfl
  | some column =>
    have hlt : i < statement.values.length :=
      (List.getElem?_eq_some_iff.mp hi).1.trans_eq hlen.symm
    rw [Option.map_some, givenText, hlist, if_neg Bool.false_ne_true,
      List.getElem?_eq_getElem hlt]
    rfl

/-- The cells of an INSERT are the texts that it gives. -/
theorem rowCells_eq_givenCells (hv : Valid schema) (hl : statement.Lexical)
    {cells : List (Option Bytes)} (h : rowCells schema statement = .ok cells) :
    cells = givenCells schema statement := by
  unfold rowCells at h
  cases hlist : statement.hasColumnList with
  | true =>
    simp only [hlist, Bool.not_true, Bool.false_eq_true, if_false] at h
    exact placeValues_eq_givenCells hv hl hlist h
  | false =>
    simp only [hlist, Bool.not_false, if_true] at h
    split at h
    · cases h
    · next hlen =>
      cases hc : copyValues schema.columns statement.values with
      | error e =>
        rw [hc] at h
        cases h
      | ok texts =>
        rw [hc] at h
        obtain rfl := Except.ok.inj h
        exact copyValues_eq_givenCells hl hlist (not_not.mp hlen) hc

/-- A row whose cells are all given. -/
theorem insertedRow_of_given (hv : Valid schema) (hl : statement.Lexical) {row : List Bytes}
    (hc : rowCells schema statement = .ok (row.map some)) (assignedId : Int) :
    insertedRow schema statement assignedId = row := by
  rw [insertedRow, ← rowCells_eq_givenCells hv hl hc, List.map_map]
  exact List.map_id _

/-- A row with an automatic id. -/
theorem insertedRow_of_assigned (hv : Valid schema) (hl : statement.Lexical)
    {before after : List Bytes} {id : Int}
    (hc : rowCells schema statement = .ok (before.map some ++ none :: after.map some))
    (hr : intMin ≤ id ∧ id ≤ intMax) :
    insertedRow schema statement id = before ++ idText id :: after := by
  have hsome : ∀ texts : List Bytes, (texts.map some).map (·.getD (snprintfInt id)) = texts := by
    intro texts
    rw [List.map_map]
    exact List.map_id _
  rw [insertedRow, ← rowCells_eq_givenCells hv hl hc, List.map_append, List.map_cons, hsome,
    hsome, idText_eq hr.1 hr.2]
  rfl

/-! ### One statement -/

/-- The schema of the table is loaded, and the slot of a table with a key is sound. -/
structure Sound (config : AppConfig) (schema : TableSchema) (w : World) : Prop where
  schema_eq : loadTableSchema w.disk.files config.schemaDir schema.tableName = .ok schema
  slot : schema.primaryKeyIndex ≠ none →
    ∀ slot, w.slot config schema.tableName = some slot → NextIdOk slot

theorem Sound.tableAt (h : Sound config schema w)
    (hp : schema.primaryKeyIndex = some primaryKeyIndex) : TableAt config schema w :=
  ⟨h.schema_eq, length_tableName_of_loadTableSchema h.schema_eq, h.slot (by rw [hp]; nofun)⟩

theorem Sound.executeStatement {statement : Statement} (h : Sound config schema w)
    (hl : statement.Lexical) : Sound config schema (executeStatement config statement w).2 := by
  have hlen := length_statementTable hl
  refine ⟨(touches_executeStatement config hlen w).schema_eq hlen h.schema_eq, fun hne ↦ ?_⟩
  obtain ⟨primaryKeyIndex, hp⟩ := Option.ne_none_iff_exists'.mp hne
  exact (advances_executeStatement hp hl w (h.tableAt hp)).1.slot

/-- The file after an INSERT on the table: as before when it fails, with one more row when it
succeeds. -/
inductive FileAfter (config : AppConfig) (schema : TableSchema) (w : World)
    (statement : InsertStatement) : Except ErrorInfo Unit → Option Bytes → Prop
  | kept (e : ErrorInfo) :
    FileAfter config schema w statement (.error e) (w.file config schema.tableName)
  | appended (row : List Bytes)
      (hrow : row = insertedRow schema statement (nextAutoId config schema w))
      (happ : Appendable schema (w.file config schema.tableName))
      (hlen : row.length = schema.columnCount) (hvalid : ∀ text ∈ row, ValidCell text) :
    FileAfter config schema w statement (.ok ()) (some (appended config schema w row))

theorem fileAfter_executeInsert (h : Sound config schema w) (hl : statement.Lexical)
    (hn : statement.tableName = schema.tableName) :
    FileAfter config schema w statement (executeInsert config statement w).1
      ((executeInsert config statement w).2.file config schema.tableName) := by
  obtain ⟨hv, -⟩ := loadTableSchema_valid h.schema_eq
  have hschema : loadTableSchema w.disk.files config.schemaDir statement.tableName =
      .ok schema := by
    rw [hn]
    exact h.schema_eq
  cases hp : schema.primaryKeyIndex with
  | none =>
    rcases executeInsert_noKey hp hschema with ⟨e, he⟩ | ⟨row, hc, happ, hrun⟩
    · rw [he]
      exact .kept e
    · obtain ⟨hlen, hvalid⟩ := rowCells_valid hl hc
      rw [hrun, World.file, World.write, Disk.write_files_self]
      refine .appended row (insertedRow_of_given hv hl hc _).symm happ ?_ fun text hm ↦ ?_
      · rw [← hlen, List.length_map]
      · exact hvalid text (List.mem_map_of_mem hm)
  | some primaryKeyIndex =>
    have hw := h.tableAt hp
    have hout := executeInsert_outcome hp hschema hw.slot
    generalize executeInsert config statement w = out at hout ⊢
    obtain ⟨r, w'⟩ := out
    cases hout with
    | rejected e => exact .kept e
    | opened e slot hs =>
      simp only [file_opened]
      exact .kept e
    | burned e slot before after hc hlen hs hm hwhy =>
      simp only [file_taken]
      exact .kept e
    | given slot row key index hc hs hi hid hk happ =>
      have hrow := validRow_given hl hc hid
      simp only [file_stored hs (isFor_obtainSlot hs)]
      exact .appended row (insertedRow_of_given hv hl hc _).symm happ hrow.length_eq hrow.valid
    | assigned slot before after index hc hlen hs hm hi hk happ =>
      subst hlen
      have hrange := (nextIdOk_obtainSlot hp hw.slot hs).range
      have hrow := validRow_assigned hl hc hrange
      have hid : nextAutoId config schema w = slot.nextId := by
        rw [nextAutoId, hs]
        rfl
      have hfor := isFor_allocated_obtainSlot hs
      simp only [file_stored hs hfor]
      refine .appended _ ?_ happ hrow.length_eq hrow.valid
      rw [hid, insertedRow_of_assigned hv hl hc hrange]

/-! ### INSERTs one after the other -/

/-- The INSERTs one after the other; one that fails does not stop those after it. -/
def runInserts (config : AppConfig) (statements : List InsertStatement) (w : World) : World :=
  statements.foldl (fun w statement ↦ (executeInsert config statement w).2) w

/-- The rows that an INSERT adds to the table: one if it is on the table and succeeds. -/
def addedRows (config : AppConfig) (schema : TableSchema) (w : World)
    (statement : InsertStatement) : List (List Bytes) :=
  match (executeInsert config statement w).1 with
  | .error _ => []
  | .ok () =>
    if statement.tableName = schema.tableName then
      [insertedRow schema statement (nextAutoId config schema w)]
    else []

/-- The rows that INSERTs add to the table, in their order. -/
def insertedRows (config : AppConfig) (schema : TableSchema) :
    List InsertStatement → World → List (List Bytes)
  | [], _ => []
  | statement :: statements, w =>
    addedRows config schema w statement ++
      insertedRows config schema statements (executeInsert config statement w).2

/-- The file of the table has an accepted header and the given rows. -/
def HoldsRows (config : AppConfig) (schema : TableSchema) (w : World)
    (rows : List (Nat × List Bytes)) : Prop :=
  ∃ content, w.file config schema.tableName = some content ∧ HeaderOk schema content ∧
    TableRows schema content rows

/-- An INSERT keeps the rows and adds its own after them. -/
theorem HoldsRows.executeInsert (h : HoldsRows config schema w rows)
    (hs : Sound config schema w) (hl : statement.Lexical) :
    ∃ new, HoldsRows config schema (executeInsert config statement w).2 (rows ++ new) ∧
      new.map Prod.snd = addedRows config schema w statement := by
  obtain ⟨content, hf, hh, hr⟩ := h
  obtain ⟨hv, hne⟩ := loadTableSchema_valid hs.schema_eq
  by_cases hn : statement.tableName = schema.tableName
  · have hafter := fileAfter_executeInsert hs hl hn
    unfold HoldsRows addedRows
    rw [if_pos hn]
    generalize (Executor.executeInsert config statement w).1 = r at hafter ⊢
    generalize (Executor.executeInsert config statement w).2.file config schema.tableName = file
      at hafter ⊢
    cases hafter with
    | kept e => exact ⟨[], ⟨content, hf, hh, by rw [List.append_nil]; exact hr⟩, rfl⟩
    | appended row hrow happ hlen hvalid =>
      have hrow' : row ≠ [] := by
        apply List.ne_nil_of_length_pos
        rw [hlen]
        exact List.length_pos_of_ne_nil hne
      rw [hf] at happ
      rw [Executor.appended, hf]
      refine ⟨[((appendBase schema (some content)).length, row)], ⟨_, rfl, ?_, ?_⟩,
        by rw [hrow]; rfl⟩
      · exact hh.ensureAppend.append (terminated_appendBase schema (some content))
          (nul_notMem_writeCsvRow hvalid (hlen.trans_le hv.length_le))
      · exact TableRows.append hr hv
          (lines_appendBase_ne_nil hv hh.nul_notMem happ) hvalid hrow' hlen
  · have hlen : (statementTable (.insert noLocation statement)).length < maxNameLen :=
      hl.length_tableName
    have htouch := touches_executeStatement config hlen w
    have hpath : tablePath config schema.tableName ≠ tablePath config statement.tableName :=
      fun hpath ↦ hn (tablePath_injective (length_tableName_of_loadTableSchema hs.schema_eq)
        hl.length_tableName hpath).symm
    refine ⟨[], ⟨content, (htouch.files _ hpath).trans hf, hh,
      by rw [List.append_nil]; exact hr⟩, ?_⟩
    rw [addedRows, if_neg hn]
    cases (Executor.executeInsert config statement w).1 <;> rfl

/-- INSERTs keep the rows and add theirs in order. -/
theorem HoldsRows.runInserts {statements : List InsertStatement}
    (h : HoldsRows config schema w rows) (hs : Sound config schema w)
    (hl : ∀ statement ∈ statements, statement.Lexical) :
    Sound config schema (runInserts config statements w) ∧
      ∃ new, HoldsRows config schema (runInserts config statements w) (rows ++ new) ∧
        new.map Prod.snd = insertedRows config schema statements w := by
  induction statements generalizing w rows with
  | nil => exact ⟨hs, [], by rw [List.append_nil]; exact h, rfl⟩
  | cons statement statements ih =>
    obtain ⟨hstatement, hrest⟩ := List.forall_mem_cons.mp hl
    obtain ⟨new, hnew, hadded⟩ := h.executeInsert hs hstatement
    have hlexical : (Statement.insert noLocation statement).Lexical := hstatement
    have hs' := hs.executeStatement hlexical
    obtain ⟨hsound, later, hlater, hinserted⟩ := ih hnew hs' hrest
    refine ⟨hsound, new ++ later, by rw [← List.append_assoc]; exact hlater, ?_⟩
    rw [List.map_append, hadded, hinserted, insertedRows]

/-! ### Reading back -/

/-- A SELECT of all columns without a condition. -/
structure SelectsAll (schema : TableSchema) (statement : SelectStatement) : Prop where
  tableName : statement.tableName = schema.tableName
  selectAll : statement.selectAll = true
  hasWhere : statement.hasWhere = false

/-- The lines printed for the header and for rows of cells. -/
def tableOutput (schema : TableSchema) (rows : List (List Bytes)) : List Output :=
  let selected := List.range schema.columnCount
  headerOutput schema selected :: rows.map fun row ↦ .line (selectedText row selected)

theorem tableOutput_eq (schema : TableSchema) (rows : List (Nat × List Bytes)) :
    tableOutput schema (rows.map Prod.snd) =
      headerOutput schema (List.range schema.columnCount) ::
        rows.map (rowOutput (List.range schema.columnCount)) := by
  rw [tableOutput, List.map_map]
  rfl

/-- Such a SELECT prints the rows of the file. -/
theorem executeSelect_all {statement : SelectStatement} (h : HoldsRows config schema w rows)
    (hs : Sound config schema w) (hall : SelectsAll schema statement) :
    (executeSelect config statement w).1 = .ok () ∧
      (executeSelect config statement w).2.disk.stdout =
        w.disk.stdout ++ tableOutput schema (rows.map Prod.snd) ++ [.elapsed] := by
  obtain ⟨content, hf, hh, hr⟩ := h
  have hprint := storagePrintRows_spec hf hh hr (List.range schema.columnCount)
  have hselected : resolveSelectedColumns schema statement =
      .ok (List.range schema.columnCount) := by
    rw [resolveSelectedColumns, if_pos hall.selectAll]
  have hrun : executeSelect config statement w = printElapsed
      { w with disk := w.disk.print (tableOutput schema (rows.map Prod.snd)) } := by
    rw [executeSelect, Exec.bind_ok (Exec.get_apply w),
      Exec.bind_ok (by rw [Exec.lift_apply, hall.tableName, hs.schema_eq]),
      Exec.bind_ok (by rw [Exec.lift_apply, hselected]), hall.hasWhere, if_pos (by decide),
      Exec.bind_ok (onDisk_ok hprint), tableOutput_eq]
  rw [hrun]
  exact ⟨rfl, rfl⟩

/-- A table whose rows could be printed: after INSERTs that the front end has accepted, a SELECT
of all columns prints those rows, and then the rows of the INSERTs that have succeeded. -/
theorem runInserts_readBack {statements : List InsertStatement} {select : SelectStatement}
    (hschema : loadTableSchema w₀.disk.files config.schemaDir schema.tableName = .ok schema)
    (hfresh : schema.primaryKeyIndex ≠ none → w₀.slot config schema.tableName = none)
    (hfile : w₀.file config schema.tableName = some content) (hheader : HeaderOk schema content)
    (hprint : (storagePrintRows config schema (List.range schema.columnCount) w₀.disk).1 = .ok ())
    (hparsed : ∀ statement ∈ statements, ∃ location, IsParsed (.insert location statement))
    (hall : SelectsAll schema select) :
    ∃ original : List (List Bytes),
      (storagePrintRows config schema (List.range schema.columnCount) w₀.disk).2.stdout =
        w₀.disk.stdout ++ tableOutput schema original ∧
      (executeSelect config select (runInserts config statements w₀)).1 = .ok () ∧
      (executeSelect config select (runInserts config statements w₀)).2.disk.stdout =
        (runInserts config statements w₀).disk.stdout ++
          tableOutput schema (original ++ insertedRows config schema statements w₀) ++
          [.elapsed] := by
  obtain ⟨rows, hrows⟩ := exists_rows_of_storagePrintRows hfile hheader (Prod.ext hprint rfl)
  have hsound : Sound config schema w₀ := by
    refine ⟨hschema, fun hne slot hslot ↦ ?_⟩
    rw [hfresh hne] at hslot
    cases hslot
  have hlexical : ∀ statement ∈ statements, statement.Lexical := by
    intro statement hm
    obtain ⟨location, h⟩ := hparsed statement hm
    exact h.lexical
  obtain ⟨hsound', new, hholds, hnew⟩ :=
    HoldsRows.runInserts ⟨content, hfile, hheader, hrows⟩ hsound hlexical
  obtain ⟨hok, hstdout⟩ := executeSelect_all hholds hsound' hall
  refine ⟨rows.map Prod.snd, ?_, hok, ?_⟩
  · rw [storagePrintRows_spec hfile hheader hrows, tableOutput_eq]
    rfl
  · rw [hstdout, List.map_append, hnew]

/-- A process that finds the table `t` with one row and no line end after it. -/
def sampleTableWorld : World :=
  { sampleWorld with
    disk := sampleWorld.disk.write (tablePath sampleConfig (text "t")) (text "id,name\n5,\"a,b\"") }

/-- `INSERT INTO t (name, id) VALUES ('c"d', 5);` and `INSERT INTO t (name) VALUES ('c"d');`. -/
def sampleParsed : List InsertStatement :=
  [⟨text "t", ⟨1, 13⟩, true, [⟨text "name", ⟨1, 16⟩⟩, ⟨text "id", ⟨1, 22⟩⟩],
      [⟨.string, text "c\"d", ⟨1, 34⟩⟩, ⟨.int, text "5", ⟨1, 41⟩⟩]⟩,
    ⟨text "t", ⟨1, 13⟩, true, [⟨text "name", ⟨1, 16⟩⟩], [⟨.string, text "c\"d", ⟨1, 30⟩⟩]⟩]

/-- `SELECT * FROM t;`. -/
def sampleSelectAll : SelectStatement :=
  selectStatement (text "t") none none

theorem isParsed_sampleParsed :
    ∀ statement ∈ sampleParsed, ∃ location, IsParsed (.insert location statement) := by
  simp only [sampleParsed, List.forall_mem_cons]
  refine ⟨⟨⟨1, 1⟩, text "INSERT INTO t (name, id) VALUES ('c\"d', 5);", _, ?_,
    List.mem_singleton_self _⟩, ⟨⟨1, 1⟩, text "INSERT INTO t (name) VALUES ('c\"d');", _, ?_,
    List.mem_singleton_self _⟩, List.forall_mem_nil _⟩
  · decide +kernel
  · decide +kernel

theorem runInserts_readBack_sample :
    let w := runInserts sampleConfig sampleParsed sampleTableWorld
    ∃ original : List (List Bytes),
      (storagePrintRows sampleConfig sampleSchema (List.range sampleSchema.columnCount)
          sampleTableWorld.disk).2.stdout =
        sampleTableWorld.disk.stdout ++ tableOutput sampleSchema original ∧
      (executeSelect sampleConfig sampleSelectAll w).1 = .ok () ∧
      (executeSelect sampleConfig sampleSelectAll w).2.disk.stdout =
        w.disk.stdout ++ tableOutput sampleSchema
          (original ++ insertedRows sampleConfig sampleSchema sampleParsed sampleTableWorld) ++
          [.elapsed] := by
  have hheader : HeaderOk sampleSchema (text "id,name\n5,\"a,b\"") :=
    ⟨by decide +kernel, (0, text "id,name"), by decide +kernel, by decide +kernel,
      by decide +kernel⟩
  have hschema : loadTableSchema sampleTableWorld.disk.files sampleConfig.schemaDir
      sampleSchema.tableName = .ok sampleSchema := by decide +kernel
  have hfile : sampleTableWorld.file sampleConfig sampleSchema.tableName =
      some (text "id,name\n5,\"a,b\"") := by decide +kernel
  have hprint : (storagePrintRows sampleConfig sampleSchema
      (List.range sampleSchema.columnCount) sampleTableWorld.disk).1 = .ok () := by
    decide +kernel
  exact runInserts_readBack
    hschema
    (fun _ ↦ rfl) hfile hheader hprint isParsed_sampleParsed ⟨rfl, rfl, rfl⟩

end SqlProc.Executor
