import SqlProc.Executor.Cells
import SqlProc.Executor.Frame
import Mathlib.Logic.Relation

/-!
# Runs as steps of one table

Library `Executor`. An abstract machine for a table with a primary key: its state is the data
file and the slot, and its steps open the slot, take an automatic id, or store a row. Every
run of the program moves each such table by these steps only, so that an invariant of the
machine holds in every state of every run.
-/

namespace SqlProc.Executor

open Base Front Index Schema Storage Support

/-! ### Paths -/

theorem tablePath_eq (config : AppConfig) {tableName : Bytes}
    (hl : tableName.length < maxNameLen) :
    tablePath config tableName = config.dataDir ++ text "/" ++ tableName ++ text ".csv" := by
  apply snprintfStr_of_lt
  have hdir := config.length_dataDir
  have hslash : (text "/").length = 1 := rfl
  have hcsv : (text ".csv").length = 4 := rfl
  simp only [maxNameLen] at hl
  simp only [List.length_append]
  omega

theorem schemaPath_eq (config : AppConfig) {tableName : Bytes}
    (hl : tableName.length < maxNameLen) :
    schemaPath config.schemaDir tableName =
      config.schemaDir ++ text "/" ++ tableName ++ text ".schema" := by
  apply snprintfStr_of_lt
  have hdir := config.length_schemaDir
  have hslash : (text "/").length = 1 := rfl
  have hschema : (text ".schema").length = 7 := rfl
  simp only [maxNameLen] at hl
  simp only [List.length_append]
  omega

/-- Tables have different data files. -/
theorem tablePath_injective {config : AppConfig} {name name' : Bytes}
    (hl : name.length < maxNameLen) (hl' : name'.length < maxNameLen)
    (h : tablePath config name = tablePath config name') : name = name' := by
  rw [tablePath_eq config hl, tablePath_eq config hl'] at h
  exact List.append_cancel_left (List.append_cancel_right h)

/-- No data file is a schema file. -/
theorem schemaPath_ne_tablePath {config : AppConfig} {name name' : Bytes}
    (hl : name.length < maxNameLen) (hl' : name'.length < maxNameLen) :
    schemaPath config.schemaDir name ≠ tablePath config name' := by
  rw [schemaPath_eq config hl, tablePath_eq config hl']
  intro h
  have hschema : (text ".schema").getLast? = some 97 := rfl
  have hcsv : (text ".csv").getLast? = some 118 := rfl
  have hlast := congrArg List.getLast? h
  simp [List.getLast?_append, hschema, hcsv] at hlast

/-! ### The abstract machine -/

variable {config : AppConfig} {schema : TableSchema} {primaryKeyIndex : Nat} {w w' : World}
  {slot : TableRuntimeState}

/-- The data file and the slot of a table. -/
structure TableView where
  file : Option Bytes
  slot : Option TableRuntimeState

/-- What the process holds for a table. -/
def World.view (w : World) (config : AppConfig) (tableName : Bytes) : TableView :=
  ⟨w.file config tableName, w.slot config tableName⟩

/-- A row that fits the schema and has the given id. -/
structure ValidRow (schema : TableSchema) (primaryKeyIndex : Nat) (row : List Bytes) (key : Int) :
    Prop where
  length_eq : row.length = schema.columnCount
  valid : ∀ text ∈ row, ValidCell text
  rowId_eq : rowId primaryKeyIndex row = some key

/-- A step of a table: its slot is created from its file, an automatic id is taken, or a row
is appended to the file and entered into the index. -/
inductive TableStep (config : AppConfig) (schema : TableSchema) (primaryKeyIndex : Nat) :
    TableView → TableView → Prop
  | opened (w : World) (slot : TableRuntimeState) (hf : freshSlot config schema w = some slot) :
    TableStep config schema primaryKeyIndex ⟨w.file config schema.tableName, none⟩
      ⟨w.file config schema.tableName, some slot⟩
  | allocated (file : Option Bytes) (slot : TableRuntimeState) (hm : slot.nextId ≠ intMax) :
    TableStep config schema primaryKeyIndex ⟨file, some slot⟩ ⟨file, some slot.allocated⟩
  | stored (file : Option Bytes) (slot : TableRuntimeState) (row : List Bytes) (key : Int)
      (index : PkIndex) (hi : slot.pkIndex = some index)
      (hk : findEntry key index.entries = none) (happ : Appendable schema file)
      (hrow : ValidRow schema primaryKeyIndex row key) :
    TableStep config schema primaryKeyIndex ⟨file, some slot⟩
      ⟨some (appendBase schema file ++ writeCsvRow row),
        some (slot.registered index key (appendBase schema file).length)⟩

/-- Steps of a table one after the other. -/
abbrev TableSteps (config : AppConfig) (schema : TableSchema) (primaryKeyIndex : Nat) :
    TableView → TableView → Prop :=
  Relation.ReflTransGen (TableStep config schema primaryKeyIndex)

/-- Asking for the slot of a table is at most one step. -/
theorem steps_of_obtainSlot (h : obtainSlot config schema w = some slot) :
    TableSteps config schema primaryKeyIndex (w.view config schema.tableName)
      ⟨w.file config schema.tableName, some slot⟩ := by
  rw [World.view]
  rcases obtainSlot_eq_some_iff.mp h with hs | ⟨hs, -, hfresh⟩
  · rw [hs]
  · rw [hs]
    exact .single (.opened w slot hfresh)

theorem view_opened (h : obtainSlot config schema w = some slot) :
    (opened config schema w).view config schema.tableName =
      ⟨w.file config schema.tableName, some slot⟩ := by
  rw [World.view, World.file, opened_disk, slot_opened h]
  rfl

theorem view_setSlot {slot' : TableRuntimeState} (h : w.slot config schema.tableName = some slot)
    (hs : slot'.isFor config schema.tableName = true) :
    (w.setSlot config schema.tableName slot').view config schema.tableName =
      ⟨w.file config schema.tableName, some slot'⟩ := by
  rw [World.view, World.file, World.setSlot_disk, World.slot_setSlot (by rw [h]; rfl) hs]
  rfl

theorem view_stored {row : List Bytes} {index : PkIndex} {key : Int} {slot' : TableRuntimeState}
    (hs : obtainSlot config schema w = some slot)
    (hfor : slot'.isFor config schema.tableName = true) :
    (stored config schema w row slot' index key).view config schema.tableName =
      ⟨some (appended config schema w row), some (slot'.registered index key
        (appendBase schema (w.file config schema.tableName)).length)⟩ := by
  have hreg : ∀ offset,
      (slot'.registered index key offset).isFor config schema.tableName = true := fun _ ↦ hfor
  rw [stored, view_setSlot (by rw [World.slot_write, slot_opened hs]) (hreg _),
    World.file, World.write, Disk.write_files_self]

/-- Reading the disk leaves the files and the slots alone. -/
theorem view_onDisk {α : Type} {x : Exec Disk α} (hx : x.Within SameFiles) (w : World)
    (tableName : Bytes) : (onDisk x w).2.view config tableName = w.view config tableName := by
  rw [World.view, World.file]
  exact congrArg (TableView.mk · _) (congrFun (hx w.disk) _)

/-- Storing a row appends it to the file. -/
theorem file_stored {row : List Bytes} {index : PkIndex} {key : Int} {slot' : TableRuntimeState}
    (hs : obtainSlot config schema w = some slot)
    (hfor : slot'.isFor config schema.tableName = true) :
    (stored config schema w row slot' index key).file config schema.tableName =
      some (appended config schema w row) :=
  congrArg TableView.file (view_stored hs hfor)

/-- The table has a schema with a primary key, and its slot, when it has one, is sound. -/
structure TableAt (config : AppConfig) (schema : TableSchema) (w : World) : Prop where
  schema_eq : loadTableSchema w.disk.files config.schemaDir schema.tableName = .ok schema
  length_tableName : schema.tableName.length < maxNameLen
  slot : ∀ slot, w.slot config schema.tableName = some slot → NextIdOk slot

theorem TableAt.valid (h : TableAt config schema w) : Valid schema :=
  (loadTableSchema_valid h.schema_eq).1

/-- A statement on the table finds its schema. -/
theorem TableAt.loads (h : TableAt config schema w) {tableName : Bytes}
    (hn : tableName = schema.tableName) :
    loadTableSchema w.disk.files config.schemaDir tableName = .ok schema := by
  rw [hn]
  exact h.schema_eq

/-- The process has moved the table by steps. -/
def Moves (config : AppConfig) (schema : TableSchema) (primaryKeyIndex : Nat) (w w' : World) :
    Prop :=
  TableSteps config schema primaryKeyIndex (w.view config schema.tableName)
    (w'.view config schema.tableName)

instance (config : AppConfig) (schema : TableSchema) (primaryKeyIndex : Nat) :
    IsPreorder World (Moves config schema primaryKeyIndex) where
  refl _ := .refl
  trans _ _ _ h h' := h.trans h'

/-- A row whose cells are all given fits the schema. -/
theorem validRow_given {statement : InsertStatement} {row : List Bytes} {key : Int}
    (hl : statement.Lexical) (hc : rowCells schema statement = .ok (row.map some))
    (hid : rowId primaryKeyIndex row = some key) : ValidRow schema primaryKeyIndex row key := by
  obtain ⟨hlen, hvalid⟩ := rowCells_valid hl hc
  exact ⟨by rw [← hlen, List.length_map], fun text hm ↦ hvalid text (List.mem_map_of_mem hm), hid⟩

/-- A row with an automatic id fits the schema. -/
theorem validRow_assigned {statement : InsertStatement} {before after : List Bytes} {id : Int}
    (hl : statement.Lexical)
    (hc : rowCells schema statement = .ok (before.map some ++ none :: after.map some))
    (hr : intMin ≤ id ∧ id ≤ intMax) :
    ValidRow schema before.length (before ++ idText id :: after) id := by
  obtain ⟨hlen, hvalid⟩ := rowCells_valid hl hc
  refine ⟨?_, fun text hm ↦ ?_, rowId_assigned hr.1 hr.2⟩
  · rw [← hlen]
    simp
  · rw [List.mem_append, List.mem_cons] at hm
    rcases hm with hm | rfl | hm
    · exact hvalid text (by simp [hm])
    · exact validCell_idText hr.1 hr.2
    · exact hvalid text (by simp [hm])

/-- The steps of an INSERT on the table. -/
theorem steps_executeInsert (hp : schema.primaryKeyIndex = some primaryKeyIndex)
    {statement : InsertStatement} (hl : statement.Lexical)
    (hn : statement.tableName = schema.tableName) (hw : TableAt config schema w) :
    Moves config schema primaryKeyIndex w (executeInsert config statement w).2 := by
  have hout := executeInsert_outcome hp (hw.loads hn) hw.slot
  generalize executeInsert config statement w = out at hout ⊢
  obtain ⟨r, w'⟩ := out
  cases hout with
  | rejected e => exact .refl
  | opened e slot hs =>
    rw [Moves, view_opened hs]
    exact steps_of_obtainSlot hs
  | burned e slot before after hc hl' hs hm hwhy =>
    have hfor := isFor_allocated_obtainSlot hs
    rw [Moves, view_setSlot (slot_opened hs) hfor, World.file, opened_disk, ← World.file]
    exact (steps_of_obtainSlot hs).tail (.allocated _ slot hm)
  | given slot row key index hc hs hi hid hk happ =>
    rw [Moves, view_stored hs (isFor_obtainSlot hs)]
    exact (steps_of_obtainSlot hs).tail
      (.stored _ slot row key index hi hk happ (validRow_given hl hc hid))
  | assigned slot before after index hc hl' hs hm hi hk happ =>
    subst hl'
    have hrange := (nextIdOk_obtainSlot hp hw.slot hs).range
    have hfor := isFor_allocated_obtainSlot hs
    rw [Moves, view_stored hs hfor]
    exact ((steps_of_obtainSlot hs).tail (.allocated _ slot hm)).tail
      (.stored _ slot.allocated _ slot.nextId index hi hk happ (validRow_assigned hl hc hrange))

/-! ### Simulation -/

/-- A step of a table keeps its slot sound. -/
theorem TableStep.nextIdOk {v v' : TableView} (hp : schema.primaryKeyIndex = some primaryKeyIndex)
    (h : TableStep config schema primaryKeyIndex v v')
    (hv : ∀ slot, v.slot = some slot → NextIdOk slot) :
    ∀ slot, v'.slot = some slot → NextIdOk slot := by
  cases h with
  | opened w slot hf =>
    rintro _ ⟨⟩
    exact nextIdOk_freshSlot hp hf
  | allocated file slot hm =>
    rintro _ ⟨⟩
    exact (hv slot rfl).allocated hm
  | stored file slot row key index hi hk happ hrow =>
    rintro _ ⟨⟩
    exact (hv slot rfl).registered hi hk (strtolInt_range hrow.rowId_eq)

/-- What holds of a table and is kept by each of its steps holds after all of them. -/
theorem TableSteps.invariant {P : TableView → Prop} {v v' : TableView}
    (h : TableSteps config schema primaryKeyIndex v v')
    (hstep : ∀ v v', P v → TableStep config schema primaryKeyIndex v v' → P v') (hv : P v) :
    P v' := by
  induction h with
  | refl => exact hv
  | tail _ hs ih => exact hstep _ _ ih hs

/-- A process that has no slot for the table yet. -/
theorem tableAt_fresh
    (hschema : loadTableSchema w.disk.files config.schemaDir schema.tableName = .ok schema)
    (hfresh : w.slot config schema.tableName = none) : TableAt config schema w := by
  refine ⟨hschema, length_tableName_of_loadTableSchema hschema, fun slot hs ↦ ?_⟩
  rw [hfresh] at hs
  cases hs

/-- The process has moved the table by steps, if the table was sound. -/
def Advances (config : AppConfig) (schema : TableSchema) (primaryKeyIndex : Nat) (w w' : World) :
    Prop :=
  TableAt config schema w → TableAt config schema w' ∧ Moves config schema primaryKeyIndex w w'

instance (config : AppConfig) (schema : TableSchema) (primaryKeyIndex : Nat) :
    IsPreorder World (Advances config schema primaryKeyIndex) where
  refl _ hw := ⟨hw, .refl⟩
  trans _ _ _ h h' hw :=
    ⟨(h' (h hw).1).1, (h hw).2.trans (h' (h hw).1).2⟩

/-- A statement that touches one table leaves the schema files alone. -/
theorem Touches.schema_eq {name : Bytes} (hl : name.length < maxNameLen)
    (h : Touches config name w w')
    (hw : loadTableSchema w.disk.files config.schemaDir schema.tableName = .ok schema) :
    loadTableSchema w'.disk.files config.schemaDir schema.tableName = .ok schema := by
  have hlen := length_tableName_of_loadTableSchema hw
  rw [loadTableSchema_congr (h.files _ (schemaPath_ne_tablePath hlen hl))]
  exact hw

/-- A statement that touches one table leaves the others alone. -/
theorem Touches.view_eq {name tableName : Bytes} (hl : name.length < maxNameLen)
    (h : Touches config name w w') (hl' : tableName.length < maxNameLen) (hn : tableName ≠ name) :
    w'.view config tableName = w.view config tableName := by
  have hpath : tablePath config tableName ≠ tablePath config name := fun hp ↦
    hn (tablePath_injective hl' hl hp)
  rw [World.view, World.file, h.files _ hpath, h.slots _ hn]
  rfl

/-- A statement of the parser names a table whose path is not cut. -/
theorem length_statementTable {statement : Statement} (hl : statement.Lexical) :
    (statementTable statement).length < maxNameLen := by
  cases statement with
  | insert location statement => exact hl.length_tableName
  | select location statement => exact hl.length_tableName

/-- Every statement moves every table with a primary key by steps. -/
theorem advances_executeStatement (hp : schema.primaryKeyIndex = some primaryKeyIndex)
    {statement : Statement} (hl : statement.Lexical) :
    (executeStatement config statement).Within (Advances config schema primaryKeyIndex) := by
  intro w hw
  have hlen := length_statementTable hl
  have htouch := touches_executeStatement config hlen w
  have hsteps : Moves config schema primaryKeyIndex w
      (executeStatement config statement w).2 := by
    by_cases hn : schema.tableName = statementTable statement
    · cases statement with
      | insert location statement => exact steps_executeInsert hp hl hn.symm hw
      | select location statement =>
        have hschema := hw.loads (show statement.tableName = schema.tableName from hn.symm)
        refine within_executeSelect (R := Moves config schema primaryKeyIndex) (fun w ↦ ?_)
          (fun x hx w ↦ ?_) hschema
        · cases hs : obtainSlot config schema w with
          | none =>
            obtain ⟨e, he⟩ := getTableStateIndex_of_none hs
            rw [he]
            exact .refl
          | some slot =>
            obtain ⟨i, hi, -⟩ := getTableStateIndex_of_some hs
            rw [hi, Moves, view_opened hs]
            exact steps_of_obtainSlot hs
        · rw [Moves, view_onDisk hx]
    · rw [Moves, htouch.view_eq hlen hw.length_tableName hn]
  refine ⟨⟨htouch.schema_eq hlen hw.schema_eq, hw.length_tableName, ?_⟩, hsteps⟩
  exact hsteps.invariant (P := fun v ↦ ∀ slot, v.slot = some slot → NextIdOk slot)
    (fun v v' hv hs ↦ hs.nextIdOk hp hv) hw.slot

/-! ### Runs -/

/-- Programs executed one after the other in one process; a failed statement ends its
program. -/
def runPrograms (config : AppConfig) (programs : List SqlProgram) (w : World) : World :=
  programs.foldl (fun w program ↦ (executeProgram config program w).2) w

/-- If the schema of the table was loaded before, it is loaded again. -/
def KeepsSchema (config : AppConfig) (schema : TableSchema) (w w' : World) : Prop :=
  loadTableSchema w.disk.files config.schemaDir schema.tableName = .ok schema →
    loadTableSchema w'.disk.files config.schemaDir schema.tableName = .ok schema

instance (config : AppConfig) (schema : TableSchema) :
    IsPreorder World (KeepsSchema config schema) where
  refl _ := id
  trans _ _ _ h h' := h' ∘ h

/-- What each statement keeps within a preorder, every run does. -/
theorem runPrograms_within {R : World → World → Prop} [IsPreorder World R]
    {programs : List SqlProgram}
    (h : ∀ program ∈ programs, ∀ statement ∈ program, (executeStatement config statement).Within R)
    (w : World) : R w (runPrograms config programs w) := by
  have hprogram : ∀ {program : SqlProgram},
      (∀ statement ∈ program, (executeStatement config statement).Within R) →
        (executeProgram config program).Within R := by
    intro program hs
    induction program with
    | nil => exact Exec.within_pure ()
    | cons statement program ih =>
      obtain ⟨hs, hr⟩ := List.forall_mem_cons.mp hs
      exact Exec.within_bind hs fun _ ↦ ih hr
  induction programs generalizing w with
  | nil => exact refl_of _ w
  | cons program programs ih =>
    obtain ⟨hp, hr⟩ := List.forall_mem_cons.mp h
    exact trans_of _ (hprogram hp w) (ih hr _)

/-- Every run moves every table with a primary key by steps. -/
theorem advances_runPrograms (hp : schema.primaryKeyIndex = some primaryKeyIndex)
    {programs : List SqlProgram} (hl : ∀ program ∈ programs, program.Lexical) (w : World) :
    Advances config schema primaryKeyIndex w (runPrograms config programs w) :=
  runPrograms_within (fun program hm _ hs ↦ advances_executeStatement hp (hl program hm _ hs)) w

/-- No run changes the schema of a table. -/
theorem keepsSchema_runPrograms {programs : List SqlProgram}
    (hl : ∀ program ∈ programs, program.Lexical) (w : World) :
    KeepsSchema config schema w (runPrograms config programs w) := by
  refine runPrograms_within (R := KeepsSchema config schema) ?_ w
  intro program hp statement hs w hw
  have hlen := length_statementTable (hl program hp statement hs)
  exact (touches_executeStatement config hlen w).schema_eq hlen hw

/-! ### A process with one table -/

/-- The schema `id:int,name:string` of a table `t`. -/
def sampleSchema : TableSchema := ⟨text "t", some 0, [⟨text "id", .int⟩, ⟨text "name", .string⟩]⟩

/-- A new process that finds only the schema file of `t`. -/
def sampleWorld : World := ⟨⟨schemaFiles (text "id:int,name:string\n"), []⟩, []⟩

theorem loadTableSchema_sampleWorld : loadTableSchema sampleWorld.disk.files
    sampleConfig.schemaDir sampleSchema.tableName = .ok sampleSchema := rfl

theorem slot_sampleWorld : sampleWorld.slot sampleConfig sampleSchema.tableName = none := rfl

/-- `INSERT INTO t VALUES (7, 'x')`. -/
def sampleInsert : InsertStatement :=
  ⟨text "t", noLocation, false, [],
    [⟨.int, text "7", noLocation⟩, ⟨.string, text "x", noLocation⟩]⟩

/-- `INSERT INTO t (name) VALUES ('y')`. -/
def sampleAutoInsert : InsertStatement :=
  ⟨text "t", noLocation, true, [⟨text "name", noLocation⟩],
    [⟨.string, text "y", noLocation⟩]⟩

/-- Both statements, one program each. -/
def samplePrograms : List SqlProgram :=
  [[.insert noLocation sampleInsert], [.insert noLocation sampleAutoInsert]]

theorem lexical_samplePrograms : ∀ program ∈ samplePrograms, program.Lexical := by
  have h : sampleInsert.Lexical := by decide
  have h' : sampleAutoInsert.Lexical := by decide
  intro program hp statement hs
  simp only [samplePrograms, List.mem_cons, List.not_mem_nil, or_false] at hp
  rcases hp with rfl | rfl
  · rw [List.mem_singleton.mp hs]
    exact h
  · rw [List.mem_singleton.mp hs]
    exact h'

end SqlProc.Executor
