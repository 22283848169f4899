import SqlProc.Executor.Reopen
import SqlProc.Relational.Session
import SqlProc.Storage.LinearChecks

/-!
# Runs of one process and of several

Library `Relational`. A process answers every sequence of SQL texts as the database does that it
implements. A new process implements the database that its files hold, in which every next id is
one more than the largest id of the table.
-/

namespace SqlProc.Relational

open Base Front Index Schema Storage Executor Support

variable {config : AppConfig} {tables : List TableSchema} {schema : TableSchema} {w : World}
  {db : Database} {r : Relation} {rows : List (Nat × List Bytes)} {primaryKeyIndex : Nat}

/-! ### Files without a slot -/

/-- The largest id of the rows is that of the relation. -/
theorem maxId_eq {maxValue : Int} (hrows : rows.map Prod.snd = r.rows)
    (h : IsMaxId primaryKeyIndex rows maxValue) : r.maxId primaryKeyIndex = maxValue := by
  rw [Relation.maxId, ← hrows, List.filterMap_map]
  rcases h with ⟨rfl, rfl⟩ | ⟨⟨row, hm, hid⟩, hle⟩
  · rfl
  · have hmax : (rows.filterMap (rowId primaryKeyIndex ∘ Prod.snd)).max? = some maxValue := by
      rw [List.max?_eq_some_iff]
      refine ⟨List.mem_filterMap.mpr ⟨row, hm, hid⟩, fun id hmem ↦ ?_⟩
      obtain ⟨other, hother, hid'⟩ := List.mem_filterMap.mp hmem
      exact hle other hother id hid'
    rw [hmax, Option.getD_some]

/-- The index of a file with different ids can be built. -/
theorem FileHolds.exists_rebuild (hp : schema.primaryKeyIndex = some primaryKeyIndex)
    (h : FileHolds schema (w.file config schema.tableName) rows)
    (hu : UniqueIds primaryKeyIndex rows) :
    ∃ index maxId, storageRebuildPkIndex config schema .create w.disk =
      (.ok (index, maxId), w.disk) ∧ Indexes primaryKeyIndex rows index := by
  generalize hf : w.file config schema.tableName = file at h
  cases h with
  | missing hq => exact ⟨_, _, storageRebuildPkIndex_empty (Or.inl hf) _, indexes_nil⟩
  | file content rows hh hr =>
    obtain ⟨index, maxId, hrun⟩ := exists_storageRebuildPkIndex hp hf hh hr hu
    have hne : content ≠ [] := by
      rintro rfl
      obtain ⟨header, hl, -⟩ := hh.header
      cases hl
    obtain ⟨-, rows', hr', hindex⟩ := storageRebuildPkIndex_indexes hp hf hh.nul_notMem hne hrun
    obtain rfl := hr.unique hr'
    exact ⟨index, maxId, hrun, hindex⟩

/-- The slot that a file with different ids gives. -/
theorem FileHolds.exists_freshSlot (hp : schema.primaryKeyIndex = some primaryKeyIndex)
    (h : FileHolds schema (w.file config schema.tableName) rows)
    (hrows : rows.map Prod.snd = r.rows) (hu : UniqueIds primaryKeyIndex rows)
    (hmax : some intMax ∉ r.rows.map (rowId primaryKeyIndex)) :
    ∃ slot, freshSlot config schema w = some slot ∧
      SlotHolds primaryKeyIndex rows (r.maxId primaryKeyIndex + 1) slot := by
  obtain ⟨index, maxId, hrun, hindex⟩ := h.exists_rebuild hp hu
  obtain ⟨hkey, -⟩ := storageRebuildPkIndex_maxKey hrun
  have hmaxId := hindex.isMaxId hkey
  have hne : maxId ≠ intMax := by
    rintro rfl
    rcases hmaxId with ⟨-, hzero⟩ | ⟨⟨row, hm, hid⟩, -⟩
    · cases hzero
    · rw [← hrows, List.map_map] at hmax
      exact hmax (List.mem_map.mpr ⟨row, hm, hid⟩)
  have hfresh := (freshSlot_eq_some_iff hp).mpr ⟨index, maxId, hrun, hne, rfl⟩
  refine ⟨_, hfresh, ⟨index, rfl, hindex⟩, nextIdOk_freshSlot hp hfresh, ?_⟩
  rw [maxId_eq hrows hmaxId]

/-- A table without a slot holds the relation of its file. -/
theorem represents_restarted (hs : w.slot config schema.tableName = none)
    (h : FileHolds schema (w.file config schema.tableName) rows)
    (hrows : rows.map Prod.snd = r.rows) (htyped : ∀ row ∈ r.rows, Typed schema row)
    (hu : ∀ k, schema.primaryKeyIndex = some k → UniqueIds k rows)
    (hmax : ∀ k ∈ schema.primaryKeyIndex, some intMax ∉ r.rows.map (rowId k)) :
    Represents config schema w (r.restarted schema.primaryKeyIndex) rows := by
  have hsame : (r.restarted schema.primaryKeyIndex).rows = r.rows := by
    unfold Relation.restarted
    split <;> rfl
  refine ⟨h, by rw [hsame]; exact hrows, by rw [hsame]; exact htyped, fun k hk ↦ ?_⟩
  obtain ⟨slot, hfresh, hholds⟩ := h.exists_freshSlot hk hrows (hu k hk) (hmax k hk)
  refine ⟨slot, ?_, ?_⟩
  · rw [knownSlot, hs, Option.none_or]
    exact hfresh
  · simp only [Relation.restarted, hk]
    exact hholds

/-! ### Processes without slots -/

theorem slotsOf_nil (owners : List (Bytes × Bytes × Bytes)) (hstates : w.tableStates = []) :
    SlotsOf owners w := by
  refine ⟨?_, ?_⟩
  · rw [UniqueSlots, hstates]
    exact List.nodup_nil
  · rw [hstates]
    exact List.forall_mem_nil _

theorem slot_eq_none (hstates : w.tableStates = []) (tableName : Bytes) :
    w.slot config tableName = none := by
  rw [World.slot, hstates]
  rfl

/-- A table is found by its name. -/
theorem find?_eq (hloads : ∀ schema ∈ tables,
      loadTableSchema w.disk.files config.schemaDir schema.tableName = .ok schema)
    (hm : schema ∈ tables) : tables.find? (·.tableName = schema.tableName) = some schema := by
  cases hfind : tables.find? (·.tableName = schema.tableName) with
  | none =>
    have := List.find?_eq_none.mp hfind schema hm
    simp at this
  | some found =>
    obtain ⟨hfound, hname⟩ := find?_table hfind
    have hload := hloads found hfound
    rw [← hname, hloads schema hm] at hload
    rw [Except.ok.inj hload]

/-- The files of the tables hold the rows of a database. -/
def FilesHold (config : AppConfig) (tables : List TableSchema) (w : World) (db : Database) :
    Prop :=
  ∀ schema ∈ tables, ∃ rows, FileHolds schema (w.file config schema.tableName) rows ∧
    rows.map Prod.snd = (db schema.tableName).rows ∧
    (∀ row ∈ (db schema.tableName).rows, Typed schema row) ∧
    ∀ k, schema.primaryKeyIndex = some k → UniqueIds k rows

section NewProcess

variable (hloads : ∀ schema ∈ tables,
    loadTableSchema w.disk.files config.schemaDir schema.tableName = .ok schema)
  (hothers : ∀ name : Bytes, name.length < maxNameLen →
    (∀ schema ∈ tables, schema.tableName ≠ name) →
      ∀ schema, loadTableSchema w.disk.files config.schemaDir name ≠ .ok schema)
  (hroom : (keyedTables config tables).length ≤ executorMaxTableStates)
  (hstates : w.tableStates = [])

include hloads hothers hroom hstates

/-- A new process on files that hold a database implements it after a restart. -/
theorem implements_files (hfiles : FilesHold config tables w db)
    (hrestart : db.Restartable tables) : Implements config tables w (db.restarted tables) := by
  refine ⟨hloads, hothers, fun schema hm ↦ ?_,
    ⟨_, List.Subset.refl _, hroom, slotsOf_nil _ hstates⟩, hroom⟩
  obtain ⟨rows, hfile, hrows, htyped, hunique⟩ := hfiles schema hm
  refine ⟨rows, ?_⟩
  simp only [Database.restarted, find?_eq hloads hm]
  exact represents_restarted (slot_eq_none hstates _) hfile hrows htyped hunique
    (hrestart schema hm)

/-- A new process that finds no data file implements the empty database, unless a column name
holds a double quote. -/
theorem implements_empty (hmissing : ∀ schema ∈ tables, w.file config schema.tableName = none)
    (hnames : ∀ schema ∈ tables, ∀ column ∈ schema.columns, dquote ∉ column.name) :
    Implements config tables w .empty := by
  have hfiles : FilesHold config tables w .empty := by
    intro schema hm
    refine ⟨[], ?_, rfl, List.forall_mem_nil _, fun k _ ↦ ⟨List.nodup_nil, List.not_mem_nil⟩⟩
    rw [hmissing schema hm]
    exact .missing (hnames schema hm)
  have hempty : Database.empty.restarted tables = .empty := by
    funext name
    unfold Database.restarted Relation.restarted
    split
    · rfl
    · split <;> rfl
  rw [← hempty]
  exact implements_files hloads hothers hroom hstates hfiles fun schema _ k _ ↦ List.not_mem_nil

end NewProcess

/-- The files of a process that implements a database hold it. -/
theorem Implements.filesHold (h : Implements config tables w db) :
    FilesHold config tables w db := by
  intro schema hm
  obtain ⟨rows, hrows⟩ := h.represents schema hm
  refine ⟨rows, hrows.file, hrows.rows_eq, hrows.typed, fun k hk ↦ ?_⟩
  obtain ⟨slot, -, hholds⟩ := hrows.slot k hk
  obtain ⟨index, -, hindex⟩ := hholds.index
  exact hindex.uniqueIds

/-- A new process on the files of a database implements the restarted database. -/
theorem Implements.reopened (h : Implements config tables w db)
    (hrestart : db.Restartable tables) :
    Implements config tables w.reopened (db.restarted tables) :=
  implements_files (w := w.reopened) h.loads h.others h.room rfl h.filesHold hrestart

/-! ### Runs -/

/-- A process that implements a database answers every sequence of SQL texts as the database
does, and still implements it then. -/
theorem runMachine_answers (h : Implements config tables w db) (texts : List Bytes) :
    (runMachine (answerText config) texts w).1 =
        (runMachine (Database.runText tables) texts db).1 ∧
      Implements config tables (runMachine (answerText config) texts w).2
        (runMachine (Database.runText tables) texts db).2 :=
  (simulates_answerText config tables).run h texts

/-- The process that finds only the schema of `t`. -/
theorem implements_sampleWorld : Implements sampleConfig [sampleSchema] sampleWorld .empty := by
  apply implements_empty
  · exact List.forall_mem_singleton.mpr loadTableSchema_sampleWorld
  · intro name hlen hne schema hload
    have hname : text "t" ≠ name := hne sampleSchema List.mem_cons_self
    have hpath : schemaPath sampleConfig.schemaDir name ≠ text "s/t.schema" := by
      rw [schemaPath_eq sampleConfig hlen]
      intro h
      have hsplit : text "s/t.schema" =
          sampleConfig.schemaDir ++ text "/" ++ text "t" ++ text ".schema" := rfl
      rw [hsplit] at h
      exact hname (List.append_cancel_left (List.append_cancel_right h)).symm
    have hnone : sampleWorld.disk.files (schemaPath sampleConfig.schemaDir name) = none :=
      if_neg hpath
    simp only [loadTableSchema, hnone] at hload
    cases hload
  · decide
  · rfl
  · exact List.forall_mem_singleton.mpr rfl
  · exact List.forall_mem_singleton.mpr (by decide)

/-- Texts that are run, refused by the front end, and refused by the executor. -/
def sampleTexts : List Bytes :=
  [text "INSERT INTO t (name) VALUES ('a'); SELECT * FROM t;", text "SELECT",
    text "INSERT INTO t (name) VALUES ('=a');"]

theorem runMachine_answers_sample :
    (runMachine (answerText sampleConfig) sampleTexts sampleWorld).1 =
        (runMachine (Database.runText [sampleSchema]) sampleTexts .empty).1 ∧
      Implements sampleConfig [sampleSchema]
        (runMachine (answerText sampleConfig) sampleTexts sampleWorld).2
        (runMachine (Database.runText [sampleSchema]) sampleTexts .empty).2 :=
  runMachine_answers implements_sampleWorld sampleTexts

/-- Processes one after the other, each of which runs SQL texts on the files that the ones before
it have left, answer every text as the database does that is restarted with each of them, as long
as no table has a row with the id `INT_MAX` when a process ends. -/
theorem runLives_answers (h : Implements config tables w db) {lives : List (List Bytes)}
    (hgood : RestartsIn (Database.runText tables) (Database.restarted tables)
      (Database.Restartable tables) lives db) :
    (runLives (answerText config) World.reopened lives w).1 =
        (runLives (Database.runText tables) (Database.restarted tables) lives db).1 ∧
      Implements config tables (runLives (answerText config) World.reopened lives w).2
        (runLives (Database.runText tables) (Database.restarted tables) lives db).2 :=
  (simulates_answerText config tables).runLives (fun _ _ ↦ Implements.reopened) h hgood

/-- A process that leaves a row, and one after it that adds another. -/
def sampleLives : List (List Bytes) :=
  [[text "INSERT INTO t (name) VALUES ('a');", text "INSERT INTO t (name) VALUES ('=a');"],
    [text "INSERT INTO t VALUES (7, 'b'); SELECT name FROM t WHERE id > 0;"]]

theorem runLives_answers_sample :
    (runLives (answerText sampleConfig) World.reopened sampleLives sampleWorld).1 =
        (runLives (Database.runText [sampleSchema]) (Database.restarted [sampleSchema]) sampleLives
          .empty).1 ∧
      Implements sampleConfig [sampleSchema]
        (runLives (answerText sampleConfig) World.reopened sampleLives sampleWorld).2
        (runLives (Database.runText [sampleSchema]) (Database.restarted [sampleSchema]) sampleLives
          .empty).2 := by
  refine runLives_answers implements_sampleWorld ⟨?_, ?_, trivial⟩
  · decide +kernel
  · decide +kernel

end SqlProc.Relational
