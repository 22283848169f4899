import SqlProc.Executor.Reopen
import SqlProc.Relational.Session

/-!
# When the slots are used up

Library `Relational`. A process has a fixed number of slots for tables with a primary key. The
tables get them in the order in which they are used, and no slot is taken back. When the slots
are used up, every statement that needs one for another table is refused as long as the process
runs, whatever it is asked in between.
-/

namespace SqlProc.Relational

open Base Front Index Schema Storage Executor App Support

variable {config : AppConfig} {schema : TableSchema} {w w' : World} {slot : TableRuntimeState}
  {statement : Statement}

/-! ### The slots in use -/

/-- The tables that have a slot, in the order in which they got it. -/
def slotTables (w : World) : List (Bytes × Bytes × Bytes) :=
  w.tableStates.map TableRuntimeState.table

theorem tableKey_mem_slotTables_iff :
    tableKey config schema ∈ slotTables w ↔ w.slot config schema.tableName ≠ none := by
  unfold slotTables World.slot
  rw [List.mem_map, Ne, List.find?_eq_none]
  simp only [TableRuntimeState.isFor_iff, not_forall, not_not, exists_prop]

/-- Tables have kept their slots, further tables have got slots while there were some left, and
the schemas are the same. -/
structure GivesSlots (config : AppConfig) (w w' : World) : Prop where
  kept : slotTables w <+: slotTables w'
  nodup : (slotTables w).Nodup → (slotTables w').Nodup
  length_le : (slotTables w).length ≤ executorMaxTableStates →
    (slotTables w').length ≤ executorMaxTableStates
  loads_iff : ∀ name : Bytes, name.length < maxNameLen →
    loadTableSchema w'.disk.files config.schemaDir name =
      loadTableSchema w.disk.files config.schemaDir name

instance (config : AppConfig) : IsPreorder World (GivesSlots config) where
  refl _ := ⟨List.prefix_rfl, id, id, fun _ _ ↦ rfl⟩
  trans _ _ _ h h' := ⟨h.kept.trans h'.kept, h'.nodup ∘ h.nodup, h'.length_le ∘ h.length_le,
    fun name hl ↦ (h'.loads_iff name hl).trans (h.loads_iff name hl)⟩

/-- The same tables have the slots. -/
theorem givesSlots_of_eq (hslots : slotTables w' = slotTables w)
    (hloads : ∀ name : Bytes, name.length < maxNameLen →
      loadTableSchema w'.disk.files config.schemaDir name =
        loadTableSchema w.disk.files config.schemaDir name) : GivesSlots config w w' := by
  refine ⟨?_, ?_, ?_, hloads⟩
  · rw [hslots]
  · rw [hslots]
    exact id
  · rw [hslots]
    exact id

/-- A table that has no slot gets the next one. -/
theorem givesSlots_opened (config : AppConfig) (schema : TableSchema) (w : World) :
    GivesSlots config w (opened config schema w) := by
  cases hobtain : obtainSlot config schema w with
  | none =>
    rw [opened_of_none hobtain]
    exact refl_of (GivesSlots config) w
  | some slot =>
    rcases obtainSlot_eq_some_iff.mp hobtain with hs | ⟨hs, hroom, -⟩
    · rw [opened_of_slot hs]
      exact refl_of (GivesSlots config) w
    · have hadded : slotTables (opened config schema w) =
          slotTables w ++ [tableKey config schema] := by
        have hfor := TableRuntimeState.isFor_iff.mp (isFor_obtainSlot hobtain)
        simp only [opened, hs, hobtain, slotTables, World.addSlot, List.map_append,
          List.map_singleton, hfor]
      refine ⟨?_, fun _ ↦ (keepsSlots_opened config schema w).unique ‹_›, fun _ ↦ ?_, ?_⟩
      · rw [hadded]
        exact List.prefix_append ..
      · rw [hadded, List.length_append, slotTables, List.length_map]
        exact hroom
      · intro name _
        rw [opened_disk]

/-- A slot stays that of its table. -/
theorem slotTables_setSlot (w : World) (hfor : slot.isFor config schema.tableName = true) :
    slotTables (w.setSlot config schema.tableName slot) = slotTables w := by
  rw [World.setSlot]
  cases hi : w.tableStates.findIdx? (·.isFor config schema.tableName) with
  | none => rfl
  | some i =>
    obtain ⟨old, hget, hf⟩ := find?_of_findIdx? hi
    have hold := List.find?_some (p := fun s : TableRuntimeState ↦
      s.isFor config schema.tableName) hf
    have htable : slot.table = old.table :=
      (TableRuntimeState.isFor_iff.mp hfor).trans (TableRuntimeState.isFor_iff.mp hold).symm
    have hat : (w.tableStates.map TableRuntimeState.table)[i]? = some slot.table := by
      rw [List.getElem?_map, hget, Option.map_some, htable]
    obtain ⟨hlt, hat⟩ := List.getElem?_eq_some_iff.mp hat
    simp only [slotTables, List.map_set]
    rw [← hat, List.set_getElem_self]

/-- One statement. -/
theorem givesSlots_executeStatement (hl : (statementTable statement).length < maxNameLen) :
    (executeStatement config statement).Within (GivesSlots config) := by
  refine within_executeStatement hl fun schema hname ↦ ?_
  refine ⟨givesSlots_opened config schema, fun w slot hfor ↦ ?_, fun w disk hfiles ↦ ?_⟩
  · apply givesSlots_of_eq (slotTables_setSlot w hfor)
    intro name _
    rw [World.setSlot_disk]
  · have hslots : slotTables { w with disk } = slotTables w := rfl
    apply givesSlots_of_eq hslots
    intro name hname'
    rw [← hname] at hl
    exact loadTableSchema_congr (hfiles _ (schemaPath_ne_tablePath hname' hl))

/-- One program. -/
theorem givesSlots_executeProgram {program : SqlProgram} (ha : program.Accepted) (w : World) :
    GivesSlots config w (executeProgram config program w).2 := by
  have hrun : GivesSlots config w (runPrograms config [program] w) := by
    apply runPrograms_within
    intro program' hm statement hs
    rw [List.mem_singleton.mp hm] at hs
    exact givesSlots_executeStatement (length_statementTable (ha statement hs).1)
  exact hrun

/-- One text. -/
theorem givesSlots_answerText (config : AppConfig) (w : World) (sqlText : Bytes) :
    GivesSlots config w (answerText config w sqlText).2 := by
  simp only [answerText, runSqlText_apply]
  cases hprogram : tokenizeSql sqlText >>= parseProgram with
  | error e => exact refl_of (GivesSlots config) w
  | ok program =>
    apply givesSlots_executeProgram
    exact fun statement hm ↦ IsParsed.accepted ⟨sqlText, program, hprogram, hm⟩

/-! ### Statements that are refused -/

/-- No slot is left, and the table has none. -/
structure NoSlotLeft (config : AppConfig) (schema : TableSchema) (w : World) : Prop where
  loads : loadTableSchema w.disk.files config.schemaDir schema.tableName = .ok schema
  keyed : schema.primaryKeyIndex ≠ none
  length_eq : (slotTables w).length = executorMaxTableStates
  notMem : tableKey config schema ∉ slotTables w

/-- The statement needs the slot of the table: it inserts into it, or looks for a key. -/
def NeedsSlot (schema : TableSchema) : Statement → Prop
  | .insert _ statement => statement.tableName = schema.tableName
  | .select _ statement => ∃ selected v, KeySelect schema statement selected v

/-- When the slots are used up, they stay with their tables. -/
theorem GivesSlots.slotTables_eq (h : GivesSlots config w w')
    (hfull : (slotTables w).length = executorMaxTableStates) : slotTables w' = slotTables w := by
  have hle := h.length_le hfull.le
  rw [← hfull] at hle
  exact (h.kept.eq_of_length_le hle).symm

theorem NoSlotLeft.within (h : NoSlotLeft config schema w) (hgives : GivesSlots config w w') :
    NoSlotLeft config schema w' := by
  have hslots := hgives.slotTables_eq h.length_eq
  refine ⟨?_, h.keyed, ?_, ?_⟩
  · rw [hgives.loads_iff _ (length_tableName_of_loadTableSchema h.loads)]
    exact h.loads
  · rw [hslots]
    exact h.length_eq
  · rw [hslots]
    exact h.notMem

theorem NoSlotLeft.obtainSlot_eq (h : NoSlotLeft config schema w) :
    obtainSlot config schema w = none := by
  have hslot : w.slot config schema.tableName = none := by
    by_contra hslot
    exact h.notMem (tableKey_mem_slotTables_iff.mpr hslot)
  have hfull : w.tableStates.length = executorMaxTableStates := by
    rw [← h.length_eq, slotTables, List.length_map]
  rw [obtainSlot, hslot, hfull]
  rfl

/-- The statement fails, and nothing changes. -/
theorem NoSlotLeft.executeStatement (h : NoSlotLeft config schema w)
    (hneeds : NeedsSlot schema statement) :
    ∃ e, executeStatement config statement w = (.error e, w) := by
  have hnone := h.obtainSlot_eq
  obtain ⟨primaryKeyIndex, hp⟩ := Option.ne_none_iff_exists'.mp h.keyed
  cases statement with
  | insert location statement =>
    have htable : statement.tableName = schema.tableName := hneeds
    have hload := h.loads
    rw [← htable] at hload
    have hslot : ∀ slot, w.slot config schema.tableName = some slot → NextIdOk slot := by
      intro slot hs
      rw [slot_of_obtainSlot_none hnone] at hs
      cases hs
    have hno : ∀ {slot}, obtainSlot config schema w ≠ some slot := by
      intro slot hs
      rw [hnone] at hs
      cases hs
    have houtcome := executeInsert_outcome hp hload hslot
    rw [Executor.executeStatement]
    generalize executeInsert config statement w = run at houtcome ⊢
    obtain ⟨result, w₁⟩ := run
    -- all other outcomes work with a slot
    cases houtcome with
    | rejected e => exact ⟨e, rfl⟩
    | opened _ _ hs => exact absurd hs hno
    | burned _ _ _ _ _ _ hs => exact absurd hs hno
    | given _ _ _ _ _ hs => exact absurd hs hno
    | assigned _ _ _ _ _ _ hs => exact absurd hs hno
  | select location statement =>
    obtain ⟨selected, v, hk⟩ := hneeds
    exact executeSelect_onKey_of_none h.loads hp hk hnone

/-- A program stops at the statement, which does nothing. -/
theorem NoSlotLeft.executeProgram (h : NoSlotLeft config schema w)
    (hneeds : NeedsSlot schema statement) {before rest : SqlProgram} (ha : before.Accepted) :
    ∃ e, executeProgram config (before ++ statement :: rest) w =
      (.error e, (executeProgram config before w).2) := by
  induction before generalizing w with
  | nil =>
    obtain ⟨e, he⟩ := h.executeStatement hneeds
    exact ⟨e, Exec.bind_error he _⟩
  | cons first before ih =>
    obtain ⟨hfirst, hbefore⟩ := List.forall_mem_cons.mp ha
    have hgives : GivesSlots config w (Executor.executeStatement config first w).2 :=
      givesSlots_executeStatement (length_statementTable hfirst.1) w
    rw [List.cons_append, Executor.executeProgram, Executor.executeProgram, Exec.bind_apply,
      Exec.bind_apply]
    generalize Executor.executeStatement config first w = run at hgives ⊢
    obtain ⟨result, w₁⟩ := run
    cases result with
    | error e => exact ⟨e, rfl⟩
    | ok u => exact ih (h.within hgives) hbefore

/-- In a process that is given any texts, different tables have slots, at most as many as there
are, and every table keeps its own. When the slots are used up, no other table gets one, and
every text with a statement that needs one fails there, whatever texts there were since. -/
theorem runMachine_slotTables (config : AppConfig) (disk : Disk) (texts later : List Bytes) :
    let w := (runMachine (answerText config) texts ⟨disk, []⟩).2
    let w' := (runMachine (answerText config) later w).2
    (slotTables w).Nodup ∧ (slotTables w).length ≤ executorMaxTableStates ∧
      slotTables w <+: slotTables w' ∧
      ∀ schema, NoSlotLeft config schema w → slotTables w' = slotTables w ∧
        ∀ sqlText before statement rest,
          (tokenizeSql sqlText >>= parseProgram) = .ok (before ++ statement :: rest) →
          NeedsSlot schema statement →
          ∃ e, App.runSqlText config sqlText w' =
            (.error e, (Executor.executeProgram config before w').2) := by
  intro w w'
  have hbefore : GivesSlots config ⟨disk, []⟩ w :=
    runMachine_within (givesSlots_answerText config) texts _
  have hlater : GivesSlots config w w' :=
    runMachine_within (givesSlots_answerText config) later w
  refine ⟨hbefore.nodup List.nodup_nil, hbefore.length_le (Nat.zero_le _), hlater.kept, ?_⟩
  intro schema hnone
  refine ⟨hlater.slotTables_eq hnone.length_eq, ?_⟩
  intro sqlText before statement rest hparsed hneeds
  rw [runSqlText_apply, hparsed]
  apply (hnone.within hlater).executeProgram hneeds
  intro first hm
  exact IsParsed.accepted ⟨sqlText, _, hparsed, List.mem_append_left _ hm⟩

/-- Every table has the schema `id:int`. -/
def keyedFiles : Files := fun path ↦
  if path.getLast? = some 97 then some (text "id:int\n") else none

/-- Searches for an id in one table after the other. -/
def searchTexts : List Bytes :=
  (List.range executorMaxTableStates).map fun i ↦
    text "SELECT * FROM t" ++ decimal i ++ text " WHERE id = 1;"

/-- The schema of another table. -/
def lateSchema : TableSchema := ⟨text "late", some 0, [⟨text "id", .int⟩]⟩

/-- The process after these searches. -/
def searchedWorld : World :=
  (runMachine (answerText sampleConfig) searchTexts ⟨⟨keyedFiles, []⟩, []⟩).2

theorem noSlotLeft_searchedWorld : NoSlotLeft sampleConfig lateSchema searchedWorld := by
  refine ⟨?_, ?_, ?_, ?_⟩
  · have hgives : GivesSlots sampleConfig ⟨⟨keyedFiles, []⟩, []⟩ searchedWorld :=
      runMachine_within (givesSlots_answerText sampleConfig) searchTexts _
    rw [hgives.loads_iff _ (by decide)]
    rfl
  · decide
  · decide +kernel
  · decide +kernel

/-- `INSERT INTO late VALUES (1);` -/
def lateInsert : InsertStatement :=
  ⟨text "late", ⟨1, 13⟩, false, [], [⟨.int, text "1", ⟨1, 26⟩⟩]⟩

theorem runMachine_slotTables_sample :
    ∃ e, App.runSqlText sampleConfig (text "INSERT INTO late VALUES (1);") searchedWorld =
      (.error e, searchedWorld) := by
  have hparsed : (tokenizeSql (text "INSERT INTO late VALUES (1);") >>= parseProgram) =
      .ok ([] ++ [.insert ⟨1, 1⟩ lateInsert]) := by decide +kernel
  have hnil : ∀ w : World, (runMachine (answerText sampleConfig) [] w).2 = w := fun _ ↦ rfl
  have hnone : ∀ w : World, (Executor.executeProgram sampleConfig [] w).2 = w := fun _ ↦ rfl
  obtain ⟨-, -, -, hlate⟩ :=
    runMachine_slotTables sampleConfig ⟨keyedFiles, []⟩ searchTexts []
  simp only [hnil] at hlate
  rw [← searchedWorld] at hlate
  obtain ⟨-, hrefused⟩ := hlate lateSchema noSlotLeft_searchedWorld
  obtain ⟨e, he⟩ := hrefused _ [] _ [] hparsed rfl
  rw [hnone] at he
  exact ⟨e, he⟩

end SqlProc.Relational
