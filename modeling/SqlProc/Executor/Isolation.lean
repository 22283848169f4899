import SqlProc.Executor.Steps
import SqlProc.Storage.SameOn

/-!
# Tables do not interfere

Library `Executor`. Statements on one table leave the file and the slot of every other table as
they are, and the statements on the other tables do the same whether or not they were run. No
two slots belong to the same table.
-/

namespace SqlProc.Executor

open Base Base.Exec Front Index Schema Storage Support

variable {config : AppConfig} {schema : TableSchema} {w w' w₀ : World} {slot : TableRuntimeState}
  {other name : Bytes} {out out' : List Output} {α : Type}

/-! ### Processes that differ in another table -/

/-- The processes have the same files and slots but for those of the table `other`, and both
have or may have a slot for the table `name`; `printed` was printed last on both. -/
structure AgreeExcept (config : AppConfig) (other name : Bytes) (out out' : List Output)
    (w w' : World) : Prop where
  disk : SameOn (· ≠ tablePath config other) out out' w.disk w'.disk
  slots : ∀ tableName, tableName ≠ other → w'.slot config tableName = w.slot config tableName
  room : w.slot config name = none →
    w.tableStates.length < executorMaxTableStates ∧ w'.tableStates.length < executorMaxTableStates

section Agree

variable (hpath : tablePath config schema.tableName ≠ tablePath config other)

include hpath

theorem AgreeExcept.file_eq (h : AgreeExcept config other name out out' w w') :
    w'.file config schema.tableName = w.file config schema.tableName :=
  h.disk.files _ hpath

theorem AgreeExcept.slot_eq (h : AgreeExcept config other name out out' w w') :
    w'.slot config schema.tableName = w.slot config schema.tableName :=
  h.slots _ fun hn ↦ hpath (congrArg _ hn)

/-- Both processes work with the same slot. -/
theorem AgreeExcept.obtainSlot_eq (h : AgreeExcept config other schema.tableName out out' w w') :
    obtainSlot config schema w' = obtainSlot config schema w := by
  rw [obtainSlot, obtainSlot, h.slot_eq hpath, freshSlot_congr (h.file_eq hpath)]
  cases hs : w.slot config schema.tableName with
  | some slot => rfl
  | none =>
    obtain ⟨hl, hl'⟩ := h.room hs
    simp only [hl, hl']

/-- Both processes open the slot of the table. -/
theorem AgreeExcept.opened (h : AgreeExcept config other schema.tableName out out' w w') :
    AgreeExcept config other schema.tableName out out' (opened config schema w)
      (opened config schema w') := by
  have hobtain := h.obtainSlot_eq hpath
  cases hs : obtainSlot config schema w with
  | none =>
    rw [opened_of_none hs, opened_of_none (hobtain.trans hs)]
    exact h
  | some slot =>
    have hslot := slot_opened hs
    have hslot' := slot_opened (hobtain.trans hs)
    refine ⟨?_, fun tableName hn ↦ ?_, fun hnone ↦ ?_⟩
    · rw [opened_disk, opened_disk]
      exact h.disk
    · by_cases he : tableName = schema.tableName
      · rw [he, hslot, hslot']
      · rw [slot_opened_of_ne he, slot_opened_of_ne he]
        exact h.slots _ hn
    · rw [hslot] at hnone
      cases hnone

/-- The slot of the table is changed in both processes. -/
theorem AgreeExcept.setSlot {slot' : TableRuntimeState}
    (h : AgreeExcept config other schema.tableName out out' w w')
    (hs : w.slot config schema.tableName = some slot)
    (hfor : slot'.isFor config schema.tableName = true) :
    AgreeExcept config other schema.tableName out out'
      (w.setSlot config schema.tableName slot') (w'.setSlot config schema.tableName slot') := by
  have hsome : (w.slot config schema.tableName).isSome = true := by
    rw [hs]
    rfl
  have hslot := World.slot_setSlot hsome hfor
  have hslot' := World.slot_setSlot (w := w') (by rw [h.slot_eq hpath]; exact hsome) hfor
  refine ⟨?_, fun tableName hn ↦ ?_, fun hnone ↦ ?_⟩
  · rw [World.setSlot_disk, World.setSlot_disk]
    exact h.disk
  · by_cases he : tableName = schema.tableName
    · rw [he, hslot, hslot']
    · rw [World.slot_setSlot_of_ne he hfor, World.slot_setSlot_of_ne he hfor]
      exact h.slots _ hn
  · rw [hslot] at hnone
    cases hnone

omit hpath in
/-- Steps on the disk. -/
theorem agree_onDisk {x : Exec Disk α}
    (hx : Agree (SameOn (· ≠ tablePath config other) out out') x x) :
    Agree (AgreeExcept config other name out out') (onDisk x) (onDisk x) :=
  agree_zoom (fun _ _ h ↦ h.disk) (fun _ _ _ _ h hdisk ↦ ⟨hdisk, h.slots, h.room⟩) hx

/-- When both processes have room for a slot, creating it fails with the same error. -/
theorem AgreeExcept.createTableState {e : ErrorInfo}
    (h : AgreeExcept config other schema.tableName out out' w w')
    (hs : w.slot config schema.tableName = none)
    (he : createTableState config schema w = (.error e, w)) :
    createTableState config schema w' = (.error e, w') := by
  obtain ⟨hl, hl'⟩ := h.room hs
  have hb := buildIndex_congr (h.file_eq hpath)
  have hw := buildIndex_snd config schema w
  have hw' := buildIndex_snd config schema w'
  rw [Executor.createTableState, bind_apply] at he ⊢
  generalize buildIndex config schema w = out at hb hw he
  generalize buildIndex config schema w' = out' at hb hw' ⊢
  obtain ⟨r, w₁⟩ := out
  obtain ⟨r', w₁'⟩ := out'
  obtain rfl : r' = r := hb
  obtain rfl : w₁ = w := hw
  obtain rfl : w₁' = w' := hw'
  cases r' with
  | error e' =>
    obtain rfl := Except.error.inj (Prod.mk.inj he).1
    rfl
  | ok p =>
    simp only at he ⊢
    by_cases hm : p.2 = intMax
    · rw [if_pos hm] at he ⊢
      obtain rfl := Except.error.inj (Prod.mk.inj he).1
      rfl
    · rw [if_neg hm, bind_ok (get_apply _), if_pos hl] at he
      cases (Prod.mk.inj he).1

/-- Both processes ask for the slot of the table, and then go on with the same slot, maybe at
different places. -/
theorem agree_getTableStateIndex_bind {f : Nat → Exec World α}
    (hf : ∀ w w' slot i i', AgreeExcept config other schema.tableName out out' w w' →
      SlotAt config schema w i slot → SlotAt config schema w' i' slot →
      AgreeAt (AgreeExcept config other schema.tableName out out') (f i) (f i') w w') :
    Agree (AgreeExcept config other schema.tableName out out')
      (getTableStateIndex config schema >>= f) (getTableStateIndex config schema >>= f) := by
  intro w w' h
  have hobtain := h.obtainSlot_eq hpath
  cases hs : obtainSlot config schema w with
  | none =>
    obtain ⟨e, he⟩ := getTableStateIndex_of_none hs
    have he' : getTableStateIndex config schema w' = (.error e, w') := by
      have hnone := slot_of_obtainSlot_none hs
      have hfind := World.findIdx?_eq_none_iff.mpr hnone
      have hfind' := World.findIdx?_eq_none_iff.mpr ((h.slot_eq hpath).trans hnone)
      rw [getTableStateIndex, bind_ok (get_apply _), findTableState] at he ⊢
      simp only [hfind, hfind'] at he ⊢
      exact h.createTableState hpath hnone he
    exact agreeAt_bind_error he he' h
  | some slot =>
    obtain ⟨i, hi, hat⟩ := getTableStateIndex_of_some hs
    obtain ⟨i', hi', hat'⟩ := getTableStateIndex_of_some (hobtain.trans hs)
    exact agreeAt_bind_ok hi hi' (hf _ _ slot i i' (h.opened hpath) hat hat')

/-- The slot is changed at its place in each process. -/
theorem agreeAt_modifySlot {i i' : Nat} {f : TableRuntimeState → TableRuntimeState}
    (h : AgreeExcept config other schema.tableName out out' w w')
    (hat : SlotAt config schema w i slot) (hat' : SlotAt config schema w' i' slot)
    (hfor : (f slot).isFor config schema.tableName = true) :
    AgreeAt (AgreeExcept config other schema.tableName out out') (modifySlot i f)
      (modifySlot i' f) w w' := by
  constructor
  · rw [hat.modifySlot, hat'.modifySlot]
  · rw [hat.modifySlot, hat'.modifySlot]
    exact h.setSlot hpath hat.slot_eq hfor

/-! ### INSERT -/

theorem agree_allocateNextPrimaryKey :
    Agree (AgreeExcept config other schema.tableName out out')
      (allocateNextPrimaryKey config schema) (allocateNextPrimaryKey config schema) := by
  apply agree_getTableStateIndex_bind hpath
  intro w w' slot i i' h hat hat'
  apply agreeAt_get_bind
  simp only [hat.slotAt_eq, hat'.slotAt_eq]
  split
  · exact agreeAt_fail h _
  · exact (agreeAt_modifySlot hpath h hat hat' (isFor_of_slot hat.slot_eq :)).bind
      fun _ ↦ agree_pure _

theorem agree_fillCells (location : SourceLocation) (i : Nat) (cells : List (Option Bytes)) :
    Agree (AgreeExcept config other schema.tableName out out')
      (fillCells config schema location i cells) (fillCells config schema location i cells) := by
  induction cells generalizing i with
  | nil => exact agree_pure _
  | cons cell cells ih =>
    cases cell with
    | some cell => exact agree_bind (ih (i + 1)) fun _ ↦ agree_pure _
    | none =>
      rw [fillCells]
      split
      · apply agree_bind (agree_allocateNextPrimaryKey hpath)
        intro _
        exact agree_bind (ih (i + 1)) fun _ ↦ agree_pure _
      · exact agree_fail _

theorem agree_buildInsertRowValues (statement : InsertStatement) :
    Agree (AgreeExcept config other schema.tableName out out')
      (buildInsertRowValues config schema statement)
      (buildInsertRowValues config schema statement) := by
  unfold buildInsertRowValues
  split
  · split
    · exact agree_fail _
    · exact agree_lift _
  · exact agree_bind (agree_lift _) fun cells ↦
      agree_fillCells hpath statement.tableLocation 0 cells

theorem agree_validatePrimaryKeyUnique (key : Int) :
    Agree (AgreeExcept config other schema.tableName out out')
      (validatePrimaryKeyUnique config schema key)
      (validatePrimaryKeyUnique config schema key) := by
  apply agree_getTableStateIndex_bind hpath
  intro w w' slot i i' h hat hat'
  apply agreeAt_get_bind
  rw [hat.slotAt_eq, hat'.slotAt_eq]
  split
  · exact agreeAt_fail h _
  · exact agreeAt_pure h ()

theorem agree_rememberExplicitPrimaryKey (key : Int) :
    Agree (AgreeExcept config other schema.tableName out out')
      (rememberExplicitPrimaryKey config schema key)
      (rememberExplicitPrimaryKey config schema key) := by
  apply agree_get_bind
  intro w w' h
  cases hs : w.slot config schema.tableName with
  | none =>
    have hfind : findTableState config schema w.tableStates = none :=
      World.findIdx?_eq_none_iff.mpr hs
    have hfind' : findTableState config schema w'.tableStates = none :=
      World.findIdx?_eq_none_iff.mpr ((h.slot_eq hpath).trans hs)
    simp only [hfind, hfind']
    exact agreeAt_pure h ()
  | some slot =>
    obtain ⟨i, hat⟩ := exists_slotAt hs
    obtain ⟨i', hat'⟩ := exists_slotAt ((h.slot_eq hpath).trans hs)
    simp only [hat.find, hat'.find, hat.slotAt_eq, hat'.slotAt_eq]
    split
    · exact agreeAt_pure h ()
    · split
      · exact agreeAt_modifySlot hpath h hat hat' (isFor_of_slot hs :)
      · exact agreeAt_pure h ()

theorem agree_registerPrimaryKey (key offset : Int) :
    Agree (AgreeExcept config other schema.tableName out out')
      (registerPrimaryKey config schema key offset)
      (registerPrimaryKey config schema key offset) := by
  apply agree_getTableStateIndex_bind hpath
  intro w w' slot i i' h hat hat'
  apply agreeAt_get_bind
  rw [hat.slotAt_eq, hat'.slotAt_eq]
  cases slot.pkIndex.map (·.insert key offset) with
  | none => exact agreeAt_fail h _
  | some p =>
    obtain ⟨index, inserted⟩ := p
    cases inserted with
    | false => exact agreeAt_fail h _
    | true =>
      exact (agreeAt_modifySlot hpath h hat hat' (isFor_of_slot hat.slot_eq :)).bind
        fun _ ↦ agree_rememberExplicitPrimaryKey hpath key

theorem agree_storeRow (row : List Bytes) :
    Agree (AgreeExcept config other schema.tableName out out')
      (storeRow config schema row) (storeRow config schema row) := by
  have happend : Agree (AgreeExcept config other schema.tableName out out')
      (onDisk (storageAppendRow config schema row)) (onDisk (storageAppendRow config schema row)) :=
    agree_onDisk (agree_storageAppendRow hpath row)
  unfold storeRow
  cases schema.primaryKeyIndex with
  | none => exact agree_bind happend fun _ ↦ agree_pure _
  | some primaryKeyIndex =>
    apply agree_bind (agree_lift _)
    intro key
    apply agree_bind (agree_validatePrimaryKeyUnique hpath key)
    intro _
    exact agree_bind happend fun offset ↦ agree_registerPrimaryKey hpath key offset

/-! ### SELECT -/

theorem agree_executeSelectWithIndex (statement : SelectStatement) (selected : List Nat) :
    Agree (AgreeExcept config other schema.tableName out out')
      (executeSelectWithIndex config schema statement selected)
      (executeSelectWithIndex config schema statement selected) := by
  apply agree_bind (agree_lift _)
  intro targetId
  apply agree_getTableStateIndex_bind hpath
  intro w w' slot i i' h hat hat'
  have hprinted := fun banner ↦ (agree_onDisk (agree_printLine banner) w w' h).state
  -- the banner is printed before the slot is read
  have hslot : ∀ disk, slotAt { w with disk := disk } i = slot := fun _ ↦ hat.slotAt_eq
  have hslot' : ∀ disk, slotAt { w' with disk := disk } i' = slot := fun _ ↦ hat'.slotAt_eq
  refine agreeAt_bind_ok (onDisk_ok rfl) (onDisk_ok rfl) (agreeAt_get_bind ?_)
  simp only [hslot, hslot']
  exact agree_onDisk (agree_storagePrintRowAtOffset hpath _ selected) _ _ (hprinted _)

theorem agree_executeSelectWithIndexRange (statement : SelectStatement) (selected : List Nat) :
    Agree (AgreeExcept config other schema.tableName out out')
      (executeSelectWithIndexRange config schema statement selected)
      (executeSelectWithIndexRange config schema statement selected) := by
  apply agree_bind (agree_lift _)
  intro targetId
  apply agree_getTableStateIndex_bind hpath
  intro w w' slot i i' h hat hat'
  apply agreeAt_get_bind
  rw [hat.slotAt_eq, hat'.slotAt_eq]
  generalize rangeOffsets slot.pkIndex statement.whereOperator targetId = found
  obtain ⟨ok, offsets⟩ := found
  cases ok with
  | false => exact agreeAt_fail h _
  | true =>
    exact (agree_onDisk (agree_printLine _) w w' h).bind fun _ ↦
      agree_onDisk (agree_storagePrintRowsAtOffsets hpath offsets selected)

theorem agree_executeSelectWhere (statement : SelectStatement) (selected : List Nat)
    (whereColumnIndex : Nat) :
    Agree (AgreeExcept config other schema.tableName out out')
      (executeSelectWhere config schema statement selected whereColumnIndex)
      (executeSelectWhere config schema statement selected whereColumnIndex) := by
  rw [executeSelectWhere]
  split
  · apply agree_getTableStateIndex_bind hpath
    intro w w' _ _ _ h _ _
    exact agree_executeSelectWithIndex hpath statement selected w w' h
  · split
    · apply agree_getTableStateIndex_bind hpath
      intro w w' _ _ _ h _ _
      exact agree_executeSelectWithIndexRange hpath statement selected w w' h
    · apply agree_bind (agree_onDisk (agree_printLine _))
      intro _
      exact agree_onDisk (agree_storagePrintRowsWhereEquals hpath selected _ _ _)

omit hpath in
theorem agree_printElapsed : Agree (AgreeExcept config other name out out') printElapsed
    printElapsed :=
  agree_onDisk (agree_modify fun _ _ h ↦ h.print [.elapsed])

end Agree

/-! ### Statements -/

/-- Both processes load the same schema and go on with it. -/
theorem AgreeExcept.loadTableSchema_bind {f : TableSchema → Exec World α}
    (h : AgreeExcept config other name out out' w w') (hname : name.length < maxNameLen)
    (hother : other.length < maxNameLen) (hne : name ≠ other)
    (hf : ∀ schema, tablePath config schema.tableName ≠ tablePath config other →
      Agree (AgreeExcept config other schema.tableName out out') (f schema) (f schema)) :
    AgreeAt (AgreeExcept config other name out out')
      (lift (loadTableSchema w.disk.files config.schemaDir name) >>= f)
      (lift (loadTableSchema w'.disk.files config.schemaDir name) >>= f) w w' := by
  have hload : loadTableSchema w'.disk.files config.schemaDir name =
      loadTableSchema w.disk.files config.schemaDir name :=
    loadTableSchema_congr (h.disk.files _ (schemaPath_ne_tablePath hname hother))
  have hpath : tablePath config name ≠ tablePath config other :=
    fun hp ↦ hne (tablePath_injective hname hother hp)
  rw [hload]
  cases hs : loadTableSchema w.disk.files config.schemaDir name with
  | error e => exact agreeAt_bind_error rfl rfl h
  | ok schema =>
    have htable : name = schema.tableName := by
      rw [loadTableSchema_tableName hs, snprintfStr_of_lt hname]
    rw [htable] at h hpath ⊢
    exact agreeAt_bind_ok rfl rfl (hf schema hpath w w' h)

/-- In processes that differ in another table, a statement gives the same result, prints the
same lines and leaves processes that differ in that table only. -/
theorem agree_executeStatement {statement : Statement}
    (hl : (statementTable statement).length < maxNameLen) (hother : other.length < maxNameLen)
    (hne : statementTable statement ≠ other) :
    Agree (AgreeExcept config other (statementTable statement) out out')
      (executeStatement config statement) (executeStatement config statement) := by
  intro w w' h
  cases statement with
  | insert location statement =>
    refine agreeAt_get_bind (h.loadTableSchema_bind hl hother hne fun schema hpath ↦ ?_)
    exact agree_bind (agree_buildInsertRowValues hpath statement) (agree_storeRow hpath)
  | select location statement =>
    refine agreeAt_get_bind (h.loadTableSchema_bind hl hother hne fun schema hpath ↦ ?_)
    apply agree_bind (agree_lift _)
    intro selected
    split
    · apply agree_bind (agree_onDisk (agree_storagePrintRows hpath selected))
      intro _
      exact agree_printElapsed
    · apply agree_bind (agree_lift _)
      intro i
      apply agree_bind (agree_executeSelectWhere hpath statement selected i)
      intro _
      exact agree_printElapsed

/-! ### The slots -/

/-- The table that a slot belongs to. -/
def TableRuntimeState.table (slot : TableRuntimeState) : Bytes × Bytes × Bytes :=
  (slot.schemaDir, slot.dataDir, slot.tableName)

theorem TableRuntimeState.isFor_iff {tableName : Bytes} :
    slot.isFor config tableName = true ↔
      slot.table = (config.schemaDir, config.dataDir, tableName) := by
  simp only [isFor, table, Bool.and_eq_true, decide_eq_true_eq, Prod.mk.injEq, and_assoc]

/-- No two slots in use belong to the same table. -/
def UniqueSlots (w : World) : Prop := (w.tableStates.map TableRuntimeState.table).Nodup

/-- The slots still belong to different tables, and none was given up. -/
structure KeepsSlots (w w' : World) : Prop where
  unique : UniqueSlots w → UniqueSlots w'
  length_le : w.tableStates.length ≤ w'.tableStates.length

instance : IsPreorder World KeepsSlots where
  refl _ := ⟨id, Nat.le_refl _⟩
  trans _ _ _ h h' := ⟨h'.unique ∘ h.unique, h.length_le.trans h'.length_le⟩

/-- A slot is added for a table that has none. -/
theorem keepsSlots_opened (config : AppConfig) (schema : TableSchema) (w : World) :
    KeepsSlots w (opened config schema w) := by
  cases hs : w.slot config schema.tableName with
  | some slot =>
    rw [opened_of_slot hs]
    exact refl_of KeepsSlots w
  | none =>
    cases hobtain : obtainSlot config schema w with
    | none =>
      rw [opened_of_none hobtain]
      exact refl_of KeepsSlots w
    | some slot =>
      have hopen : opened config schema w = w.addSlot slot := by simp only [opened, hs, hobtain]
      have hfor := TableRuntimeState.isFor_iff.mp (isFor_obtainSlot hobtain)
      rw [hopen]
      constructor
      · intro h
        rw [UniqueSlots, World.addSlot, List.map_append, List.map_singleton]
        refine List.nodup_append.mpr ⟨h, List.nodup_singleton _, ?_⟩
        rintro _ hm _ hm' rfl
        obtain ⟨slot', hmem, htable⟩ := List.mem_map.mp hm
        rw [World.slot, List.find?_eq_none] at hs
        refine hs slot' hmem (TableRuntimeState.isFor_iff.mpr ?_)
        rw [htable, List.mem_singleton.mp hm', hfor]
      · rw [World.addSlot, List.length_append]
        exact Nat.le_add_right _ _

/-- A slot is replaced by one of the same table. -/
theorem keepsSlots_setSlot (w : World)
    (hfor : slot.isFor config schema.tableName = true) :
    KeepsSlots w (w.setSlot config schema.tableName slot) := by
  rw [World.setSlot]
  cases hi : w.tableStates.findIdx? (·.isFor config schema.tableName) with
  | none => exact refl_of KeepsSlots w
  | some i =>
    obtain ⟨old, hget, hf⟩ := find?_of_findIdx? hi
    have hold := List.find?_some (p := fun s : TableRuntimeState ↦
      s.isFor config schema.tableName) hf
    have htable : slot.table = old.table :=
      (TableRuntimeState.isFor_iff.mp hfor).trans (TableRuntimeState.isFor_iff.mp hold).symm
    obtain ⟨hlt, hget⟩ := List.getElem?_eq_some_iff.mp hget
    constructor
    · intro h
      rw [UniqueSlots, List.map_set, htable, ← hget, ← List.getElem_map TableRuntimeState.table,
        List.set_getElem_self]
      · exact h
      · rw [List.length_map]
        exact hlt
    · simp only [List.length_set, Nat.le_refl]

/-- Every statement keeps the slots of different tables. -/
theorem keepsSlots_executeStatement {statement : Statement} (hl : statement.Lexical) :
    (executeStatement config statement).Within KeepsSlots :=
  within_executeStatement (length_statementTable hl) fun schema _ ↦
    ⟨keepsSlots_opened config schema, fun w _ hfor ↦ keepsSlots_setSlot w hfor,
      fun _ _ _ ↦ ⟨id, Nat.le_refl _⟩⟩

theorem keepsSlots_runPrograms {programs : List SqlProgram}
    (hprograms : ∀ program ∈ programs, program.Lexical) (w : World) :
    KeepsSlots w (runPrograms config programs w) :=
  runPrograms_within
    (fun program hm statement hs ↦ keepsSlots_executeStatement (hprograms program hm statement hs))
    w

/-! ### Runs -/

/-- A run on one table touches no other. -/
theorem touches_runPrograms {programs : List SqlProgram}
    (hprograms : ∀ program ∈ programs, program.Lexical)
    (hon : ∀ program ∈ programs, ∀ statement ∈ program, statementTable statement = other)
    (w : World) : Touches config other w (runPrograms config programs w) := by
  refine runPrograms_within (fun program hm statement hs ↦ ?_) w
  rw [← hon program hm statement hs]
  exact touches_executeStatement config (length_statementTable (hprograms program hm statement hs))

/-- A run on one table leaves a process that differs in this table only. -/
theorem agreeExcept_runPrograms {programs : List SqlProgram}
    (hprograms : ∀ program ∈ programs, program.Lexical)
    (hon : ∀ program ∈ programs, ∀ statement ∈ program, statementTable statement = other)
    (hroom : (w.slot config name).isSome = true ∨
      (runPrograms config programs w).tableStates.length < executorMaxTableStates) :
    AgreeExcept config other name w.disk.stdout (runPrograms config programs w).disk.stdout w
      (runPrograms config programs w) := by
  have htouch : Touches config other w (runPrograms config programs w) :=
    touches_runPrograms hprograms hon w
  have hkeeps : KeepsSlots w (runPrograms config programs w) :=
    keepsSlots_runPrograms hprograms w
  refine ⟨⟨fun path hp ↦ htouch.files path hp, [], ?_, ?_⟩, htouch.slots, fun hnone ↦ ?_⟩
  · rw [List.append_nil]
  · rw [List.append_nil]
  · rw [hnone] at hroom
    have hlt := hroom.resolve_left (by decide)
    exact ⟨hkeeps.length_le.trans_lt hlt, hlt⟩

/-- In every state of every run no two slots belong to the same table, and statements on one
table leave the file and the slot of another one as they are. Every statement on that other
table gives the same result, prints the same lines and leads to the same files and slots, but
for those of the first table, whether or not the statements on the first table were run. -/
theorem runPrograms_isolated {programs before : List SqlProgram} (hfresh : w₀.tableStates = [])
    (hprograms : ∀ program ∈ programs, program.Lexical) (hne : name ≠ other)
    (hname : name.length < maxNameLen) (hother : other.length < maxNameLen)
    (hbefore : ∀ program ∈ before, program.Lexical)
    (hon : ∀ program ∈ before, ∀ statement ∈ program, statementTable statement = other) :
    let w := runPrograms config programs w₀
    let w' := runPrograms config before w
    UniqueSlots w ∧ w'.view config name = w.view config name ∧
      (((w.slot config name).isSome = true ∨ w'.tableStates.length < executorMaxTableStates) →
        ∀ statement : Statement, statementTable statement = name →
          let after := executeStatement config statement w
          let after' := executeStatement config statement w'
          after'.1 = after.1 ∧
            (∃ printed, after.2.disk.stdout = w.disk.stdout ++ printed ∧
              after'.2.disk.stdout = w'.disk.stdout ++ printed) ∧
            (∀ path, path ≠ tablePath config other →
              after'.2.disk.files path = after.2.disk.files path) ∧
            ∀ tableName, tableName ≠ other →
              after'.2.slot config tableName = after.2.slot config tableName) := by
  intro w w'
  have hkeeps : KeepsSlots w₀ w := keepsSlots_runPrograms hprograms w₀
  have htouch : Touches config other w w' := touches_runPrograms hbefore hon w
  refine ⟨hkeeps.unique ?_, htouch.view_eq hother hname hne, fun hroom statement hs ↦ ?_⟩
  · rw [UniqueSlots, hfresh]
    exact List.nodup_nil
  · have hagree := agreeExcept_runPrograms hbefore hon hroom
    rw [← hs] at hname hne hagree
    obtain ⟨hresult, hstate⟩ := agree_executeStatement hname hother hne w w' hagree
    exact ⟨hresult, hstate.disk.output, hstate.disk.files, hstate.slots⟩

/-- A new process that finds the schema files of the tables `t` and `u`. -/
def twoTablesWorld : World :=
  ⟨⟨fun path ↦ if path = text "s/t.schema" ∨ path = text "s/u.schema" then
      some (text "id:int,name:string\n") else none, []⟩, []⟩

/-- `INSERT INTO u VALUES (7, 'x')`. -/
def sampleOtherInsert : InsertStatement := { sampleInsert with tableName := text "u" }

theorem runPrograms_isolated_sample :
    let w := runPrograms sampleConfig samplePrograms twoTablesWorld
    let w' := runPrograms sampleConfig [[.insert noLocation sampleOtherInsert]] w
    let after := executeStatement sampleConfig (.insert noLocation sampleAutoInsert) w
    let after' := executeStatement sampleConfig (.insert noLocation sampleAutoInsert) w'
    UniqueSlots w ∧ w'.view sampleConfig (text "t") = w.view sampleConfig (text "t") ∧
      w'.file sampleConfig (text "u") = some (text "id,name\n7,x\n") ∧ after'.1 = after.1 ∧
      after'.2.slot sampleConfig (text "t") = after.2.slot sampleConfig (text "t") := by
  intro w w' after after'
  have hfresh : twoTablesWorld.tableStates = [] := rfl
  have hlexical : ∀ program ∈ [[Statement.insert noLocation sampleOtherInsert]],
      SqlProgram.Lexical program := by
    intro program hm statement hs
    rw [List.mem_singleton.mp hm] at hs
    rw [List.mem_singleton.mp hs]
    have h : sampleOtherInsert.Lexical := by decide
    exact h
  have hon : ∀ program ∈ [[Statement.insert noLocation sampleOtherInsert]],
      ∀ statement ∈ program, statementTable statement = text "u" := by
    intro program hm statement hs
    rw [List.mem_singleton.mp hm] at hs
    rw [List.mem_singleton.mp hs]
    rfl
  have hne : text "t" ≠ text "u" := by decide
  have hroom : (w.slot sampleConfig (text "t")).isSome = true := by decide +kernel
  obtain ⟨hunique, hview, hsame⟩ := runPrograms_isolated hfresh lexical_samplePrograms hne
    (by decide) (by decide) hlexical hon
  obtain ⟨hresult, -, -, hslots⟩ :=
    hsame (Or.inl hroom) (.insert noLocation sampleAutoInsert) rfl
  exact ⟨hunique, hview, by decide +kernel, hresult, hslots (text "t") hne⟩

end SqlProc.Executor
