import SqlProc.Executor.Slots
import SqlProc.Storage.Append

/-!
# What an INSERT does

Library `Executor`. An INSERT on a table with a primary key is rejected, with or without
having opened the slot of the table or taken an automatic id from it, or it appends one row
and enters it into the index.
-/

namespace SqlProc.Executor

open Base Front Index Schema Storage Support

variable {config : AppConfig} {schema : TableSchema} {w w' : World} {slot : TableRuntimeState}

/-! ### The cells of the row -/

/-- The cells that the values of an INSERT give, by column; a column that the list omits has
none. -/
def rowCells (schema : TableSchema) (statement : InsertStatement) :
    Except ErrorInfo (List (Option Bytes)) :=
  if !statement.hasColumnList then
    if statement.values.length ≠ schema.columnCount then
      .error (runtimeError "VALUES 값 수가 스키마 컬럼 수와 일치하지 않습니다."
        statement.tableLocation)
    else
      match copyValues schema.columns statement.values with
      | .error e => .error e
      | .ok texts => .ok (texts.map some)
  else
    placeValues schema statement.columns statement.values
      (List.replicate schema.columnCount none)

/-- Cells that are all there need no id. -/
theorem fillCells_map_some (location : SourceLocation) (i : Nat) (texts : List Bytes) :
    fillCells config schema location i (texts.map some) w = (.ok texts, w) := by
  induction texts generalizing i with
  | nil => rfl
  | cons text texts ih =>
    rw [List.map_cons, fillCells, Exec.bind_ok (ih (i + 1))]
    rfl

theorem buildInsertRowValues_apply (config : AppConfig) (schema : TableSchema)
    (statement : InsertStatement) (w : World) :
    buildInsertRowValues config schema statement w =
      match rowCells schema statement with
      | .error e => (.error e, w)
      | .ok cells => fillCells config schema statement.tableLocation 0 cells w := by
  unfold buildInsertRowValues rowCells
  split
  · split
    · rfl
    · rw [Exec.lift_apply]
      cases copyValues schema.columns statement.values with
      | error e => rfl
      | ok texts => exact (fillCells_map_some ..).symm
  · rw [Exec.bind_apply, Exec.lift_apply]
    cases placeValues schema statement.columns statement.values
        (List.replicate schema.columnCount none) <;> rfl

/-- Cells are all there, or there is a first one that is not. -/
theorem exists_map_some_or (cells : List (Option Bytes)) :
    (∃ texts : List Bytes, cells = texts.map some) ∨
      ∃ (before : List Bytes) (after : List (Option Bytes)),
        cells = before.map some ++ none :: after := by
  induction cells with
  | nil => exact Or.inl ⟨[], rfl⟩
  | cons cell cells ih =>
    cases cell with
    | none => exact Or.inr ⟨[], cells, rfl⟩
    | some text =>
      rcases ih with ⟨texts, rfl⟩ | ⟨before, after, rfl⟩
      · exact Or.inl ⟨text :: texts, rfl⟩
      · exact Or.inr ⟨text :: before, after, rfl⟩

/-- No cell is missing when all are there. -/
theorem getElem?_map_some_ne (texts : List Bytes) (i : Nat) :
    (texts.map some)[i]? ≠ some none := by
  rw [List.getElem?_map]
  cases texts[i]? with
  | none => simp
  | some text => simp

/-! ### Taking an automatic id -/

/-- The text of an automatic id. -/
def idText (id : Int) : Bytes := snprintfStr maxValueLen (snprintfInt id)

/-- A slot whose next id was taken. -/
def TableRuntimeState.allocated (slot : TableRuntimeState) : TableRuntimeState :=
  { slot with nextId := slot.nextId + 1 }

@[simp] theorem TableRuntimeState.isFor_allocated (slot : TableRuntimeState)
    (config : AppConfig) (tableName : Bytes) :
    slot.allocated.isFor config tableName = slot.isFor config tableName := rfl

/-- The slot of a table stays its slot when an id is taken. -/
theorem isFor_allocated_obtainSlot (hs : obtainSlot config schema w = some slot) :
    slot.allocated.isFor config schema.tableName = true := by
  rw [TableRuntimeState.isFor_allocated]
  exact isFor_obtainSlot hs

theorem allocateNextPrimaryKey_of_none (h : obtainSlot config schema w = none) :
    ∃ e, allocateNextPrimaryKey config schema w = (.error e, w) := by
  obtain ⟨e, he⟩ := getTableStateIndex_of_none h
  exact ⟨e, Exec.bind_error he _⟩

theorem allocateNextPrimaryKey_of_max (h : obtainSlot config schema w = some slot)
    (hm : slot.nextId = intMax) :
    ∃ e, allocateNextPrimaryKey config schema w = (.error e, opened config schema w) := by
  obtain ⟨i, hi, hs⟩ := getTableStateIndex_of_some h
  rw [allocateNextPrimaryKey, Exec.bind_ok hi, Exec.bind_ok (Exec.get_apply _)]
  simp only [hs.slotAt_eq]
  rw [if_pos hm]
  exact ⟨_, rfl⟩

/-- An automatic id is the next id of the slot. -/
theorem allocateNextPrimaryKey_of_ne (h : obtainSlot config schema w = some slot)
    (hm : slot.nextId ≠ intMax) :
    allocateNextPrimaryKey config schema w = (.ok slot.nextId,
      (opened config schema w).setSlot config schema.tableName slot.allocated) := by
  obtain ⟨i, hi, hs⟩ := getTableStateIndex_of_some h
  rw [allocateNextPrimaryKey, Exec.bind_ok hi, Exec.bind_ok (Exec.get_apply _)]
  simp only [hs.slotAt_eq]
  rw [if_neg hm, Exec.bind_ok (hs.modifySlot _)]
  rfl

/-- What filling the missing cells of a row can do. -/
inductive FillOutcome (config : AppConfig) (schema : TableSchema) (w : World)
    (cells : List (Option Bytes)) : Except ErrorInfo (List Bytes) → World → Prop
  | complete (texts : List Bytes) (hc : cells = texts.map some) :
    FillOutcome config schema w cells (.ok texts) w
  | failed (e : ErrorInfo) : FillOutcome config schema w cells (.error e) w
  | exhausted (e : ErrorInfo) (slot : TableRuntimeState)
      (hs : obtainSlot config schema w = some slot) (hm : slot.nextId = intMax) :
    FillOutcome config schema w cells (.error e) (opened config schema w)
  | burned (e : ErrorInfo) (slot : TableRuntimeState) (before : List Bytes)
      (after : List (Option Bytes)) (hc : cells = before.map some ++ none :: after)
      (hp : schema.primaryKeyIndex = some before.length) (hn : none ∈ after)
      (hs : obtainSlot config schema w = some slot) (hm : slot.nextId ≠ intMax) :
    FillOutcome config schema w cells (.error e)
      ((opened config schema w).setSlot config schema.tableName slot.allocated)
  | assigned (slot : TableRuntimeState) (before after : List Bytes)
      (hc : cells = before.map some ++ none :: after.map some)
      (hp : schema.primaryKeyIndex = some before.length)
      (hs : obtainSlot config schema w = some slot) (hm : slot.nextId ≠ intMax) :
    FillOutcome config schema w cells
      (.ok (before ++ idText slot.nextId :: after))
      ((opened config schema w).setSlot config schema.tableName slot.allocated)

/-- Leading cells that are there are kept. -/
theorem fillCells_append (location : SourceLocation) (i : Nat) (before : List Bytes)
    (cells : List (Option Bytes)) :
    fillCells config schema location i (before.map some ++ cells) w =
      match fillCells config schema location (i + before.length) cells w with
      | (.ok texts, w) => (.ok (before ++ texts), w)
      | (.error e, w) => (.error e, w) := by
  induction before generalizing i with
  | nil =>
    rw [List.map_nil, List.nil_append, List.length_nil, Nat.add_zero]
    cases fillCells config schema location i cells w with
    | mk r w' => cases r <;> rfl
  | cons text before ih =>
    have hi := ih (i + 1)
    rw [List.map_cons, List.cons_append, fillCells, Exec.bind_apply, hi, List.length_cons,
      Nat.add_assoc, Nat.add_comm 1]
    cases fillCells config schema location (i + (before.length + 1)) cells w with
    | mk r w' => cases r <;> rfl

/-- After the column of the primary key no cell may be missing. -/
theorem fillCells_after (location : SourceLocation) {i : Nat}
    {cells : List (Option Bytes)} (hp : ∀ k, schema.primaryKeyIndex = some k → k < i)
    (hn : none ∈ cells) :
    ∃ e, fillCells config schema location i cells w = (.error e, w) := by
  induction cells generalizing i with
  | nil => cases hn
  | cons cell cells ih =>
    cases cell with
    | none =>
      rw [fillCells, if_neg fun h ↦ Nat.lt_irrefl i (hp i h)]
      exact ⟨_, rfl⟩
    | some text =>
      rw [List.mem_cons, or_iff_right (by simp)] at hn
      obtain ⟨e, he⟩ := ih (fun k hk ↦ Nat.lt_succ_of_lt (hp k hk)) hn
      rw [fillCells]
      exact ⟨e, Exec.bind_error he _⟩

/-- A missing id is taken from the slot of the table, and the cells after it are filled then. -/
theorem fillCells_gap (location : SourceLocation) {before : List Bytes}
    (hp : schema.primaryKeyIndex = some before.length)
    (hs : obtainSlot config schema w = some slot) (hm : slot.nextId ≠ intMax)
    (after : List (Option Bytes)) :
    fillCells config schema location 0 (before.map some ++ none :: after) w =
      match fillCells config schema location (before.length + 1) after
          ((opened config schema w).setSlot config schema.tableName slot.allocated) with
      | (.ok texts, w) => (.ok (before ++ idText slot.nextId :: texts), w)
      | (.error e, w) => (.error e, w) := by
  rw [fillCells_append, Nat.zero_add, fillCells, if_pos hp,
    Exec.bind_ok (allocateNextPrimaryKey_of_ne hs hm), Exec.bind_apply]
  cases fillCells config schema location (before.length + 1) after
      ((opened config schema w).setSlot config schema.tableName slot.allocated) with
  | mk r w' => cases r <;> rfl

/-- An id is taken and lost when a cell after it is missing. -/
theorem fillCells_gap_error (location : SourceLocation) {before : List Bytes}
    {after : List (Option Bytes)} (hp : schema.primaryKeyIndex = some before.length)
    (hs : obtainSlot config schema w = some slot) (hm : slot.nextId ≠ intMax)
    (hn : none ∈ after) :
    ∃ e, fillCells config schema location 0 (before.map some ++ none :: after) w =
      (.error e, (opened config schema w).setSlot config schema.tableName slot.allocated) := by
  obtain ⟨e, he⟩ := fillCells_after
    (w := (opened config schema w).setSlot config schema.tableName slot.allocated)
    location (i := before.length + 1) (fun k hk ↦ by
      obtain rfl := Option.some.inj (hp.symm.trans hk)
      exact Nat.lt_succ_self _) hn
  exact ⟨e, by rw [fillCells_gap location hp hs hm, he]⟩

/-- The possible outcomes of `build_insert_row_values` once the values are placed. -/
theorem fillCells_outcome (config : AppConfig) (schema : TableSchema) (location : SourceLocation)
    (cells : List (Option Bytes)) (w : World) :
    FillOutcome config schema w cells (fillCells config schema location 0 cells w).1
      (fillCells config schema location 0 cells w).2 := by
  rcases exists_map_some_or cells with ⟨texts, rfl⟩ | ⟨before, after, rfl⟩
  · rw [fillCells_map_some]
    exact .complete texts rfl
  · by_cases hp : schema.primaryKeyIndex = some before.length
    · cases hs : obtainSlot config schema w with
      | none =>
        obtain ⟨e, he⟩ := allocateNextPrimaryKey_of_none hs
        rw [fillCells_append, Nat.zero_add, fillCells, if_pos hp, Exec.bind_error he]
        exact .failed e
      | some slot =>
        by_cases hm : slot.nextId = intMax
        · obtain ⟨e, he⟩ := allocateNextPrimaryKey_of_max hs hm
          rw [fillCells_append, Nat.zero_add, fillCells, if_pos hp, Exec.bind_error he]
          exact .exhausted e slot hs hm
        · by_cases hn : none ∈ after
          · obtain ⟨e, he⟩ := fillCells_gap_error location hp hs hm hn
            rw [he]
            exact .burned e slot before after rfl hp hn hs hm
          · rcases exists_map_some_or after with ⟨texts, rfl⟩ | ⟨xs, ys, rfl⟩
            · rw [fillCells_gap location hp hs hm, fillCells_map_some]
              exact .assigned slot before texts rfl hp hs hm
            · simp at hn
    · rw [fillCells_append, Nat.zero_add, fillCells, if_neg hp]
      exact .failed _

/-! ### Slots of tables with a primary key -/

/-- A slot with an index whose keys are smaller than the next id, `INT_MAX` excepted. -/
structure NextIdOk (slot : TableRuntimeState) : Prop where
  index : ∃ index, slot.pkIndex = some index ∧
    ∀ e ∈ index.entries, e.1 < slot.nextId ∨ e.1 = intMax
  range : intMin ≤ slot.nextId ∧ slot.nextId ≤ intMax

variable {primaryKeyIndex : Nat}

/-- A new slot holds what `storage_rebuild_pk_index` has built. -/
theorem freshSlot_eq_some_iff (hp : schema.primaryKeyIndex = some primaryKeyIndex) :
    freshSlot config schema w = some slot ↔ ∃ index maxId,
      storageRebuildPkIndex config schema .create w.disk = (.ok (index, maxId), w.disk) ∧
        maxId ≠ intMax ∧
        slot = ⟨config.schemaDir, config.dataDir, schema.tableName, maxId + 1, some index⟩ := by
  have hd := storageRebuildPkIndex_snd config schema .create w.disk
  rw [freshSlot, buildIndex, hp]
  simp only [Exec.bind_apply, onDisk, Exec.zoom]
  cases hr : storageRebuildPkIndex config schema .create w.disk with
  | mk r disk =>
    rw [hr] at hd
    obtain rfl : disk = w.disk := hd
    cases r with
    | error e => simp
    | ok p =>
      obtain ⟨index, maxId⟩ := p
      by_cases hm : maxId = intMax
      · simp [hm]
      · simp [hm, eq_comm]

theorem nextIdOk_freshSlot (hp : schema.primaryKeyIndex = some primaryKeyIndex)
    (h : freshSlot config schema w = some slot) : NextIdOk slot := by
  obtain ⟨index, maxId, hr, hm, rfl⟩ := (freshSlot_eq_some_iff hp).mp h
  obtain ⟨hkey, hl, hu⟩ := storageRebuildPkIndex_maxKey hr
  simp only [intMin, intMax] at hl hu hm ⊢
  refine ⟨⟨index, rfl, fun e he ↦ Or.inl ?_⟩, ?_⟩
  · exact Int.lt_add_one_of_le (hkey.le e he)
  · simp only [intMin, intMax]
    omega

theorem nextIdOk_obtainSlot (hp : schema.primaryKeyIndex = some primaryKeyIndex)
    (hw : ∀ slot, w.slot config schema.tableName = some slot → NextIdOk slot)
    (h : obtainSlot config schema w = some slot) : NextIdOk slot := by
  rcases obtainSlot_eq_some_iff.mp h with hs | ⟨-, -, hs⟩
  · exact hw _ hs
  · exact nextIdOk_freshSlot hp hs

theorem NextIdOk.allocated (h : NextIdOk slot) (hm : slot.nextId ≠ intMax) :
    NextIdOk slot.allocated := by
  obtain ⟨⟨index, hi, hk⟩, hl, hu⟩ := h
  refine ⟨⟨index, hi, fun e he ↦ ?_⟩, ?_⟩
  · rcases hk e he with hlt | heq
    · exact Or.inl (Int.lt_trans hlt (Int.lt_succ _))
    · exact Or.inr heq
  · simp only [TableRuntimeState.allocated, intMin, intMax] at hl hu hm ⊢
    omega

/-- A slot after a row with the given id was entered. -/
def TableRuntimeState.registered (slot : TableRuntimeState) (index : PkIndex)
    (key offset : Int) : TableRuntimeState :=
  { slot with
    pkIndex := some (index.insert key offset).1
    nextId := if key ≠ intMax ∧ slot.nextId ≤ key then key + 1 else slot.nextId }

/-- Entering an `int` key keeps the next id above the keys. -/
theorem NextIdOk.registered {index : PkIndex} {key offset : Int} (h : NextIdOk slot)
    (hi : slot.pkIndex = some index) (hk : findEntry key index.entries = none)
    (hr : intMin ≤ key ∧ key ≤ intMax) : NextIdOk (slot.registered index key offset) := by
  obtain ⟨⟨index', hi', hlt⟩, hl, hu⟩ := h
  obtain rfl := Option.some.inj (hi.symm.trans hi')
  simp only [intMin, intMax] at hl hu hr
  refine ⟨⟨_, rfl, fun e he ↦ ?_⟩, ?_⟩
  · rw [PkIndex.entries_insert, insertNew_of_none hk, mem_insertEntry] at he
    simp only [TableRuntimeState.registered, intMax]
    rcases he with rfl | he
    · split <;> omega
    · have := hlt e he
      simp only [intMax] at this
      split <;> omega
  · simp only [TableRuntimeState.registered, intMin, intMax]
    split <;> omega

/-! ### Storing the row -/

/-- The process after a file was written. -/
def World.write (w : World) (path content : Bytes) : World :=
  { w with disk := w.disk.write path content }

@[simp] theorem World.slot_write (path content : Bytes) (tableName : Bytes) :
    (w.write path content).slot config tableName = w.slot config tableName := rfl

theorem World.setSlot_write (path content tableName : Bytes) :
    (w.setSlot config tableName slot).write path content =
      (w.write path content).setSlot config tableName slot := by
  rw [write, setSlot_disk, setSlot, setSlot, write]
  cases w.tableStates.findIdx? (·.isFor config tableName) <;> rfl

/-- The content of the table's file after a row was appended. -/
def appended (config : AppConfig) (schema : TableSchema) (w : World) (row : List Bytes) : Bytes :=
  appendBase schema (w.file config schema.tableName) ++ writeCsvRow row

/-- The process after a row was stored, where `slot` is the slot of the table before. -/
@[irreducible] def stored (config : AppConfig) (schema : TableSchema) (w : World) (row : List Bytes)
    (slot : TableRuntimeState) (index : PkIndex) (key : Int) : World :=
  ((opened config schema w).write (tablePath config schema.tableName)
    (appended config schema w row)).setSlot config schema.tableName
      (slot.registered index key (appendBase schema (w.file config schema.tableName)).length)

theorem onDisk_ok {α : Type} {x : Exec Disk α} {a : α} {disk : Disk}
    (h : x w.disk = (.ok a, disk)) : onDisk x w = (.ok a, { w with disk := disk }) := by
  rw [onDisk, Exec.zoom, h]

theorem onDisk_error {α : Type} {x : Exec Disk α} {e : ErrorInfo} {disk : Disk}
    (h : x w.disk = (.error e, disk)) : onDisk x w = (.error e, { w with disk := disk }) := by
  rw [onDisk, Exec.zoom, h]

/-- A new key can be entered into the index of a table that has a slot. -/
theorem registerPrimaryKey_spec {index : PkIndex} {key : Int} (offset : Int)
    (hs : w.slot config schema.tableName = some slot) (hi : slot.pkIndex = some index)
    (hk : findEntry key index.entries = none) :
    registerPrimaryKey config schema key offset w = (.ok (),
      w.setSlot config schema.tableName (slot.registered index key offset)) := by
  obtain ⟨i, hi', hat⟩ := getTableStateIndex_of_some (obtainSlot_of_slot hs)
  rw [opened_of_slot hs] at hi' hat
  have hfor := isFor_of_slot hs
  rw [registerPrimaryKey, Exec.bind_ok hi', Exec.bind_ok (Exec.get_apply w), hat.slotAt_eq, hi]
  have hins : (Option.some index).map (·.insert key offset) =
      some ((index.insert key offset).1, true) := by
    rw [Option.map_some, Option.some.injEq]
    exact Prod.ext rfl (by rw [PkIndex.insert_snd, hk]; rfl)
  simp only [hins]
  rw [Exec.bind_ok (hat.modifySlot _), rememberExplicitPrimaryKey,
    Exec.bind_ok (Exec.get_apply _)]
  have hsome : (w.slot config schema.tableName).isSome = true := by
    rw [hs]
    rfl
  have hfor' : TableRuntimeState.isFor { slot with pkIndex := some (index.insert key offset).1 }
      config schema.tableName = true := hfor
  have hslot' := World.slot_setSlot hsome hfor'
  obtain ⟨j, hj⟩ := exists_slotAt hslot'
  simp only [hj.find]
  by_cases hmax : key = intMax
  · rw [if_pos hmax, TableRuntimeState.registered, if_neg (by simp [hmax])]
    rfl
  · rw [if_neg hmax, hj.slotAt_eq]
    simp only
    by_cases hle : slot.nextId ≤ key
    · have htwice := World.setSlot_setSlot w (slot.registered index key offset) hfor'
      rw [if_pos hle, hj.modifySlot, ← htwice]
      simp only [TableRuntimeState.registered, if_pos (And.intro hmax hle)]
    · rw [if_neg hle, TableRuntimeState.registered, if_neg (by simp [hle])]
      rfl

/-- The table cannot have a slot: nothing is stored. -/
theorem storeRow_of_none {row : List Bytes} (hp : schema.primaryKeyIndex = some primaryKeyIndex)
    (hs : obtainSlot config schema w = none) :
    ∃ e, storeRow config schema row w = (.error e, w) := by
  simp only [storeRow, hp]
  cases hid : strtolInt (row.getD primaryKeyIndex []) with
  | none => exact ⟨_, Exec.bind_error (by rw [Exec.lift_apply, parseRowPrimaryKey, hid]) _⟩
  | some key =>
    obtain ⟨e, he⟩ := getTableStateIndex_of_none hs
    rw [Exec.bind_ok (by rw [Exec.lift_apply, parseRowPrimaryKey, hid])]
    exact ⟨e, Exec.bind_error (Exec.bind_error he _) _⟩

theorem validatePrimaryKeyUnique_apply {index : PkIndex}
    (hs : obtainSlot config schema w = some slot) (hi : slot.pkIndex = some index) (key : Int) :
    validatePrimaryKeyUnique config schema key w =
      (if (findEntry key index.entries).isSome then
        .error (runtimeError "PK 값이 이미 존재합니다." noLocation) else .ok (),
      opened config schema w) := by
  obtain ⟨i, hi', hat⟩ := getTableStateIndex_of_some hs
  rw [validatePrimaryKeyUnique, Exec.bind_ok hi', Exec.bind_ok (Exec.get_apply _), hat.slotAt_eq,
    hi, Option.bind_some, PkIndex.search_eq]
  split <;> rfl

section Store

variable {row : List Bytes} {key : Int} {index : PkIndex}
  (hp : schema.primaryKeyIndex = some primaryKeyIndex)
  (hs : obtainSlot config schema w = some slot) (hi : slot.pkIndex = some index)
  (hid : rowId primaryKeyIndex row = some key)

include hp hs hi hid

/-- A key that is there is rejected, and so is a row for a file with another header. -/
theorem storeRow_rejected
    (h : findEntry key index.entries ≠ none ∨
      ¬ Appendable schema (w.file config schema.tableName)) :
    ∃ e, storeRow config schema row w = (.error e, opened config schema w) := by
  have hvalid := validatePrimaryKeyUnique_apply hs hi key
  unfold rowId at hid
  simp only [storeRow, hp]
  rw [Exec.bind_ok (by rw [Exec.lift_apply, parseRowPrimaryKey, hid])]
  cases hk : findEntry key index.entries with
  | some offset =>
    rw [hk, Option.isSome_some, if_pos rfl] at hvalid
    exact ⟨_, Exec.bind_error hvalid _⟩
  | none =>
    rw [hk, Option.isSome_none, if_neg Bool.false_ne_true] at hvalid
    rw [Exec.bind_ok hvalid]
    have happ := h.resolve_left (fun hne ↦ hne hk)
    have happ' : ¬ Appendable schema
        ((opened config schema w).disk.files (tablePath config schema.tableName)) := by
      rw [opened_disk]
      exact happ
    obtain ⟨e, he⟩ := storageAppendRow_of_not_appendable happ' row
    exact ⟨e, Exec.bind_error (onDisk_error he) _⟩

/-- A new key is stored. -/
theorem storeRow_stored (hk : findEntry key index.entries = none)
    (happ : Appendable schema (w.file config schema.tableName)) :
    storeRow config schema row w = (.ok (), stored config schema w row slot index key) := by
  have hvalid := validatePrimaryKeyUnique_apply hs hi key
  rw [hk, Option.isSome_none, if_neg Bool.false_ne_true] at hvalid
  unfold rowId at hid
  have happ' : Appendable schema
      ((opened config schema w).disk.files (tablePath config schema.tableName)) := by
    rw [opened_disk]
    exact happ
  have hrun := storageAppendRow_of_appendable rfl happ' row
  rw [opened_disk] at hrun
  simp only [storeRow, hp]
  rw [Exec.bind_ok (by rw [Exec.lift_apply, parseRowPrimaryKey, hid]), Exec.bind_ok hvalid,
    Exec.bind_ok (onDisk_ok (by rw [opened_disk]; exact hrun))]
  have hslot : ((opened config schema w).write (tablePath config schema.tableName)
      (appended config schema w row)).slot config schema.tableName = some slot := slot_opened hs
  have hreg := registerPrimaryKey_spec
    (appendBase schema (w.file config schema.tableName)).length hslot hi hk
  rw [World.write, opened_disk] at hreg
  rw [stored, World.write, opened_disk]
  exact hreg

end Store

/-! ### The whole statement -/

theorem idText_eq {id : Int} (hl : intMin ≤ id) (hu : id ≤ intMax) :
    idText id = snprintfInt id := by
  have := length_snprintfInt_le hl hu
  exact snprintfStr_of_lt (by simp only [maxValueLen]; omega)

/-- The id of a row with an automatic id. -/
theorem rowId_assigned {before after : List Bytes} {id : Int} (hl : intMin ≤ id)
    (hu : id ≤ intMax) : rowId before.length (before ++ idText id :: after) = some id := by
  rw [rowId, List.getD_eq_getElem?_getD, List.getElem?_append_right (Nat.le_refl _), Nat.sub_self,
    List.getElem?_cons_zero, Option.getD_some, idText_eq hl hu, strtolInt_snprintfInt hl hu]

/-- The next id is not in the index. -/
theorem NextIdOk.findEntry_eq_none {index : PkIndex} (h : NextIdOk slot)
    (hi : slot.pkIndex = some index) (hm : slot.nextId ≠ intMax) :
    findEntry slot.nextId index.entries = none := by
  obtain ⟨index', hi', hlt⟩ := h.index
  obtain rfl := Option.some.inj (hi.symm.trans hi')
  rw [findEntry_eq_none_iff index.sortedKeys_entries]
  intro e he heq
  rcases hlt e he with h | h
  · exact Int.lt_irrefl _ (heq ▸ h)
  · exact hm (heq.symm.trans h)

/-- What an INSERT on a table with a primary key can do. -/
inductive InsertOutcome (config : AppConfig) (schema : TableSchema) (primaryKeyIndex : Nat)
    (statement : InsertStatement) (w : World) : Except ErrorInfo Unit → World → Prop
  | rejected (e : ErrorInfo) :
    InsertOutcome config schema primaryKeyIndex statement w (.error e) w
  | opened (e : ErrorInfo) (slot : TableRuntimeState)
      (hs : obtainSlot config schema w = some slot) :
    InsertOutcome config schema primaryKeyIndex statement w (.error e) (opened config schema w)
  | burned (e : ErrorInfo) (slot : TableRuntimeState) (before : List Bytes)
      (after : List (Option Bytes))
      (hc : rowCells schema statement = .ok (before.map some ++ none :: after))
      (hl : before.length = primaryKeyIndex) (hs : obtainSlot config schema w = some slot)
      (hm : slot.nextId ≠ intMax)
      (hwhy : none ∈ after ∨ ¬ Appendable schema (w.file config schema.tableName)) :
    InsertOutcome config schema primaryKeyIndex statement w (.error e)
      ((Executor.opened config schema w).setSlot config schema.tableName slot.allocated)
  | given (slot : TableRuntimeState) (row : List Bytes) (key : Int) (index : PkIndex)
      (hc : rowCells schema statement = .ok (row.map some))
      (hs : obtainSlot config schema w = some slot) (hi : slot.pkIndex = some index)
      (hid : rowId primaryKeyIndex row = some key) (hk : findEntry key index.entries = none)
      (happ : Appendable schema (w.file config schema.tableName)) :
    InsertOutcome config schema primaryKeyIndex statement w (.ok ())
      (stored config schema w row slot index key)
  | assigned (slot : TableRuntimeState) (before after : List Bytes) (index : PkIndex)
      (hc : rowCells schema statement = .ok (before.map some ++ none :: after.map some))
      (hl : before.length = primaryKeyIndex) (hs : obtainSlot config schema w = some slot)
      (hm : slot.nextId ≠ intMax) (hi : slot.pkIndex = some index)
      (hk : findEntry slot.nextId index.entries = none)
      (happ : Appendable schema (w.file config schema.tableName)) :
    InsertOutcome config schema primaryKeyIndex statement w (.ok ())
      (stored config schema w (before ++ idText slot.nextId :: after) slot.allocated index
        slot.nextId)

/-- An INSERT on a table whose schema is loaded. -/
theorem executeInsert_apply {statement : InsertStatement}
    (hschema : loadTableSchema w.disk.files config.schemaDir statement.tableName = .ok schema) :
    executeInsert config statement w =
      (buildInsertRowValues config schema statement >>= storeRow config schema) w := by
  rw [executeInsert, Exec.bind_ok (Exec.get_apply w),
    Exec.bind_ok (by rw [Exec.lift_apply, hschema])]

@[simp] theorem file_taken : ((opened config schema w).setSlot config schema.tableName
    slot).file config schema.tableName = w.file config schema.tableName := by
  rw [World.file, World.setSlot_disk, opened_disk]
  rfl

section Taken

variable (hs : obtainSlot config schema w = some slot)

include hs

theorem slot_taken : ((opened config schema w).setSlot config schema.tableName
    slot.allocated).slot config schema.tableName = some slot.allocated :=
  World.slot_setSlot (by rw [slot_opened hs]; rfl) (isFor_allocated_obtainSlot hs)

/-- Taking an id and then storing the row is storing it into the slot after the id was
taken. -/
theorem stored_allocated {row : List Bytes} {index : PkIndex} {key : Int} :
    stored config schema
        ((opened config schema w).setSlot config schema.tableName slot.allocated) row
        slot.allocated index key =
      stored config schema w row slot.allocated index key := by
  have hfor := isFor_allocated_obtainSlot hs
  rw [stored, stored, opened_of_slot (slot_taken hs), appended, appended, file_taken,
    World.setSlot_write, World.setSlot_setSlot _ _ hfor]

variable {before after : List Bytes} {index : PkIndex}
  (hp : schema.primaryKeyIndex = some before.length) (hok : NextIdOk slot)
  (hi : slot.pkIndex = some index)

include hp hok hi

/-- A row with the id that was taken is stored. -/
theorem storeRow_taken (after : List Bytes) (hm : slot.nextId ≠ intMax)
    (happ : Appendable schema (w.file config schema.tableName)) :
    storeRow config schema (before ++ idText slot.nextId :: after)
        ((opened config schema w).setSlot config schema.tableName slot.allocated) =
      (.ok (), stored config schema w (before ++ idText slot.nextId :: after) slot.allocated index
        slot.nextId) := by
  rw [storeRow_stored hp (obtainSlot_of_slot (slot_taken hs)) hi
    (rowId_assigned hok.range.1 hok.range.2) (hok.findEntry_eq_none hi hm)
    (by rw [file_taken]; exact happ), stored_allocated hs]

/-- The id that was taken is lost when the file takes no row. -/
theorem storeRow_taken_rejected (after : List Bytes)
    (happ : ¬ Appendable schema (w.file config schema.tableName)) :
    ∃ e, storeRow config schema (before ++ idText slot.nextId :: after)
        ((opened config schema w).setSlot config schema.tableName slot.allocated) =
      (.error e, (opened config schema w).setSlot config schema.tableName slot.allocated) := by
  obtain ⟨e, he⟩ := storeRow_rejected hp (obtainSlot_of_slot (slot_taken hs)) hi
    (rowId_assigned hok.range.1 hok.range.2)
    (Or.inr (by rw [file_taken]; exact happ))
  rw [opened_of_slot (slot_taken hs)] at he
  exact ⟨e, he⟩

end Taken

/-- An INSERT that omits only the id takes the next one. -/
theorem executeInsert_assigned {statement : InsertStatement} {before after : List Bytes}
    {index : PkIndex} (hp : schema.primaryKeyIndex = some before.length)
    (hschema : loadTableSchema w.disk.files config.schemaDir statement.tableName = .ok schema)
    (hc : rowCells schema statement = .ok (before.map some ++ none :: after.map some))
    (hs : obtainSlot config schema w = some slot) (hok : NextIdOk slot)
    (hm : slot.nextId ≠ intMax) (hi : slot.pkIndex = some index)
    (happ : Appendable schema (w.file config schema.tableName)) :
    executeInsert config statement w = (.ok (), stored config schema w
      (before ++ idText slot.nextId :: after) slot.allocated index slot.nextId) := by
  rw [executeInsert_apply hschema, Exec.bind_apply, buildInsertRowValues_apply, hc]
  simp only [fillCells_gap _ hp hs hm, fillCells_map_some]
  exact storeRow_taken hs hp hok hi _ hm happ

/-- Every outcome of an INSERT. -/
theorem executeInsert_outcome {statement : InsertStatement}
    (hp : schema.primaryKeyIndex = some primaryKeyIndex)
    (hschema : loadTableSchema w.disk.files config.schemaDir statement.tableName = .ok schema)
    (hw : ∀ slot, w.slot config schema.tableName = some slot → NextIdOk slot) :
    InsertOutcome config schema primaryKeyIndex statement w (executeInsert config statement w).1
      (executeInsert config statement w).2 := by
  rw [executeInsert_apply hschema, Exec.bind_apply, buildInsertRowValues_apply]
  cases hc : rowCells schema statement with
  | error e => exact .rejected e
  | ok cells =>
    simp only
    have hfill := fillCells_outcome config schema statement.tableLocation cells w
    generalize fillCells config schema statement.tableLocation 0 cells w = out at hfill ⊢
    obtain ⟨r, w'⟩ := out
    cases hfill with
    | complete texts hcells =>
      subst hcells
      simp only
      cases hs : obtainSlot config schema w' with
      | none =>
        obtain ⟨e, he⟩ := storeRow_of_none hp hs
        rw [he]
        exact .rejected e
      | some slot =>
        obtain ⟨index, hi, -⟩ := (nextIdOk_obtainSlot hp hw hs).index
        cases hid : rowId primaryKeyIndex texts with
        | none =>
          unfold rowId at hid
          have he : storeRow config schema texts w' =
              (.error (runtimeError "PK 값을 읽을 수 없습니다." noLocation), w') := by
            simp only [storeRow, hp]
            exact Exec.bind_error (by rw [Exec.lift_apply, parseRowPrimaryKey, hid]) _
          rw [he]
          exact .rejected _
        | some key =>
          by_cases h : findEntry key index.entries ≠ none ∨
              ¬ Appendable schema (w'.file config schema.tableName)
          · obtain ⟨e, he⟩ := storeRow_rejected hp hs hi hid h
            rw [he]
            exact .opened e slot hs
          · rw [not_or, not_not, not_not] at h
            rw [storeRow_stored hp hs hi hid h.1 h.2]
            exact .given slot texts key index hc hs hi hid h.1 h.2
    | failed e => exact .rejected e
    | exhausted e slot hs hm => exact .opened e slot hs
    | burned e slot before after hcells hp' hn hs hm =>
      subst hcells
      exact .burned e slot before after hc (Option.some.inj (hp'.symm.trans hp)) hs hm (Or.inl hn)
    | assigned slot before after hcells hp' hs hm =>
      subst hcells
      obtain rfl := Option.some.inj (hp'.symm.trans hp)
      have hok := nextIdOk_obtainSlot hp hw hs
      obtain ⟨index, hi, -⟩ := hok.index
      have hk := hok.findEntry_eq_none hi hm
      by_cases happ : Appendable schema (w.file config schema.tableName)
      · have hrun := storeRow_taken hs hp' hok hi after hm happ
        simp only [hrun]
        exact .assigned slot before after index hc rfl hs hm hi hk happ
      · obtain ⟨e, he⟩ := storeRow_taken_rejected hs hp' hok hi after happ
        simp only [he]
        exact .burned e slot before (after.map some) hc rfl hs hm (Or.inr happ)

/-- An INSERT on a table without a primary key fails and changes nothing, or appends one row. -/
theorem executeInsert_noKey {statement : InsertStatement} (hp : schema.primaryKeyIndex = none)
    (hschema : loadTableSchema w.disk.files config.schemaDir statement.tableName = .ok schema) :
    (∃ e, executeInsert config statement w = (.error e, w)) ∨
      ∃ row, rowCells schema statement = .ok (row.map some) ∧
        Appendable schema (w.file config schema.tableName) ∧
        executeInsert config statement w = (.ok (),
          w.write (tablePath config schema.tableName) (appended config schema w row)) := by
  rw [executeInsert_apply hschema, Exec.bind_apply, buildInsertRowValues_apply]
  cases hc : rowCells schema statement with
  | error e => exact Or.inl ⟨e, rfl⟩
  | ok cells =>
    rcases exists_map_some_or cells with ⟨row, rfl⟩ | ⟨before, after, rfl⟩
    · simp only [fillCells_map_some, storeRow, hp]
      by_cases happ : Appendable schema (w.file config schema.tableName)
      · have hrun := storageAppendRow_of_appendable rfl happ row
        rw [Exec.bind_ok (onDisk_ok hrun)]
        exact Or.inr ⟨row, rfl, happ, rfl⟩
      · obtain ⟨e, he⟩ := storageAppendRow_of_not_appendable happ row
        rw [Exec.bind_error (onDisk_error he)]
        exact Or.inl ⟨e, rfl⟩
    · simp only [fillCells_append, fillCells, hp]
      exact Or.inl ⟨_, rfl⟩

end SqlProc.Executor
