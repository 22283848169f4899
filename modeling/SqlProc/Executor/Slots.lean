import SqlProc.Executor.Execute
import SqlProc.Storage.Rebuild

/-!
# The slot of a table

Library `Executor`. `get_table_state_index` either finds the slot of a table, or creates one
from the table's file, or fails and changes nothing; what it returns the next time is the
same slot.
-/

namespace SqlProc.Executor

open Base Front Index Schema Storage

section FirstMatch

variable {α : Type} {p q : α → Bool} {xs : List α} {i : Nat}

theorem find?_of_findIdx? (h : xs.findIdx? p = some i) :
    ∃ x, xs[i]? = some x ∧ xs.find? p = some x := by
  induction xs generalizing i with
  | nil => cases h
  | cons x xs ih =>
    rw [List.findIdx?_cons] at h
    cases hx : p x with
    | true =>
      rw [hx, if_pos rfl] at h
      obtain rfl := Option.some.inj h
      exact ⟨x, rfl, List.find?_cons_of_pos hx⟩
    | false =>
      rw [hx, if_neg Bool.false_ne_true] at h
      obtain ⟨j, hj, rfl⟩ := Option.map_eq_some_iff.mp h
      obtain ⟨y, hy, hf⟩ := ih hj
      exact ⟨y, hy, (List.find?_cons_of_neg (by simp [hx])).trans hf⟩

/-- The first match stays at its place when another match is put there. -/
theorem findIdx?_set (h : xs.findIdx? p = some i) {y : α} (hy : p y = true) :
    (xs.set i y).findIdx? p = some i := by
  induction xs generalizing i with
  | nil => cases h
  | cons x xs ih =>
    rw [List.findIdx?_cons] at h
    cases hx : p x with
    | true =>
      rw [hx, if_pos rfl] at h
      obtain rfl := Option.some.inj h
      rw [List.set_cons_zero, List.findIdx?_cons, hy, if_pos rfl]
    | false =>
      rw [hx, if_neg Bool.false_ne_true] at h
      obtain ⟨j, hj, rfl⟩ := Option.map_eq_some_iff.mp h
      rw [List.set_cons_succ, List.findIdx?_cons, hx, if_neg Bool.false_ne_true, ih hj]
      rfl

/-- An element that does not match is replaced by another one. -/
theorem find?_set_of_not {x y : α} (hx : xs[i]? = some x) (hqx : q x = false)
    (hqy : q y = false) : (xs.set i y).find? q = xs.find? q := by
  induction xs generalizing i with
  | nil => cases hx
  | cons z xs ih =>
    cases i with
    | zero =>
      obtain rfl := Option.some.inj hx
      rw [List.set_cons_zero, List.find?_cons_of_neg (by simp [hqy]),
        List.find?_cons_of_neg (by simp [hqx])]
    | succ i => rw [List.set_cons_succ, List.find?_cons, List.find?_cons, ih hx]

end FirstMatch

/-! ### Views of the process -/

/-- The data file of a table. -/
def World.file (w : World) (config : AppConfig) (tableName : Bytes) : Option Bytes :=
  w.disk.files (tablePath config tableName)

/-- The slot of a table. -/
def World.slot (w : World) (config : AppConfig) (tableName : Bytes) : Option TableRuntimeState :=
  w.tableStates.find? (·.isFor config tableName)

/-- The process with one more slot in use. -/
def World.addSlot (w : World) (slot : TableRuntimeState) : World :=
  { w with tableStates := w.tableStates ++ [slot] }

/-- The process with another slot for a table that has one. -/
@[irreducible] def World.setSlot (w : World) (config : AppConfig) (tableName : Bytes)
    (slot : TableRuntimeState) : World :=
  match w.tableStates.findIdx? (·.isFor config tableName) with
  | none => w
  | some i => { w with tableStates := w.tableStates.set i slot }

variable {config : AppConfig} {schema : TableSchema} {tableName : Bytes} {w : World}
  {slot : TableRuntimeState}

@[simp] theorem World.setSlot_disk : (w.setSlot config tableName slot).disk = w.disk := by
  rw [setSlot]
  split <;> rfl

theorem World.findIdx?_eq_none_iff :
    w.tableStates.findIdx? (·.isFor config tableName) = none ↔ w.slot config tableName = none := by
  rw [slot, List.findIdx?_eq_none_iff, List.find?_eq_none]
  simp

theorem isFor_of_slot (h : w.slot config tableName = some slot) :
    slot.isFor config tableName = true := by
  rw [World.slot] at h
  exact List.find?_some (p := fun s : TableRuntimeState ↦ s.isFor config tableName) h

/-- A slot belongs to one table. -/
theorem TableRuntimeState.isFor_ne {tableName' : Bytes} (h : slot.isFor config tableName = true)
    (hne : tableName' ≠ tableName) : slot.isFor config tableName' = false := by
  simp only [isFor, Bool.and_eq_true, decide_eq_true_eq] at h
  simp only [isFor, Bool.and_eq_false_iff, decide_eq_false_iff_not]
  right
  rw [h.2]
  exact Ne.symm hne

theorem World.slot_addSlot (hw : w.slot config tableName = none)
    (hs : slot.isFor config tableName = true) :
    (w.addSlot slot).slot config tableName = some slot := by
  rw [World.slot] at hw
  simp [World.slot, addSlot, List.find?_append, hw, hs]

theorem World.slot_addSlot_of_ne {tableName' : Bytes}
    (hs : slot.isFor config tableName' = false) :
    (w.addSlot slot).slot config tableName' = w.slot config tableName' := by
  simp [World.slot, addSlot, List.find?_append, hs]

theorem World.slot_setSlot (hw : (w.slot config tableName).isSome = true)
    (hs : slot.isFor config tableName = true) :
    (w.setSlot config tableName slot).slot config tableName = some slot := by
  rw [setSlot]
  cases hi : w.tableStates.findIdx? (·.isFor config tableName) with
  | none =>
    rw [findIdx?_eq_none_iff.mp hi] at hw
    cases hw
  | some i =>
    obtain ⟨x, hx, hf⟩ := find?_of_findIdx? (findIdx?_set hi hs)
    obtain ⟨y, hy, -⟩ := find?_of_findIdx? hi
    have hlt := (List.getElem?_eq_some_iff.mp hy).1
    rw [List.getElem?_set_self hlt] at hx
    rw [World.slot, hf, ← Option.some.inj hx]

theorem World.slot_setSlot_of_ne {tableName' : Bytes} (hne : tableName' ≠ tableName)
    (hs : slot.isFor config tableName = true) :
    (w.setSlot config tableName slot).slot config tableName' = w.slot config tableName' := by
  rw [setSlot]
  cases hi : w.tableStates.findIdx? (·.isFor config tableName) with
  | none => rfl
  | some i =>
    obtain ⟨x, hx, hf⟩ := find?_of_findIdx? hi
    have hx' := List.find?_some (p := fun s : TableRuntimeState ↦ s.isFor config tableName) hf
    exact find?_set_of_not hx (TableRuntimeState.isFor_ne hx' hne)
      (TableRuntimeState.isFor_ne hs hne)

theorem World.setSlot_setSlot (w : World) (slot' : TableRuntimeState)
    (hs : slot.isFor config tableName = true) :
    (w.setSlot config tableName slot).setSlot config tableName slot' =
      w.setSlot config tableName slot' := by
  cases hi : w.tableStates.findIdx? (·.isFor config tableName) with
  | none => simp only [setSlot, hi]
  | some i => simp only [setSlot, hi, findIdx?_set hi hs, List.set_set]

/-! ### Creating and finding a slot -/

/-- The slot that `create_table_state` builds from the file of a table. -/
def freshSlot (config : AppConfig) (schema : TableSchema) (w : World) :
    Option TableRuntimeState :=
  match (buildIndex config schema w).1 with
  | .error _ => none
  | .ok (index, maxId) =>
    if maxId = intMax then none
    else some ⟨config.schemaDir, config.dataDir, schema.tableName, maxId + 1, index⟩

/-- The slot that a statement on the table works with, if it can have one. -/
def obtainSlot (config : AppConfig) (schema : TableSchema) (w : World) :
    Option TableRuntimeState :=
  match w.slot config schema.tableName with
  | some slot => some slot
  | none =>
    if w.tableStates.length < executorMaxTableStates then freshSlot config schema w else none

/-- The process after a statement has asked for the slot of the table. -/
@[irreducible] def opened (config : AppConfig) (schema : TableSchema) (w : World) : World :=
  match w.slot config schema.tableName, obtainSlot config schema w with
  | none, some slot => w.addSlot slot
  | _, _ => w

/-- Building an index only reads. -/
theorem buildIndex_snd (config : AppConfig) (schema : TableSchema) (w : World) :
    (buildIndex config schema w).2 = w := by
  unfold buildIndex
  cases schema.primaryKeyIndex with
  | none => rfl
  | some pk =>
    simp only [Exec.bind_apply, onDisk, Exec.zoom]
    have h := storageRebuildPkIndex_snd config schema .create w.disk
    cases hr : storageRebuildPkIndex config schema .create w.disk with
    | mk r disk =>
      rw [hr] at h
      obtain rfl : disk = w.disk := h
      cases r <;> rfl

theorem isFor_freshSlot (h : freshSlot config schema w = some slot) :
    slot.isFor config schema.tableName = true := by
  unfold freshSlot at h
  split at h
  · cases h
  · split at h
    · cases h
    · obtain rfl := Option.some.inj h
      simp [TableRuntimeState.isFor]

/-- A new index depends on the file of the table only. -/
theorem buildIndex_congr {w' : World}
    (h : w'.file config schema.tableName = w.file config schema.tableName) :
    (buildIndex config schema w').1 = (buildIndex config schema w).1 := by
  unfold buildIndex
  cases schema.primaryKeyIndex with
  | none => rfl
  | some pk =>
    have hr := storageRebuildPkIndex_congr h .create
    simp only [Exec.bind_apply, onDisk, Exec.zoom, hr]
    cases (storageRebuildPkIndex config schema .create w.disk).1 <;> rfl

/-- A new slot depends on the file of the table only. -/
theorem freshSlot_congr {w' : World}
    (h : w'.file config schema.tableName = w.file config schema.tableName) :
    freshSlot config schema w' = freshSlot config schema w := by
  rw [freshSlot, freshSlot, buildIndex_congr h]

theorem obtainSlot_of_slot (h : w.slot config schema.tableName = some slot) :
    obtainSlot config schema w = some slot := by
  simp only [obtainSlot, h]

/-- The slot that a statement works with was there, or it is new and there was room for it. -/
theorem obtainSlot_eq_some_iff : obtainSlot config schema w = some slot ↔
    w.slot config schema.tableName = some slot ∨ w.slot config schema.tableName = none ∧
      w.tableStates.length < executorMaxTableStates ∧ freshSlot config schema w = some slot := by
  unfold obtainSlot
  cases w.slot config schema.tableName with
  | some slot' => simp
  | none => simp

/-- A table that can have no slot has none. -/
theorem slot_of_obtainSlot_none (h : obtainSlot config schema w = none) :
    w.slot config schema.tableName = none := by
  cases hs : w.slot config schema.tableName with
  | none => rfl
  | some slot =>
    rw [obtainSlot_of_slot hs] at h
    cases h

theorem isFor_obtainSlot (h : obtainSlot config schema w = some slot) :
    slot.isFor config schema.tableName = true := by
  rcases obtainSlot_eq_some_iff.mp h with hs | ⟨-, -, hs⟩
  · exact isFor_of_slot hs
  · exact isFor_freshSlot hs

/-- A table that can have a slot has it after it was asked for. -/
theorem slot_opened (h : obtainSlot config schema w = some slot) :
    (opened config schema w).slot config schema.tableName = some slot := by
  cases hs : w.slot config schema.tableName with
  | some slot' =>
    rw [obtainSlot_of_slot hs] at h
    simp only [opened, hs]
    exact h
  | none =>
    simp only [opened, hs, h]
    exact World.slot_addSlot hs (isFor_obtainSlot h)

theorem opened_of_slot (h : w.slot config schema.tableName = some slot) :
    opened config schema w = w := by
  simp only [opened, h]

theorem opened_of_none (h : obtainSlot config schema w = none) : opened config schema w = w := by
  cases hs : w.slot config schema.tableName <;> simp only [opened, hs, h]

@[simp] theorem opened_disk : (opened config schema w).disk = w.disk := by
  rw [opened]
  split <;> rfl

@[simp] theorem file_opened (tableName : Bytes) :
    (opened config schema w).file config tableName = w.file config tableName := by
  rw [World.file, opened_disk]
  rfl

theorem slot_opened_of_ne {tableName' : Bytes} (hne : tableName' ≠ schema.tableName) :
    (opened config schema w).slot config tableName' = w.slot config tableName' := by
  rw [opened]
  split
  · next h =>
    exact World.slot_addSlot_of_ne (TableRuntimeState.isFor_ne (isFor_obtainSlot h) hne)
  · rfl

/-! ### The functions on slots -/

/-- `i` is the place of the slot of a table. -/
structure SlotAt (config : AppConfig) (schema : TableSchema) (w : World) (i : Nat)
    (slot : TableRuntimeState) : Prop where
  find : findTableState config schema w.tableStates = some i
  slotAt_eq : slotAt w i = slot
  slot_eq : w.slot config schema.tableName = some slot

theorem slotAt_of_findTableState {i : Nat}
    (h : findTableState config schema w.tableStates = some i) :
    ∃ slot, SlotAt config schema w i slot := by
  obtain ⟨slot, hi, hf⟩ := find?_of_findIdx? h
  exact ⟨slot, h, by rw [slotAt, List.getD_eq_getElem?_getD, hi, Option.getD_some], hf⟩

theorem exists_slotAt (h : w.slot config schema.tableName = some slot) :
    ∃ i, SlotAt config schema w i slot := by
  cases hi : findTableState config schema w.tableStates with
  | none =>
    rw [World.findIdx?_eq_none_iff.mp hi] at h
    cases h
  | some i =>
    obtain ⟨slot', hs⟩ := slotAt_of_findTableState hi
    obtain rfl := Option.some.inj (h.symm.trans hs.slot_eq)
    exact ⟨i, hs⟩

/-- Changing the slot of a table. -/
theorem SlotAt.modifySlot {i : Nat} (h : SlotAt config schema w i slot)
    (f : TableRuntimeState → TableRuntimeState) :
    modifySlot i f w = (.ok (), w.setSlot config schema.tableName (f slot)) := by
  obtain ⟨x, hi, -⟩ := find?_of_findIdx? h.find
  have hx : x = slot := by
    have hs := h.slotAt_eq
    rw [slotAt, List.getD_eq_getElem?_getD, hi, Option.getD_some] at hs
    exact hs
  have hf : w.tableStates.findIdx? (·.isFor config schema.tableName) = some i := h.find
  have hset : w.tableStates.modify i f = w.tableStates.set i (f slot) := by
    rw [List.modify_eq_set_getElem?, hi, hx]
    rfl
  rw [Executor.modifySlot, Exec.modify_apply, World.setSlot, hf, hset]

/-- `create_table_state` adds the slot built from the file. -/
theorem createTableState_of_some (h : freshSlot config schema w = some slot)
    (hl : w.tableStates.length < executorMaxTableStates) :
    createTableState config schema w = (.ok w.tableStates.length, w.addSlot slot) := by
  have hw := buildIndex_snd config schema w
  rw [createTableState, Exec.bind_apply]
  unfold freshSlot at h
  cases hb : buildIndex config schema w with
  | mk r w' =>
    rw [hb] at h hw
    obtain rfl : w' = w := hw
    cases r with
    | error e => cases h
    | ok p =>
      simp only at h ⊢
      split at h
      · cases h
      · next hmax =>
        obtain rfl := Option.some.inj h
        rw [if_neg hmax, Exec.bind_ok (Exec.get_apply _), if_pos hl]
        rfl

/-- `create_table_state` fails, or adds the slot built from the file. -/
theorem createTableState_of_none
    (h : (if w.tableStates.length < executorMaxTableStates then freshSlot config schema w
      else none) = none) :
    ∃ e, createTableState config schema w = (.error e, w) := by
  have hw := buildIndex_snd config schema w
  rw [createTableState, Exec.bind_apply]
  unfold freshSlot at h
  cases hb : buildIndex config schema w with
  | mk r w' =>
    rw [hb] at h hw
    obtain rfl : w' = w := hw
    cases r with
    | error e => exact ⟨e, rfl⟩
    | ok p =>
      simp only at h ⊢
      by_cases hmax : p.2 = intMax
      · rw [if_pos hmax]
        exact ⟨_, rfl⟩
      · have hl : ¬ w'.tableStates.length < executorMaxTableStates := by
          intro hl
          rw [if_pos hl, if_neg hmax] at h
          cases h
        rw [if_neg hmax, Exec.bind_ok (Exec.get_apply _), if_neg hl]
        exact ⟨_, rfl⟩

/-- `get_table_state_index` for a table that can have a slot. -/
theorem getTableStateIndex_of_some (h : obtainSlot config schema w = some slot) :
    ∃ i, getTableStateIndex config schema w = (.ok i, opened config schema w) ∧
      SlotAt config schema (opened config schema w) i slot := by
  rcases obtainSlot_eq_some_iff.mp h with hs | ⟨hs, hl, hfresh⟩
  · obtain ⟨i, hi⟩ := exists_slotAt hs
    rw [opened_of_slot hs]
    refine ⟨i, ?_, hi⟩
    rw [getTableStateIndex, Exec.bind_ok (Exec.get_apply w)]
    simp only [hi.find]
    rfl
  · have hfind : findTableState config schema w.tableStates = none :=
      World.findIdx?_eq_none_iff.mpr hs
    have hopen : opened config schema w = w.addSlot slot := by simp only [opened, hs, h]
    have hfor := isFor_freshSlot hfresh
    refine ⟨w.tableStates.length, ?_, ?_, ?_, ?_⟩
    · rw [getTableStateIndex, Exec.bind_ok (Exec.get_apply w), hopen]
      simp only [hfind]
      exact createTableState_of_some hfresh hl
    · unfold findTableState at hfind
      simp [hopen, findTableState, World.addSlot, List.findIdx?_append, hfind, hfor]
    · simp [hopen, slotAt, World.addSlot]
    · rw [hopen]
      exact World.slot_addSlot hs hfor

/-- `get_table_state_index` for a table that can have none. -/
theorem getTableStateIndex_of_none (h : obtainSlot config schema w = none) :
    ∃ e, getTableStateIndex config schema w = (.error e, w) := by
  have hs := slot_of_obtainSlot_none h
  have hfind : findTableState config schema w.tableStates = none :=
    World.findIdx?_eq_none_iff.mpr hs
  simp only [obtainSlot, hs] at h
  obtain ⟨e, he⟩ := createTableState_of_none h
  refine ⟨e, ?_⟩
  rw [getTableStateIndex, Exec.bind_ok (Exec.get_apply w)]
  simp only [hfind]
  exact he

end SqlProc.Executor
