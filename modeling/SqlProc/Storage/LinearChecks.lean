import SqlProc.Storage.WellFormed

/-!
# The linear checks and the index

Library `Storage`. `storage_find_max_int_value` and `storage_int_value_exists` of
`src/storage.c` scan the file for what the index of its primary key knows.
-/

namespace SqlProc.Storage

open Base Front Index Schema Support

variable {config : AppConfig} {schema : TableSchema} {disk : Disk} {content : Bytes}
  {primaryKeyIndex : Nat} {rows : List (Nat × List Bytes)}

/-! ### The three loops on the same rows -/

/-- The loop of `storage_find_max_int_value` carries the maximum that the loop of
`storage_rebuild_pk_index` carries. -/
theorem visitRows_maxVisit {s s' : RebuildState}
    (h : visitRows (rebuildVisit primaryKeyIndex) rows s = (.ok (), s')) :
    visitRows (maxVisit primaryKeyIndex) rows ⟨s.maxValue, s.foundValue⟩ =
      (.ok (), ⟨s'.maxValue, s'.foundValue⟩) := by
  induction rows generalizing s with
  | nil =>
    obtain rfl : s = s' := (Prod.mk.inj h).2
    rfl
  | cons row rows ih =>
    obtain ⟨position, values⟩ := row
    obtain ⟨goOn, t, hvisit, h⟩ := Exec.bind_eq_ok_iff.mp h
    obtain ⟨rfl, key, hid, -, rfl⟩ := rebuildVisit_eq_ok_iff.mp hvisit
    have hmax : maxVisit primaryKeyIndex position values ⟨s.maxValue, s.foundValue⟩ =
        (.ok true, ⟨(s.add key position).maxValue, (s.add key position).foundValue⟩) := by
      unfold rowId at hid
      rw [maxVisit, hid]
      simp only
      rw [Exec.bind_ok (Exec.modify_apply _ _), RebuildState.add]
      split
      · rfl
      · rfl
    rw [visitRows, Exec.bind_ok hmax, if_pos rfl]
    exact ih h

/-- The loop of `storage_int_value_exists` looks for a row with the value. -/
theorem visitRows_existsVisit (hr : none ∉ rows.map fun row ↦ rowId primaryKeyIndex row.2)
    (targetValue : Int) :
    visitRows (existsVisit primaryKeyIndex targetValue) rows false =
      (.ok (), rows.any fun row ↦ rowId primaryKeyIndex row.2 = some targetValue) := by
  induction rows with
  | nil => rfl
  | cons row rows ih =>
    obtain ⟨position, values⟩ := row
    rw [List.map_cons, List.mem_cons, not_or] at hr
    obtain ⟨id, hid⟩ := Option.ne_none_iff_exists'.mp (Ne.symm hr.1)
    have hrest := ih hr.2
    have hcell : strtolInt (values.getD primaryKeyIndex []) = some id := hid
    rw [List.any_cons, hid]
    by_cases ht : id = targetValue
    · have hvisit : existsVisit primaryKeyIndex targetValue position values false =
          (.ok false, true) := by
        rw [existsVisit, hcell]
        simp only [if_pos ht]
        rfl
      rw [visitRows, Exec.bind_ok hvisit]
      simp [ht]
    · have hvisit : existsVisit primaryKeyIndex targetValue position values false =
          (.ok true, false) := by
        rw [existsVisit, hcell]
        simp only [if_neg ht]
        rfl
      rw [visitRows, Exec.bind_ok hvisit, if_pos rfl, hrest]
      simp [ht]

/-! ### The functions on a file with a valid header -/

/-- `storage_find_max_int_value` on a file with a valid header is its loop over the lines. -/
theorem storageFindMaxIntValue_eq
    (hf : disk.files (tablePath config schema.tableName) = some content)
    (hh : HeaderOk schema content) (columnIndex : Nat) :
    storageFindMaxIntValue config schema columnIndex disk =
      match forEachLine schema (maxVisit columnIndex) (dataLines content) ⟨0, false⟩ with
      | (.error e, _) => (.error e, disk)
      | (.ok (), state) => (.ok state.maxValue, disk) := by
  obtain ⟨line, file, hget, hcheck, -, hscan⟩ := hh.fgets
  rw [storageFindMaxIntValue, Exec.bind_ok (Exec.get_apply disk)]
  simp only [hf, hget]
  rw [Exec.bind_ok (by rw [Exec.lift_apply, hcheck]), hscan]
  generalize forEachLine schema (maxVisit columnIndex) (dataLines content) ⟨0, false⟩ = out
  obtain ⟨r, state⟩ := out
  cases r with
  | error e => rfl
  | ok u => rfl

/-- `storage_int_value_exists` on a file with a valid header is its loop over the lines. -/
theorem storageIntValueExists_eq
    (hf : disk.files (tablePath config schema.tableName) = some content)
    (hh : HeaderOk schema content) (columnIndex : Nat) (targetValue : Int) :
    storageIntValueExists config schema columnIndex targetValue disk =
      match forEachLine schema (existsVisit columnIndex targetValue) (dataLines content) false with
      | (.error e, _) => (.error e, disk)
      | (.ok (), found) => (.ok found, disk) := by
  obtain ⟨line, file, hget, hcheck, -, hscan⟩ := hh.fgets
  rw [storageIntValueExists, Exec.bind_ok (Exec.get_apply disk)]
  simp only [hf, hget]
  rw [Exec.bind_ok (by rw [Exec.lift_apply, hcheck]), hscan]
  generalize forEachLine schema (existsVisit columnIndex targetValue) (dataLines content) false =
    out
  obtain ⟨r, found⟩ := out
  cases r with
  | error e => rfl
  | ok u => rfl

/-- A table whose file is missing or empty has no value. -/
theorem linearChecks_empty
    (hf : disk.files (tablePath config schema.tableName) = none ∨
      disk.files (tablePath config schema.tableName) = some []) (columnIndex : Nat) :
    storageFindMaxIntValue config schema columnIndex disk = (.ok 0, disk) ∧
      ∀ targetValue, storageIntValueExists config schema columnIndex targetValue disk =
        (.ok false, disk) := by
  refine ⟨?_, fun targetValue ↦ ?_⟩
  · rw [storageFindMaxIntValue, Exec.bind_ok (Exec.get_apply disk)]
    rcases hf with hf | hf
    · simp only [hf]
      rfl
    · simp only [hf]
      rfl
  · rw [storageIntValueExists, Exec.bind_ok (Exec.get_apply disk)]
    rcases hf with hf | hf
    · simp only [hf]
      rfl
    · simp only [hf]
      rfl

/-! ### The index replaces the linear checks -/

/-- The value is the largest id of the rows, or zero when there is none. -/
def IsMaxId (primaryKeyIndex : Nat) (rows : List (Nat × List Bytes)) (maxValue : Int) : Prop :=
  rows = [] ∧ maxValue = 0 ∨
    (∃ row ∈ rows, rowId primaryKeyIndex row.2 = some maxValue) ∧
      ∀ row ∈ rows, ∀ id, rowId primaryKeyIndex row.2 = some id → id ≤ maxValue

theorem Indexes.isMaxId {index : PkIndex} {maxValue : Int}
    (h : Indexes primaryKeyIndex rows index) (hm : MaxKey index maxValue) :
    IsMaxId primaryKeyIndex rows maxValue := by
  rcases hm.attained with ⟨hnil, hzero⟩ | ⟨e, he, rfl⟩
  · refine Or.inl ⟨?_, hzero⟩
    have hlen := List.Perm.length_eq h
    rw [hnil, List.map_nil, List.length_nil, List.length_map] at hlen
    exact List.length_eq_zero_iff.mp hlen.symm
  · refine Or.inr ⟨?_, fun row hrow id hid ↦ ?_⟩
    · obtain ⟨row, hrow, hid, -⟩ := (h.mem_iff e.1 e.2).mp he
      exact ⟨row, hrow, hid⟩
    · exact hm.le (id, row.1) ((h.mem_iff id row.1).mpr ⟨row, hrow, hid, rfl⟩)

/-- Two rows with one id are the same row. -/
theorem UniqueIds.eq_of_rowId_eq (h : UniqueIds primaryKeyIndex rows)
    {row row' : Nat × List Bytes} (hm : row ∈ rows) (hm' : row' ∈ rows)
    (he : rowId primaryKeyIndex row.2 = rowId primaryKeyIndex row'.2) : row = row' :=
  List.inj_on_of_nodup_map h.nodup hm hm' he

/-- A row has the id exactly when the index finds it. -/
theorem Indexes.any_eq_isSome_search {index : PkIndex} (h : Indexes primaryKeyIndex rows index)
    (key : Int) :
    (rows.any fun row ↦ rowId primaryKeyIndex row.2 = some key) = (index.search key).isSome := by
  rw [Bool.eq_iff_iff, List.any_eq_true, Option.isSome_iff_exists]
  simp only [h.search_eq_some_iff, decide_eq_true_eq]
  constructor
  · rintro ⟨row, hm, hid⟩
    exact ⟨row.1, row, hm, hid, rfl⟩
  · rintro ⟨offset, row, hm, hid, -⟩
    exact ⟨row, hm, hid⟩

/-- After a scan over the rows of a file, the linear checks of the file say what the index and
the maximum of the scan say. -/
theorem linearChecks_of_visitRows {index : PkIndex} {maxValue : Int} {foundValue : Bool}
    (hf : disk.files (tablePath config schema.tableName) = some content)
    (hh : HeaderOk schema content) (hr : TableRows schema content rows)
    (hi : Indexes primaryKeyIndex rows index)
    (hrun : visitRows (rebuildVisit primaryKeyIndex) rows ⟨.create, 0, false⟩ =
      (.ok (), ⟨index, maxValue, foundValue⟩)) :
    (∀ key, storageIntValueExists config schema primaryKeyIndex key disk =
        (.ok (index.search key).isSome, disk)) ∧
      storageFindMaxIntValue config schema primaryKeyIndex disk = (.ok maxValue, disk) := by
  constructor
  · intro key
    rw [storageIntValueExists_eq hf hh, forEachLine_eq_visitRows hr,
      visitRows_existsVisit hi.uniqueIds.readable key, hi.any_eq_isSome_search key]
  · have hfind := visitRows_maxVisit hrun
    simp only at hfind
    rw [storageFindMaxIntValue_eq hf hh, forEachLine_eq_visitRows hr, hfind]

/-- On a file that `storage_rebuild_pk_index` accepts, the linear checks succeed and say what
the index says. -/
theorem rebuild_replaces_linearChecks {index : PkIndex} {maxValue : Int}
    (hp : schema.primaryKeyIndex = some primaryKeyIndex)
    (hn : ∀ content, disk.files (tablePath config schema.tableName) = some content →
      nul ∉ content)
    (h : storageRebuildPkIndex config schema .create disk = (.ok (index, maxValue), disk)) :
    (∀ key, storageIntValueExists config schema primaryKeyIndex key disk =
        (.ok (index.search key).isSome, disk)) ∧
      storageFindMaxIntValue config schema primaryKeyIndex disk = (.ok maxValue, disk) ∧
      ∃ rows, TableRows schema ((disk.files (tablePath config schema.tableName)).getD []) rows ∧
        (∀ key offset, index.search key = some offset ↔
          ∃ row ∈ rows, rowId primaryKeyIndex row.2 = some key ∧ (row.1 : Int) = offset) ∧
        (∀ row ∈ rows, ∀ row' ∈ rows,
          rowId primaryKeyIndex row.2 = rowId primaryKeyIndex row'.2 → row = row') ∧
        IsMaxId primaryKeyIndex rows maxValue := by
  have hmax := (storageRebuildPkIndex_maxKey h).1
  by_cases hempty : disk.files (tablePath config schema.tableName) = none ∨
      disk.files (tablePath config schema.tableName) = some []
  · obtain ⟨hfind, hexists⟩ := linearChecks_empty hempty primaryKeyIndex
    rw [storageRebuildPkIndex_empty hempty] at h
    obtain ⟨rfl, rfl⟩ := Prod.mk.inj (Except.ok.inj (Prod.mk.inj h).1)
    have hcontent : (disk.files (tablePath config schema.tableName)).getD [] = [] := by
      rcases hempty with hf | hf
      · rw [hf, Option.getD_none]
      · rw [hf, Option.getD_some]
    refine ⟨fun key ↦ ?_, hfind, [], ?_, fun key offset ↦ ?_, by simp, Or.inl ⟨rfl, rfl⟩⟩
    · rw [hexists, PkIndex.search_eq, PkIndex.entries_create]
      rfl
    · rw [hcontent]
      exact .nil
    · exact indexes_nil.search_eq_some_iff key offset
  · rw [not_or] at hempty
    obtain ⟨content, hf⟩ := Option.ne_none_iff_exists'.mp hempty.1
    have hne : content ≠ [] := by
      rintro rfl
      exact hempty.2 hf
    obtain ⟨hh, rows, foundValue, hr, hrun⟩ :=
      storageRebuildPkIndex_visits hp hf (hn content hf) hne h
    have hi : Indexes primaryKeyIndex rows index := indexes_of_scan hrun
    obtain ⟨hexists, hfind⟩ := linearChecks_of_visitRows hf hh hr hi hrun
    refine ⟨hexists, hfind, rows, ?_, hi.search_eq_some_iff,
      fun row hm row' hm' he ↦ hi.uniqueIds.eq_of_rowId_eq hm hm' he, hi.isMaxId hmax⟩
    rw [hf, Option.getD_some]
    exact hr

theorem rebuild_replaces_linearChecks_people :
    ∃ index maxValue,
      storageFindMaxIntValue sampleConfig peopleSchema 0
        (dataDisk (text "id,name\n-2,b\n-7,a")) =
          (.ok maxValue, dataDisk (text "id,name\n-2,b\n-7,a")) ∧
      storageRebuildPkIndex sampleConfig peopleSchema .create
        (dataDisk (text "id,name\n-2,b\n-7,a")) =
          (.ok (index, maxValue), dataDisk (text "id,name\n-2,b\n-7,a")) := by
  have hh : HeaderOk peopleSchema (text "id,name\n-2,b\n-7,a") :=
    ⟨by decide, (0, text "id,name"), by decide, by decide, by decide⟩
  have hr : TableRows peopleSchema (text "id,name\n-2,b\n-7,a")
      [(8, [text "-2", text "b"]), (13, [text "-7", text "a"])] :=
    .cons ⟨rfl, by decide⟩ (.cons ⟨rfl, by decide⟩ .nil)
  obtain ⟨index, maxValue, h⟩ :=
    exists_storageRebuildPkIndex rfl (dataDisk_files _) hh hr ⟨by decide, by decide⟩
  have hn : ∀ content, (dataDisk (text "id,name\n-2,b\n-7,a")).files
      (tablePath sampleConfig peopleSchema.tableName) = some content → nul ∉ content := by
    intro content hc
    rw [dataDisk_files] at hc
    obtain rfl := Option.some.inj hc
    decide
  exact ⟨index, maxValue, (rebuild_replaces_linearChecks rfl hn h).2.1, h⟩

end SqlProc.Storage
