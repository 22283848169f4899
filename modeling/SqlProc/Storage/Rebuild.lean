import SqlProc.Storage.Rows

/-!
# Building the index of a file

Library `Storage`. The scan of `storage_rebuild_pk_index` succeeds exactly when the header is
accepted, every line decodes, and the ids can be read and are pairwise different; the index
then holds the ids of the rows with the offsets of their lines.
-/

namespace SqlProc.Storage

open Base Front Index Schema Support

/-- The id of a row, as the program reads it. -/
def rowId (primaryKeyIndex : Nat) (cells : List Bytes) : Option Int :=
  strtolInt (cells.getD primaryKeyIndex [])

/-- The index holds exactly the ids of the rows, each with the offset of its row. -/
def Indexes (primaryKeyIndex : Nat) (rows : List (Nat × List Bytes)) (index : PkIndex) : Prop :=
  (index.entries.map fun e ↦ (some e.1, e.2)).Perm
    (rows.map fun row ↦ (rowId primaryKeyIndex row.2, (row.1 : Int)))

/-- The ids of the rows can be read and are pairwise different. -/
structure UniqueIds (primaryKeyIndex : Nat) (rows : List (Nat × List Bytes)) : Prop where
  nodup : (rows.map fun row ↦ rowId primaryKeyIndex row.2).Nodup
  readable : none ∉ rows.map fun row ↦ rowId primaryKeyIndex row.2

variable {primaryKeyIndex : Nat} {rows : List (Nat × List Bytes)} {index : PkIndex}

theorem Indexes.map_fst (h : Indexes primaryKeyIndex rows index) :
    (index.entries.map fun e ↦ some e.1).Perm (rows.map fun row ↦ rowId primaryKeyIndex row.2) := by
  have hm := List.Perm.map Prod.fst h
  rw [List.map_map, List.map_map] at hm
  exact hm

theorem Indexes.uniqueIds (h : Indexes primaryKeyIndex rows index) :
    UniqueIds primaryKeyIndex rows := by
  refine ⟨h.map_fst.nodup_iff.mp ?_, fun hm ↦ ?_⟩
  · refine List.pairwise_map.mpr (List.Pairwise.imp ?_ index.sortedKeys_entries)
    intro a b hlt he
    exact absurd (Option.some.inj he) (ne_of_lt hlt)
  · obtain ⟨e, -, he⟩ := List.mem_map.mp (h.map_fst.mem_iff.mpr hm)
    cases he

/-- The entries of the index are the rows. -/
theorem Indexes.mem_iff (h : Indexes primaryKeyIndex rows index) (key offset : Int) :
    (key, offset) ∈ index.entries ↔
      ∃ row ∈ rows, rowId primaryKeyIndex row.2 = some key ∧ (row.1 : Int) = offset := by
  have hm := List.Perm.mem_iff (a := (some key, offset)) h
  simp only [List.mem_map, Prod.mk.injEq, Option.some.injEq] at hm
  rw [← hm]
  constructor
  · intro he
    exact ⟨(key, offset), he, rfl, rfl⟩
  · rintro ⟨⟨k, o⟩, he, rfl, rfl⟩
    exact he

/-- A lookup finds the row with the key. -/
theorem Indexes.search_eq_some_iff (h : Indexes primaryKeyIndex rows index) (key offset : Int) :
    index.search key = some offset ↔
      ∃ row ∈ rows, rowId primaryKeyIndex row.2 = some key ∧ (row.1 : Int) = offset := by
  rw [PkIndex.search_eq, findEntry_eq_some_iff index.sortedKeys_entries, h.mem_iff]

/-- Two indexes of the same rows hold the same entries. -/
theorem Indexes.entries_eq {index' : PkIndex} (h : Indexes primaryKeyIndex rows index)
    (h' : Indexes primaryKeyIndex rows index') : index'.entries = index.entries := by
  refine index'.sortedKeys_entries.ext index.sortedKeys_entries fun key ↦ Option.ext fun offset ↦ ?_
  rw [← PkIndex.search_eq, ← PkIndex.search_eq, h.search_eq_some_iff, h'.search_eq_some_iff]

/-- The row of an entry. -/
def IsEntry (primaryKeyIndex : Nat) (e : Int × Int) (row : Nat × List Bytes) : Prop :=
  rowId primaryKeyIndex row.2 = some e.1 ∧ (row.1 : Int) = e.2

/-- The rows in the order of the entries. -/
theorem Indexes.exists_sorted (h : Indexes primaryKeyIndex rows index) :
    ∃ sorted, List.Forall₂ (IsEntry primaryKeyIndex) index.entries sorted ∧
      sorted.Perm rows := by
  have hrows : List.Forall₂ (fun p row ↦ p = (rowId primaryKeyIndex row.2, (row.1 : Int)))
      (rows.map fun row ↦ (rowId primaryKeyIndex row.2, (row.1 : Int))) rows :=
    List.forall₂_map_left_iff.mpr (List.forall₂_same.mpr fun _ _ ↦ rfl)
  obtain ⟨sorted, hsorted, hperm⟩ := List.perm_comp_forall₂ h hrows
  refine ⟨sorted, (List.forall₂_map_left_iff.mp hsorted).imp fun e row he ↦ ?_, hperm⟩
  obtain ⟨hid, ho⟩ := Prod.mk.inj he
  exact ⟨hid.symm, ho.symm⟩

theorem indexes_nil : Indexes primaryKeyIndex [] PkIndex.create := by
  rw [Indexes, PkIndex.entries_create]
  exact List.Perm.refl _

/-- A new row after the others enters the index. -/
theorem Indexes.insert (h : Indexes primaryKeyIndex rows index) {key : Int}
    (row : Nat × List Bytes)
    (hid : rowId primaryKeyIndex row.2 = some key) (hk : findEntry key index.entries = none) :
    Indexes primaryKeyIndex (rows ++ [row]) (index.insert key row.1).1 := by
  rw [Indexes, PkIndex.entries_insert, insertNew_of_none hk, List.map_append, List.map_singleton,
    hid]
  apply ((insertEntry_perm key (row.1 : Int) index.entries).map _).trans
  rw [List.map_cons]
  exact (List.Perm.cons _ h).trans (List.perm_append_singleton _ _).symm

/-! ### The loop -/

/-- The largest key of an index, or zero when it is empty. -/
structure MaxKey (index : PkIndex) (maxValue : Int) : Prop where
  le : ∀ e ∈ index.entries, e.1 ≤ maxValue
  attained : index.entries = [] ∧ maxValue = 0 ∨ ∃ e ∈ index.entries, e.1 = maxValue

theorem MaxKey.eq_zero {maxValue : Int} (h : MaxKey index maxValue)
    (hnil : index.entries = []) : maxValue = 0 := by
  rcases h.attained with ⟨-, hzero⟩ | ⟨e, he, -⟩
  · exact hzero
  · rw [hnil] at he
    cases he

/-- What holds of the variables of the loop. -/
structure RebuildState.Inv (state : RebuildState) : Prop where
  maxKey : MaxKey state.index state.maxValue
  foundValue_iff : state.foundValue = false ↔ state.index.entries = []
  range : intMin ≤ state.maxValue ∧ state.maxValue ≤ intMax

/-- The variables of the loop after a row. -/
def RebuildState.add (state : RebuildState) (key offset : Int) : RebuildState :=
  if !state.foundValue || key > state.maxValue then ⟨(state.index.insert key offset).1, key, true⟩
  else { state with index := (state.index.insert key offset).1 }

@[simp] theorem RebuildState.add_index (state : RebuildState) (key offset : Int) :
    (state.add key offset).index = (state.index.insert key offset).1 := by
  unfold add
  split <;> rfl

/-- The loop goes on after a row whose id can be read and is new. -/
theorem rebuildVisit_eq_ok_iff {offset : Int} {values : List Bytes} {state state' : RebuildState}
    {b : Bool} : rebuildVisit primaryKeyIndex offset values state = (.ok b, state') ↔
      b = true ∧ ∃ key, rowId primaryKeyIndex values = some key ∧
        findEntry key state.index.entries = none ∧ state' = state.add key offset := by
  rw [rebuildVisit, Exec.bind_ok (Exec.get_apply state), rowId]
  cases hid : strtolInt (values.getD primaryKeyIndex []) with
  | none => simp
  | some key =>
    cases hk : findEntry key state.index.entries with
    | some offset' => simp [hk]
    | none =>
      simp only [PkIndex.search_eq, hk, Option.isSome_none, Bool.false_eq_true, if_false,
        PkIndex.insert_snd, Option.isNone_none, Bool.not_true, Option.some.injEq]
      rw [Exec.bind_ok (Exec.modify_apply _ state), Exec.pure_apply, Prod.mk.injEq,
        Except.ok.injEq]
      constructor
      · rintro ⟨rfl, rfl⟩
        exact ⟨rfl, key, rfl, hk, rfl⟩
      · rintro ⟨rfl, key', rfl, -, rfl⟩
        exact ⟨rfl, rfl⟩

/-- A key that no other exceeds is the largest one. -/
theorem maxKey_insert {key offset : Int} (hle : ∀ e ∈ index.entries, e.1 ≤ key)
    (hk : findEntry key index.entries = none) : MaxKey (index.insert key offset).1 key := by
  have hentries : (index.insert key offset).1.entries = insertEntry key offset index.entries := by
    rw [PkIndex.entries_insert, insertNew_of_none hk]
  refine ⟨fun e he ↦ ?_, Or.inr ⟨(key, offset), ?_, rfl⟩⟩
  · rw [hentries, mem_insertEntry] at he
    rcases he with rfl | he
    · exact Int.le_refl _
    · exact hle e he
  · rw [hentries, mem_insertEntry]
    exact Or.inl rfl

/-- A smaller key leaves the largest one, when there is one. -/
theorem MaxKey.insert {maxValue key offset : Int} (h : MaxKey index maxValue)
    (hle : key ≤ maxValue) (hnil : index.entries = [] → key = maxValue)
    (hk : findEntry key index.entries = none) : MaxKey (index.insert key offset).1 maxValue := by
  have hentries : (index.insert key offset).1.entries = insertEntry key offset index.entries := by
    rw [PkIndex.entries_insert, insertNew_of_none hk]
  refine ⟨fun e he ↦ ?_, Or.inr ?_⟩
  · rw [hentries, mem_insertEntry] at he
    rcases he with rfl | he
    · exact hle
    · exact h.le e he
  · rw [hentries]
    rcases h.attained with ⟨hempty, -⟩ | ⟨e, he, hv⟩
    · exact ⟨(key, offset), mem_insertEntry.mpr (Or.inl rfl), hnil hempty⟩
    · exact ⟨e, mem_insertEntry.mpr (Or.inr he), hv⟩

theorem RebuildState.Inv.add {state : RebuildState} (h : state.Inv) {key offset : Int}
    (hk : findEntry key state.index.entries = none) (hm : intMin ≤ key ∧ key ≤ intMax) :
    (state.add key offset).Inv := by
  have hentries : (state.add key offset).index.entries =
      insertEntry key offset state.index.entries := by
    rw [add_index, PkIndex.entries_insert, insertNew_of_none hk]
  have hne : insertEntry key offset state.index.entries ≠ [] := by
    apply List.ne_nil_of_length_pos
    rw [length_insertEntry]
    exact Nat.succ_pos _
  by_cases hc : !state.foundValue || key > state.maxValue
  · have hadd : state.add key offset = ⟨(state.index.insert key offset).1, key, true⟩ := by
      rw [RebuildState.add, if_pos hc]
    have hle : ∀ e ∈ state.index.entries, e.1 ≤ key := by
      intro e he
      rw [Bool.or_eq_true, Bool.not_eq_true', h.foundValue_iff, decide_eq_true_eq] at hc
      rcases hc with hnil | hgt
      · rw [hnil] at he
        cases he
      · exact Int.le_trans (h.maxKey.le e he) (Int.le_of_lt hgt)
    refine ⟨?_, ?_, ?_⟩
    · rw [hadd]
      exact maxKey_insert hle hk
    · rw [hentries, hadd]
      simp [hne]
    · rw [hadd]
      exact hm
  · have hadd : state.add key offset =
        { state with index := (state.index.insert key offset).1 } := by
      rw [RebuildState.add, if_neg hc]
    rw [Bool.or_eq_true, not_or, Bool.not_eq_true', Bool.not_eq_false, decide_eq_true_eq,
      Int.not_lt] at hc
    obtain ⟨hfound, hle⟩ := hc
    have hold : state.index.entries ≠ [] := by
      rw [Ne, ← h.foundValue_iff, hfound]
      decide
    refine ⟨?_, ?_, ?_⟩
    · rw [hadd]
      exact h.maxKey.insert hle (fun hnil ↦ absurd hnil hold) hk
    · rw [hentries, hadd]
      simp [hne, hfound]
    · rw [hadd]
      exact h.range

/-- A row that the loop passes keeps what holds of its variables. -/
theorem rebuildVisit_inv {offset : Int} {values : List Bytes} {state state' : RebuildState}
    {b : Bool} (h : state.Inv)
    (hv : rebuildVisit primaryKeyIndex offset values state = (.ok b, state')) : state'.Inv := by
  obtain ⟨-, key, hid, hk, rfl⟩ := rebuildVisit_eq_ok_iff.mp hv
  exact h.add hk (strtolInt_range hid)

theorem inv_start : RebuildState.Inv ⟨.create, 0, false⟩ := by
  refine ⟨⟨?_, Or.inl ⟨PkIndex.entries_create, rfl⟩⟩, ?_, by decide⟩
  · simp
  · simp

/-- The loop succeeds on rows with readable, new and pairwise different ids. -/
theorem exists_visitRows_rebuild (state : RebuildState) (hu : UniqueIds primaryKeyIndex rows)
    (hnew : ∀ row ∈ rows, ∀ e ∈ state.index.entries, rowId primaryKeyIndex row.2 ≠ some e.1) :
    ∃ state', visitRows (rebuildVisit primaryKeyIndex) rows state = (.ok (), state') := by
  induction rows generalizing state with
  | nil => exact ⟨state, rfl⟩
  | cons row rows ih =>
    obtain ⟨hnodup, hreadable⟩ := hu
    rw [List.map_cons, List.nodup_cons] at hnodup
    rw [List.map_cons, List.mem_cons, not_or] at hreadable
    obtain ⟨hrow, hrows⟩ := List.forall_mem_cons.mp hnew
    obtain ⟨key, hid⟩ := Option.ne_none_iff_exists'.mp (Ne.symm hreadable.1)
    have hk : findEntry key state.index.entries = none := by
      rw [findEntry_eq_none_iff state.index.sortedKeys_entries]
      intro e he hek
      exact hrow e he (by rw [hid, hek])
    obtain ⟨position, values⟩ := row
    have hvisit : rebuildVisit primaryKeyIndex position values state =
        (.ok true, state.add key position) :=
      rebuildVisit_eq_ok_iff.mpr ⟨rfl, key, hid, hk, rfl⟩
    obtain ⟨state', hrest⟩ := ih (state.add key position) ⟨hnodup.2, hreadable.2⟩
      fun row hm e he ↦ by
        rw [RebuildState.add_index, PkIndex.entries_insert, insertNew_of_none hk,
          mem_insertEntry] at he
        rcases he with rfl | he
        · intro hid'
          exact hnodup.1 (List.mem_map.mpr ⟨row, hm, hid'.trans hid.symm⟩)
        · exact hrows row hm e he
    exact ⟨state', by rw [visitRows, Exec.bind_ok hvisit, if_pos rfl, hrest]⟩

/-- The loop adds the rows to the index. -/
theorem indexes_of_visitRows {done : List (Nat × List Bytes)} {state state' : RebuildState}
    (hd : Indexes primaryKeyIndex done state.index)
    (h : visitRows (rebuildVisit primaryKeyIndex) rows state = (.ok (), state')) :
    Indexes primaryKeyIndex (done ++ rows) state'.index := by
  induction rows generalizing done state with
  | nil =>
    obtain rfl : state = state' := (Prod.mk.inj h).2
    rw [List.append_nil]
    exact hd
  | cons row rows ih =>
    obtain ⟨position, values⟩ := row
    rw [visitRows] at h
    obtain ⟨goOn, t, hvisit, h⟩ := Exec.bind_eq_ok_iff.mp h
    obtain ⟨rfl, key, hid, hk, rfl⟩ := rebuildVisit_eq_ok_iff.mp hvisit
    have hadd : Indexes primaryKeyIndex (done ++ [(position, values)])
        (state.add key position).index := by
      rw [RebuildState.add_index]
      exact hd.insert _ hid hk
    have hi := ih hadd h
    rw [List.append_assoc, List.singleton_append] at hi
    exact hi

/-- The loop of a scan indexes the rows. -/
theorem indexes_of_scan {state : RebuildState}
    (h : visitRows (rebuildVisit primaryKeyIndex) rows ⟨.create, 0, false⟩ = (.ok (), state)) :
    Indexes primaryKeyIndex rows state.index := by
  have hi := indexes_of_visitRows indexes_nil h
  rw [List.nil_append] at hi
  exact hi

/-! ### The whole scan -/

section Rebuild

variable {config : AppConfig} {schema : TableSchema} {disk : Disk} {content : Bytes}

/-- The scan only reads. -/
@[simp] theorem storageRebuildPkIndex_snd (config : AppConfig) (schema : TableSchema)
    (index : PkIndex) (disk : Disk) :
    (storageRebuildPkIndex config schema index disk).2 = disk := by
  unfold storageRebuildPkIndex
  cases schema.primaryKeyIndex with
  | none => rfl
  | some primaryKeyIndex =>
    simp only [Exec.bind_ok (Exec.get_apply disk)]
    cases disk.files (tablePath config schema.tableName) with
    | none => rfl
    | some content =>
      simp only
      cases fgets maxCsvRowLen (.start content) with
      | none => rfl
      | some p =>
        simp only
        rw [Exec.bind_apply, Exec.lift_apply]
        cases checkHeader csvMessages schema (validateLineLength p.1 maxCsvRowLen p.2) p.1 with
        | error e => rfl
        | ok u =>
          simp only
          cases forEachRow schema (rebuildVisit primaryKeyIndex) content.length p.2
              ⟨index, 0, false⟩ with
          | mk r state => cases r <;> rfl

/-- The result of the scan depends on the file of the table only. -/
theorem storageRebuildPkIndex_congr {disk' : Disk}
    (h : disk'.files (tablePath config schema.tableName) =
      disk.files (tablePath config schema.tableName)) (index : PkIndex) :
    (storageRebuildPkIndex config schema index disk').1 =
      (storageRebuildPkIndex config schema index disk).1 := by
  unfold storageRebuildPkIndex
  cases schema.primaryKeyIndex with
  | none => rfl
  | some primaryKeyIndex =>
    simp only [Exec.bind_ok (Exec.get_apply _), h]
    cases disk.files (tablePath config schema.tableName) with
    | none => rfl
    | some content =>
      simp only
      cases fgets maxCsvRowLen (.start content) with
      | none => rfl
      | some p =>
        simp only [Exec.bind_apply, Exec.lift_apply]
        cases checkHeader csvMessages schema (validateLineLength p.1 maxCsvRowLen p.2) p.1 with
        | error e => rfl
        | ok u =>
          simp only
          cases forEachRow schema (rebuildVisit primaryKeyIndex) content.length p.2
              ⟨index, 0, false⟩ with
          | mk r state => cases r <;> rfl

/-- A table whose file is missing or empty gets an empty index. -/
theorem storageRebuildPkIndex_empty
    (hf : disk.files (tablePath config schema.tableName) = none ∨
      disk.files (tablePath config schema.tableName) = some []) (index : PkIndex) :
    storageRebuildPkIndex config schema index disk = (.ok (index, 0), disk) := by
  unfold storageRebuildPkIndex
  cases schema.primaryKeyIndex with
  | none => rfl
  | some primaryKeyIndex =>
    simp only [Exec.bind_ok (Exec.get_apply disk)]
    rcases hf with hf | hf
    · simp only [hf]
      rfl
    · simp only [hf]
      rfl

/-- A successful scan of an existing file: the header was accepted and the loop ended. -/
theorem storageRebuildPkIndex_eq_ok_iff (hp : schema.primaryKeyIndex = some primaryKeyIndex)
    (hf : disk.files (tablePath config schema.tableName) = some content)
    {line : Bytes} {file : CFile} (hget : fgets maxCsvRowLen (.start content) = some (line, file))
    {maxValue : Int} :
    storageRebuildPkIndex config schema .create disk = (.ok (index, maxValue), disk) ↔
      checkHeader csvMessages schema (validateLineLength line maxCsvRowLen file) line = .ok () ∧
        ∃ foundValue, forEachRow schema (rebuildVisit primaryKeyIndex) content.length file
          ⟨.create, 0, false⟩ = (.ok (), ⟨index, maxValue, foundValue⟩) := by
  simp only [storageRebuildPkIndex, hp, Exec.bind_ok (Exec.get_apply disk), hf, hget]
  rw [Exec.bind_apply, Exec.lift_apply]
  cases checkHeader csvMessages schema (validateLineLength line maxCsvRowLen file) line with
  | error e => simp
  | ok u =>
    cases hrun : forEachRow schema (rebuildVisit primaryKeyIndex) content.length file
        ⟨.create, 0, false⟩ with
    | mk r state =>
      obtain ⟨index', maxValue', foundValue'⟩ := state
      cases r with
      | error e => simp
      | ok u => simp

/-- The largest key found is the largest key of the index, whatever bytes the file holds. -/
theorem storageRebuildPkIndex_maxKey {maxValue : Int}
    (h : storageRebuildPkIndex config schema .create disk = (.ok (index, maxValue), disk)) :
    MaxKey index maxValue ∧ intMin ≤ maxValue ∧ maxValue ≤ intMax := by
  have hempty : ∀ {i m},
      ((.ok (PkIndex.create, 0), disk) : Except ErrorInfo (PkIndex × Int) × Disk)
        = (.ok (i, m), disk) → MaxKey i m ∧ intMin ≤ m ∧ m ≤ intMax := by
    intro i m he
    obtain ⟨rfl, rfl⟩ : PkIndex.create = i ∧ 0 = m := by simpa using he
    exact ⟨inv_start.maxKey, by decide⟩
  cases hp : schema.primaryKeyIndex with
  | none =>
    simp only [storageRebuildPkIndex, hp] at h
    exact hempty h
  | some primaryKeyIndex =>
    cases hf : disk.files (tablePath config schema.tableName) with
    | none =>
      rw [storageRebuildPkIndex_empty (Or.inl hf)] at h
      exact hempty h
    | some content =>
      cases hget : fgets maxCsvRowLen (.start content) with
      | none =>
        simp only [storageRebuildPkIndex, hp, Exec.bind_ok (Exec.get_apply disk), hf, hget] at h
        exact hempty h
      | some p =>
        obtain ⟨-, foundValue, hrun⟩ := (storageRebuildPkIndex_eq_ok_iff hp hf hget).mp h
        have hinv := forEachRow_preserves (P := RebuildState.Inv)
          (fun _ _ _ _ _ hs hv ↦ rebuildVisit_inv hs hv) inv_start hrun
        exact ⟨hinv.maxKey, hinv.range⟩

/-- A scan that succeeds on a file with a line has accepted the header and run over the rows. -/
theorem storageRebuildPkIndex_visits (hp : schema.primaryKeyIndex = some primaryKeyIndex)
    (hf : disk.files (tablePath config schema.tableName) = some content) (hn : nul ∉ content)
    (hne : content ≠ []) {maxValue : Int}
    (h : storageRebuildPkIndex config schema .create disk = (.ok (index, maxValue), disk)) :
    HeaderOk schema content ∧ ∃ rows foundValue, TableRows schema content rows ∧
      visitRows (rebuildVisit primaryKeyIndex) rows ⟨.create, 0, false⟩ =
        (.ok (), ⟨index, maxValue, foundValue⟩) := by
  obtain ⟨p, hget⟩ := exists_fgets_start hn hne
  obtain ⟨hcheck, foundValue, hrun⟩ := (storageRebuildPkIndex_eq_ok_iff hp hf hget).mp h
  have hh := headerOk_of_checkHeader hn hget hcheck
  obtain ⟨line, file, hget', -, -, hscan⟩ := hh.fgets
  obtain rfl := Option.some.inj (hget.symm.trans hget')
  rw [hscan] at hrun
  obtain ⟨rows, hr⟩ := exists_rows_of_forEachLine
    (fun _ _ _ _ _ hv ↦ (rebuildVisit_eq_ok_iff.mp hv).1) hrun
  rw [forEachLine_eq_visitRows hr] at hrun
  exact ⟨hh, rows, foundValue, hr, hrun⟩

/-- A scan that succeeds on a file with a line has indexed the rows. -/
theorem storageRebuildPkIndex_indexes (hp : schema.primaryKeyIndex = some primaryKeyIndex)
    (hf : disk.files (tablePath config schema.tableName) = some content) (hn : nul ∉ content)
    (hne : content ≠ []) {maxValue : Int}
    (h : storageRebuildPkIndex config schema .create disk = (.ok (index, maxValue), disk)) :
    HeaderOk schema content ∧
      ∃ rows, TableRows schema content rows ∧ Indexes primaryKeyIndex rows index := by
  obtain ⟨hh, rows, foundValue, hr, hrun⟩ := storageRebuildPkIndex_visits hp hf hn hne h
  exact ⟨hh, rows, hr, indexes_of_scan hrun⟩

/-- The scan succeeds on rows with readable and pairwise different ids. -/
theorem exists_storageRebuildPkIndex {rows : List (Nat × List Bytes)}
    (hp : schema.primaryKeyIndex = some primaryKeyIndex)
    (hf : disk.files (tablePath config schema.tableName) = some content)
    (hh : HeaderOk schema content) (hr : TableRows schema content rows)
    (hu : UniqueIds primaryKeyIndex rows) :
    ∃ index maxValue, storageRebuildPkIndex config schema .create disk =
      (.ok (index, maxValue), disk) := by
  obtain ⟨line, file, hget, hcheck, -, hscan⟩ := hh.fgets
  obtain ⟨⟨index, maxValue, foundValue⟩, hrun⟩ :=
    exists_visitRows_rebuild ⟨.create, 0, false⟩ hu (by simp)
  refine ⟨index, maxValue, (storageRebuildPkIndex_eq_ok_iff hp hf hget).mpr ⟨hcheck _, ?_⟩⟩
  rw [hscan, forEachLine_eq_visitRows hr]
  exact ⟨foundValue, hrun⟩

end Rebuild

end SqlProc.Storage
