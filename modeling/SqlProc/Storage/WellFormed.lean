import SqlProc.Storage.WholeLines

/-!
# The files that can be indexed

Library `Storage`. What a data file of a table with a primary key has to look like, and how
close `storage_rebuild_pk_index` of `src/storage.c` comes to it: the scan takes an empty id for
zero and is exact on every other file.
-/

namespace SqlProc.Storage

open Base Front Index Schema Support

/-- A line that is a row of the table, with its cells. -/
structure RowLine (schema : TableSchema) (line : Bytes) (cells : List Bytes) : Prop where
  length_le : line.length ≤ 2063
  cells_eq : cells = csvCells line
  count : cells.length = schema.columnCount
  fits : ∀ cell ∈ cells, cell.length ≤ 63

/-- The first line of the file is the header of the table and the others are these rows. -/
def FileRows (schema : TableSchema) (content : Bytes) (rows : List (List Bytes)) : Prop :=
  ∃ header ls, CutsInto lf 0 content (header :: ls) ∧ header.2.length ≤ 2063 ∧
    csvCells header.2 = schema.columns.map ColumnSchema.name ∧
    List.Forall₂ (RowLine schema) (ls.map Prod.snd) rows

/-- A cell that is a decimal integer in the range of `int`. -/
structure IntCell (cell : Bytes) (id : Int) : Prop where
  decimal : IsDecimal cell id
  range : intMin ≤ id ∧ id ≤ intMax

/-- The same, with the empty cell for zero. -/
def IntOrEmptyCell (cell : Bytes) (id : Int) : Prop := cell = [] ∧ id = 0 ∨ IntCell cell id

/-- The primary-key cells of the rows are ids, and these are pairwise different. -/
def DistinctIds (IsId : Bytes → Int → Prop) (primaryKeyIndex : Nat)
    (rows : List (List Bytes)) : Prop :=
  ∃ ids, List.Forall₂ (fun cells id ↦ IsId (cells.getD primaryKeyIndex []) id) rows ids ∧
    ids.Nodup

/-- A file that can be indexed: its header, its rows and their ids are as they should be. -/
def WellFormed (schema : TableSchema) (primaryKeyIndex : Nat) (content : Bytes) : Prop :=
  ∃ rows, FileRows schema content rows ∧ DistinctIds IntCell primaryKeyIndex rows

/-- A file with an empty id that would be well formed if the empty id were a zero. -/
def HidesEmptyId (schema : TableSchema) (primaryKeyIndex : Nat) (content : Bytes) : Prop :=
  ∃ rows, FileRows schema content rows ∧ DistinctIds IntOrEmptyCell primaryKeyIndex rows ∧
    ∃ cells ∈ rows, cells.getD primaryKeyIndex [] = []

variable {schema : TableSchema} {content : Bytes} {primaryKeyIndex : Nat}

/-- The rows of a file are determined by it. -/
theorem FileRows.unique {rows rows' : List (List Bytes)} (h : FileRows schema content rows)
    (h' : FileRows schema content rows') : rows = rows' := by
  have hcells : ∀ {rows}, FileRows schema content rows →
      rows = (dataLines content).map fun p ↦ csvCells p.2 := by
    rintro rows ⟨header, ls, hcut, -, -, hrows⟩
    rw [dataLines, lines, ← cutsInto_iff.mp hcut, List.tail_cons, ← List.forall₂_eq_eq_eq,
      List.forall₂_map_right_iff]
    rw [List.forall₂_map_left_iff] at hrows
    exact hrows.flip.imp fun _ _ h ↦ h.cells_eq
  exact (hcells h).trans (hcells h').symm

/-- A line decodes exactly when it is a row. -/
theorem decodeRow_eq_ok_iff_rowLine (hv : Valid schema) {line : Bytes} {cells : List Bytes} :
    decodeRow schema line = .ok cells ↔ RowLine schema line cells := by
  rw [decodeRow_eq_ok_iff, fitsLine_eq_true_iff, parseCsvLine_eq_some_iff]
  constructor
  · rintro ⟨hl, ⟨he, -, hfits⟩, hc⟩
    exact ⟨hl, he, hc, fun cell hm ↦ Nat.le_of_lt_succ (hfits cell hm)⟩
  · intro h
    exact ⟨h.length_le, ⟨h.cells_eq, h.count.trans_le hv.length_le,
      fun cell hm ↦ Nat.lt_succ_of_le (h.fits cell hm)⟩, h.count⟩

/-- The scan sees the header and the rows of the file. -/
theorem exists_tableRows_iff (hv : Valid schema) (hn : nul ∉ content) {rows : List (List Bytes)} :
    (∃ rows', HeaderOk schema content ∧ TableRows schema content rows' ∧
      rows = rows'.map Prod.snd) ↔ FileRows schema content rows := by
  have hnames : (schema.columns.map ColumnSchema.name).length ≤ maxColumns := by
    rw [List.length_map]
    exact hv.length_le
  constructor
  · rintro ⟨rows', hh, hr, rfl⟩
    obtain ⟨header, hl, hfits, hparse⟩ := hh.header
    refine ⟨header, dataLines content, cutsInto_iff.mpr hl.symm,
      fitsLine_eq_true_iff.mp hfits, (parseCsvLine_eq_some_iff.mp hparse).1.symm, ?_⟩
    rw [List.forall₂_map_left_iff, List.forall₂_map_right_iff]
    exact hr.imp fun p row h ↦ (decodeRow_eq_ok_iff_rowLine hv).mp h.2
  · rintro ⟨header, ls, hcut, hl, hnames', hrows⟩
    have hlines : lines content = header :: ls := (cutsInto_iff.mp hcut).symm
    have hdata : dataLines content = ls := by rw [dataLines, hlines, List.tail_cons]
    rw [List.forall₂_map_left_iff] at hrows
    have hlen := hrows.length_eq
    refine ⟨(ls.map Prod.fst).zip rows, ⟨hn, header, by rw [hdata, hlines], ?_, ?_⟩, ?_, ?_⟩
    · exact fitsLine_eq_true_iff.mpr hl
    · refine parseCsvLine_eq_some_iff.mpr ⟨hnames'.symm, hnames, fun name hm ↦ ?_⟩
      obtain ⟨column, hc, rfl⟩ := List.mem_map.mp hm
      exact (hv.names column hc).length_lt
    · rw [TableRows, hdata]
      clear hlen hdata hlines hcut
      induction hrows with
      | nil => exact .nil
      | cons h ht ih => exact .cons ⟨rfl, (decodeRow_eq_ok_iff_rowLine hv).mpr h⟩ ih
    · rw [List.map_snd_zip]
      rw [List.length_map]
      exact hlen.ge

/-- The ids that the scan reads are the decimal integers, and zero for an empty cell. -/
theorem rowId_eq_some_iff {cells : List Bytes} {id : Int} :
    rowId primaryKeyIndex cells = some id ↔
      IntOrEmptyCell (cells.getD primaryKeyIndex []) id := by
  rw [rowId, strtolInt_eq_some_iff]
  exact or_congr_right ⟨fun h ↦ ⟨h.1, h.2⟩, fun h ↦ ⟨h.decimal, h.range⟩⟩

private theorem exists_eq_map_some {α : Type} {xs : List (Option α)} (h : none ∉ xs) :
    ∃ ys : List α, xs = ys.map some := by
  induction xs with
  | nil => exact ⟨[], rfl⟩
  | cons x xs ih =>
    rw [List.mem_cons, not_or] at h
    obtain ⟨ys, rfl⟩ := ih h.2
    obtain ⟨y, rfl⟩ := Option.ne_none_iff_exists'.mp (Ne.symm h.1)
    exact ⟨y :: ys, rfl⟩

theorem uniqueIds_iff {rows : List (Nat × List Bytes)} :
    UniqueIds primaryKeyIndex rows ↔
      DistinctIds IntOrEmptyCell primaryKeyIndex (rows.map Prod.snd) := by
  have hids : ∀ ids : List Int, List.Forall₂
      (fun cells id ↦ IntOrEmptyCell (cells.getD primaryKeyIndex []) id) (rows.map Prod.snd) ids ↔
        (rows.map fun row ↦ rowId primaryKeyIndex row.2) = ids.map some := by
    intro ids
    rw [← List.forall₂_eq_eq_eq]
    simp only [List.forall₂_map_left_iff, List.forall₂_map_right_iff, rowId_eq_some_iff]
  simp only [DistinctIds, hids]
  constructor
  · rintro ⟨hnodup, hreadable⟩
    obtain ⟨ids, he⟩ := exists_eq_map_some hreadable
    rw [he] at hnodup
    exact ⟨ids, he, hnodup.of_map _⟩
  · rintro ⟨ids, he, hnodup⟩
    refine ⟨?_, ?_⟩
    · rw [he]
      exact hnodup.map (Option.some_injective _)
    · rw [he]
      simp

section Rebuild

variable {config : AppConfig} {disk : Disk}

/-- The scan succeeds on the files that are well formed when an empty id is a zero. -/
theorem exists_storageRebuildPkIndex_iff (hv : Valid schema)
    (hp : schema.primaryKeyIndex = some primaryKeyIndex)
    (hf : disk.files (tablePath config schema.tableName) = some content) (hn : nul ∉ content)
    (hne : content ≠ []) :
    (∃ index maxValue, storageRebuildPkIndex config schema .create disk =
        (.ok (index, maxValue), disk)) ↔
      ∃ rows, FileRows schema content rows ∧ DistinctIds IntOrEmptyCell primaryKeyIndex rows := by
  constructor
  · rintro ⟨index, maxValue, h⟩
    obtain ⟨hh, rows, hr, hi⟩ := storageRebuildPkIndex_indexes hp hf hn hne h
    exact ⟨_, (exists_tableRows_iff hv hn).mp ⟨rows, hh, hr, rfl⟩, uniqueIds_iff.mp hi.uniqueIds⟩
  · rintro ⟨rows, hrows, hids⟩
    obtain ⟨rows', hh, hr, rfl⟩ := (exists_tableRows_iff hv hn).mpr hrows
    exact exists_storageRebuildPkIndex hp hf hh hr (uniqueIds_iff.mpr hids)

theorem IntOrEmptyCell.intCell {cell : Bytes} {id : Int} (h : IntOrEmptyCell cell id)
    (hne : cell ≠ []) : IntCell cell id := h.resolve_left fun h ↦ hne h.1

/-- A well-formed file has no empty id. -/
theorem DistinctIds.getD_ne_nil {rows : List (List Bytes)}
    (h : DistinctIds IntCell primaryKeyIndex rows) :
    ∀ cells ∈ rows, cells.getD primaryKeyIndex [] ≠ [] := by
  obtain ⟨ids, hids, -⟩ := h
  intro cells hm
  induction hids with
  | nil => cases hm
  | cons hc ht ih =>
    rcases List.mem_cons.mp hm with rfl | hm
    · exact hc.decimal.ne_nil
    · exact ih hm

theorem DistinctIds.intCell {rows : List (List Bytes)}
    (h : DistinctIds IntOrEmptyCell primaryKeyIndex rows)
    (hne : ∀ cells ∈ rows, cells.getD primaryKeyIndex [] ≠ []) :
    DistinctIds IntCell primaryKeyIndex rows := by
  obtain ⟨ids, hids, hnodup⟩ := h
  refine ⟨ids, ?_, hnodup⟩
  clear hnodup
  induction hids with
  | nil => exact .nil
  | cons hc ht ih =>
    obtain ⟨hrow, hrest⟩ := List.forall_mem_cons.mp hne
    exact .cons (hc.intCell hrow) (ih hrest)

/-- `storage_rebuild_pk_index` succeeds exactly on the well-formed files, except on those that
only an empty id makes ill formed. -/
theorem rebuild_iff_wellFormed_iff (hv : Valid schema)
    (hp : schema.primaryKeyIndex = some primaryKeyIndex)
    (hf : disk.files (tablePath config schema.tableName) = some content) (hn : nul ∉ content)
    (hne : content ≠ []) :
    ((∃ index maxValue, storageRebuildPkIndex config schema .create disk =
        (.ok (index, maxValue), disk)) ↔ WellFormed schema primaryKeyIndex content) ↔
      ¬ HidesEmptyId schema primaryKeyIndex content := by
  rw [exists_storageRebuildPkIndex_iff hv hp hf hn hne]
  constructor
  · rintro h ⟨rows, hrows, hids, cells, hm, hempty⟩
    obtain ⟨rows', hrows', hids'⟩ := h.mp ⟨rows, hrows, hids⟩
    obtain rfl := hrows.unique hrows'
    exact hids'.getD_ne_nil cells hm hempty
  · intro h
    constructor
    · rintro ⟨rows, hrows, hids⟩
      exact ⟨rows, hrows, hids.intCell fun cells hm he ↦ h ⟨rows, hrows, hids, cells, hm, he⟩⟩
    · rintro ⟨rows, hrows, ids, hids, hnodup⟩
      exact ⟨rows, hrows, ids, hids.imp fun _ _ hc ↦ Or.inr hc, hnodup⟩

theorem valid_peopleSchema : Valid peopleSchema := by
  refine ⟨by decide, fun c hc ↦ ?_, by decide, fun i hi ↦ ?_⟩
  · simp only [peopleSchema, List.mem_cons, List.not_mem_nil, or_false] at hc
    rcases hc with rfl | rfl
    · exact ⟨by decide, by decide, by decide, by decide⟩
    · exact ⟨by decide, by decide, by decide, by decide⟩
  · obtain rfl := Option.some.inj hi
    rfl

theorem rebuild_iff_wellFormed_iff_people :
    ((∃ index maxValue, storageRebuildPkIndex sampleConfig peopleSchema .create
        (dataDisk (text "id,name\n2,b\n")) =
          (.ok (index, maxValue), dataDisk (text "id,name\n2,b\n"))) ↔
        WellFormed peopleSchema 0 (text "id,name\n2,b\n")) ↔
      ¬ HidesEmptyId peopleSchema 0 (text "id,name\n2,b\n") :=
  rebuild_iff_wellFormed_iff valid_peopleSchema rfl (dataDisk_files _) (by decide) (by decide)

/-- An empty id. -/
theorem rebuild_emptyId :
    (∃ index maxValue, storageRebuildPkIndex sampleConfig peopleSchema .create
        (dataDisk (text "id,name\n,a\n")) =
          (.ok (index, maxValue), dataDisk (text "id,name\n,a\n"))) ∧
      ¬ WellFormed peopleSchema 0 (text "id,name\n,a\n") := by
  have hrows : FileRows peopleSchema (text "id,name\n,a\n") [[[], text "a"]] := by
    refine ⟨(0, text "id,name"), [(8, text ",a")], cutsInto_iff.mpr (by decide), by decide,
      by decide, .cons ⟨by decide, by decide, by decide, by decide⟩ .nil⟩
  refine ⟨(exists_storageRebuildPkIndex_iff valid_peopleSchema rfl (dataDisk_files _)
    (by decide) (by decide)).mpr ⟨_, hrows, [0], .cons (Or.inl ⟨rfl, rfl⟩) .nil, by decide⟩, ?_⟩
  rintro ⟨rows, hrows', hids⟩
  obtain rfl := hrows.unique hrows'
  exact hids.getD_ne_nil _ List.mem_cons_self rfl

end Rebuild

end SqlProc.Storage
