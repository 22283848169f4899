import SqlProc.Executor.Isolation
import SqlProc.Relational.Values

/-!
# The relation of a table

Library `Relational`. The data file and the slot of a table hold a relation: the rows of the file
are its rows, the index of the slot knows their ids, and the next ids agree. Opening the slot,
taking an id and storing a row keep this.
-/

namespace SqlProc.Relational

open Base Front Index Schema Storage Executor Support

variable {config : AppConfig} {schema : TableSchema} {w w' : World} {r : Relation}
  {rows : List (Nat × List Bytes)} {slot : TableRuntimeState} {primaryKeyIndex : Nat}
  {file : Option Bytes} {row : List Bytes}

/-! ### The file -/

/-- The rows of a data file that is missing, and will be readable once it is written, or has an
accepted header. -/
inductive FileHolds (schema : TableSchema) : Option Bytes → List (Nat × List Bytes) → Prop
  | missing (hq : ∀ column ∈ schema.columns, dquote ∉ column.name) : FileHolds schema none []
  | file (content : Bytes) (rows : List (Nat × List Bytes)) (hh : HeaderOk schema content)
      (hr : TableRows schema content rows) : FileHolds schema (some content) rows

theorem FileHolds.readable (h : FileHolds schema file rows) : Readable schema file rows := by
  cases h with
  | missing hq => exact .missing
  | file content rows hh hr => exact .file content rows hh hr

theorem FileHolds.appendable (h : FileHolds schema file rows) : Appendable schema file := by
  cases h with
  | missing hq => trivial
  | file content rows hh hr =>
    obtain ⟨line, stream, hget, hcheck, -⟩ := hh.fgets
    exact ⟨line, stream, hget, hcheck dataFileMessages⟩

/-- The first row is written after the header. -/
theorem FileHolds.headerOk_appendBase (hv : Valid schema) (hne : schema.columns ≠ [])
    (h : FileHolds schema file rows) : HeaderOk schema (appendBase schema file) := by
  cases h with
  | missing hq => exact headerOk_headerLine hv hne hq
  | file content rows hh hr => exact hh.ensureAppend

theorem FileHolds.tableRows (h : FileHolds schema file rows) :
    TableRows schema (file.getD []) rows := by
  cases h with
  | missing hq => exact .nil
  | file content rows hh hr => exact hr

theorem FileHolds.nul_notMem (h : FileHolds schema file rows) : nul ∉ file.getD [] := by
  cases h with
  | missing hq => exact List.not_mem_nil
  | file content rows hh hr => exact hh.nul_notMem

/-- A row is added at the end of the file. -/
theorem FileHolds.append (hv : Valid schema) (hne : schema.columns ≠ [])
    (h : FileHolds schema file rows) (hlen : row.length = schema.columnCount)
    (hvalid : ∀ text ∈ row, ValidCell text) :
    FileHolds schema (some (appendBase schema file ++ writeCsvRow row))
      (rows ++ [((appendBase schema file).length, row)]) := by
  have hrow : row ≠ [] := by
    apply List.ne_nil_of_length_pos
    rw [hlen]
    exact List.length_pos_of_ne_nil hne
  have hbase := lines_appendBase_ne_nil hv h.nul_notMem h.appendable
  refine .file _ _ ?_ (h.tableRows.append hv hbase hvalid hrow hlen)
  exact (h.headerOk_appendBase hv hne).append (terminated_appendBase schema file)
    (nul_notMem_writeCsvRow hvalid (hlen.trans_le hv.length_le))

/-! ### The slot -/

/-- The slot of a table, or else the one that its file gives. -/
def knownSlot (config : AppConfig) (schema : TableSchema) (w : World) :
    Option TableRuntimeState :=
  (w.slot config schema.tableName).or (freshSlot config schema w)

/-- There is a slot for the table, or room for one. -/
def HasRoom (config : AppConfig) (schema : TableSchema) (w : World) : Prop :=
  w.slot config schema.tableName = none → w.tableStates.length < executorMaxTableStates

theorem obtainSlot_eq_knownSlot (h : HasRoom config schema w) :
    obtainSlot config schema w = knownSlot config schema w := by
  unfold obtainSlot knownSlot
  cases hs : w.slot config schema.tableName with
  | some slot => rfl
  | none => simp only [h hs, if_true, Option.none_or]

theorem knownSlot_of_slot (h : w.slot config schema.tableName = some slot) :
    knownSlot config schema w = some slot := by
  rw [knownSlot, h, Option.some_or]

/-- The known slot depends on what the process holds for the table. -/
theorem knownSlot_congr
    (h : w'.view config schema.tableName = w.view config schema.tableName) :
    knownSlot config schema w' = knownSlot config schema w := by
  obtain ⟨hfile, hslot⟩ := TableView.mk.inj h
  rw [knownSlot, knownSlot, hslot, freshSlot_congr hfile]

/-- The slot of a table with a key holds the ids of the rows, and the next id. -/
structure SlotHolds (primaryKeyIndex : Nat) (rows : List (Nat × List Bytes)) (nextId : Int)
    (slot : TableRuntimeState) : Prop where
  index : ∃ index, slot.pkIndex = some index ∧ Indexes primaryKeyIndex rows index
  nextIdOk : NextIdOk slot
  nextId_eq : slot.nextId = nextId

/-- An id is new to the index when it is new to the rows. -/
theorem findEntry_eq_none_iff_notMem {index : PkIndex} (h : Indexes primaryKeyIndex rows index)
    (id : Int) : findEntry id index.entries = none ↔
      some id ∉ (rows.map Prod.snd).map (rowId primaryKeyIndex) := by
  have hids : (rows.map Prod.snd).map (rowId primaryKeyIndex) =
      rows.map fun row ↦ rowId primaryKeyIndex row.2 := by
    rw [List.map_map]
    rfl
  rw [findEntry_eq_none_iff index.sortedKeys_entries, hids, ← h.map_fst.mem_iff, List.mem_map]
  constructor
  · rintro hne ⟨e, he, hid⟩
    exact hne e he (Option.some.inj hid)
  · intro hnot e he hid
    exact hnot ⟨e, he, congrArg some hid⟩

/-! ### The relation -/

/-- The process holds the relation for the table, at the given places of its file. -/
structure Represents (config : AppConfig) (schema : TableSchema) (w : World) (r : Relation)
    (rows : List (Nat × List Bytes)) : Prop where
  file : FileHolds schema (w.file config schema.tableName) rows
  rows_eq : rows.map Prod.snd = r.rows
  typed : ∀ row ∈ r.rows, Typed schema row
  slot : ∀ k, schema.primaryKeyIndex = some k →
    ∃ slot, knownSlot config schema w = some slot ∧ SlotHolds k rows r.nextId slot

theorem Represents.congr
    (h : Represents config schema w r rows)
    (hview : w'.view config schema.tableName = w.view config schema.tableName) :
    Represents config schema w' r rows := by
  have hfile : w'.file config schema.tableName = w.file config schema.tableName :=
    congrArg TableView.file hview
  refine ⟨by rw [hfile]; exact h.file, h.rows_eq, h.typed, fun k hk ↦ ?_⟩
  rw [knownSlot_congr hview]
  exact h.slot k hk

/-! ### Steps of a table with a key -/

theorem SlotHolds.allocated {nextId : Int} (h : SlotHolds primaryKeyIndex rows nextId slot)
    (hm : slot.nextId ≠ intMax) : SlotHolds primaryKeyIndex rows (nextId + 1) slot.allocated :=
  ⟨h.index, h.nextIdOk.allocated hm, congrArg (· + 1) h.nextId_eq⟩

/-- A new row is entered. -/
theorem SlotHolds.registered {nextId id : Int} {position : Nat}
    (h : SlotHolds primaryKeyIndex rows nextId slot) {index : PkIndex}
    (hi : slot.pkIndex = some index) (hid : rowId primaryKeyIndex row = some id)
    (hk : findEntry id index.entries = none) :
    SlotHolds primaryKeyIndex (rows ++ [(position, row)])
      (if id ≠ intMax ∧ nextId ≤ id then id + 1 else nextId)
      (slot.registered index id position) := by
  obtain ⟨index', hi', hindex⟩ := h.index
  obtain rfl := Option.some.inj (hi.symm.trans hi')
  refine ⟨⟨_, rfl, hindex.insert (position, row) hid hk⟩, ?_, ?_⟩
  · exact h.nextIdOk.registered hi hk (strtolInt_range hid)
  · rw [← h.nextId_eq]
    rfl

/-- A row with a new id is stored. -/
theorem Relation.store_new {id : Int} (hid : rowId primaryKeyIndex row = some id)
    (hnew : some id ∉ r.rows.map (rowId primaryKeyIndex)) :
    r.store (some primaryKeyIndex) row = (true, ⟨r.rows ++ [row],
      if id ≠ intMax ∧ r.nextId ≤ id then id + 1 else r.nextId⟩) := by
  simp only [Relation.store, hid, hnew, if_false]

section Keyed

variable (hp : schema.primaryKeyIndex = some primaryKeyIndex)

include hp

/-- The slot of the table is changed, and maybe its file. -/
theorem represents_of_slot (hf : FileHolds schema (w.file config schema.tableName) rows)
    (hs : w.slot config schema.tableName = some slot) (hrows : rows.map Prod.snd = r.rows)
    (htyped : ∀ row ∈ r.rows, Typed schema row)
    (hholds : SlotHolds primaryKeyIndex rows r.nextId slot) :
    Represents config schema w r rows := by
  refine ⟨hf, hrows, htyped, fun k hk ↦ ?_⟩
  obtain rfl := Option.some.inj (hp.symm.trans hk)
  exact ⟨slot, knownSlot_of_slot hs, hholds⟩

/-- A statement on the table gets the slot that holds the relation. -/
theorem Represents.exists_obtainSlot (hroom : HasRoom config schema w)
    (h : Represents config schema w r rows) :
    ∃ slot, obtainSlot config schema w = some slot ∧
      SlotHolds primaryKeyIndex rows r.nextId slot := by
  rw [obtainSlot_eq_knownSlot hroom]
  exact h.slot primaryKeyIndex hp

variable (h : Represents config schema w r rows) (hs : obtainSlot config schema w = some slot)

include h hs

theorem Represents.opened (hholds : SlotHolds primaryKeyIndex rows r.nextId slot) :
    Represents config schema (opened config schema w) r rows :=
  represents_of_slot hp (by rw [file_opened]; exact h.file) (slot_opened hs) h.rows_eq h.typed
    hholds

theorem Represents.taken (hholds : SlotHolds primaryKeyIndex rows r.nextId slot)
    (hm : slot.nextId ≠ intMax) :
    Represents config schema ((Executor.opened config schema w).setSlot config schema.tableName
      slot.allocated) r.taken rows :=
  represents_of_slot hp (by rw [file_taken]; exact h.file) (slot_taken hs) h.rows_eq h.typed
    (hholds.allocated hm)

/-- A row is stored with a slot in which an id may have been taken before. -/
theorem Represents.stored (hv : Valid schema) (hne : schema.columns ≠ [])
    {slot' : TableRuntimeState} (hfor : slot'.isFor config schema.tableName = true)
    {nextId id : Int} {index : PkIndex} (hholds : SlotHolds primaryKeyIndex rows nextId slot')
    (hi : slot'.pkIndex = some index) (hk : findEntry id index.entries = none)
    (hrow : ValidRow schema primaryKeyIndex row id) (htyped : Typed schema row) :
    Represents config schema (Executor.stored config schema w row slot' index id)
      ⟨r.rows ++ [row], if id ≠ intMax ∧ nextId ≤ id then id + 1 else nextId⟩
      (rows ++ [((appendBase schema (w.file config schema.tableName)).length, row)]) := by
  have hview : (Executor.stored config schema w row slot' index id).view config
      schema.tableName = _ := view_stored hs hfor
  obtain ⟨hfile, hslot⟩ := TableView.mk.inj hview
  refine represents_of_slot hp ?_ hslot ?_ ?_ (hholds.registered hi hrow.rowId_eq hk)
  · rw [hfile]
    exact h.file.append hv hne hrow.length_eq hrow.valid
  · rw [List.map_append, h.rows_eq, List.map_singleton]
  · exact List.forall_mem_append.mpr ⟨h.typed, List.forall_mem_singleton.mpr htyped⟩

end Keyed

/-! ### The slots of all tables -/

/-- What identifies the slot of a table. -/
abbrev tableKey (config : AppConfig) (schema : TableSchema) : Bytes × Bytes × Bytes :=
  (config.schemaDir, config.dataDir, schema.tableName)

/-- The tables with a key. -/
def keyedTables (config : AppConfig) (tables : List TableSchema) : List (Bytes × Bytes × Bytes) :=
  (tables.filter (·.primaryKeyIndex.isSome)).map (tableKey config)

/-- The slots in use belong to different ones of the given tables. -/
structure SlotsOf (owners : List (Bytes × Bytes × Bytes)) (w : World) : Prop where
  unique : UniqueSlots w
  owned : ∀ slot ∈ w.tableStates, slot.table ∈ owners

variable {tables : List TableSchema} {owners : List (Bytes × Bytes × Bytes)}

theorem SlotsOf.congr (h : SlotsOf owners w) (heq : w'.tableStates = w.tableStates) :
    SlotsOf owners w' := by
  refine ⟨?_, ?_⟩
  · rw [UniqueSlots, heq]
    exact h.unique
  · rw [heq]
    exact h.owned

theorem mem_keyedTables (hm : schema ∈ tables)
    (hp : schema.primaryKeyIndex = some primaryKeyIndex) :
    tableKey config schema ∈ keyedTables config tables := by
  refine List.mem_map.mpr ⟨schema, List.mem_filter.mpr ⟨hm, ?_⟩, rfl⟩
  rw [hp]
  rfl

section Slots

variable (hm : tableKey config schema ∈ owners)

include hm

/-- There is room for the slot of each table when there are not too many of them. -/
theorem SlotsOf.hasRoom (h : SlotsOf owners w) (hmax : owners.length ≤ executorMaxTableStates) :
    HasRoom config schema w := by
  intro hs
  have hnew : tableKey config schema ∉ w.tableStates.map TableRuntimeState.table := by
    intro hmem
    obtain ⟨slot, hslot, htable⟩ := List.mem_map.mp hmem
    rw [World.slot, List.find?_eq_none] at hs
    exact hs slot hslot (TableRuntimeState.isFor_iff.mpr htable)
  have hsub : tableKey config schema :: w.tableStates.map TableRuntimeState.table ⊆ owners := by
    apply List.cons_subset.mpr
    refine ⟨hm, fun t ht ↦ ?_⟩
    obtain ⟨slot, hslot, rfl⟩ := List.mem_map.mp ht
    exact h.owned slot hslot
  have hlen := (List.subperm_of_subset (List.nodup_cons.mpr ⟨hnew, h.unique⟩) hsub).length_le
  rw [List.length_cons, List.length_map] at hlen
  exact Nat.lt_of_succ_le (hlen.trans hmax)

theorem SlotsOf.opened (h : SlotsOf owners w) : SlotsOf owners (opened config schema w) := by
  refine ⟨(keepsSlots_opened config schema w).unique h.unique, fun slot hslot ↦ ?_⟩
  rw [Executor.opened] at hslot
  split at hslot
  · next found hnone hfound =>
    rw [World.addSlot, List.mem_append, List.mem_singleton] at hslot
    rcases hslot with hslot | rfl
    · exact h.owned slot hslot
    · rw [TableRuntimeState.isFor_iff.mp (isFor_obtainSlot hfound)]
      exact hm
  · exact h.owned slot hslot

theorem SlotsOf.setSlot (h : SlotsOf owners w)
    (hfor : slot.isFor config schema.tableName = true) :
    SlotsOf owners (w.setSlot config schema.tableName slot) := by
  refine ⟨(keepsSlots_setSlot w hfor).unique h.unique, fun other hother ↦ ?_⟩
  rw [World.setSlot] at hother
  split at hother
  · exact h.owned other hother
  · rcases List.mem_or_eq_of_mem_set hother with hother | rfl
    · exact h.owned other hother
    · rw [TableRuntimeState.isFor_iff.mp hfor]
      exact hm

theorem SlotsOf.stored (h : SlotsOf owners w) {index : PkIndex} {id : Int}
    (hfor : slot.isFor config schema.tableName = true) :
    SlotsOf owners (stored config schema w row slot index id) := by
  rw [Executor.stored]
  apply SlotsOf.setSlot hm
  · exact (h.opened hm).congr rfl
  · exact hfor

end Slots

end SqlProc.Relational
