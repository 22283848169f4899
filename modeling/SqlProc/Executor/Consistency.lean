import SqlProc.Executor.Steps
import SqlProc.Storage.Print

/-!
# The index and the file agree

Library `Executor`. In every run the index of a table holds exactly the ids of the rows of its
data file, each with the byte offset of its line.
-/

namespace SqlProc.Executor

open Base Front Index Schema Storage Support

variable {config : AppConfig} {schema : TableSchema} {primaryKeyIndex : Nat} {w w₀ : World}
  {slot : TableRuntimeState} {programs : List SqlProgram}

/-- The file holds no terminator, and the slot's index holds the rows of the file. -/
structure ViewOk (schema : TableSchema) (primaryKeyIndex : Nat) (v : TableView) : Prop where
  nul_notMem : nul ∉ v.file.getD []
  slot : ∀ slot, v.slot = some slot → ∃ index rows, slot.pkIndex = some index ∧
    TableRows schema (v.file.getD []) rows ∧ Indexes primaryKeyIndex rows index

/-- A new slot holds the rows of the file. -/
theorem exists_rows_of_freshSlot (hp : schema.primaryKeyIndex = some primaryKeyIndex)
    (hn : nul ∉ (w.file config schema.tableName).getD [])
    (h : freshSlot config schema w = some slot) :
    ∃ index rows, slot.pkIndex = some index ∧
      TableRows schema ((w.file config schema.tableName).getD []) rows ∧
        Indexes primaryKeyIndex rows index := by
  obtain ⟨index, maxId, hr, -, rfl⟩ := (freshSlot_eq_some_iff hp).mp h
  by_cases hempty : w.disk.files (tablePath config schema.tableName) = none ∨
      w.disk.files (tablePath config schema.tableName) = some []
  · rw [storageRebuildPkIndex_empty hempty] at hr
    obtain ⟨rfl, -⟩ := Prod.mk.inj (Except.ok.inj (Prod.mk.inj hr).1)
    refine ⟨_, [], rfl, ?_, indexes_nil⟩
    rw [World.file]
    rcases hempty with hf | hf
    · rw [hf]
      exact .nil
    · rw [hf]
      exact .nil
  · rw [not_or] at hempty
    obtain ⟨content, hf⟩ := Option.ne_none_iff_exists'.mp hempty.1
    rw [World.file, hf, Option.getD_some] at hn ⊢
    have hne : content ≠ [] := by
      rintro rfl
      exact hempty.2 hf
    obtain ⟨-, rows, hrows, hindex⟩ := storageRebuildPkIndex_indexes hp hf hn hne hr
    exact ⟨_, rows, rfl, hrows, hindex⟩

/-- Every step of a table keeps its index and its file in agreement. -/
theorem TableStep.viewOk {v v' : TableView} (hp : schema.primaryKeyIndex = some primaryKeyIndex)
    (hv : Valid schema) (h : TableStep config schema primaryKeyIndex v v')
    (hok : ViewOk schema primaryKeyIndex v) : ViewOk schema primaryKeyIndex v' := by
  cases h with
  | opened w slot hf =>
    refine ⟨hok.nul_notMem, ?_⟩
    rintro _ ⟨⟩
    exact exists_rows_of_freshSlot hp hok.nul_notMem hf
  | allocated file slot hm =>
    refine ⟨hok.nul_notMem, ?_⟩
    rintro _ ⟨⟩
    exact hok.slot slot rfl
  | stored file slot row key index hi hk happ hrow =>
    have hn : nul ∉ file.getD [] := hok.nul_notMem
    obtain ⟨index', rows, hi', hrows, hindex⟩ := hok.slot slot rfl
    obtain rfl := Option.some.inj (hi.symm.trans hi')
    have hmax : row.length ≤ maxColumns := hrow.length_eq.trans_le hv.length_le
    have hne : row ≠ [] := by
      have hpk := (List.getElem?_eq_some_iff.mp (hv.primaryKey _ hp)).1
      apply List.ne_nil_of_length_pos
      have hlen : row.length = schema.columns.length := hrow.length_eq
      omega
    refine ⟨?_, ?_⟩
    · simp only [Option.getD_some, List.mem_append, not_or]
      exact ⟨nul_notMem_appendBase _ hv hn, nul_notMem_writeCsvRow hrow.valid hmax⟩
    · rintro _ ⟨⟩
      have hadd := hindex.insert ((appendBase schema file).length, row) hrow.rowId_eq hk
      refine ⟨_, _, rfl, ?_, hadd⟩
      exact hrows.append hv (lines_appendBase_ne_nil hv hn happ) hrow.valid hne hrow.length_eq

/-- A line of the file is the line of a row. -/
theorem exists_row_of_line {content : Bytes} {rows : List (Nat × List Bytes)}
    (hr : TableRows schema content rows) {p : Nat × Bytes} (hp : p ∈ dataLines content) :
    ∃ row ∈ rows, DecodesTo schema p row := by
  unfold TableRows at hr
  generalize dataLines content = ls at hr hp
  induction hr with
  | nil => cases hp
  | cons hd ht ih =>
    rename_i p' row _ _
    rcases List.mem_cons.mp hp with rfl | hp
    · exact ⟨row, List.mem_cons_self, hd⟩
    · obtain ⟨row', hm, hd'⟩ := ih hp
      exact ⟨row', List.mem_cons_of_mem _ hm, hd'⟩

/-- A data row starts at a byte of the file, after the header, and its id is read as `key`. -/
def IsDataRow (schema : TableSchema) (primaryKeyIndex : Nat) (content : Bytes) (position : Nat)
    (key : Int) : Prop :=
  ∃ line cells, (position, line) ∈ dataLines content ∧ decodeRow schema line = .ok cells ∧
    strtolInt (cells.getD primaryKeyIndex []) = some key

/-- An index that holds the rows of a file finds exactly its data rows. -/
theorem search_eq_some_iff_isDataRow {content : Bytes} {rows : List (Nat × List Bytes)}
    {index : PkIndex} (hr : TableRows schema content rows)
    (hi : Indexes primaryKeyIndex rows index) (key offset : Int) :
    index.search key = some offset ↔
      ∃ position : Nat, (position : Int) = offset ∧
        IsDataRow schema primaryKeyIndex content position key := by
  rw [hi.search_eq_some_iff]
  constructor
  · rintro ⟨row, hm, hid, ho⟩
    obtain ⟨line, hl, hd⟩ := hr.line_of_mem hm
    exact ⟨row.1, ho, line, row.2, hl, hd, hid⟩
  · rintro ⟨position, ho, line, cells, hl, hd, hid⟩
    obtain ⟨row, hm, hpos, hd'⟩ := exists_row_of_line hr hl
    refine ⟨row, hm, ?_, by rw [hpos]; exact ho⟩
    obtain rfl := Except.ok.inj (hd.symm.trans hd')
    exact hid

/-- What the process holds for the table after a run. -/
theorem viewOk_runPrograms (hp : schema.primaryKeyIndex = some primaryKeyIndex)
    (hw : TableAt config schema w₀) (hok : ViewOk schema primaryKeyIndex
      (w₀.view config schema.tableName))
    (hprograms : ∀ program ∈ programs, program.Lexical) :
    TableAt config schema (runPrograms config programs w₀) ∧
      ViewOk schema primaryKeyIndex
        ((runPrograms config programs w₀).view config schema.tableName) := by
  have hv := hw.valid
  obtain ⟨hat, hmoves⟩ := advances_runPrograms hp hprograms w₀ hw
  exact ⟨hat, TableSteps.invariant hmoves (fun _ _ h hs ↦ hs.viewOk hp hv h) hok⟩

/-- A process without a slot for the table. -/
theorem viewOk_fresh (hfresh : w.slot config schema.tableName = none)
    (hnul : ∀ content, w.file config schema.tableName = some content → nul ∉ content) :
    ViewOk schema primaryKeyIndex (w.view config schema.tableName) := by
  refine ⟨?_, fun slot hs ↦ ?_⟩
  · cases hf : w.file config schema.tableName with
    | none =>
      rw [World.view, hf]
      exact List.not_mem_nil
    | some content =>
      rw [World.view, hf]
      exact hnul content hf
  · rw [World.view, hfresh] at hs
    cases hs

/-- In every state of every run in which a table has a slot, its index finds a key at an offset
exactly when the data file has a row with that id there; every line after the header is in the
index, and no two of them have the same id. -/
theorem runPrograms_index_iff (hp : schema.primaryKeyIndex = some primaryKeyIndex)
    (hschema : loadTableSchema w₀.disk.files config.schemaDir schema.tableName = .ok schema)
    (hfresh : w₀.slot config schema.tableName = none)
    (hnul : ∀ content, w₀.file config schema.tableName = some content → nul ∉ content)
    (hprograms : ∀ program ∈ programs, program.Lexical)
    (hslot : (runPrograms config programs w₀).slot config schema.tableName = some slot) :
    let content := ((runPrograms config programs w₀).file config schema.tableName).getD []
    ∃ index, slot.pkIndex = some index ∧
      (∀ key offset : Int, index.search key = some offset ↔
        ∃ position : Nat, (position : Int) = offset ∧
          IsDataRow schema primaryKeyIndex content position key) ∧
      (∀ p ∈ dataLines content, ∃ key, IsDataRow schema primaryKeyIndex content p.1 key ∧
        index.search key = some (p.1 : Int)) ∧
      ∀ position position' key, IsDataRow schema primaryKeyIndex content position key →
        IsDataRow schema primaryKeyIndex content position' key → position = position' := by
  intro content
  obtain ⟨-, hok⟩ := viewOk_runPrograms hp (tableAt_fresh hschema hfresh)
    (viewOk_fresh hfresh hnul) hprograms
  obtain ⟨index, rows, hi, hr, hindex⟩ := hok.slot slot hslot
  have hsearch := search_eq_some_iff_isDataRow hr hindex
  refine ⟨index, hi, hsearch, fun p hm ↦ ?_, fun position position' key h h' ↦ ?_⟩
  · obtain ⟨row, hrow, hpos, hd⟩ := exists_row_of_line hr hm
    obtain ⟨key, hid⟩ := Option.ne_none_iff_exists'.mp fun hnone ↦
      hindex.uniqueIds.readable (List.mem_map.mpr ⟨row, hrow, hnone⟩)
    have hdata : IsDataRow schema primaryKeyIndex content p.1 key :=
      ⟨p.2, row.2, hm, hd, hid⟩
    exact ⟨key, hdata, (hsearch key _).mpr ⟨p.1, rfl, hdata⟩⟩
  · have hf := (hsearch key _).mpr ⟨position, rfl, h⟩
    have hf' := (hsearch key _).mpr ⟨position', rfl, h'⟩
    rw [hf] at hf'
    exact Int.natCast_inj.mp (Option.some.inj hf')

theorem runPrograms_index_iff_sample :
    let w := runPrograms sampleConfig samplePrograms sampleWorld
    let content := (w.file sampleConfig sampleSchema.tableName).getD []
    ∃ slot index, w.slot sampleConfig sampleSchema.tableName = some slot ∧
      slot.pkIndex = some index ∧
      (∀ key offset : Int, index.search key = some offset ↔
        ∃ position : Nat, (position : Int) = offset ∧
          IsDataRow sampleSchema 0 content position key) ∧
      (∀ p ∈ dataLines content, ∃ key, IsDataRow sampleSchema 0 content p.1 key ∧
        index.search key = some (p.1 : Int)) ∧
      ∀ position position' key, IsDataRow sampleSchema 0 content position key →
        IsDataRow sampleSchema 0 content position' key → position = position' := by
  intro w content
  have hsome : (w.slot sampleConfig sampleSchema.tableName).isSome = true := by decide +kernel
  obtain ⟨slot, hslot⟩ := Option.isSome_iff_exists.mp hsome
  obtain ⟨index, h⟩ := runPrograms_index_iff rfl loadTableSchema_sampleWorld slot_sampleWorld
    (fun content h ↦ by cases h) lexical_samplePrograms hslot
  exact ⟨slot, index, hslot, h⟩

end SqlProc.Executor
