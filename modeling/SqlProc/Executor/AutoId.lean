import SqlProc.Executor.Errors
import SqlProc.Executor.Steps

/-!
# Automatic ids

Library `Executor`. In every run the keys of an index stay below the next automatic id of its
slot, `INT_MAX` excepted, and the next id stays in `int`.
-/

namespace SqlProc.Executor

open Base Front Index Schema Storage Support

variable {config : AppConfig} {schema : TableSchema} {primaryKeyIndex : Nat} {w w₀ : World}
  {slot : TableRuntimeState} {programs : List SqlProgram}

theorem listedText_eq_none {columns : List ColumnName} {values : List LiteralValue} {name : Bytes}
    (h : ∀ column ∈ columns, column.name ≠ name) : listedText columns values name = none := by
  induction columns generalizing values with
  | nil => rfl
  | cons column columns ih =>
    obtain ⟨hc, hr⟩ := List.forall_mem_cons.mp h
    rw [listedText, if_neg hc, ih hr]

/-- The statement leaves the id to the program: its column list does not name `id`. -/
def OmitsId (statement : InsertStatement) : Prop :=
  statement.hasColumnList = true ∧ ∀ column ∈ statement.columns, column.name ≠ text "id"

/-- The cell of an id that is left to the program is missing. -/
theorem getElem?_rowCells_of_omitsId (hv : Valid schema)
    (hp : schema.primaryKeyIndex = some primaryKeyIndex) {statement : InsertStatement}
    (ho : OmitsId statement) {cells : List (Option Bytes)}
    (h : rowCells schema statement = .ok cells) : cells[primaryKeyIndex]? = some none := by
  have hid := hv.primaryKey _ hp
  have hlt := (List.getElem?_eq_some_iff.mp hid).1
  rw [rowCells, ho.1, if_neg (by decide)] at h
  rw [getElem?_placeValues hv h List.length_replicate hid, listedText_eq_none ho.2]
  exact List.getElem?_replicate_of_lt hlt

/-- An INSERT that omits the id does not give all cells. -/
theorem rowCells_ne_of_omitsId (hv : Valid schema)
    (hp : schema.primaryKeyIndex = some primaryKeyIndex) {statement : InsertStatement}
    (ho : OmitsId statement) (row : List Bytes) :
    rowCells schema statement ≠ .ok (row.map some) := by
  intro hc
  exact getElem?_map_some_ne row primaryKeyIndex (getElem?_rowCells_of_omitsId hv hp ho hc)

/-- An INSERT that omits the id and succeeds has stored a row with the next id. -/
theorem executeInsert_omitsId_stores (hp : schema.primaryKeyIndex = some primaryKeyIndex)
    (hw : TableAt config schema w) {statement : InsertStatement}
    (hn : statement.tableName = schema.tableName) (ho : OmitsId statement)
    (hok : (executeInsert config statement w).1 = .ok ()) :
    ∃ (before after : List Bytes) (slot : TableRuntimeState) (index : PkIndex),
      rowCells schema statement = .ok (before.map some ++ none :: after.map some) ∧
      before.length = primaryKeyIndex ∧ obtainSlot config schema w = some slot ∧
      slot.nextId ≠ intMax ∧ slot.pkIndex = some index ∧
      findEntry slot.nextId index.entries = none ∧
      Appendable schema (w.file config schema.tableName) ∧
      (executeInsert config statement w).2 =
        stored config schema w (before ++ idText slot.nextId :: after) slot.allocated index
          slot.nextId := by
  have hout := executeInsert_outcome hp (hw.loads hn) hw.slot
  generalize executeInsert config statement w = out at hok hout ⊢
  obtain ⟨r, w'⟩ := out
  subst hok
  cases hout with
  | given slot row key index hc hs hi hid hk happ =>
    exact absurd hc (rowCells_ne_of_omitsId hw.valid hp ho row)
  | assigned slot before after index hc hl hs hm hi hk happ =>
    exact ⟨before, after, slot, index, hc, hl, hs, hm, hi, hk, happ, rfl⟩

/-- The keys of the index after a row with an automatic id was entered. -/
theorem search_registered_le {index : PkIndex} {key offset : Int} (h : NextIdOk slot)
    (hi : slot.pkIndex = some index) {k o : Int}
    (hs : (index.insert slot.nextId offset).1.search k = some o) (hk : key = slot.nextId) :
    k = key ∨ k = intMax ∨ k < key := by
  obtain ⟨index', hi', hlt⟩ := h.index
  obtain rfl := Option.some.inj (hi.symm.trans hi')
  rw [PkIndex.search_eq, PkIndex.entries_insert,
    findEntry_insertNew index.sortedKeys_entries] at hs
  rw [hk]
  cases hf : findEntry k index.entries with
  | some o' =>
    rcases hlt _ ((findEntry_eq_some_iff index.sortedKeys_entries).mp hf) with h | h
    · exact Or.inr (Or.inr h)
    · exact Or.inr (Or.inl h)
  | none =>
    rw [hf, Option.none_or] at hs
    split at hs
    · next he => exact Or.inl he.symm
    · cases hs

/-- What an INSERT that leaves the id to the program does: it never reports a duplicate, and
the id of the row that it appends is larger than every other one except `INT_MAX`. -/
theorem executeInsert_omitsId (hp : schema.primaryKeyIndex = some primaryKeyIndex)
    (hw : TableAt config schema w) {statement : InsertStatement}
    (hn : statement.tableName = schema.tableName) (ho : OmitsId statement) :
    (executeInsert config statement w).1 ≠ .error duplicateKeyError ∧
      ((executeInsert config statement w).1 = .ok () → ∃ slot index row id,
        (executeInsert config statement w).2.slot config schema.tableName = some slot ∧
        slot.pkIndex = some index ∧
        (executeInsert config statement w).2.file config schema.tableName =
          some (appended config schema w row) ∧
        rowId primaryKeyIndex row = some id ∧ (index.search id).isSome = true ∧
        ∀ key offset, index.search key = some offset → key = id ∨ key = intMax ∨ key < id) := by
  constructor
  · intro h
    exact notDuplicate_executeInsert hp (hw.loads hn) hw.slot
      (fun cells hc ↦ getElem?_rowCells_of_omitsId hw.valid hp ho hc) h rfl
  · intro hok
    obtain ⟨before, after, slot, index, -, rfl, hs, -, hi, hk, -, hstored⟩ :=
      executeInsert_omitsId_stores hp hw hn ho hok
    have hnext := nextIdOk_obtainSlot hp hw.slot hs
    have hfor := isFor_allocated_obtainSlot hs
    have hview : (stored config schema w (before ++ idText slot.nextId :: after) slot.allocated
        index slot.nextId).view config schema.tableName = _ := view_stored hs hfor
    rw [hstored]
    refine ⟨_, _, _, slot.nextId, congrArg TableView.slot hview, rfl,
      congrArg TableView.file hview, rowId_assigned hnext.range.1 hnext.range.2, ?_, ?_⟩
    · rw [PkIndex.search_eq, PkIndex.entries_insert,
        findEntry_insertNew index.sortedKeys_entries, if_pos rfl, hk]
      rfl
    · intro key offset hsearch
      exact search_registered_le hnext hi hsearch rfl

/-- In every run the keys of a table stay below its next automatic id, `INT_MAX` excepted, and
the next id does not leave `int`; so an INSERT that leaves the id to the program never reports
a duplicate, and its id is larger than every other one of the table except `INT_MAX`. -/
theorem runPrograms_autoId (hp : schema.primaryKeyIndex = some primaryKeyIndex)
    (hschema : loadTableSchema w₀.disk.files config.schemaDir schema.tableName = .ok schema)
    (hfresh : w₀.slot config schema.tableName = none)
    (hprograms : ∀ program ∈ programs, program.Lexical) :
    let w := runPrograms config programs w₀
    (∀ slot, w.slot config schema.tableName = some slot →
      ∃ index, slot.pkIndex = some index ∧ intMin ≤ slot.nextId ∧ slot.nextId ≤ intMax ∧
        ∀ key offset, index.search key = some offset → key < slot.nextId ∨ key = intMax) ∧
    ∀ statement : InsertStatement, statement.tableName = schema.tableName → OmitsId statement →
      let out := executeInsert config statement w
      out.1 ≠ .error duplicateKeyError ∧
        (out.1 = .ok () → ∃ slot index row id,
          out.2.slot config schema.tableName = some slot ∧ slot.pkIndex = some index ∧
          out.2.file config schema.tableName = some (appended config schema w row) ∧
          rowId primaryKeyIndex row = some id ∧ (index.search id).isSome = true ∧
          ∀ key offset, index.search key = some offset → key = id ∨ key = intMax ∨ key < id) := by
  intro w
  obtain ⟨hw, -⟩ := advances_runPrograms hp hprograms w₀ (tableAt_fresh hschema hfresh)
  refine ⟨fun slot hs ↦ ?_, fun statement hn ho ↦ executeInsert_omitsId hp hw hn ho⟩
  obtain ⟨⟨index, hi, hlt⟩, hl, hu⟩ := hw.slot slot hs
  refine ⟨index, hi, hl, hu, fun key offset hsearch ↦ ?_⟩
  rw [PkIndex.search_eq] at hsearch
  exact hlt _ ((findEntry_eq_some_iff index.sortedKeys_entries).mp hsearch)

theorem runPrograms_autoId_sample :
    let w := runPrograms sampleConfig samplePrograms sampleWorld
    let out := executeInsert sampleConfig sampleAutoInsert w
    (∃ slot index, w.slot sampleConfig sampleSchema.tableName = some slot ∧
      slot.pkIndex = some index ∧ slot.nextId ≤ intMax ∧
      ∀ key offset, index.search key = some offset → key < slot.nextId ∨ key = intMax) ∧
    out.1 ≠ .error duplicateKeyError ∧
    ∃ slot index row id, out.2.slot sampleConfig sampleSchema.tableName = some slot ∧
      slot.pkIndex = some index ∧
      out.2.file sampleConfig sampleSchema.tableName =
        some (appended sampleConfig sampleSchema w row) ∧
      rowId 0 row = some id ∧ (index.search id).isSome = true ∧
      ∀ key offset, index.search key = some offset → key = id ∨ key = intMax ∨ key < id := by
  intro w out
  have hsome : (w.slot sampleConfig sampleSchema.tableName).isSome = true := by decide +kernel
  obtain ⟨slot, hslot⟩ := Option.isSome_iff_exists.mp hsome
  have h := runPrograms_autoId rfl loadTableSchema_sampleWorld slot_sampleWorld
    lexical_samplePrograms
  obtain ⟨index, hi, -, hu, hlt⟩ := h.1 slot hslot
  obtain ⟨hne, hrow⟩ := h.2 sampleAutoInsert rfl ⟨rfl, by decide⟩
  exact ⟨⟨slot, index, hslot, hi, hu, hlt⟩, hne, hrow rfl⟩

end SqlProc.Executor
