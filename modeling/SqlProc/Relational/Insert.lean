import SqlProc.Relational.Table

/-!
# INSERT on a relation

Library `Relational`. On a table that holds a relation `execute_insert` does what INSERT does on
the relation.
-/

namespace SqlProc.Relational

open Base Front Index Schema Storage Executor Support

variable {config : AppConfig} {owners : List (Bytes × Bytes × Bytes)} {schema : TableSchema}
  {w : World} {r : Relation} {rows : List (Nat × List Bytes)} {slot : TableRuntimeState}
  {primaryKeyIndex : Nat} {row : List Bytes} {statement : InsertStatement}

/-- A statement on the table answers as told: it succeeds when there is an answer, prints it, and
leaves a process that holds the relation. -/
structure Answers (config : AppConfig) (owners : List (Bytes × Bytes × Bytes))
    (schema : TableSchema) (w : World) (run : Except ErrorInfo Unit × World)
    (answer : Option (List Output)) (r : Relation) : Prop where
  result : run.1.isOk = answer.isSome
  printed : run.2.disk.stdout = w.disk.stdout ++ answer.getD []
  represents : ∃ rows, Represents config schema run.2 r rows
  slots : SlotsOf owners run.2

/-- What an INSERT answers. -/
def inserted (stored : Bool) : Option (List Output) := if stored then some [] else none

/-- The statement fails and prints nothing. -/
theorem answers_error {e : ErrorInfo} {w' : World} (hout : w'.disk.stdout = w.disk.stdout)
    (h : Represents config schema w' r rows) (hslots : SlotsOf owners w') :
    Answers config owners schema w (.error e, w') (inserted false) r := by
  refine ⟨rfl, ?_, ⟨rows, h⟩, hslots⟩
  rw [hout]
  exact (List.append_nil _).symm

/-- The statement succeeds and prints nothing. -/
theorem answers_stored {w' : World} (hout : w'.disk.stdout = w.disk.stdout)
    (h : Represents config schema w' r rows) (hslots : SlotsOf owners w') :
    Answers config owners schema w (.ok (), w') (inserted true) r := by
  refine ⟨rfl, ?_, ⟨rows, h⟩, hslots⟩
  rw [hout]
  exact (List.append_nil _).symm

theorem stdout_opened : (opened config schema w).disk.stdout = w.disk.stdout := by
  rw [opened_disk]

theorem stdout_taken : ((opened config schema w).setSlot config schema.tableName
    slot).disk.stdout = w.disk.stdout := by
  rw [World.setSlot_disk, opened_disk]

theorem stdout_stored {index : PkIndex} {id : Int} :
    (stored config schema w row slot index id).disk.stdout = w.disk.stdout := by
  rw [stored, World.setSlot_disk, World.write, opened_disk]
  rfl

/-! ### Cells that are left out -/

theorem findIdx?_map_some (texts : List Bytes) :
    (texts.map some).findIdx? Option.isNone = none := by
  rw [List.findIdx?_eq_none_iff]
  intro cell hm
  obtain ⟨text, -, rfl⟩ := List.mem_map.mp hm
  rfl

theorem findIdx?_gap (before : List Bytes) (after : List (Option Bytes)) :
    (before.map some ++ none :: after).findIdx? Option.isNone = some before.length := by
  rw [List.findIdx?_append, findIdx?_map_some, Option.none_or, List.findIdx?_cons,
    Option.isNone_none, if_pos rfl, List.length_map]
  simp

/-- An INSERT that gives all cells stores them. -/
theorem Relation.insert_given (primaryKeyIndex : Option Nat) (texts : List Bytes) :
    r.insert primaryKeyIndex (texts.map some) = r.store primaryKeyIndex texts := by
  rw [Relation.insert, findIdx?_map_some, List.map_map]
  exact congrArg (fun row ↦ r.store primaryKeyIndex row) (List.map_id texts)

/-- An INSERT that leaves out another cell first is refused. -/
theorem Relation.insert_gap_of_ne {primaryKeyIndex : Option Nat} {before : List Bytes}
    {after : List (Option Bytes)} (hne : primaryKeyIndex ≠ some before.length) :
    r.insert primaryKeyIndex (before.map some ++ none :: after) = (false, r) := by
  simp only [Relation.insert, findIdx?_gap, hne, false_and, if_false]

/-! ### Tables with a key -/

section Keyed

variable (hm : tableKey config schema ∈ owners)
  (hp : schema.primaryKeyIndex = some primaryKeyIndex)
  (hroom : HasRoom config schema w) (hslots : SlotsOf owners w)
  (hv : Valid schema) (hne : schema.columns ≠ []) (h : Represents config schema w r rows)

include hm hp hroom hslots hv hne h

/-- The end of an INSERT that gives all cells. -/
theorem answers_storeRow (hlen : row.length = schema.columnCount)
    (hvalid : ∀ text ∈ row, ValidCell text) (htyped : Typed schema row) :
    Answers config owners schema w (storeRow config schema row w)
      (inserted (r.store (some primaryKeyIndex) row).1) (r.store (some primaryKeyIndex) row).2 := by
  obtain ⟨slot, hs, hholds⟩ := h.exists_obtainSlot hp hroom
  obtain ⟨index, hi, hindex⟩ := hholds.index
  cases hid : rowId primaryKeyIndex row with
  | none =>
    have hrun : storeRow config schema row w =
        (.error (runtimeError "PK 값을 읽을 수 없습니다." noLocation), w) := by
      unfold rowId at hid
      simp only [storeRow, hp]
      exact Exec.bind_error (by rw [Exec.lift_apply, parseRowPrimaryKey, hid]) _
    simp only [hrun, Relation.store, hid]
    exact answers_error rfl h hslots
  | some id =>
    have hnew := findEntry_eq_none_iff_notMem hindex id
    rw [h.rows_eq] at hnew
    by_cases hin : some id ∈ r.rows.map (rowId primaryKeyIndex)
    · obtain ⟨e, hrun⟩ := storeRow_rejected hp hs hi hid
        (Or.inl fun hnone ↦ hnew.mp hnone hin)
      simp only [hrun, Relation.store, hid, hin, if_true]
      exact answers_error stdout_opened (h.opened hp hs hholds) (hslots.opened hm)
    · have hk := hnew.mpr hin
      rw [storeRow_stored hp hs hi hid hk h.file.appendable, Relation.store_new hid hin]
      exact answers_stored stdout_stored
        (h.stored hp hs hv hne (isFor_obtainSlot hs) hholds hi hk ⟨hlen, hvalid, hid⟩ htyped)
        (hslots.stored hm (isFor_obtainSlot hs))

/-- An INSERT that leaves out the id, and maybe more. -/
theorem answers_gap {before : List Bytes} {after : List (Option Bytes)}
    (hschema : loadTableSchema w.disk.files config.schemaDir statement.tableName = .ok schema)
    (hl : statement.Lexical)
    (hc : rowCells schema statement = .ok (before.map some ++ none :: after))
    (hlen : before.length = primaryKeyIndex)
    (htyped : Typed schema ((before.map some ++ none :: after).map
      (·.getD (snprintfInt r.nextId)))) :
    Answers config owners schema w (executeInsert config statement w)
      (inserted (r.insert (some primaryKeyIndex) (before.map some ++ none :: after)).1)
      (r.insert (some primaryKeyIndex) (before.map some ++ none :: after)).2 := by
  obtain ⟨slot, hs, hholds⟩ := h.exists_obtainSlot hp hroom
  obtain ⟨index, hi, hindex⟩ := hholds.index
  have hfind := findIdx?_gap before after
  rw [hlen] at hfind
  have hafter : (before.map some ++ none :: after).drop (primaryKeyIndex + 1) = after := by
    rw [← hlen, ← List.drop_drop, List.drop_left' (List.length_map _)]
    rfl
  have hp' : schema.primaryKeyIndex = some before.length := by rw [hlen]; exact hp
  simp only [Relation.insert, hfind, hafter, true_and]
  by_cases hmax : r.nextId = intMax
  · -- there is no next id
    rw [← hholds.nextId_eq] at hmax
    obtain ⟨e, he⟩ := allocateNextPrimaryKey_of_max hs hmax
    have hrun : executeInsert config statement w = (.error e, opened config schema w) := by
      rw [executeInsert_apply hschema, Exec.bind_apply, buildInsertRowValues_apply, hc]
      simp only [fillCells_append, Nat.zero_add, fillCells, hp', if_true, Exec.bind_error he]
    rw [hrun, if_neg (by rw [← hholds.nextId_eq]; exact not_not.mpr hmax)]
    exact answers_error stdout_opened (h.opened hp hs hholds) (hslots.opened hm)
  · rw [if_pos hmax]
    rw [← hholds.nextId_eq] at hmax
    by_cases hnone : none ∈ after
    · -- the id is lost
      obtain ⟨e, he⟩ := fillCells_gap_error statement.tableLocation hp' hs hmax hnone
      have hrun : executeInsert config statement w = (.error e,
          (opened config schema w).setSlot config schema.tableName slot.allocated) := by
        rw [executeInsert_apply hschema, Exec.bind_apply, buildInsertRowValues_apply, hc]
        simp only [he]
      rw [hrun, if_pos hnone]
      exact answers_error stdout_taken (h.taken hp hs hholds hmax)
        ((hslots.opened hm).setSlot hm (isFor_allocated_obtainSlot hs))
    · rw [if_neg hnone]
      obtain ⟨texts, rfl⟩ : ∃ texts : List Bytes, after = texts.map some := by
        rcases exists_map_some_or after with hall | ⟨xs, ys, rfl⟩
        · exact hall
        · simp at hnone
      have hrange := hholds.nextIdOk.range
      have hrow : (before.map some ++ none :: texts.map some).map
          (·.getD (snprintfInt r.nextId)) = before ++ idText slot.nextId :: texts := by
        rw [idText_eq hrange.1 hrange.2, hholds.nextId_eq]
        simp [Function.comp_def]
      have hvalid := validRow_assigned hl hc hrange
      have hid := hvalid.rowId_eq
      rw [hlen] at hvalid hid
      have hk := hholds.nextIdOk.findEntry_eq_none hi hmax
      have hnew := (findEntry_eq_none_iff_notMem hindex slot.nextId).mp hk
      rw [h.rows_eq] at hnew
      rw [executeInsert_assigned hp' hschema hc hs hholds.nextIdOk hmax hi h.file.appendable, hrow,
        Relation.store_new (r := r.taken) hid hnew]
      rw [hrow] at htyped
      exact answers_stored stdout_stored
        (h.stored hp hs hv hne (isFor_allocated_obtainSlot hs) (hholds.allocated hmax) hi hk hvalid
          htyped)
        (hslots.stored hm (isFor_allocated_obtainSlot hs))

end Keyed

/-! ### All tables -/

/-- The cells of an INSERT are stored as they are in a table without a key. -/
theorem answers_storeRow_noKey (hp : schema.primaryKeyIndex = none) (hv : Valid schema)
    (hne : schema.columns ≠ []) (hslots : SlotsOf owners w)
    (h : Represents config schema w r rows) (hlen : row.length = schema.columnCount)
    (hvalid : ∀ text ∈ row, ValidCell text) (htyped : Typed schema row) :
    Answers config owners schema w (storeRow config schema row w)
      (inserted (r.store none row).1) (r.store none row).2 := by
  have happ : Appendable schema (w.disk.files (tablePath config schema.tableName)) :=
    h.file.appendable
  have hrun : storeRow config schema row w = (.ok (),
      w.write (tablePath config schema.tableName) (appended config schema w row)) := by
    simp only [storeRow, hp]
    rw [Exec.bind_ok (onDisk_ok (storageAppendRow_of_appendable rfl happ row))]
    rfl
  have hholds : Represents config schema
      (w.write (tablePath config schema.tableName) (appended config schema w row))
      (r.store none row).2
      (rows ++ [((appendBase schema (w.file config schema.tableName)).length, row)]) := by
    refine ⟨?_, ?_, ?_, fun k hk ↦ ?_⟩
    · rw [World.file, World.write, Disk.write_files_self]
      exact h.file.append hv hne hlen hvalid
    · rw [List.map_append, h.rows_eq, List.map_singleton]
      rfl
    · exact List.forall_mem_append.mpr ⟨h.typed, List.forall_mem_singleton.mpr htyped⟩
    · rw [hp] at hk
      cases hk
  rw [hrun]
  exact answers_stored rfl hholds (hslots.congr rfl)

/-- A column other than the key is left out. -/
theorem executeInsert_gap_of_ne {before : List Bytes} {after : List (Option Bytes)}
    (hschema : loadTableSchema w.disk.files config.schemaDir statement.tableName = .ok schema)
    (hc : rowCells schema statement = .ok (before.map some ++ none :: after))
    (hne : schema.primaryKeyIndex ≠ some before.length) :
    ∃ e, executeInsert config statement w = (.error e, w) := by
  rw [executeInsert_apply hschema, Exec.bind_apply, buildInsertRowValues_apply, hc]
  simp only [fillCells_append, Nat.zero_add, fillCells, hne, if_false]
  exact ⟨_, rfl⟩

/-- An INSERT that the front end has accepted does what INSERT does on the relation. -/
theorem answers_executeInsert
    (hm : ∀ k ∈ schema.primaryKeyIndex, tableKey config schema ∈ owners)
    (hmax : owners.length ≤ executorMaxTableStates)
    (hslots : SlotsOf owners w)
    (hschema : loadTableSchema w.disk.files config.schemaDir schema.tableName = .ok schema)
    (h : Represents config schema w r rows) (hn : statement.tableName = schema.tableName)
    (hl : statement.Lexical)
    (hcount : statement.hasColumnList = true → statement.columns.length = statement.values.length) :
    if Accepts schema statement then
      Answers config owners schema w (executeInsert config statement w)
        (inserted (r.insert schema.primaryKeyIndex (givenCells schema statement)).1)
        (r.insert schema.primaryKeyIndex (givenCells schema statement)).2
    else Answers config owners schema w (executeInsert config statement w) none r := by
  obtain ⟨hv, hne⟩ := loadTableSchema_valid hschema
  rw [← hn] at hschema
  split
  · next ha =>
    have hc := (rowCells_eq_ok_iff hv hl hcount).mpr ⟨ha, rfl⟩
    have htyped : ∀ {omitted : Bytes}, (strtolInt omitted).isSome = true →
        Typed schema ((givenCells schema statement).map (·.getD omitted)) :=
      fun ho ↦ ha.typed hv hcount ho
    generalize givenCells schema statement = cells at hc htyped ⊢
    obtain ⟨hlen, hvalid⟩ := rowCells_valid hl hc
    rcases exists_map_some_or cells with ⟨row, rfl⟩ | ⟨before, after, rfl⟩
    · have hrun : executeInsert config statement w = storeRow config schema row w := by
        rw [executeInsert_apply hschema, Exec.bind_apply, buildInsertRowValues_apply, hc]
        simp only [fillCells_map_some]
      have hrow : Typed schema row := by
        have := @htyped [] rfl
        rwa [List.map_map, show (fun cell : Option Bytes ↦ cell.getD []) ∘ some = id from rfl,
          List.map_id] at this
      rw [List.length_map] at hlen
      have hcells : ∀ text ∈ row, ValidCell text :=
        fun text hm ↦ hvalid text (List.mem_map_of_mem hm)
      rw [hrun, Relation.insert_given]
      cases hp : schema.primaryKeyIndex with
      | none => exact answers_storeRow_noKey hp hv hne hslots h hlen hcells hrow
      | some k =>
        have hroom := hslots.hasRoom (hm _ hp) hmax
        exact answers_storeRow (hm _ hp) hp hroom hslots hv hne h hlen hcells hrow
    · by_cases hp : schema.primaryKeyIndex = some before.length
      · rw [hp]
        have hroom := hslots.hasRoom (hm _ hp) hmax
        refine answers_gap (hm _ hp) hp hroom hslots hv hne h hschema hl hc rfl
          (htyped ?_)
        obtain ⟨slot, -, hholds⟩ := h.slot _ hp
        obtain ⟨hlow, hhigh⟩ := hholds.nextIdOk.range
        rw [← hholds.nextId_eq, strtolInt_snprintfInt hlow hhigh]
        rfl
      · obtain ⟨e, he⟩ := executeInsert_gap_of_ne hschema hc hp
        rw [he, Relation.insert_gap_of_ne hp]
        exact answers_error rfl h hslots
  · next ha =>
    have hrow : ∃ e, rowCells schema statement = .error e := by
      cases hr : rowCells schema statement with
      | error e => exact ⟨e, rfl⟩
      | ok cells => exact absurd ((exists_rowCells_iff hv hcount).mp ⟨cells, hr⟩) ha
    obtain ⟨e, he⟩ := hrow
    have hrun : executeInsert config statement w = (.error e, w) := by
      rw [executeInsert_apply hschema, Exec.bind_apply, buildInsertRowValues_apply, he]
    rw [hrun]
    exact answers_error rfl h hslots

end SqlProc.Relational
