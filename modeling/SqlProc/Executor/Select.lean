import SqlProc.Executor.Consistency

/-!
# Access by index and access by scan

Library `Executor`. A SELECT that compares the primary key goes through the index; on a table
whose index and file agree it prints the rows that a scan of the file prints.
-/

namespace SqlProc.Executor

open Base Front Index Schema Storage Support

variable {config : AppConfig} {schema : TableSchema} {primaryKeyIndex : Nat} {w w₀ : World}
  {slot : TableRuntimeState} {programs : List SqlProgram} {index : PkIndex}
  {rows sorted : List (Nat × List Bytes)} {statement : SelectStatement} {selected : List Nat}
  {v : Int}

/-! ### The rows that a condition on the key selects -/

/-- The comparison of an id with the value of a condition. -/
def keyMatches (operator : WhereOperator) (v id : Int) : Bool :=
  match operator with
  | .equal => id = v
  | .greater => id > v
  | .less => id < v
  | .notEqual => id ≠ v

/-- The condition on a row. -/
def rowMatches (primaryKeyIndex : Nat) (operator : WhereOperator) (v : Int)
    (cells : List Bytes) : Bool :=
  match rowId primaryKeyIndex cells with
  | some id => keyMatches operator v id
  | none => false

/-- The scan compares the ids of rows. -/
theorem csvValueMatchesWhere_key (hv : Valid schema)
    (hp : schema.primaryKeyIndex = some primaryKeyIndex) {value : LiteralValue}
    (htype : value.type = .int) (hval : strtolInt value.text = some v)
    (operator : WhereOperator) {cells : List Bytes}
    (hid : rowId primaryKeyIndex cells ≠ none) :
    csvValueMatchesWhere schema cells primaryKeyIndex operator value =
      some (rowMatches primaryKeyIndex operator v cells) := by
  obtain ⟨id, hid⟩ := Option.ne_none_iff_exists'.mp hid
  have hcolumn : columnType schema primaryKeyIndex = .int := by
    rw [columnType, hv.primaryKey _ hp]
  rw [rowMatches, hid]
  unfold rowId at hid
  simp only [csvValueMatchesWhere, hcolumn, htype, ne_eq, not_true_eq_false, if_false, hid, hval]
  cases operator <;> rfl

/-- Entries and rows in their order satisfy a condition together. -/
theorem forall₂_filter (h : List.Forall₂ (IsEntry primaryKeyIndex) index.entries sorted)
    (operator : WhereOperator) (v : Int) :
    List.Forall₂ (IsEntry primaryKeyIndex)
      (index.entries.filter (keyMatches operator v ·.1))
      (sorted.filter (rowMatches primaryKeyIndex operator v ·.2)) := by
  refine List.rel_filter (fun e row he ↦ ?_) h
  change keyMatches operator v e.1 = true ↔ rowMatches primaryKeyIndex operator v row.2 = true
  rw [rowMatches, he.1]

/-- Offsets of entries are positions of rows. -/
theorem map_snd_of_forall₂ {es : List (Int × Int)} {picked : List (Nat × List Bytes)}
    (h : List.Forall₂ (IsEntry primaryKeyIndex) es picked) :
    es.map Prod.snd = picked.map fun row ↦ (row.1 : Int) := by
  induction h with
  | nil => rfl
  | cons he ht ih => rw [List.map_cons, List.map_cons, ih, he.2]

/-! ### Files that can be read -/

/-- The rows of a file that is missing, empty, or has an accepted header. -/
inductive Readable (schema : TableSchema) : Option Bytes → List (Nat × List Bytes) → Prop
  | missing : Readable schema none []
  | empty : Readable schema (some []) []
  | file (content : Bytes) (rows : List (Nat × List Bytes)) (hh : HeaderOk schema content)
      (hr : TableRows schema content rows) : Readable schema (some content) rows

theorem readable_of_rows (hr : TableRows schema ((w.file config schema.tableName).getD []) rows)
    (hheader : ∀ content, w.file config schema.tableName = some content → content ≠ [] →
      HeaderOk schema content) :
    Readable schema (w.file config schema.tableName) rows := by
  cases hf : w.file config schema.tableName with
  | none =>
    rw [hf] at hr
    cases hr
    exact .missing
  | some content =>
    rw [hf, Option.getD_some] at hr
    by_cases hne : content = []
    · subst hne
      cases hr
      exact .empty
    · exact .file content rows (hheader content hf hne) hr

/-- The scan prints the rows that match. -/
theorem storagePrintRowsWhereEquals_readable {whereColumnIndex : Nat} {operator : WhereOperator}
    {value : LiteralValue} {keep : List Bytes → Bool}
    (h : Readable schema (w.file config schema.tableName) rows)
    (hk : ∀ row ∈ rows, csvValueMatchesWhere schema row.2 whereColumnIndex operator value =
      some (keep row.2)) (selected : List Nat) :
    storagePrintRowsWhereEquals config schema selected whereColumnIndex operator value w.disk =
      (.ok (), w.disk.print (headerOutput schema selected ::
        (rows.filter (keep ·.2)).map (rowOutput selected))) := by
  generalize hf : w.file config schema.tableName = file at h
  cases h with
  | missing => exact storagePrintRowsWhereEquals_empty (Or.inl hf) _ _ _ _
  | empty => exact storagePrintRowsWhereEquals_empty (Or.inr hf) _ _ _ _
  | file content rows hh hr => exact storagePrintRowsWhereEquals_spec hf hh hr hk selected

/-- Reads at offsets print the rows there. -/
theorem storagePrintRowsAtOffsets_readable {disk : Disk} {picked : List (Nat × List Bytes)}
    (h : Readable schema (disk.files (tablePath config schema.tableName)) rows)
    (hp : picked ⊆ rows) (selected : List Nat) :
    storagePrintRowsAtOffsets config schema (picked.map fun row ↦ (row.1 : Int)) selected disk =
      (.ok (), disk.print (headerOutput schema selected :: picked.map (rowOutput selected))) := by
  generalize hf : disk.files (tablePath config schema.tableName) = file at h
  cases h with
  | missing =>
    rw [List.eq_nil_of_subset_nil hp]
    rfl
  | empty =>
    rw [List.eq_nil_of_subset_nil hp]
    rfl
  | file content rows hh hr => exact storagePrintRowsAtOffsets_spec hf hh hr hp selected

/-! ### The index path -/

/-- The line that precedes the rows of an index access. -/
def keyBanner (statement : SelectStatement) (count : Nat) : Output :=
  .line (match statement.whereOperator with
    | .equal => text "[INDEX] " ++ whereText statement (text "=")
    | operator => text "[INDEX-RANGE] " ++ whereText statement (whereOperatorText operator) ++
        text " (" ++ snprintfInt count ++ text " rows)")

/-- The process after more lines were printed. -/
def World.print (w : World) (output : List Output) : World :=
  { w with disk := w.disk.print output }

theorem visitCells_appendOffset (es : List (Int × Int)) (offsets : List Int) :
    visitCells appendOffset es offsets = (true, offsets ++ es.map Prod.snd) := by
  induction es generalizing offsets with
  | nil => rw [visitCells, List.map_nil, List.append_nil]
  | cons e es ih =>
    obtain ⟨key, offset⟩ := e
    rw [visitCells, appendOffset]
    simp only
    rw [ih, List.append_assoc, List.map_cons, List.singleton_append]

/-- The range visitors collect the offsets of the entries that match. -/
theorem rangeOffsets_eq (index : PkIndex) (operator : WhereOperator) (v : Int)
    (ho : operator = .greater ∨ operator = .less) :
    rangeOffsets (some index) operator v =
      (true, (index.entries.filter (keyMatches operator v ·.1)).map Prod.snd) := by
  rw [rangeOffsets]
  rcases ho with rfl | rfl
  · rw [if_pos rfl, PkIndex.visitGreaterThan_eq, visitCells_appendOffset, List.nil_append]
    rfl
  · rw [if_neg (by decide), PkIndex.visitLessThan_eq, visitCells_appendOffset, List.nil_append]
    rfl

theorem onDisk_print {x : Exec Disk Unit} {output : List Output}
    (h : x w.disk = (.ok (), w.disk.print output)) : onDisk x w = (.ok (), w.print output) :=
  onDisk_ok h

@[simp] theorem World.print_print (xs ys : List Output) :
    (w.print xs).print ys = w.print (xs ++ ys) := by
  rw [print, print, print, Disk.print_print]

section IndexPath

variable (hs : obtainSlot config schema w = some slot) (hi : slot.pkIndex = some index)
  (hread : Readable schema (w.file config schema.tableName) rows)
  (hsorted : List.Forall₂ (IsEntry primaryKeyIndex) index.entries sorted) (hsub : sorted ⊆ rows)
  (hval : strtolInt statement.whereValue.text = some v)

include hs hi hread hsorted hsub hval

/-- The lookup of one key. -/
theorem executeSelectWithIndex_spec (ho : statement.whereOperator = .equal) (selected : List Nat) :
    let picked := sorted.filter (rowMatches primaryKeyIndex statement.whereOperator v ·.2)
    executeSelectWithIndex config schema statement selected w =
      (.ok (), (opened config schema w).print (keyBanner statement picked.length ::
        headerOutput schema selected :: picked.map (rowOutput selected))) := by
  intro picked
  obtain ⟨i, hi', hat⟩ := getTableStateIndex_of_some hs
  have hoffsets : (findEntry v index.entries).toList = picked.map fun row ↦ (row.1 : Int) := by
    have hfilter : index.entries.filter (keyMatches statement.whereOperator v ·.1) =
        (findEntry v index.entries).toList.map fun o ↦ (v, o) := by
      rw [ho]
      exact filter_eq_findEntry index.sortedKeys_entries v
    rw [← map_snd_of_forall₂ (forall₂_filter hsorted statement.whereOperator v), hfilter,
      List.map_map]
    exact (List.map_id _).symm
  have hbanner : onDisk (printLine (text "[INDEX] " ++ whereText statement (text "=")))
      (opened config schema w) =
        (.ok (), (opened config schema w).print [keyBanner statement picked.length]) := by
    rw [keyBanner, ho]
    exact onDisk_print (printLine_apply ..)
  have hat' : slotAt ((opened config schema w).print [keyBanner statement picked.length]) i =
      slot := hat.slotAt_eq
  have hread' : Readable schema (((opened config schema w).print
      [keyBanner statement picked.length]).disk.files (tablePath config schema.tableName))
      rows := by
    rw [World.print, Disk.print_files, opened_disk]
    exact hread
  have hpicked : picked ⊆ rows := fun row hm ↦ hsub (List.mem_of_mem_filter hm)
  have hrows := storagePrintRowsAtOffsets_readable hread' hpicked selected
  have hpos : ∀ o ∈ findEntry v index.entries, 0 ≤ o := by
    intro o hm
    have hmem : o ∈ (findEntry v index.entries).toList := Option.mem_toList.mpr hm
    rw [hoffsets] at hmem
    obtain ⟨row, -, rfl⟩ := List.mem_map.mp hmem
    omega
  rw [executeSelectWithIndex, Exec.bind_ok (by rw [Exec.lift_apply, parseWhereIntValue, hval]),
    Exec.bind_ok hi', Exec.bind_ok hbanner, Exec.bind_ok (Exec.get_apply _)]
  simp only [hat', hi, Option.bind_some, PkIndex.search_eq]
  rw [storagePrintRowAtOffset_eq hpos, hoffsets, onDisk_print hrows, World.print_print]
  rfl

/-- The range of keys on one side of a bound. -/
theorem executeSelectWithIndexRange_spec
    (ho : statement.whereOperator = .greater ∨ statement.whereOperator = .less)
    (selected : List Nat) :
    let picked := sorted.filter (rowMatches primaryKeyIndex statement.whereOperator v ·.2)
    executeSelectWithIndexRange config schema statement selected w =
      (.ok (), (opened config schema w).print (keyBanner statement picked.length ::
        headerOutput schema selected :: picked.map (rowOutput selected))) := by
  intro picked
  obtain ⟨i, hi', hat⟩ := getTableStateIndex_of_some hs
  have hrange := rangeOffsets_eq index statement.whereOperator v ho
  rw [map_snd_of_forall₂ (forall₂_filter hsorted statement.whereOperator v)] at hrange
  have hbanner : onDisk (printLine (text "[INDEX-RANGE] " ++
      whereText statement (whereOperatorText statement.whereOperator) ++ text " (" ++
        snprintfInt (picked.map fun row ↦ (row.1 : Int)).length ++ text " rows)"))
      (opened config schema w) =
        (.ok (), (opened config schema w).print [keyBanner statement picked.length]) := by
    rw [List.length_map, keyBanner]
    rcases ho with h | h
    · rw [h]
      exact onDisk_print (printLine_apply ..)
    · rw [h]
      exact onDisk_print (printLine_apply ..)
  have hread' : Readable schema (((opened config schema w).print
      [keyBanner statement picked.length]).disk.files (tablePath config schema.tableName))
      rows := by
    rw [World.print, Disk.print_files, opened_disk]
    exact hread
  have hpicked : picked ⊆ rows := fun row hm ↦ hsub (List.mem_of_mem_filter hm)
  have hrows := storagePrintRowsAtOffsets_readable hread' hpicked selected
  rw [executeSelectWithIndexRange,
    Exec.bind_ok (by rw [Exec.lift_apply, parseWhereIntValue, hval]), Exec.bind_ok hi',
    Exec.bind_ok (Exec.get_apply _)]
  simp only [hat.slotAt_eq, hi, hrange]
  rw [Exec.bind_ok hbanner, onDisk_print hrows, World.print_print]
  rfl

end IndexPath

/-- A SELECT that compares the primary key with an `int` literal by `=`, `>` or `<`. -/
structure KeySelect (schema : TableSchema) (statement : SelectStatement) (selected : List Nat)
    (v : Int) : Prop where
  tableName : statement.tableName = schema.tableName
  selected : resolveSelectedColumns schema statement = .ok selected
  hasWhere : statement.hasWhere = true
  whereColumn : statement.whereColumn = text "id"
  type : statement.whereValue.type = .int
  value : strtolInt statement.whereValue.text = some v
  operator : statement.whereOperator ≠ .notEqual

theorem obtainSlot_opened (hs : obtainSlot config schema w = some slot) :
    obtainSlot config schema (opened config schema w) = some slot :=
  obtainSlot_of_slot (slot_opened hs)

/-- The condition of such a SELECT is accepted. -/
theorem KeySelect.resolveWhereColumn (hv : Valid schema)
    (hp : schema.primaryKeyIndex = some primaryKeyIndex)
    (hk : KeySelect schema statement selected v) :
    resolveWhereColumn schema statement = .ok primaryKeyIndex := by
  have hcolumn := hv.primaryKey _ hp
  have hf : findSchemaColumn schema statement.whereColumn = some primaryKeyIndex := by
    rw [hk.whereColumn]
    exact findSchemaColumn_name hv hcolumn
  have htype : columnType schema primaryKeyIndex = .int := by rw [columnType, hcolumn]
  have hrange : intLiteralInRange statement.whereValue = true := by
    rw [intLiteralInRange, hk.value]
    rfl
  have hlit : validateLiteralType .int statement.whereValue = true := by
    simp [validateLiteralType, hk.type]
  simp [Executor.resolveWhereColumn, hf, htype, hlit, hrange]

/-- Such a SELECT goes through the index and prints the rows in the order of their ids. -/
theorem executeSelect_onKey
    (hschema : loadTableSchema w.disk.files config.schemaDir schema.tableName = .ok schema)
    (hp : schema.primaryKeyIndex = some primaryKeyIndex)
    (hk : KeySelect schema statement selected v)
    (hs : obtainSlot config schema w = some slot) (hi : slot.pkIndex = some index)
    (hread : Readable schema (w.file config schema.tableName) rows)
    (hsorted : List.Forall₂ (IsEntry primaryKeyIndex) index.entries sorted)
    (hsub : sorted ⊆ rows) :
    let picked := sorted.filter (rowMatches primaryKeyIndex statement.whereOperator v ·.2)
    executeSelect config statement w = (.ok (), (opened config schema w).print
      (keyBanner statement picked.length :: headerOutput schema selected ::
        picked.map (rowOutput selected) ++ [.elapsed])) := by
  intro picked
  obtain ⟨hv, -⟩ := loadTableSchema_valid hschema
  have hopen : opened config schema (opened config schema w) = opened config schema w :=
    opened_of_slot (slot_opened hs)
  have hread' : Readable schema ((opened config schema w).file config schema.tableName) rows := by
    rw [World.file, opened_disk]
    exact hread
  obtain ⟨i, hi', -⟩ := getTableStateIndex_of_some hs
  have hwhere : executeSelectWhere config schema statement selected primaryKeyIndex w =
      (.ok (), (opened config schema w).print (keyBanner statement picked.length ::
        headerOutput schema selected :: picked.map (rowOutput selected))) := by
    unfold executeSelectWhere
    cases ho : statement.whereOperator with
    | equal =>
      have hrun := executeSelectWithIndex_spec (obtainSlot_opened hs) hi hread' hsorted hsub
        hk.value ho selected
      rw [hopen] at hrun
      simp only [hp, hk.type, decide_true, Bool.and_true, if_true]
      rw [Exec.bind_ok hi', hrun]
    | greater =>
      have hrun := executeSelectWithIndexRange_spec (obtainSlot_opened hs) hi hread' hsorted hsub
        hk.value (Or.inl ho) selected
      rw [hopen] at hrun
      simp only [hp, hk.type, decide_true, Bool.and_true]
      rw [if_neg (by decide), if_pos (by decide), Exec.bind_ok hi', hrun]
    | less =>
      have hrun := executeSelectWithIndexRange_spec (obtainSlot_opened hs) hi hread' hsorted hsub
        hk.value (Or.inr ho) selected
      rw [hopen] at hrun
      simp only [hp, hk.type, decide_true, Bool.and_true]
      rw [if_neg (by decide), if_pos (by decide), Exec.bind_ok hi', hrun]
    | notEqual => exact absurd ho hk.operator
  have helapsed : printElapsed ((opened config schema w).print (keyBanner statement picked.length ::
      headerOutput schema selected :: picked.map (rowOutput selected))) =
      (.ok (), (opened config schema w).print (keyBanner statement picked.length ::
        headerOutput schema selected :: picked.map (rowOutput selected) ++ [.elapsed])) := by
    rw [← World.print_print]
    rfl
  rw [executeSelect, Exec.bind_ok (Exec.get_apply w),
    Exec.bind_ok (by rw [Exec.lift_apply, hk.tableName, hschema]),
    Exec.bind_ok (by rw [Exec.lift_apply, hk.selected]), hk.hasWhere, if_neg (by decide),
    Exec.bind_ok (by rw [Exec.lift_apply, hk.resolveWhereColumn hv hp]), Exec.bind_ok hwhere,
    helapsed]

/-! ### Agreement with the scan -/

/-- The ids of entries in their order are strictly ascending. -/
theorem exists_ids_of_forall₂ {es : List (Int × Int)} (hes : SortedKeys es)
    (h : List.Forall₂ (IsEntry primaryKeyIndex) es sorted) :
    ∃ ids : List Int, sorted.map (fun row ↦ rowId primaryKeyIndex row.2) = ids.map some ∧
      ids.Pairwise (· < ·) := by
  refine ⟨es.map Prod.fst, ?_, List.pairwise_map.mpr hes⟩
  clear hes
  induction h with
  | nil => rfl
  | cons he ht ih => rw [List.map_cons, ih, he.1, List.map_cons, List.map_cons]

/-- Rows that all have one id are at most one row. -/
theorem eq_of_perm_of_equal {picked scanned : List (Nat × List Bytes)}
    (h : List.Forall₂ (IsEntry primaryKeyIndex)
      (index.entries.filter (keyMatches .equal v ·.1)) picked)
    (hp : picked.Perm scanned) : picked = scanned := by
  have hfilter : index.entries.filter (keyMatches .equal v ·.1) =
      (findEntry v index.entries).toList.map fun o ↦ (v, o) :=
    filter_eq_findEntry index.sortedKeys_entries v
  rw [hfilter] at h
  cases hf : findEntry v index.entries with
  | none =>
    rw [hf] at h
    cases h
    exact hp.nil_eq
  | some o =>
    rw [hf] at h
    cases h with
    | cons he ht =>
      cases ht
      exact (List.perm_singleton.mp hp.symm).symm

/-- What the two ways of access print for a SELECT on the primary key of a table with the given
rows: through the index, the printed rows; by a scan, the rows of the file that match. -/
structure SelectAgrees (config : AppConfig) (schema : TableSchema) (primaryKeyIndex : Nat)
    (statement : SelectStatement) (selected : List Nat) (w w' : World)
    (printed scanned : List (Nat × List Bytes)) : Prop where
  byIndex : executeSelect config statement w = (.ok (), w'.print
    (keyBanner statement printed.length :: headerOutput schema selected ::
      printed.map (rowOutput selected) ++ [.elapsed]))
  byScan : storagePrintRowsWhereEquals config schema selected primaryKeyIndex
    statement.whereOperator statement.whereValue w.disk =
      (.ok (), w.disk.print (headerOutput schema selected :: scanned.map (rowOutput selected)))
  perm : printed.Perm scanned
  equal : statement.whereOperator = .equal → printed = scanned
  ascending : ∃ ids : List Int,
    printed.map (fun row ↦ rowId primaryKeyIndex row.2) = ids.map some ∧ ids.Pairwise (· < ·)

/-- On a table whose index holds the rows of its file, the index path and the scan print the
same header, and rows that are the same but for their order; those of the index path are
sorted by id. -/
theorem executeSelect_agrees
    (hschema : loadTableSchema w.disk.files config.schemaDir schema.tableName = .ok schema)
    (hp : schema.primaryKeyIndex = some primaryKeyIndex)
    (hk : KeySelect schema statement selected v)
    (hs : obtainSlot config schema w = some slot) (hi : slot.pkIndex = some index)
    (hread : Readable schema (w.file config schema.tableName) rows)
    (hindex : Indexes primaryKeyIndex rows index) :
    ∃ printed, SelectAgrees config schema primaryKeyIndex statement selected w
      (opened config schema w) printed
      (rows.filter (rowMatches primaryKeyIndex statement.whereOperator v ·.2)) := by
  obtain ⟨hv, -⟩ := loadTableSchema_valid hschema
  obtain ⟨sorted, hsorted, hperm⟩ := hindex.exists_sorted
  have hpicked := forall₂_filter hsorted statement.whereOperator v
  have hfilter := hperm.filter (rowMatches primaryKeyIndex statement.whereOperator v ·.2)
  refine ⟨_, executeSelect_onKey hschema hp hk hs hi hread hsorted hperm.subset,
    storagePrintRowsWhereEquals_readable hread (fun row hm ↦ ?_) selected, hfilter,
    fun ho ↦ ?_, exists_ids_of_forall₂ (index.sortedKeys_entries.sublist ?_) hpicked⟩
  · apply csvValueMatchesWhere_key hv hp hk.type hk.value _
    intro hnone
    exact hindex.uniqueIds.readable (List.mem_map.mpr ⟨row, hm, hnone⟩)
  · rw [ho] at hpicked hfilter ⊢
    exact eq_of_perm_of_equal hpicked hfilter
  · exact List.filter_sublist

/-- In every state of every run in which a table has a slot and a header that is accepted, a
SELECT on its primary key prints through the index what a scan of the file prints: for `=` the
same lines, for `>` and `<` the same header and the same rows, sorted by id, whose number the
first line tells. -/
theorem runPrograms_select_agrees (hp : schema.primaryKeyIndex = some primaryKeyIndex)
    (hschema : loadTableSchema w₀.disk.files config.schemaDir schema.tableName = .ok schema)
    (hfresh : w₀.slot config schema.tableName = none)
    (hnul : ∀ content, w₀.file config schema.tableName = some content → nul ∉ content)
    (hprograms : ∀ program ∈ programs, program.Lexical)
    (hslot : (runPrograms config programs w₀).slot config schema.tableName = some slot)
    (hheader : ∀ content, (runPrograms config programs w₀).file config schema.tableName =
      some content → content ≠ [] → HeaderOk schema content)
    (hk : KeySelect schema statement selected v) :
    let w := runPrograms config programs w₀
    ∃ rows printed, Readable schema (w.file config schema.tableName) rows ∧
      SelectAgrees config schema primaryKeyIndex statement selected w w printed
        (rows.filter (rowMatches primaryKeyIndex statement.whereOperator v ·.2)) := by
  intro w
  obtain ⟨hw, hok⟩ := viewOk_runPrograms hp (tableAt_fresh hschema hfresh)
    (viewOk_fresh hfresh hnul) hprograms
  obtain ⟨index, rows, hi, hr, hindex⟩ := hok.slot slot hslot
  have hread := readable_of_rows hr hheader
  have hagrees := executeSelect_agrees hw.schema_eq hp hk (obtainSlot_of_slot hslot) hi hread
    hindex
  rw [opened_of_slot hslot] at hagrees
  obtain ⟨printed, hprinted⟩ := hagrees
  exact ⟨rows, printed, hread, hprinted⟩

/-- `SELECT * FROM t WHERE id > 7`. -/
def sampleKeySelect : SelectStatement :=
  { tableName := text "t", selectAll := true, columns := [],
    hasWhere := true, whereColumn := text "id", whereColumnLocation := noLocation,
    whereOperator := .greater, whereValue := ⟨.int, text "7", noLocation⟩ }

theorem runPrograms_select_agrees_sample :
    let w := runPrograms sampleConfig samplePrograms sampleWorld
    ∃ rows printed, Readable sampleSchema (w.file sampleConfig sampleSchema.tableName) rows ∧
      SelectAgrees sampleConfig sampleSchema 0 sampleKeySelect [0, 1] w w printed
        (rows.filter (rowMatches 0 .greater 7 ·.2)) := by
  intro w
  have hsome : (w.slot sampleConfig sampleSchema.tableName).isSome = true := by decide +kernel
  obtain ⟨slot, hslot⟩ := Option.isSome_iff_exists.mp hsome
  have hfile : w.file sampleConfig sampleSchema.tableName = some (text "id,name\n7,x\n8,y\n") := by
    decide +kernel
  exact runPrograms_select_agrees rfl loadTableSchema_sampleWorld slot_sampleWorld
    (fun content h ↦ by cases h) lexical_samplePrograms hslot
    (fun content h _ ↦ by
      obtain rfl := Option.some.inj (hfile.symm.trans h)
      exact ⟨by decide, (0, text "id,name"), by decide +kernel, by decide, by decide +kernel⟩)
    ⟨rfl, rfl, rfl, rfl, rfl, rfl, by decide⟩

end SqlProc.Executor
