import SqlProc.Relational.Insert

/-!
# SELECT on a relation

Library `Relational`. On a table that holds a relation `execute_select` prints what SELECT shows
of the relation, whether it goes through the index or scans the file.
-/

namespace SqlProc.Relational

open Base Front Index Schema Storage Executor Support

variable {config : AppConfig} {owners : List (Bytes × Bytes × Bytes)} {schema : TableSchema}
  {w : World}  {r : Relation} {rows : List (Nat × List Bytes)} {slot : TableRuntimeState}
  {primaryKeyIndex : Nat} {statement : SelectStatement} {selected : List Nat} {column : Nat}

/-! ### Names and conditions -/

/-- Looking up each element of a list, with and without an error. -/
theorem mapM_eq_ok_iff {ε α β : Type} {f : α → Except ε β} {g : α → Option β}
    (h : ∀ a b, f a = .ok b ↔ g a = some b) {as : List α} {bs : List β} :
    as.mapM f = .ok bs ↔ as.mapM g = some bs := by
  induction as generalizing bs with
  | nil => simp [pure, Except.pure]
  | cons a as ih =>
    rw [List.mapM_cons, List.mapM_cons, except_bind_eq_ok_iff]
    simp only [Option.bind_eq_bind, Option.bind_eq_some_iff, h, except_bind_eq_ok_iff, ih, pure,
      Except.pure, Except.ok.injEq, Option.some.injEq]

theorem resolveSelectedColumns_eq_ok_iff :
    resolveSelectedColumns schema statement = .ok selected ↔
      selectedColumns schema statement = some selected := by
  unfold resolveSelectedColumns selectedColumns
  split
  · simp
  · apply mapM_eq_ok_iff
    intro name i
    cases findSchemaColumn schema name.name <;> simp

/-- The checks on the condition are those of its column. -/
theorem resolveWhereColumn_eq_ok_iff :
    resolveWhereColumn schema statement = .ok column ↔
      findSchemaColumn schema statement.whereColumn = some column ∧
        Compares (columnType schema column) statement.whereOperator statement.whereValue := by
  unfold resolveWhereColumn
  cases hf : findSchemaColumn schema statement.whereColumn with
  | none => simp
  | some i =>
    simp only [Option.some.injEq]
    generalize statement.whereOperator = operator
    obtain ⟨type, text, location⟩ := statement.whereValue
    by_cases hi : i = column
    · subst hi
      cases columnType schema i with
      | int =>
        cases type <;>
          simp [validateLiteralType, intLiteralInRange, Compares, Option.isSome_iff_ne_none]
      | string =>
        cases type with
        | int => simp [validateLiteralType, Compares]
        | string => cases operator <;> simp [validateLiteralType, Compares]
    · simp only [hi, false_and, iff_false]
      intro h
      split at h
      · cases h
      · split at h
        · cases h
        · split at h
          · cases h
          · exact hi (Except.ok.inj h)

/-! ### Rows by their ids -/

/-- Rows in the order of different ids are the sorted ones. -/
theorem eq_sortById {picked unsorted : List (List Bytes)} {ids : List Int}
    (hids : picked.map (rowId primaryKeyIndex) = ids.map some) (hasc : ids.Pairwise (· < ·))
    (hperm : picked.Perm unsorted) : picked = sortById primaryKeyIndex unsorted := by
  let le (a b : List Bytes) : Bool :=
    (rowId primaryKeyIndex a).getD 0 ≤ (rowId primaryKeyIndex b).getD 0
  have hsorted : (sortById primaryKeyIndex unsorted).Pairwise fun a b ↦ le a b = true := by
    apply List.pairwise_mergeSort
    · intro a b c hab hbc
      exact decide_eq_true (Int.le_trans (of_decide_eq_true hab) (of_decide_eq_true hbc))
    · intro a b
      rw [Bool.or_eq_true, decide_eq_true_eq, decide_eq_true_eq]
      exact Int.le_total _ _
  have hgetD : picked.map (fun row ↦ (rowId primaryKeyIndex row).getD 0) = ids := by
    have := congrArg (List.map (·.getD 0)) hids
    rwa [List.map_map, List.map_map, show (fun id : Option Int ↦ id.getD 0) ∘ some = id from rfl,
      List.map_id] at this
  have hpicked : picked.Pairwise fun a b ↦ le a b = true := by
    rw [← hgetD, List.pairwise_map] at hasc
    exact hasc.imp fun h ↦ decide_eq_true (Int.le_of_lt h)
  have hnodup : (picked.map fun row ↦ (rowId primaryKeyIndex row).getD 0).Nodup := by
    rw [hgetD]
    exact hasc.imp fun h ↦ Int.ne_of_lt h
  have hall : picked.Perm (sortById primaryKeyIndex unsorted) :=
    hperm.trans (List.mergeSort_perm unsorted _).symm
  refine List.Perm.eq_of_pairwise (fun a b ha hb hab hba ↦ ?_) hpicked hsorted hall
  have heq := Int.le_antisymm (of_decide_eq_true hab) (of_decide_eq_true hba)
  exact List.inj_on_of_nodup_map hnodup ha (hall.mem_iff.mpr hb) heq

/-- The condition on the key of a row is the condition on its cell. -/
theorem rowMatches_eq_decide {operator : WhereOperator} {value : Bytes} {v : Int}
    {cells : List Bytes} (hint : columnType schema primaryKeyIndex = .int)
    (hval : strtolInt value = some v) (hid : rowId primaryKeyIndex cells ≠ none) :
    rowMatches primaryKeyIndex operator v cells =
      decide (Satisfies (columnType schema primaryKeyIndex) operator value
        (cells.getD primaryKeyIndex [])) := by
  obtain ⟨id, hid⟩ := Option.ne_none_iff_exists'.mp hid
  rw [rowMatches, hid, hint]
  simp only [satisfies_int hid hval, Bool.decide_eq_true]

/-! ### Access by index -/

/-- The rows that the index gives are the matching rows of the relation in the order of their
ids. -/
theorem map_picked_eq_sortById {index : PkIndex} {sorted : List (Nat × List Bytes)} {v : Int}
    (hint : columnType schema primaryKeyIndex = .int)
    (hval : strtolInt statement.whereValue.text = some v)
    (hindex : Indexes primaryKeyIndex rows index)
    (hsorted : List.Forall₂ (IsEntry primaryKeyIndex) index.entries sorted)
    (hperm : sorted.Perm rows) (hrows : rows.map Prod.snd = r.rows) :
    (sorted.filter (rowMatches primaryKeyIndex statement.whereOperator v ·.2)).map Prod.snd =
      sortById primaryKeyIndex (r.matching schema statement primaryKeyIndex) := by
  have hpicked := forall₂_filter hsorted statement.whereOperator v
  obtain ⟨ids, hids, hasc⟩ := exists_ids_of_forall₂
    (index.sortedKeys_entries.sublist List.filter_sublist) hpicked
  have hreadable : ∀ row ∈ rows, rowId primaryKeyIndex row.2 ≠ none := fun row hm hnone ↦
    hindex.uniqueIds.readable (List.mem_map.mpr ⟨row, hm, hnone⟩)
  refine eq_sortById ?_ hasc ?_
  · rw [List.map_map]
    exact hids
  · have hmatch : r.matching schema statement primaryKeyIndex =
        (rows.filter (rowMatches primaryKeyIndex statement.whereOperator v ·.2)).map Prod.snd := by
      rw [Relation.matching, ← hrows, List.filter_map]
      congr 1
      apply List.filter_congr
      intro row hm
      exact (rowMatches_eq_decide hint hval (hreadable row hm)).symm
    rw [hmatch]
    exact (hperm.filter _).map _

/-! ### The statement -/

/-- Printing leaves the tables alone. -/
theorem Represents.print (h : Represents config schema w r rows) (output : List Output) :
    Represents config schema (w.print output) r rows := h.congr rfl

theorem shown_eq (banner : List Output) (rows : List (Nat × List Bytes)) :
    shown schema selected banner (rows.map Prod.snd) =
      banner ++ (headerOutput schema selected :: rows.map (rowOutput selected) ++ [.elapsed]) := by
  rw [shown, List.map_map, List.append_assoc]
  rfl

/-- A SELECT that does not use the index scans the file. -/
theorem executeSelectWhere_scan
    (hne : ¬ (schema.primaryKeyIndex = some column ∧ statement.whereOperator ≠ .notEqual)) :
    executeSelectWhere config schema statement selected column =
      executeSelectWithScan config schema statement selected column := by
  unfold executeSelectWhere
  by_cases hp : schema.primaryKeyIndex = some column
  · have ho : statement.whereOperator = .notEqual := by
      by_contra ho
      exact hne ⟨hp, ho⟩
    simp [ho]
  · simp [hp]

/-- A scan prints the matching rows in the order of the file. -/
theorem executeSelectWithScan_spec (h : Represents config schema w r rows)
    (hw : resolveWhereColumn schema statement = .ok column) :
    executeSelectWithScan config schema statement selected column w = (.ok (),
      w.print (scanBanner statement :: headerOutput schema selected ::
        (matchingRows schema column statement.whereOperator statement.whereValue.text rows).map
          (rowOutput selected))) := by
  have hbanner : onDisk (printLine (text "[SCAN] " ++
      whereText statement (whereOperatorText statement.whereOperator))) w =
        (.ok (), w.print [scanBanner statement]) := onDisk_print (printLine_apply ..)
  let keep (cells : List Bytes) : Bool := Satisfies (columnType schema column)
    statement.whereOperator statement.whereValue.text (cells.getD column [])
  have hkeep : ∀ row ∈ rows, csvValueMatchesWhere schema row.2 column statement.whereOperator
      statement.whereValue = some (keep row.2) := by
    intro row hm
    apply csvValueMatchesWhere_eq hw
    intro hint
    have hrow : row.2 ∈ r.rows := by
      rw [← h.rows_eq]
      exact List.mem_map_of_mem hm
    obtain ⟨id, hid⟩ := Option.isSome_iff_exists.mp (h.typed _ hrow column hint)
    exact ⟨id, intOrEmptyCell_iff.mpr hid⟩
  have hscan := storagePrintRowsWhereEquals_readable (w := w.print [scanBanner statement])
    h.file.readable hkeep selected
  rw [executeSelectWithScan, Exec.bind_ok hbanner, onDisk_print hscan, World.print_print]
  rfl

/-- A SELECT with an accepted list of columns. -/
theorem executeSelect_apply
    (hschema : loadTableSchema w.disk.files config.schemaDir statement.tableName = .ok schema)
    (hsel : resolveSelectedColumns schema statement = .ok selected) :
    executeSelect config statement w =
      if statement.hasWhere then
        (do
          let column ← Exec.lift (resolveWhereColumn schema statement)
          executeSelectWhere config schema statement selected column
          printElapsed) w
      else
        (do
          onDisk (storagePrintRows config schema selected)
          printElapsed) w := by
  rw [executeSelect, Exec.bind_ok (Exec.get_apply w),
    Exec.bind_ok (by rw [Exec.lift_apply, hschema]), Exec.bind_ok (by rw [Exec.lift_apply, hsel])]
  cases statement.hasWhere <;> rfl

section Statement

variable (hslots : SlotsOf owners w)
  (hschema : loadTableSchema w.disk.files config.schemaDir schema.tableName = .ok schema)
  (h : Represents config schema w r rows) (hn : statement.tableName = schema.tableName)

include hslots hschema h hn

/-- A SELECT of unknown columns, or with a condition that cannot be compared, is refused. -/
theorem answers_refused (hr : (∀ selected, resolveSelectedColumns schema statement ≠ .ok selected) ∨
      statement.hasWhere = true ∧ ∀ column, resolveWhereColumn schema statement ≠ .ok column) :
    Answers config owners schema w (executeSelect config statement w) none r := by
  rw [← hn] at hschema
  have hrun : ∃ e, executeSelect config statement w = (.error e, w) := by
    cases hsel : resolveSelectedColumns schema statement with
    | error e =>
      rw [executeSelect, Exec.bind_ok (Exec.get_apply w),
        Exec.bind_ok (by rw [Exec.lift_apply, hschema]),
        Exec.bind_error (by rw [Exec.lift_apply, hsel])]
      exact ⟨e, rfl⟩
    | ok selected =>
      obtain ⟨hwhere, hnot⟩ := hr.resolve_left fun hnot ↦ hnot selected hsel
      rw [executeSelect_apply hschema hsel, if_pos hwhere]
      cases hw : resolveWhereColumn schema statement with
      | error e => exact ⟨e, Exec.bind_error (Exec.lift_apply _ w) _⟩
      | ok column => exact absurd hw (hnot column)
  obtain ⟨e, he⟩ := hrun
  rw [he]
  exact answers_error rfl h hslots

/-- Without a condition all rows are shown. -/
theorem answers_all (hsel : resolveSelectedColumns schema statement = .ok selected)
    (hwhere : statement.hasWhere = false) :
    Answers config owners schema w (executeSelect config statement w)
      (some (shown schema selected [] r.rows)) r := by
  rw [← hn] at hschema
  have hrows : storagePrintRows config schema selected w.disk =
      (.ok (), w.disk.print (headerOutput schema selected :: rows.map (rowOutput selected))) := by
    have hf := h.file
    generalize hfile : w.file config schema.tableName = file at hf
    cases hf with
    | missing hq =>
      rw [World.file] at hfile
      rw [storagePrintRows, Exec.bind_ok (Exec.get_apply w.disk), hfile]
      rfl
    | file content rows hh hr => exact storagePrintRows_spec hfile hh hr selected
  have hrun : executeSelect config statement w =
      (.ok (), w.print (shown schema selected [] r.rows)) := by
    rw [executeSelect_apply hschema hsel, hwhere, if_neg Bool.false_ne_true,
      Exec.bind_ok (onDisk_print hrows), ← h.rows_eq, shown_eq, List.nil_append,
      ← World.print_print]
    rfl
  rw [hrun]
  exact ⟨rfl, rfl, ⟨rows, h.print _⟩, hslots.congr rfl⟩

/-- With a condition that is not on the key, or is `!=`, the matching rows are shown in their
order. -/
theorem answers_scan (hsel : resolveSelectedColumns schema statement = .ok selected)
    (hwhere : statement.hasWhere = true)
    (hw : resolveWhereColumn schema statement = .ok column)
    (hne : ¬ (schema.primaryKeyIndex = some column ∧ statement.whereOperator ≠ .notEqual)) :
    Answers config owners schema w (executeSelect config statement w)
      (some (shown schema selected [scanBanner statement] (r.matching schema statement column)))
      r := by
  rw [← hn] at hschema
  have hmatch : r.matching schema statement column =
      (matchingRows schema column statement.whereOperator statement.whereValue.text rows).map
        Prod.snd := by
    rw [Relation.matching, ← h.rows_eq, List.filter_map]
    rfl
  have hrun : executeSelect config statement w = (.ok (), w.print (shown schema selected
      [scanBanner statement] (r.matching schema statement column))) := by
    rw [executeSelect_apply hschema hsel, if_pos hwhere,
      Exec.bind_ok (by rw [Exec.lift_apply, hw]), executeSelectWhere_scan hne,
      Exec.bind_ok (executeSelectWithScan_spec h hw), hmatch, shown_eq, ← List.append_assoc,
      ← World.print_print]
    rfl
  rw [hrun]
  exact ⟨rfl, rfl, ⟨rows, h.print _⟩, hslots.congr rfl⟩

variable (hm : ∀ k ∈ schema.primaryKeyIndex, tableKey config schema ∈ owners)
  (hmax : owners.length ≤ executorMaxTableStates)

include hm hmax

/-- With another condition on the key the matching rows are shown in the order of their ids. -/
theorem answers_onKey (hsel : resolveSelectedColumns schema statement = .ok selected)
    (hwhere : statement.hasWhere = true)
    (hw : resolveWhereColumn schema statement = .ok column)
    (hp : schema.primaryKeyIndex = some column) (ho : statement.whereOperator ≠ .notEqual) :
    Answers config owners schema w (executeSelect config statement w)
      (some (shown schema selected
        [keyBanner statement (r.matching schema statement column).length]
        (sortById column (r.matching schema statement column)))) r := by
  obtain ⟨hv, -⟩ := loadTableSchema_valid hschema
  obtain ⟨slot, hs, hholds⟩ := h.exists_obtainSlot hp (hslots.hasRoom (hm _ hp) hmax)
  obtain ⟨index, hi, hindex⟩ := hholds.index
  have hcolumn := hv.primaryKey _ hp
  have hint : columnType schema column = .int := by rw [columnType, hcolumn]
  obtain ⟨hfind, hcompares⟩ := resolveWhereColumn_eq_ok_iff.mp hw
  rw [hint] at hcompares
  obtain ⟨v, hval⟩ := Option.isSome_iff_exists.mp hcompares.2
  obtain ⟨found, hfound, hname⟩ := name_of_findSchemaColumn hfind
  obtain rfl := Option.some.inj (hcolumn.symm.trans hfound)
  have hk : KeySelect schema statement selected v :=
    ⟨hn, hsel, hwhere, hname.symm, hcompares.1, hval, ho⟩
  obtain ⟨sorted, hsorted, hperm⟩ := hindex.exists_sorted
  have hpicked := map_picked_eq_sortById hint hval hindex hsorted hperm h.rows_eq
  have hlen : (sorted.filter (rowMatches column statement.whereOperator v ·.2)).length =
      (r.matching schema statement column).length := by
    rw [← List.length_map Prod.snd, hpicked]
    exact (List.mergeSort_perm _ _).length_eq
  have hrun := executeSelect_onKey hschema hp hk hs hi h.file.readable hsorted hperm.subset
  simp only [hlen] at hrun
  rw [hrun, ← hpicked, shown_eq]
  refine ⟨rfl, ?_, ⟨rows, (h.opened hp hs hholds).print _⟩, ((hslots.opened (hm _ hp)).congr rfl)⟩
  rw [World.print, opened_disk]
  rfl

/-- A SELECT prints what it shows of the relation. -/
theorem answers_executeSelect :
    Answers config owners schema w (executeSelect config statement w) (r.select schema statement)
      r := by
  unfold Relation.select
  cases hsel : selectedColumns schema statement with
  | none =>
    refine answers_refused hslots hschema h hn (Or.inl fun selected hok ↦ ?_)
    rw [resolveSelectedColumns_eq_ok_iff.mp hok] at hsel
    cases hsel
  | some selected =>
    rw [← resolveSelectedColumns_eq_ok_iff] at hsel
    cases hwhere : statement.hasWhere with
    | false => exact answers_all hslots hschema h hn hsel hwhere
    | true =>
      simp only [Option.bind_eq_bind, Option.bind_some, if_true]
      cases hf : findSchemaColumn schema statement.whereColumn with
      | none =>
        refine answers_refused hslots hschema h hn (Or.inr ⟨hwhere, fun column hok ↦ ?_⟩)
        rw [(resolveWhereColumn_eq_ok_iff.mp hok).1] at hf
        cases hf
      | some column =>
        rw [Option.bind_some]
        split
        · next hcompares =>
          have hw := resolveWhereColumn_eq_ok_iff.mpr ⟨hf, hcompares⟩
          split
          · next hkey =>
            exact answers_onKey hslots hschema h hn hm hmax hsel hwhere hw hkey.1 hkey.2
          · next hkey => exact answers_scan hslots hschema h hn hsel hwhere hw hkey
        · next hcompares =>
          refine answers_refused hslots hschema h hn (Or.inr ⟨hwhere, fun column' hok ↦ ?_⟩)
          obtain ⟨hf', hcompares'⟩ := resolveWhereColumn_eq_ok_iff.mp hok
          obtain rfl := Option.some.inj (hf.symm.trans hf')
          exact hcompares hcompares'

end Statement

end SqlProc.Relational
