import SqlProc.App.Benchmark
import SqlProc.Front.Scripts
import SqlProc.Relational.Process
import SqlProc.Relational.Programs

/-!
# The benchmark finds its target

Library `Relational`. The benchmark makes a table of users and looks for one of them by its id and
by its name. Every lookup, in whatever order, prints the row of the target and nothing else.
-/

namespace SqlProc.Relational

open Base Front Schema Storage Executor App Support

variable {r : Relation} {n target i : Nat}

/-! ### The table of users -/

/-- The rows of the workload. -/
def workloadRows (n : Nat) : List (List Bytes) := (List.range' 1 n).map workloadRow

theorem strtolInt_decimal (hi : i ≤ 2147483647) : strtolInt (decimal i) = some (i : Int) :=
  @strtolInt_snprintfInt i (by simp only [intMin]; omega) (by simp only [intMax]; omega)

theorem rowId_workloadRow (hi : i ≤ 2147483647) : rowId 0 (workloadRow i) = some (i : Int) :=
  strtolInt_decimal hi

theorem typed_workloadRow (hi : i ≤ 2147483647) : Typed usersSchema (workloadRow i) := by
  intro column hcolumn
  match column with
  | 0 => exact Option.isSome_of_eq_some (strtolInt_decimal hi)
  | 1 => cases hcolumn
  | 2 =>
    have hage : 20 + i % 50 ≤ 2147483647 := by omega
    exact Option.isSome_of_eq_some (strtolInt_decimal hage)
  | column + 3 => rfl

theorem le_of_mem_workload (hn : n ≤ 2147483647) (hi : i ∈ List.range' 1 n) : i ≤ 2147483647 := by
  obtain ⟨-, hlt⟩ := List.mem_range'_1.mp hi
  omega

/-- The ids of the rows are the numbers from one on. -/
theorem map_rowId_workloadRows (hn : n ≤ 2147483647) :
    (workloadRows n).map (rowId 0) = (List.range' 1 n).map fun i : Nat ↦ some (i : Int) := by
  rw [workloadRows, List.map_map]
  exact List.map_congr_left fun i hi ↦ rowId_workloadRow (le_of_mem_workload hn hi)

theorem uniqueIds_workloadRows {rows : List (Nat × List Bytes)} (hn : n ≤ 2147483647)
    (hrows : rows.map Prod.snd = workloadRows n) : UniqueIds 0 rows := by
  have hids : (rows.map fun row ↦ rowId 0 row.2) =
      (List.range' 1 n).map fun i : Nat ↦ some (i : Int) := by
    rw [← map_rowId_workloadRows hn, ← hrows, List.map_map]
    rfl
  refine ⟨?_, ?_⟩
  · rw [hids]
    apply List.Nodup.map _ List.nodup_range'
    intro i j h
    exact Int.ofNat.inj (Option.some.inj h)
  · rw [hids, List.mem_map]
    rintro ⟨i, -, h⟩
    cases h

/-- Only the row of the target satisfies a condition that tells it from the others. -/
theorem filter_workloadRows {p : List Bytes → Bool} (ht : target ∈ List.range' 1 n)
    (hp : ∀ i ∈ List.range' 1 n, p (workloadRow i) = true ↔ i = target) :
    (workloadRows n).filter p = [workloadRow target] := by
  have hfilter : (List.range' 1 n).filter (p ∘ workloadRow) =
      (List.range' 1 n).filter (· = target) := by
    apply List.filter_congr
    intro i hi
    exact Bool.eq_iff_iff.mpr ((hp i hi).trans decide_eq_true_iff.symm)
  rw [workloadRows, List.filter_map, hfilter, List.filter_eq,
    List.count_eq_one_of_mem List.nodup_range' ht]
  rfl

/-! ### The lookups -/

theorem isIdentifier_users : IsIdentifier (text "users") := by decide +kernel

/-- The name of the table. -/
def usersTable : Identifier := ⟨text "users", isIdentifier_users⟩

/-- `SELECT * FROM users WHERE column = value;` -/
def lookup (column : Identifier) (value : Literal) : Program where
  commands := [.select
    { table := usersTable
      columns := none
      condition := some ⟨column, .equal, value⟩
      columns_ne_nil := star_ne_nil
      length_columns_le := star_length_le }]
  commands_ne_nil := List.cons_ne_nil _ _
  length_commands_le := (by decide : 1 ≤ maxStatements)
  length_lexemes_lt := (by decide : 9 < maxTokens)

/-- The statement of a lookup. -/
def lookupStatement (column : Identifier) (value : Literal) : SelectStatement :=
  selectStatement (text "users") none (some (column.columnName, .equal, value.literalValue))

/-- The text of a lookup. -/
theorem spelled_lookup {column : Identifier} {value : Literal} {spelledColumn spelledValue : Bytes}
    (hc : Spells (.identifier column) spelledColumn) (hv : Spells (.literal value) spelledValue) :
    Spelled (lookup column value) (text "SELECT * FROM users WHERE " ++
      (spelledColumn ++ (text " = " ++ (spelledValue ++ text ";\n")))) := by
  have hselect : ∀ rest, text "SELECT * FROM users WHERE " ++ rest = text "" ++ (text "SELECT" ++
      (text " " ++ (text "*" ++ (text " " ++ (text "FROM" ++ (text " " ++ (text "users" ++
        (text " " ++ (text "WHERE" ++ (text " " ++ rest)))))))))) := fun _ ↦ rfl
  have hequal : ∀ rest, text " = " ++ rest = text " " ++ (text "=" ++ (text " " ++ rest)) :=
    fun _ ↦ rfl
  have hend : text ";\n" = text "" ++ (text ";" ++ text "\n") := rfl
  rw [Spelled, hselect, hequal, hend]
  refine .cons _ _ _ _ _ (by decide +kernel) (spells_keyword (by decide +kernel)) ?_ fun _ _ ↦ rfl
  refine .cons _ _ _ _ _ (by decide +kernel) (.symbol _ (by decide)) ?_ fun _ _ ↦ rfl
  refine .cons _ _ _ _ _ (by decide +kernel) (spells_keyword (by decide +kernel)) ?_ fun _ _ ↦ rfl
  refine .cons _ _ _ _ _ (by decide +kernel) (.identifier usersTable _ (by decide +kernel)) ?_
    fun _ _ ↦ rfl
  refine .cons _ _ _ _ _ (by decide +kernel) (spells_keyword (by decide +kernel)) ?_ fun _ _ ↦ rfl
  refine .cons _ _ _ _ _ (by decide +kernel) hc ?_ fun _ _ ↦ rfl
  refine .cons _ _ _ _ _ (by decide +kernel) (.symbol .equal (by decide)) ?_ fun _ _ ↦ rfl
  refine .cons _ _ _ _ _ (by decide +kernel) hv ?_ fun _ h ↦ by cases h
  refine .cons _ _ _ _ _ (by decide +kernel) (.symbol _ (by decide)) ?_ fun _ h ↦ by cases h
  exact .nil _ (by decide +kernel)

/-! ### What the lookups show -/

/-- The column of the ids. -/
def idColumn : Identifier := ⟨text "id", by decide +kernel⟩

/-- The column of the names. -/
def nameColumn : Identifier := ⟨text "name", by decide +kernel⟩

theorem isInteger_decimal (hi : i ≤ 2147483647) : IsInteger (decimal i) := by
  have hlen : (decimal i).length ≤ 10 := length_decimal_le (by decide) (by omega)
  have hdigits : ∀ c ∈ decimal i, isdigit c = true := fun c hc ↦ isdigit_of_mem_decimal hc
  refine ⟨?_, fun c hc ↦ hdigits c (List.mem_of_mem_tail hc), Nat.lt_of_le_of_lt hlen (by decide)⟩
  obtain ⟨c, digits, hcons⟩ := List.exists_cons_of_ne_nil (decimal_ne_nil i)
  rw [startsNumber, hcons, List.headD_cons, hdigits c (by rw [hcons]; exact List.mem_cons_self)]
  rfl

theorem isString_userName (hi : i ≤ 2147483647) : IsString (text "user" ++ decimal i) := by
  have hmem : text "user" ++ decimal i ∈ workloadRow i :=
    List.mem_cons_of_mem _ List.mem_cons_self
  obtain ⟨hword, hlen⟩ := workloadRow_cell hi hmem
  exact ⟨⟨oneLine_of_forall hword rfl rfl rfl, Nat.lt_of_le_of_lt hlen (by decide)⟩,
    notMem_of_forall hword rfl⟩

/-- The value that the lookup by the id of a user compares. -/
def idLiteral (hi : i ≤ 2147483647) : Literal := .int (decimal i) (isInteger_decimal hi)

/-- The value that the lookup by the name of a user compares. -/
def nameLiteral (hi : i ≤ 2147483647) : Literal :=
  .string (text "user" ++ decimal i) (isString_userName hi)

/-- What a lookup prints: how the row was found, the header, the row of the target, and the
elapsed time. -/
def targetShown (banner : Bytes) (target : Nat) : List Output :=
  [.line banner, headerOutput usersSchema [0, 1, 2],
    .line (selectedText (workloadRow target) [0, 1, 2]), .elapsed]

/-- The text of the lookup by the id of a user. -/
def pkText (i : Nat) : Bytes := text "SELECT * FROM users WHERE id = " ++ decimal i ++ text ";\n"

/-- The text of the lookup by the name of a user. -/
def nonPkText (i : Nat) : Bytes :=
  text "SELECT * FROM users WHERE name = 'user" ++ decimal i ++ text "';\n"

theorem spelled_pkText (hi : i ≤ 2147483647) :
    Spelled (lookup idColumn (idLiteral hi)) (pkText i) := by
  have hspelled := spelled_lookup (.identifier idColumn (text "id") (by decide +kernel))
    (.int (decimal i) (isInteger_decimal hi))
  have hsplit : text "SELECT * FROM users WHERE id = " =
      text "SELECT * FROM users WHERE " ++ (text "id" ++ text " = ") := by decide +kernel
  rw [pkText, hsplit]
  simp only [List.append_assoc]
  exact hspelled

theorem spelled_nonPkText (hi : i ≤ 2147483647) :
    Spelled (lookup nameColumn (nameLiteral hi)) (nonPkText i) := by
  have hspelled := spelled_lookup (.identifier nameColumn (text "name") (by decide +kernel))
    (.string (text "user" ++ decimal i) (isString_userName hi))
  have hsplit : text "SELECT * FROM users WHERE name = 'user" =
      text "SELECT * FROM users WHERE " ++
        (text "name" ++ (text " = " ++ (squote :: text "user"))) := by decide +kernel
  have hend : text "';\n" = squote :: text ";\n" := by decide +kernel
  rw [nonPkText, hsplit, hend]
  simp only [List.append_assoc, List.cons_append, List.nil_append] at hspelled ⊢
  exact hspelled

theorem decimal_inj (h : decimal i = decimal n) : i = n := by
  rw [← digitsValue_decimal i, h, digitsValue_decimal]

/-- A SELECT with a condition that can be compared. -/
theorem Relation.select_where {schema : TableSchema} {statement : SelectStatement}
    {selected : List Nat} {column : Nat} {rows : List (List Bytes)}
    (hselected : selectedColumns schema statement = some selected)
    (hwhere : statement.hasWhere = true)
    (hcolumn : findSchemaColumn schema statement.whereColumn = some column)
    (hcompares : Compares (columnType schema column) statement.whereOperator statement.whereValue)
    (hrows : r.matching schema statement column = rows) :
    r.select schema statement =
      if schema.primaryKeyIndex = some column ∧ statement.whereOperator ≠ .notEqual then
        some (shown schema selected [keyBanner statement rows.length] (sortById column rows))
      else some (shown schema selected [scanBanner statement] rows) := by
  simp only [Relation.select, hselected, hwhere, hcolumn, hcompares, hrows, if_true,
    Option.bind_eq_bind, Option.bind_some]

/-- By its id the target is found in the index. -/
theorem select_pkLookup (hn : n ≤ 2147483647) (ht : target ∈ List.range' 1 n)
    (hr : r.rows = workloadRows n) (hi : target ≤ 2147483647) :
    r.select usersSchema (lookupStatement idColumn (idLiteral hi)) =
      some (targetShown (text "[INDEX] WHERE id = " ++ decimal target) target) := by
  have hmatching : r.matching usersSchema (lookupStatement idColumn (idLiteral hi)) 0 =
      [workloadRow target] := by
    rw [Relation.matching, hr]
    apply filter_workloadRows ht
    intro i hmem
    rw [decide_eq_true_iff]
    change Satisfies .int .equal (decimal target) (decimal i) ↔ i = target
    rw [satisfies_int (strtolInt_decimal (le_of_mem_workload hn hmem)) (strtolInt_decimal hi),
      keyMatches, decide_eq_true_iff]
    exact Int.ofNat_inj
  have hselect := @Relation.select_where r usersSchema (lookupStatement idColumn (idLiteral hi))
    [0, 1, 2] 0 _ rfl rfl rfl ⟨rfl, Option.isSome_of_eq_some (strtolInt_decimal hi)⟩ hmatching
  rw [hselect, if_pos ⟨rfl, by rintro ⟨⟩⟩, sortById, List.mergeSort_singleton]
  rfl

/-- By its name the target is found in the file. -/
theorem select_nonPkLookup (ht : target ∈ List.range' 1 n) (hr : r.rows = workloadRows n)
    (hi : target ≤ 2147483647) :
    r.select usersSchema (lookupStatement nameColumn (nameLiteral hi)) =
      some (targetShown (text "[SCAN] WHERE name = user" ++ decimal target) target) := by
  have hmatching : r.matching usersSchema (lookupStatement nameColumn (nameLiteral hi)) 1 =
      [workloadRow target] := by
    rw [Relation.matching, hr]
    apply filter_workloadRows ht
    intro i _
    rw [decide_eq_true_iff]
    change text "user" ++ decimal i = text "user" ++ decimal target ↔ i = target
    exact ⟨fun h ↦ decimal_inj (List.append_cancel_left h), fun h ↦ by rw [h]⟩
  have hselect := @Relation.select_where r usersSchema
    (lookupStatement nameColumn (nameLiteral hi)) [0, 1, 2] 1 _ rfl rfl rfl ⟨rfl, Or.inl rfl⟩
    hmatching
  rw [hselect, if_neg fun h ↦ by cases h.1]
  rfl

/-! ### The workspace -/

variable {config : AppConfig} {w w' : World}

/-- The configuration of the lookups of a benchmark. -/
abbrev lookupConfig (config : AppConfig) : AppConfig :=
  benchmarkConfig (prepareBenchmarkWorkspace config)

/-- The process finds the schema, the rows and the lookups of a workload in its workspace. -/
structure HoldsWorkload (config : AppConfig) (n : Nat) (w : World) : Prop where
  loads : loadTableSchema w.disk.files (lookupConfig config).schemaDir usersSchema.tableName =
    .ok usersSchema
  slots : SlotsOf [tableKey (lookupConfig config) usersSchema] w
  represents : ∃ r rows, Represents (lookupConfig config) usersSchema w r rows ∧
    r.rows = workloadRows n
  pkSql : w.disk.files (prepareBenchmarkWorkspace config).pkSqlPath =
    some (pkText (workloadTarget n))
  nonPkSql : w.disk.files (prepareBenchmarkWorkspace config).nonPkSqlPath =
    some (nonPkText (workloadTarget n))

/-- The files of the lookups are not the data file. -/
theorem sqlPath_ne_tablePath {path : Bytes}
    (h : path = (prepareBenchmarkWorkspace config).pkSqlPath ∨
      path = (prepareBenchmarkWorkspace config).nonPkSqlPath) :
    path ≠ tablePath (lookupConfig config) usersSchema.tableName := by
  rw [prepareBenchmarkWorkspace_eq] at h
  rw [tablePath_eq _ (by decide)]
  intro hpath
  have hcsv : (text ".csv").getLast? = some 118 := rfl
  have hpk : (text "/pk_lookup.sql").getLast? = some 108 := rfl
  have hnonPk : (text "/non_pk_lookup.sql").getLast? = some 108 := rfl
  have hlast := congrArg List.getLast? hpath
  rcases h with rfl | rfl <;>
  · simp only [List.getLast?_append, hpk, hnonPk, hcsv, Option.some_or] at hlast
    cases hlast

/-- Standard output is not part of the workspace. -/
theorem HoldsWorkload.setStdout (h : HoldsWorkload config n w) (stdout : List Output) :
    HoldsWorkload config n { w with disk := { w.disk with stdout } } := by
  obtain ⟨r, rows, hrows, hr⟩ := h.represents
  exact ⟨h.loads, h.slots.congr rfl, ⟨r, rows, hrows.congr rfl, hr⟩, h.pkSql, h.nonPkSql⟩

/-- A program of one SELECT is read as that SELECT. -/
theorem exists_select {parsed : SqlProgram} {statement : SelectStatement}
    (h : parsed.map Statement.erase = [.select noLocation statement]) :
    ∃ location statement', parsed = [.select location statement'] ∧
      (Statement.select location statement').erase = .select noLocation statement := by
  obtain ⟨first, hparsed, herase⟩ := List.map_eq_singleton_iff.mp h
  cases first with
  | insert location statement' => cases herase
  | select location statement' => exact ⟨location, statement', hparsed, herase⟩

/-- A lookup has printed its output, and kept the workspace; it leaves the other files alone. -/
structure Looked (config : AppConfig) (n : Nat) (w w' : World) (output : List Output) : Prop where
  printed : w'.disk.stdout = w.disk.stdout ++ output
  holds : HoldsWorkload config n w'
  touches : Touches (lookupConfig config) usersSchema.tableName w w'

/-- A lookup shows what it selects of the rows. -/
theorem HoldsWorkload.runSqlText (h : HoldsWorkload config n w) {column : Identifier}
    {value : Literal} {sqlText : Bytes} {output : List Output}
    (hs : Spelled (lookup column value) sqlText)
    (hshown : ∀ r : Relation, r.rows = workloadRows n →
      r.select usersSchema (lookupStatement column value) = some output) :
    ∃ w', App.runSqlText (lookupConfig config) sqlText w = (.ok (), w') ∧
      Looked config n w w' output := by
  obtain ⟨parsed, hparsed, hmeaning⟩ := hs.parsed
  obtain ⟨location, statement, rfl, herase⟩ := exists_select hmeaning
  obtain ⟨r, rows, hrows, hr⟩ := h.represents
  have herased := (Statement.select.inj herase).2
  have htable : statement.tableName = usersSchema.tableName :=
    congrArg SelectStatement.tableName herased
  have htable' : statementTable (.select location statement) = usersSchema.tableName := htable
  have hlen : usersSchema.tableName.length < maxNameLen := by decide
  have hanswers := answers_executeSelect h.slots h.loads hrows htable
    (fun _ _ ↦ List.mem_singleton_self _) (by decide : 1 ≤ executorMaxTableStates)
  have htouch := touches_executeStatement (lookupConfig config) (by rw [htable']; exact hlen) w
  rw [htable'] at htouch
  have hselect : r.select usersSchema statement = some output := by
    rw [← select_erase, herased]
    exact hshown r hr
  have hrun : App.runSqlText (lookupConfig config) sqlText w =
      (executeSelect (lookupConfig config) statement >>= fun _ ↦ pure ()) w := by
    rw [runSqlText_apply, hparsed]
    rfl
  rw [hselect] at hanswers
  rw [hrun, Exec.bind_apply]
  change Touches _ _ w (executeSelect (lookupConfig config) statement w).2 at htouch
  generalize executeSelect (lookupConfig config) statement w = run at hanswers htouch ⊢
  obtain ⟨result, w'⟩ := run
  obtain ⟨hresult, hprinted, hrepresents, hslots⟩ := hanswers
  cases result with
  | error e => cases hresult
  | ok u =>
    obtain ⟨rows', hrows'⟩ := hrepresents
    refine ⟨w', rfl, hprinted, ?_, htouch⟩
    refine ⟨htouch.schema_eq hlen h.loads, hslots, ⟨r, rows', hrows', hr⟩, ?_, ?_⟩
    · rw [htouch.files _ (sqlPath_ne_tablePath (Or.inl rfl))]
      exact h.pkSql
    · rw [htouch.files _ (sqlPath_ne_tablePath (Or.inr rfl))]
      exact h.nonPkSql

/-! ### The files of a benchmark -/

theorem length_pkText_lt (hi : i ≤ 2147483647) : (pkText i).length < maxSqlSize := by
  have hlen : (decimal i).length ≤ 10 := length_decimal_le (by decide) (by omega)
  have hstart : (text "SELECT * FROM users WHERE id = ").length = 31 := by decide +kernel
  have hend : (text ";\n").length = 2 := by decide +kernel
  rw [pkText, List.length_append, List.length_append, hstart, hend]
  simp only [maxSqlSize]
  omega

theorem length_nonPkText_lt (hi : i ≤ 2147483647) : (nonPkText i).length < maxSqlSize := by
  have hlen : (decimal i).length ≤ 10 := length_decimal_le (by decide) (by omega)
  have hstart : (text "SELECT * FROM users WHERE name = 'user").length = 38 := by decide +kernel
  have hend : (text "';\n").length = 3 := by decide +kernel
  rw [nonPkText, List.length_append, List.length_append, hstart, hend]
  simp only [maxSqlSize]
  omega

/-- The files of the lookups hold their texts, and nothing is printed. -/
theorem buildBenchmarkFiles_sql {disk disk' : Disk} (ht : target ≤ 2147483647)
    (h : buildBenchmarkFiles (prepareBenchmarkWorkspace config) n target disk = some disk') :
    disk'.files (prepareBenchmarkWorkspace config).pkSqlPath = some (pkText target) ∧
      disk'.files (prepareBenchmarkWorkspace config).nonPkSqlPath = some (nonPkText target) ∧
      disk'.stdout = disk.stdout := by
  have hpk : text "SELECT * FROM users WHERE id = " ++ snprintfInt target ++ text ";\n" =
      pkText target := rfl
  have hnonPk : text "SELECT * FROM users WHERE name = 'user" ++ snprintfInt target ++
      text "';\n" = nonPkText target := rfl
  have hne : (prepareBenchmarkWorkspace config).pkSqlPath ≠
      (prepareBenchmarkWorkspace config).nonPkSqlPath := by
    rw [prepareBenchmarkWorkspace_eq]
    exact fun hpath ↦ absurd (List.append_cancel_left hpath) (by decide)
  rw [buildBenchmarkFiles] at h
  cases hrows : generateRows n (n + 1) 1 with
  | none =>
    rw [hrows] at h
    cases h
  | some rows =>
    rw [hrows, Option.bind_eq_bind, Option.bind_some, hpk, hnonPk,
      snprintfStr_of_lt (length_pkText_lt ht), snprintfStr_of_lt (length_nonPkText_lt ht)] at h
    obtain rfl := Option.some.inj h
    refine ⟨?_, Disk.write_files_self .., rfl⟩
    rw [Disk.write_files_of_ne _ hne, Disk.write_files_self]

/-- The data file of a workload. -/
def workloadContent (n : Nat) : Bytes :=
  text "id,name,age\n" ++ (List.range' 1 n).flatMap fun i ↦ rowLine i ++ [lf]

theorem nul_notMem_workloadContent (hn : n ≤ 2147483647) : nul ∉ workloadContent n := by
  rw [workloadContent, List.mem_append, not_or]
  refine ⟨by decide +kernel, fun hm ↦ ?_⟩
  obtain ⟨i, hi, hm⟩ := List.mem_flatMap.mp hm
  have hone : OneLine (rowLine i) := oneLine_joinFields fun cell hcell ↦
    oneLine_of_forall (workloadRow_cell (le_of_mem_workload hn hi) hcell).1 rfl rfl rfl
  rw [List.mem_append, List.mem_singleton] at hm
  rcases hm with hm | hm
  · exact hone.nul_notMem hm
  · cases hm

/-- The scan of the data file finds the rows. -/
theorem fileHolds_workloadContent (hn : n ≤ 2147483647) : ∃ rows,
    FileHolds usersSchema (some (workloadContent n)) rows ∧
      rows.map Prod.snd = workloadRows n := by
  have hrows : FileRows usersSchema (workloadContent n) (workloadRows n) :=
    fileRows_of_rowLines fun i hi ↦ le_of_mem_workload hn hi
  obtain ⟨rows, hheader, htable, hmap⟩ :=
    (exists_tableRows_iff valid_usersSchema (nul_notMem_workloadContent hn)).mpr hrows
  exact ⟨rows, .file _ _ hheader htable, hmap.symm⟩

/-- A new process finds the rows in the data file, and no id is too large for another. -/
theorem represents_workload (hn : n < 2147483647) (hstates : w.tableStates = [])
    (hfile : w.file config usersSchema.tableName = some (workloadContent n)) :
    ∃ r rows, Represents config usersSchema w r rows ∧ r.rows = workloadRows n := by
  obtain ⟨rows, hholds, hmap⟩ := fileHolds_workloadContent (Nat.le_of_lt hn)
  rw [← hfile] at hholds
  refine ⟨_, rows, @represents_restarted config usersSchema w ⟨workloadRows n, 1⟩ rows
    (slot_eq_none hstates _) hholds hmap ?_ ?_ ?_, rfl⟩
  · intro row hm
    obtain ⟨i, hi, rfl⟩ := List.mem_map.mp hm
    exact typed_workloadRow (le_of_mem_workload (Nat.le_of_lt hn) hi)
  · rintro _ ⟨⟩
    exact uniqueIds_workloadRows (Nat.le_of_lt hn) hmap
  · rintro _ ⟨⟩ hm
    rw [map_rowId_workloadRows (Nat.le_of_lt hn)] at hm
    obtain ⟨i, hi, hid⟩ := List.mem_map.mp hm
    have hmax : (i : Int) = intMax := Option.some.inj hid
    obtain ⟨-, hlt⟩ := List.mem_range'_1.mp hi
    simp only [intMax] at hmax
    omega

/-- The directories of the workspace, when they are not cut. -/
theorem lookupConfig_eq (hdir : config.dataDir.length ≤ 237) :
    (lookupConfig config).schemaDir = (prepareBenchmarkWorkspace config).schemaDir ∧
      (lookupConfig config).dataDir = (prepareBenchmarkWorkspace config).dataDir ∧
      tablePath (lookupConfig config) usersSchema.tableName =
        (prepareBenchmarkWorkspace config).csvPath := by
  have hcopy : ∀ {path : Bytes}, path.length ≤ 18 →
      snprintfStr 256 (config.dataDir ++ path) = config.dataDir ++ path := by
    intro path hpath
    apply snprintfStr_of_lt
    rw [List.length_append]
    omega
  rw [tablePath_eq _ (by decide)]
  simp only [lookupConfig, benchmarkConfig, prepareBenchmarkWorkspace_eq]
  refine ⟨hcopy (by decide), hcopy (by decide), ?_⟩
  rw [hcopy (by decide)]
  simp only [List.append_assoc]
  rfl

/-- The files of a benchmark are its workspace. -/
theorem holdsWorkload_build {disk : Disk} (hdir : config.dataDir.length ≤ 237)
    (hn : n ≤ 238609294) (hstates : w.tableStates = [])
    (h : buildBenchmarkFiles (prepareBenchmarkWorkspace config) n (workloadTarget n) w.disk =
      some disk) :
    HoldsWorkload config n { w with disk } := by
  have htarget : workloadTarget n ≤ 2147483647 := by
    unfold workloadTarget
    omega
  have hlt : n < 2147483647 := by omega
  obtain ⟨hpk, hnonPk, -⟩ := buildBenchmarkFiles_sql htarget h
  obtain ⟨disk', hbuild, hload, hcsv⟩ :=
    @buildBenchmarkFiles_eq config n (workloadTarget n) w.disk hlt
  obtain rfl := Option.some.inj (hbuild.symm.trans h)
  obtain ⟨hschemaDir, -, hpath⟩ := lookupConfig_eq hdir
  have hfile : ({ w with disk := disk' } : World).file (lookupConfig config)
      usersSchema.tableName = some (workloadContent n) := by
    rw [World.file, hpath]
    exact hcsv
  refine ⟨?_, slotsOf_nil _ hstates, represents_workload hlt hstates hfile, hpk, hnonPk⟩
  rw [hschemaDir]
  exact hload

/-! ### The run of a benchmark -/

/-- The file of a lookup. -/
def IsLookup (config : AppConfig) (path : Bytes) : Prop :=
  path = (prepareBenchmarkWorkspace config).pkSqlPath ∨
    path = (prepareBenchmarkWorkspace config).nonPkSqlPath

/-- Both lookups print the row of the target, found in the index by its id and in the file by its
name. -/
structure FindsTarget (config : AppConfig) (target : Nat) (w : World) : Prop where
  pk : ∃ w', runSqlFile (lookupConfig config) (prepareBenchmarkWorkspace config).pkSqlPath w =
      (.ok (), w') ∧ w'.disk.stdout =
        w.disk.stdout ++ targetShown (text "[INDEX] WHERE id = " ++ decimal target) target
  nonPk : ∃ w', runSqlFile (lookupConfig config)
      (prepareBenchmarkWorkspace config).nonPkSqlPath w = (.ok (), w') ∧ w'.disk.stdout =
        w.disk.stdout ++ targetShown (text "[SCAN] WHERE name = user" ++ decimal target) target

/-- The target is one of the rows. -/
theorem workloadTarget_mem (hpos : 1 ≤ n) : workloadTarget n ∈ List.range' 1 n := by
  rw [List.mem_range'_1, workloadTarget]
  omega

/-- A file of a lookup is run as its text. -/
theorem HoldsWorkload.runSqlFile (h : HoldsWorkload config n w) {path sqlText : Bytes}
    {column : Identifier} {value : Literal} {output : List Output}
    (hfile : w.disk.files path = some sqlText) (hlen : sqlText.length < maxSqlSize)
    (hs : Spelled (lookup column value) sqlText)
    (hshown : ∀ r : Relation, r.rows = workloadRows n →
      r.select usersSchema (lookupStatement column value) = some output) :
    ∃ w', App.runSqlFile (lookupConfig config) path w = (.ok (), w') ∧
      Looked config n w w' output := by
  rw [runSqlFile_of_lt hfile hlen, cstr_eq_self (Writes.nul_notMem hs)]
  exact h.runSqlText hs hshown

section Lookups

variable (h : HoldsWorkload config n w) (hpos : 1 ≤ n) (hn : n ≤ 2147483647)

include h hpos hn

/-- The lookup by the id. -/
theorem HoldsWorkload.runPkLookup : ∃ w', App.runSqlFile (lookupConfig config)
      (prepareBenchmarkWorkspace config).pkSqlPath w = (.ok (), w') ∧
    Looked config n w w' (targetShown
      (text "[INDEX] WHERE id = " ++ decimal (workloadTarget n)) (workloadTarget n)) := by
  have hmem := workloadTarget_mem hpos
  have htarget := le_of_mem_workload hn hmem
  exact h.runSqlFile h.pkSql (length_pkText_lt htarget) (spelled_pkText htarget)
    fun r hr ↦ select_pkLookup hn hmem hr htarget

/-- The lookup by the name. -/
theorem HoldsWorkload.runNonPkLookup : ∃ w', App.runSqlFile (lookupConfig config)
      (prepareBenchmarkWorkspace config).nonPkSqlPath w = (.ok (), w') ∧
    Looked config n w w' (targetShown
      (text "[SCAN] WHERE name = user" ++ decimal (workloadTarget n)) (workloadTarget n)) := by
  have hmem := workloadTarget_mem hpos
  have htarget := le_of_mem_workload hn hmem
  exact h.runSqlFile h.nonPkSql (length_nonPkText_lt htarget) (spelled_nonPkText htarget)
    fun r hr ↦ select_nonPkLookup hmem hr htarget

theorem HoldsWorkload.findsTarget : FindsTarget config (workloadTarget n) w := by
  obtain ⟨w₁, hpk, hlooked⟩ := h.runPkLookup hpos hn
  obtain ⟨w₂, hnonPk, hlooked'⟩ := h.runNonPkLookup hpos hn
  exact ⟨⟨w₁, hpk, hlooked.printed⟩, ⟨w₂, hnonPk, hlooked'.printed⟩⟩

/-- A lookup whose output is dropped succeeds. -/
theorem HoldsWorkload.runSilently {path : Bytes} (hpath : IsLookup config path) :
    ∃ w', runSqlFileSilently (lookupConfig config) path w = (.ok (), w') ∧
      Looked config n w w' [] := by
  obtain ⟨w', output, hrun, hlooked⟩ : ∃ w' output,
      App.runSqlFile (lookupConfig config) path w = (.ok (), w') ∧
        Looked config n w w' output := by
    rcases hpath with rfl | rfl
    · obtain ⟨w', hrun, hlooked⟩ := h.runPkLookup hpos hn
      exact ⟨w', _, hrun, hlooked⟩
    · obtain ⟨w', hrun, hlooked⟩ := h.runNonPkLookup hpos hn
      exact ⟨w', _, hrun, hlooked⟩
  refine ⟨{ w' with disk := { w'.disk with stdout := w.disk.stdout } }, ?_, ?_⟩
  · rw [runSqlFileSilently, hrun]
  · exact ⟨(List.append_nil _).symm, hlooked.holds.setStdout _, hlooked.touches.files,
      hlooked.touches.slots⟩

end Lookups

/-- The process after lookups whose output is dropped. -/
def afterLookups (config : AppConfig) (paths : List Bytes) (w : World) : World :=
  (runMachine (fun w path ↦ runSqlFileSilently (lookupConfig config) path w) paths w).2

/-- Lookups in any order are as one. -/
theorem HoldsWorkload.afterLookups (h : HoldsWorkload config n w) (hpos : 1 ≤ n)
    (hn : n ≤ 2147483647) {paths : List Bytes} (hpaths : ∀ path ∈ paths, IsLookup config path) :
    Looked config n w (Relational.afterLookups config paths w) [] := by
  induction paths generalizing w with
  | nil => exact ⟨(List.append_nil _).symm, h, refl_of (Touches _ _) w⟩
  | cons path paths ih =>
    obtain ⟨hpath, hpaths⟩ := List.forall_mem_cons.mp hpaths
    obtain ⟨w', hrun, hlooked⟩ := h.runSilently hpos hn hpath
    have hnext : Relational.afterLookups config (path :: paths) w =
        Relational.afterLookups config paths w' := by
      rw [Relational.afterLookups, runMachine_cons, hrun]
      rfl
    obtain ⟨hprinted, hholds, htouches⟩ := ih hlooked.holds hpaths
    rw [hnext]
    refine ⟨?_, hholds, trans_of (Touches _ _) hlooked.touches htouches⟩
    rw [hprinted, hlooked.printed, List.append_nil]

/-- The lookups of a benchmark. -/
def benchmarkPaths (config : AppConfig) : List Bytes :=
  [(prepareBenchmarkWorkspace config).pkSqlPath, (prepareBenchmarkWorkspace config).pkSqlPath,
    (prepareBenchmarkWorkspace config).nonPkSqlPath]

theorem isLookup_benchmarkPaths (config : AppConfig) :
    ∀ path ∈ benchmarkPaths config, IsLookup config path := by
  intro path hpath
  simp only [benchmarkPaths, List.mem_cons, List.not_mem_nil, or_false] at hpath
  rcases hpath with rfl | rfl | rfl
  · exact Or.inl rfl
  · exact Or.inl rfl
  · exact Or.inr rfl

/-- Lookups that succeed are run to the last. -/
theorem HoldsWorkload.runLookups (h : HoldsWorkload config n w) (hpos : 1 ≤ n)
    (hn : n ≤ 2147483647) :
    App.runLookups (prepareBenchmarkWorkspace config) w =
      (.ok (), Relational.afterLookups config (benchmarkPaths config) w) := by
  obtain ⟨w₁, hrun, h₁⟩ := h.runSilently hpos hn (Or.inl rfl)
  obtain ⟨w₂, hrun₁, h₂⟩ := h₁.holds.runSilently hpos hn (Or.inl rfl)
  obtain ⟨w₃, hrun₂, -⟩ := h₂.holds.runSilently hpos hn (Or.inr rfl)
  rw [App.runLookups, Exec.bind_ok hrun, Exec.bind_ok hrun₁, hrun₂, Relational.afterLookups,
    benchmarkPaths, runMachine_cons, runMachine_cons, runMachine_cons, hrun, hrun₁, hrun₂]
  rfl

/-- The run of a benchmark in a new process, unless its workload is too large or its directories
are cut. -/
theorem runBenchmarkMode_apply {stdin rest : CFile} (hstates : w.tableStates = [])
    (hdir : config.dataDir.length ≤ 237) (hprompt : promptRecordCount stdin = (.ok n, rest))
    (hn : n ≤ 238609294) :
    ∃ disk, buildBenchmarkFiles (prepareBenchmarkWorkspace config) n (workloadTarget n) w.disk =
        some disk ∧ disk.stdout = w.disk.stdout ∧ HoldsWorkload config n { w with disk } ∧
      runBenchmarkMode config stdin w = some (.ok (), rest,
        afterLookups config (benchmarkPaths config) { w with disk }) := by
  obtain ⟨hpos, hmax⟩ := promptLoop_range hprompt
  obtain ⟨disk, hbuild, -⟩ := @buildBenchmarkFiles_eq config n (workloadTarget n) w.disk (by omega)
  have hholds := holdsWorkload_build hdir hn hstates hbuild
  have htarget : workloadTarget n ≤ 2147483647 :=
    le_of_mem_workload hmax (workloadTarget_mem hpos)
  obtain ⟨-, -, hstdout⟩ := buildBenchmarkFiles_sql htarget hbuild
  refine ⟨disk, hbuild, hstdout, hholds, ?_⟩
  rw [runBenchmarkMode, hprompt]
  simp only [targetId_eq_some_iff.mpr ⟨hn, rfl⟩, hbuild, Option.bind_eq_bind, Option.bind_some,
    hholds.runLookups hpos hmax]
  rfl

/-- A benchmark in a new process succeeds, unless its workload is too large or its directories are
cut: after its lookups and any others, in whatever order, both lookups print the row of the
target. -/
theorem runBenchmarkMode_finds {stdin rest : CFile} (hstates : w.tableStates = [])
    (hdir : config.dataDir.length ≤ 237) (hprompt : promptRecordCount stdin = (.ok n, rest))
    (hn : n ≤ 238609294) :
    ∃ disk, buildBenchmarkFiles (prepareBenchmarkWorkspace config) n (workloadTarget n) w.disk =
        some disk ∧
      runBenchmarkMode config stdin w = some (.ok (), rest,
        afterLookups config (benchmarkPaths config) { w with disk }) ∧
      ∀ paths : List Bytes, (∀ path ∈ paths, IsLookup config path) →
        (afterLookups config paths { w with disk }).disk.stdout = w.disk.stdout ∧
          FindsTarget config (workloadTarget n) (afterLookups config paths { w with disk }) := by
  obtain ⟨hpos, hmax⟩ := promptLoop_range hprompt
  obtain ⟨disk, hbuild, hstdout, hholds, hrun⟩ := runBenchmarkMode_apply hstates hdir hprompt hn
  refine ⟨disk, hbuild, hrun, fun paths hpaths ↦ ?_⟩
  obtain ⟨hprinted, hafter, -⟩ := hholds.afterLookups hpos hmax hpaths
  rw [List.append_nil] at hprinted
  exact ⟨hprinted.trans hstdout, hafter.findsTarget hpos hmax⟩

/-- Ten rows, asked for on standard input. -/
def samplePrompt : CFile := .start (text "x\n10\nSELECT")

theorem runBenchmarkMode_finds_sample :
    ∃ disk, buildBenchmarkFiles (prepareBenchmarkWorkspace sampleConfig) 10 (workloadTarget 10)
        sampleWorld.disk = some disk ∧
      runBenchmarkMode sampleConfig samplePrompt sampleWorld = some (.ok (),
        (promptRecordCount samplePrompt).2,
        afterLookups sampleConfig (benchmarkPaths sampleConfig) { sampleWorld with disk }) ∧
      ∀ paths : List Bytes, (∀ path ∈ paths, IsLookup sampleConfig path) →
        (afterLookups sampleConfig paths { sampleWorld with disk }).disk.stdout =
            sampleWorld.disk.stdout ∧
          FindsTarget sampleConfig (workloadTarget 10)
            (afterLookups sampleConfig paths { sampleWorld with disk }) := by
  have hprompt : (promptRecordCount samplePrompt).1 = .ok 10 := by decide +kernel
  exact runBenchmarkMode_finds rfl (by decide) (Prod.ext hprompt rfl) (by decide)

/-! ### The session after a benchmark -/

/-- The files that a benchmark writes. -/
def benchmarkFiles (config : AppConfig) : List Bytes :=
  [snprintfStr benchmarkPathLen
      ((prepareBenchmarkWorkspace config).schemaDir ++ text "/users.schema"),
    (prepareBenchmarkWorkspace config).csvPath, (prepareBenchmarkWorkspace config).pkSqlPath,
    (prepareBenchmarkWorkspace config).nonPkSqlPath]

/-- The files that a benchmark writes are no schemas, and not the data of the tables. -/
structure Apart (config : AppConfig) (tables : List TableSchema) : Prop where
  schemas : ∀ name : Bytes, name.length < maxNameLen →
    schemaPath config.schemaDir name ∉ benchmarkFiles config
  data : ∀ schema ∈ tables, tablePath config schema.tableName ∉ benchmarkFiles config

/-- The other files stay as they are. -/
theorem buildBenchmarkFiles_files {disk disk' : Disk} {path : Bytes}
    (h : buildBenchmarkFiles (prepareBenchmarkWorkspace config) n target disk = some disk')
    (hpath : path ∉ benchmarkFiles config) : disk'.files path = disk.files path := by
  simp only [benchmarkFiles, List.mem_cons, List.not_mem_nil, or_false, not_or] at hpath
  obtain ⟨hschema, hcsv, hpk, hnonPk⟩ := hpath
  rw [buildBenchmarkFiles] at h
  cases hrows : generateRows n (n + 1) 1 with
  | none =>
    rw [hrows] at h
    cases h
  | some rows =>
    rw [hrows, Option.bind_eq_bind, Option.bind_some] at h
    obtain rfl := Option.some.inj h
    rw [Disk.write_files_of_ne _ hnonPk, Disk.write_files_of_ne _ hpk,
      Disk.write_files_of_ne _ hcsv, Disk.write_files_of_ne _ hschema]

variable {tables : List TableSchema} {db : Database}

/-- A benchmark leaves the database of the process alone, when there is a slot left for its
table. -/
theorem Implements.afterBenchmark (h : Implements config tables w db) {disk : Disk} {w' : World}
    (hstates : w.tableStates = [])
    (hroom : (keyedTables config tables).length < executorMaxTableStates)
    (hdir : config.dataDir.length ≤ 237) (hapart : Apart config tables)
    (hbuild : buildBenchmarkFiles (prepareBenchmarkWorkspace config) n target w.disk = some disk)
    (hlooked : Looked config n { w with disk } w' []) : Implements config tables w' db := by
  obtain ⟨-, hdataDir, hpaths⟩ := lookupConfig_eq hdir
  have hkey : ∀ tableName : Bytes, tableKey (lookupConfig config) usersSchema ≠
      (config.schemaDir, config.dataDir, tableName) := by
    intro tableName hsame
    have hlen : (lookupConfig config).dataDir.length = config.dataDir.length :=
      congrArg (fun key ↦ key.2.1.length) hsame
    rw [hdataDir, prepareBenchmarkWorkspace_eq, List.length_append] at hlen
    exact absurd (Nat.add_eq_left.mp hlen) (by decide)
  have hfiles : ∀ path, path ∉ benchmarkFiles config →
      w'.disk.files path = w.disk.files path := by
    intro path hpath
    have hne : path ≠ tablePath (lookupConfig config) usersSchema.tableName := by
      rw [hpaths]
      rintro rfl
      exact hpath (List.mem_cons_of_mem _ List.mem_cons_self)
    rw [hlooked.touches.files path hne]
    exact buildBenchmarkFiles_files hbuild hpath
  have hslots := hlooked.holds.slots
  apply h.congr
  · refine ⟨tableKey (lookupConfig config) usersSchema :: keyedTables config tables,
      List.subset_cons_self _ _, hroom, hslots.unique, fun slot hslot ↦ ?_⟩
    rw [List.mem_singleton.mp (hslots.owned slot hslot)]
    exact List.mem_cons_self
  · exact fun name hlen ↦ hfiles _ (hapart.schemas name hlen)
  · intro schema hm
    have hslot : w'.slot config schema.tableName = none := by
      rw [World.slot, List.find?_eq_none]
      intro slot hslot hfor
      have htable := TableRuntimeState.isFor_iff.mp hfor
      rw [List.mem_singleton.mp (hslots.owned slot hslot)] at htable
      exact hkey _ htable
    rw [World.view, World.view, World.file, World.file, hfiles _ (hapart.data schema hm), hslot,
      slot_eq_none hstates]

/-- What a run of the program with a benchmark does on the files of a database: after the
benchmark, the session on the rest of the input answers as the database does. -/
theorem main_benchmark {config : RunConfig} {args : List Bytes} {stdin rest : CFile}
    (h : Implements config.toAppConfig tables w db) (hstates : w.tableStates = [])
    (hroom : (keyedTables config.toAppConfig tables).length < executorMaxTableStates)
    (hapart : Apart config.toAppConfig tables)
    (hargs : parseArguments args = some config) (hb : config.benchmarkMode = true)
    (hdir : config.dataDir.length ≤ 237) (hprompt : promptRecordCount stdin = (.ok n, rest))
    (hn : n ≤ 238609294) (hrest : nul ∉ remaining rest)
    (hfit : ∀ p ∈ beforeExit (wholeLines (remaining rest)), p.2.length < maxSqlSize) :
    ∃ exit, App.main args stdin w = some exit ∧ exit.status = 0 ∧
      Exits config.toAppConfig tables w db (sessionTexts (remaining rest)) exit := by
  obtain ⟨hpos, hmax⟩ := promptLoop_range hprompt
  obtain ⟨disk, hbuild, hstdout, hholds, hrun⟩ :=
    @runBenchmarkMode_apply n config.toAppConfig w _ _ hstates hdir hprompt hn
  have hlooked := hholds.afterLookups hpos hmax (isLookup_benchmarkPaths config.toAppConfig)
  have himplements := h.afterBenchmark hstates hroom hdir hapart hbuild hlooked
  obtain ⟨hstatus, hexits⟩ := himplements.runInteractiveMode hrest hfit
  refine ⟨_, ?_, hstatus, ?_⟩
  · simp only [App.main, hargs, runProgram, hb, if_true, hrun]
  · refine ⟨?_, hexits.stderr, hexits.implements⟩
    rw [hexits.stdout, hlooked.printed, List.append_nil]
    exact congrArg (· ++ _) hstdout

theorem apart_sample : Apart sampleConfig [sampleSchema] := by
  refine ⟨fun name hlen ↦ ?_, List.forall_mem_singleton.mpr (by decide +kernel)⟩
  have hhead : ∀ path ∈ benchmarkFiles sampleConfig, path.head? = some 100 := by decide +kernel
  intro hmem
  have hschema := hhead _ hmem
  rw [schemaPath_eq sampleConfig hlen] at hschema
  cases hschema

theorem main_benchmark_sample :
    ∃ exit, App.main [text "--schema-dir", text "s", text "--data-dir", text "d", text "-b"]
        samplePrompt sampleWorld = some exit ∧ exit.status = 0 ∧
      Exits sampleConfig [sampleSchema] sampleWorld .empty
        (sessionTexts (remaining (promptRecordCount samplePrompt).2)) exit := by
  have hprompt : (promptRecordCount samplePrompt).1 = .ok 10 := by decide +kernel
  exact @main_benchmark 10 sampleWorld _ _ ⟨sampleConfig, [], false, true⟩ _ _ _
    implements_sampleWorld rfl (by decide) apart_sample rfl rfl (by decide) (Prod.ext hprompt rfl)
    (by decide) (by decide +kernel) (by decide +kernel)

end SqlProc.Relational
