import SqlProc.App.Interactive
import SqlProc.Base.Checked
import SqlProc.Storage.Append
import SqlProc.Storage.WellFormed

/-!
# Benchmark mode

Library `App`. Models `src/benchmark.c` with `load_sql_file` and `run_sql_file` of `src/app.c`,
without the prompts, the directories that are made and the report. The sizes of the workload are
`int` values: a result that `int` does not hold has no value here.
-/

namespace SqlProc.App

open Base Front Schema Storage Executor Support

/-! ### The model -/

/-- `load_sql_file`: the C string left in the buffer. -/
def loadSqlFile (files : Files) (path : Bytes) (bufferSize : Nat) : Except ErrorInfo Bytes :=
  match files path with
  | none => .error (fileError "SQL 파일을 열 수 없습니다.")
  | some content =>
    if bufferSize - 1 < content.length then .error (fileError "SQL 파일이 너무 큽니다.")
    else .ok (cstr content)

/-- `run_sql_file`. -/
def runSqlFile (config : AppConfig) (path : Bytes) : Exec World Unit := do
  let w ← Exec.get
  let sqlText ← Exec.lift (loadSqlFile w.disk.files path maxSqlSize)
  runSqlText config sqlText

/-- `BENCHMARK_PATH_LEN`. -/
abbrev benchmarkPathLen : Nat := 512

/-- `BENCHMARK_INPUT_LEN`. -/
abbrev benchmarkInputLen : Nat := 128

/-- The loop of `prompt_record_count`. The first argument bounds the number of its steps. -/
def promptLoop : Nat → CFile → Except ErrorInfo Nat × CFile
  | 0, stdin => (.error (fileError "벤치마크 입력을 읽을 수 없습니다."), stdin)
  | fuel + 1, stdin =>
    match fgets benchmarkInputLen stdin with
    | none => (.error (fileError "벤치마크 입력을 읽을 수 없습니다."), stdin)
    | some (line, rest) =>
      let line := trimLineEnd line
      if line = [] then promptLoop fuel rest
      else
        let parsed := strtol line
        if parsed.erange || parsed.endPtr ≠ [] || parsed.value ≤ 0 || parsed.value > intMax then
          promptLoop fuel rest
        else (.ok parsed.value.toNat, rest)

/-- `prompt_record_count`. -/
def promptRecordCount (stdin : CFile) : Except ErrorInfo Nat × CFile :=
  promptLoop ((remaining stdin).length + 1) stdin

/-- The paths that `prepare_benchmark_workspace` sets. -/
structure BenchmarkPaths where
  schemaDir : Bytes
  dataDir : Bytes
  pkSqlPath : Bytes
  nonPkSqlPath : Bytes
  csvPath : Bytes

/-- `prepare_benchmark_workspace`. -/
def prepareBenchmarkWorkspace (config : AppConfig) : BenchmarkPaths :=
  let benchmarkRoot := snprintfStr benchmarkPathLen (config.dataDir ++ text "/benchmark")
  let schemaDir := snprintfStr benchmarkPathLen (benchmarkRoot ++ text "/schemas")
  let dataDir := snprintfStr benchmarkPathLen (benchmarkRoot ++ text "/data")
  let sqlDir := snprintfStr benchmarkPathLen (benchmarkRoot ++ text "/sql")
  { schemaDir
    dataDir
    pkSqlPath := snprintfStr benchmarkPathLen (sqlDir ++ text "/pk_lookup.sql")
    nonPkSqlPath := snprintfStr benchmarkPathLen (sqlDir ++ text "/non_pk_lookup.sql")
    csvPath := snprintfStr benchmarkPathLen (dataDir ++ text "/users.csv") }

/-- `target_id`: nine tenths of the record count, but at least one. -/
def targetId (recordCount : Nat) : Option Nat := do
  let product ← mulInt recordCount 9
  let target := product / 10
  return if target ≤ 0 then 1 else target

/-- The generation loop of `build_benchmark_files`. The first argument bounds the number of its
steps, the second is `i`. -/
def generateRows (recordCount : Nat) : Nat → Nat → Option Bytes
  | 0, _ => none
  | fuel + 1, i =>
    if i ≤ recordCount then do
      let age ← addInt 20 (i % 50)
      let next ← addInt i 1
      let rows ← generateRows recordCount fuel next
      return snprintfInt i ++ text ",user" ++ snprintfInt i ++ text "," ++ snprintfInt age ++
        [lf] ++ rows
    else some []

/-- `build_benchmark_files`. -/
def buildBenchmarkFiles (paths : BenchmarkPaths) (recordCount targetId : Nat) (disk : Disk) :
    Option Disk := do
  let schemaPath := snprintfStr benchmarkPathLen (paths.schemaDir ++ text "/users.schema")
  let disk := disk.write schemaPath (text "id:int,name:string,age:int\n")
  let rows ← generateRows recordCount (recordCount + 1) 1
  let disk := disk.write paths.csvPath (text "id,name,age\n" ++ rows)
  let pkSql := snprintfStr maxSqlSize
    (text "SELECT * FROM users WHERE id = " ++ snprintfInt targetId ++ text ";\n")
  let nonPkSql := snprintfStr maxSqlSize
    (text "SELECT * FROM users WHERE name = 'user" ++ snprintfInt targetId ++ text "';\n")
  return (disk.write paths.pkSqlPath pkSql).write paths.nonPkSqlPath nonPkSql

/-- `run_sql_file_silently`: what the file prints is dropped. -/
def runSqlFileSilently (config : AppConfig) (path : Bytes) : Exec World Unit := fun w ↦
  let (result, w') := runSqlFile config path w
  (result, { w' with disk := { w'.disk with stdout := w.disk.stdout } })

/-- The configuration of the lookups: the directories of the workspace. -/
def benchmarkConfig (paths : BenchmarkPaths) : AppConfig :=
  ⟨snprintfStr 256 paths.schemaDir, snprintfStr 256 paths.dataDir,
    length_snprintfStr_lt (by decide) _, length_snprintfStr_lt (by decide) _⟩

/-- The three lookups of `run_benchmark_mode`. -/
def runLookups (paths : BenchmarkPaths) : Exec World Unit := do
  runSqlFileSilently (benchmarkConfig paths) paths.pkSqlPath
  runSqlFileSilently (benchmarkConfig paths) paths.pkSqlPath
  runSqlFileSilently (benchmarkConfig paths) paths.nonPkSqlPath

/-- `run_benchmark_mode` on what is left of standard input. -/
def runBenchmarkMode (config : AppConfig) (stdin : CFile) (w : World) :
    Option (Except ErrorInfo Unit × CFile × World) :=
  match promptRecordCount stdin with
  | (.error e, rest) => some (.error e, rest, w)
  | (.ok recordCount, rest) => do
    let paths := prepareBenchmarkWorkspace config
    let target ← targetId recordCount
    let disk ← buildBenchmarkFiles paths recordCount target w.disk
    let (result, w) := runLookups paths { w with disk := disk }
    return (result, rest, w)

/-! ### What it is for -/

/-- The schema of the workload. -/
def usersSchema : TableSchema :=
  ⟨text "users", some 0, [⟨text "id", .int⟩, ⟨text "name", .string⟩, ⟨text "age", .int⟩]⟩

/-- The cells of a row. -/
def workloadRow (i : Nat) : List Bytes :=
  [decimal i, text "user" ++ decimal i, decimal (20 + i % 50)]

/-- The target of a lookup: nine tenths of the rows, but at least the first. -/
def workloadTarget (n : Nat) : Nat := max 1 (9 * n / 10)

/-- The workload with `n` rows is computed: the target is one of the rows, and the data file holds
exactly these rows. -/
structure WorkloadSafe (config : AppConfig) (disk : Disk) (n : Nat) : Prop where
  target : targetId n = some (workloadTarget n)
  target_mem : 1 ≤ workloadTarget n ∧ workloadTarget n ≤ n
  rows : ∃ disk' content,
    buildBenchmarkFiles (prepareBenchmarkWorkspace config) n (workloadTarget n) disk = some disk' ∧
    disk'.files (prepareBenchmarkWorkspace config).csvPath = some content ∧
    FileRows usersSchema content ((List.range' 1 n).map workloadRow)

/-! ### The prompt -/

theorem promptLoop_add {fuel : Nat} {stdin : CFile} (h : (remaining stdin).length < fuel)
    (k : Nat) : promptLoop (fuel + k) stdin = promptLoop fuel stdin := by
  induction fuel generalizing stdin with
  | zero => exact absurd h (Nat.not_lt_zero _)
  | succ fuel ih =>
    rw [Nat.succ_add, promptLoop, promptLoop]
    cases hget : fgets benchmarkInputLen stdin with
    | none => rfl
    | some read =>
      obtain ⟨line, rest⟩ := read
      have hlt : (remaining rest).length < fuel :=
        Nat.lt_of_lt_of_le (length_drop_of_fgets hget) (Nat.le_of_lt_succ h)
      simp only [ih hlt]

/-- The loop does not depend on how many steps it is given, when they are more than the bytes that
are left. -/
theorem promptLoop_eq_promptRecordCount {fuel : Nat} {stdin : CFile}
    (h : (remaining stdin).length < fuel) : promptLoop fuel stdin = promptRecordCount stdin := by
  obtain ⟨k, rfl⟩ := Nat.exists_eq_add_of_le (Nat.succ_le_of_lt h)
  rw [promptRecordCount, promptLoop_add (Nat.lt_succ_self _)]

/-- A count that is accepted is a positive `int`. -/
theorem promptLoop_range {fuel n : Nat} {stdin rest : CFile}
    (h : promptLoop fuel stdin = (.ok n, rest)) : 1 ≤ n ∧ n ≤ 2147483647 := by
  induction fuel generalizing stdin with
  | zero => cases h
  | succ fuel ih =>
    rw [promptLoop] at h
    cases hget : fgets benchmarkInputLen stdin with
    | none =>
      rw [hget] at h
      cases h
    | some read =>
      simp only [hget] at h
      split at h
      · exact ih h
      · split at h
        · exact ih h
        · next hc =>
          simp only [Bool.or_eq_true, decide_eq_true_eq, not_or] at hc
          obtain ⟨⟨-, hpos⟩, hmax⟩ := hc
          obtain ⟨hn, -⟩ := Prod.mk.inj h
          obtain rfl := Except.ok.inj hn
          simp only [intMax] at hmax
          omega

theorem snprintfInt_natCast (n : Nat) : snprintfInt n = decimal n := rfl

theorem trimLineEnd_decimal (n : Nat) : trimLineEnd (decimal n ++ [lf]) = decimal n := by
  rw [trimLineEnd_append (List.forall_mem_singleton.mpr rfl), trimLineEnd,
    List.rdropWhile_eq_self_iff]
  intro hne hend
  have hdigit := isdigit_of_mem_decimal (List.getLast_mem hne)
  rw [isLineEnd, Bool.or_eq_true, decide_eq_true_eq, decide_eq_true_eq] at hend
  rcases hend with hend | hend <;> (rw [hend] at hdigit; cases hdigit)

theorem promptRecordCount_decimal {n : Nat} (hpos : 1 ≤ n) (hmax : n ≤ 2147483647) :
    ∃ rest, promptRecordCount (.start (decimal n ++ [lf])) = (.ok n, rest) := by
  have hread : strtolInt (snprintfInt n) = some (n : Int) :=
    strtolInt_snprintfInt (by simp only [intMin]; omega) (by simp only [intMax]; omega)
  obtain ⟨herange, hend, hvalue, -⟩ := strtolInt_eq_some_iff_passes.mp hread
  rw [snprintfInt_natCast] at herange hend hvalue
  have hlen : (decimal n).length ≤ 10 := length_decimal_le (by decide) (by omega)
  have hdigits : ∀ c ∈ decimal n, isdigit c = true := fun c hc ↦ isdigit_of_mem_decimal hc
  have hline : LineAt (decimal n ++ [lf]) 0 (decimal n) [lf] :=
    ⟨rfl, notMem_of_forall hdigits rfl, notMem_of_forall hdigits rfl, Or.inr ⟨[], rfl⟩⟩
  obtain ⟨rest, hget⟩ : ∃ rest, fgets benchmarkInputLen (.start (decimal n ++ [lf])) =
      some (decimal n ++ [lf], rest) :=
    ⟨_, @fgets_of_lt benchmarkInputLen (.start (decimal n ++ [lf])) _ _ hline
      (Nat.lt_of_le_of_lt hlen (by decide)) rfl⟩
  have hnpos : ¬ (n : Int) ≤ 0 := by omega
  have hnmax : ¬ (n : Int) > intMax := by
    simp only [intMax]
    omega
  refine ⟨rest, ?_⟩
  rw [promptRecordCount, promptLoop, hget]
  simp only [trimLineEnd_decimal, if_neg (decimal_ne_nil n), herange, hend, hvalue, hnpos, hnmax,
    ne_eq, not_true_eq_false, decide_false, Bool.or_self, Bool.false_eq_true, if_false,
    Int.toNat_natCast]

/-- The counts that can be accepted are the positive `int` values. -/
theorem exists_promptRecordCount_iff {n : Nat} :
    (∃ stdin rest, promptRecordCount stdin = (.ok n, rest)) ↔ 1 ≤ n ∧ n ≤ 2147483647 := by
  constructor
  · rintro ⟨stdin, rest, h⟩
    exact promptLoop_range h
  · rintro ⟨hpos, hmax⟩
    exact ⟨_, promptRecordCount_decimal hpos hmax⟩

/-! ### The target -/

/-- The target is computed exactly when nine times the record count is an `int`. -/
theorem targetId_eq_some_iff {n target : Nat} :
    targetId n = some target ↔ n ≤ 238609294 ∧ target = workloadTarget n := by
  unfold targetId mulInt
  by_cases hn : n * 9 ≤ 2147483647
  · rw [fitInt_eq_some_iff.mpr ⟨hn, rfl⟩, Option.bind_eq_bind, Option.bind_some, Option.pure_def,
      Option.some.injEq, workloadTarget]
    split
    · omega
    · omega
  · rw [fitInt_eq_none_iff.mpr (Nat.lt_of_not_le hn), Option.bind_eq_bind, Option.bind_none]
    refine iff_of_false (by rintro ⟨⟩) ?_
    omega

/-! ### The rows -/

/-- The line of a row. -/
def rowLine (i : Nat) : Bytes := joinFields (workloadRow i)

/-- The loop writes the rows that are left. -/
theorem generateRows_eq {n i left fuel : Nat} (hi : i + left = n + 1) (hfuel : left < fuel)
    (hn : n < 2147483647) :
    generateRows n fuel i = some ((List.range' i left).flatMap fun i ↦ rowLine i ++ [lf]) := by
  induction left generalizing i fuel with
  | zero =>
    obtain ⟨fuel, rfl⟩ : ∃ k, fuel = k + 1 := ⟨fuel - 1, by omega⟩
    rw [generateRows, if_neg (by omega)]
    rfl
  | succ left ih =>
    obtain ⟨fuel, rfl⟩ : ∃ k, fuel = k + 1 := ⟨fuel - 1, by omega⟩
    have hage : addInt 20 (i % 50) = some (20 + i % 50) := addInt_of_le (by omega)
    have hnext : addInt i 1 = some (i + 1) := addInt_of_le (by omega)
    have hline : snprintfInt i ++ text ",user" ++ snprintfInt i ++ text "," ++
        snprintfInt (20 + i % 50 : Nat) ++ [lf] = rowLine i ++ [lf] := by
      have huser : text ",user" = comma :: text "user" := rfl
      have hcomma : text "," = [comma] := rfl
      simp only [rowLine, workloadRow, joinFields, snprintfInt_natCast, huser, hcomma,
        List.append_assoc, List.cons_append, List.nil_append]
    rw [generateRows, if_pos (by omega), hage, Option.bind_eq_bind, Option.bind_some, hnext,
      Option.bind_eq_bind, Option.bind_some, ih (by omega) (by omega), Option.bind_some, hline,
      List.range'_succ, List.flatMap_cons]
    rfl

/-- The counter cannot pass the largest `int`. -/
theorem generateRows_intMax {fuel i : Nat} (hi : i ≤ 2147483647) :
    generateRows 2147483647 fuel i = none := by
  induction fuel generalizing i with
  | zero => rfl
  | succ fuel ih =>
    have hage : addInt 20 (i % 50) = some (20 + i % 50) := addInt_of_le (by omega)
    rw [generateRows, if_pos hi, hage, Option.bind_eq_bind, Option.bind_some]
    by_cases hlt : i < 2147483647
    · have hnext : addInt i 1 = some (i + 1) := addInt_of_le (by omega)
      rw [hnext, Option.bind_eq_bind, Option.bind_some, ih (by omega)]
      rfl
    · have hnext : addInt i 1 = none := by
        rw [addInt, fitInt_eq_none_iff]
        omega
      rw [hnext]
      rfl

/-- The loop writes its rows for every `int` but the largest. -/
theorem generateRows_isSome_iff {n : Nat} (h : n ≤ 2147483647) :
    (generateRows n (n + 1) 1).isSome = true ↔ n < 2147483647 := by
  by_cases hn : n < 2147483647
  · rw [generateRows_eq (Nat.add_comm 1 n) (Nat.lt_succ_self n) hn]
    exact iff_of_true rfl hn
  · obtain rfl := Nat.le_antisymm h (Nat.le_of_not_lt hn)
    rw [generateRows_intMax (by decide)]
    exact iff_of_false Bool.false_ne_true hn

/-- The schema file of the workload. -/
def schemaText : Bytes := text "id:int,name:string,age:int\n"

/-- The loader reads the schema of the workload from its file. -/
theorem loadTableSchema_users {files : Files} {schemaDir : Bytes}
    (h : files (schemaPath schemaDir (text "users")) = some schemaText) :
    loadTableSchema files schemaDir (text "users") = .ok usersSchema := by
  have hread : ∃ rest, fgets maxSchemaLineLen (.start schemaText) = some (schemaText, rest) :=
    ⟨_, rfl⟩
  have hparse : parseSchemaLine (text "users") schemaText = .ok usersSchema := by decide +kernel
  obtain ⟨rest, hread⟩ := hread
  simp only [loadTableSchema, h, hread, hparse]

theorem valid_usersSchema : Valid usersSchema :=
  (loadTableSchema_valid (@loadTableSchema_users (fun _ ↦ some schemaText) [] rfl)).1

/-- The cells of a row are words that fit. -/
theorem workloadRow_cell {i : Nat} (hi : i ≤ 2147483647) {cell : Bytes}
    (hm : cell ∈ workloadRow i) : (∀ c ∈ cell, isalnum c = true) ∧ cell.length ≤ 14 := by
  have hdigits : ∀ {k}, k ≤ 2147483647 →
      (∀ c ∈ decimal k, isalnum c = true) ∧ (decimal k).length ≤ 10 := by
    intro k hk
    refine ⟨fun c hc ↦ ?_, length_decimal_le (by decide) (by omega)⟩
    rw [isalnum, isdigit_of_mem_decimal hc, Bool.or_true]
  have huser : ∀ c ∈ text "user", isalnum c = true := by decide +kernel
  have hlen : (text "user").length = 4 := rfl
  obtain ⟨hid, hidlen⟩ := hdigits hi
  obtain ⟨hage, hagelen⟩ := hdigits (k := 20 + i % 50) (by omega)
  simp only [workloadRow, List.mem_cons, List.not_mem_nil, or_false] at hm
  rcases hm with rfl | rfl | rfl
  · exact ⟨hid, by omega⟩
  · refine ⟨List.forall_mem_append.mpr ⟨huser, hid⟩, ?_⟩
    rw [List.length_append]
    omega
  · exact ⟨hage, by omega⟩

/-- A word that fits encodes itself. -/
theorem encodes_word {cell : Bytes} (h : ∀ c ∈ cell, isalnum c = true) (hl : cell.length ≤ 14) :
    Encodes cell cell :=
  encodes_self (oneLine_of_forall h rfl rfl rfl) (notMem_of_forall h rfl) (notMem_of_forall h rfl)
    (Nat.lt_of_le_of_lt hl (by decide))

/-- The line of a row decodes to its cells. -/
theorem rowLine_workloadRow {i : Nat} (hi : i ≤ 2147483647) :
    RowLine usersSchema (rowLine i) (workloadRow i) := by
  have hcells := fun cell hm ↦ @workloadRow_cell i hi cell hm
  rw [← decodeRow_eq_ok_iff_rowLine valid_usersSchema, decodeRow_eq_ok_iff, fitsLine_eq_true_iff]
  refine ⟨?_, ?_, rfl⟩
  · have hlen := length_joinFields_lt (fun cell hm ↦ (hcells cell hm).2)
      (show 3 ≤ maxColumns by decide)
    simp only [maxColumns] at hlen
    unfold rowLine
    omega
  · refine parseCsvLine_joinFields ?_ (List.cons_ne_nil _ _) (show 3 ≤ maxColumns by decide)
    exact List.forall₂_same.mpr fun cell hm ↦ encodes_word (hcells cell hm).1 (hcells cell hm).2

theorem lf_notMem_rowLine {i : Nat} (hi : i ≤ 2147483647) : lf ∉ rowLine i := by
  have hone : OneLine (rowLine i) := oneLine_joinFields fun cell hm ↦
    oneLine_of_forall (workloadRow_cell hi hm).1 rfl rfl rfl
  exact hone.lf_notMem

/-- The lines of the rows are the rows of the file. -/
theorem fileRows_of_rowLines {is : List Nat} (h : ∀ i ∈ is, i ≤ 2147483647) :
    FileRows usersSchema
      (text "id,name,age\n" ++ is.flatMap fun i ↦ rowLine i ++ [lf]) (is.map workloadRow) := by
  have hheader : text "id,name,age\n" ++ (is.flatMap fun i ↦ rowLine i ++ [lf]) =
      text "id,name,age" ++ lf :: is.flatMap fun i ↦ rowLine i ++ [lf] := rfl
  have hlines := map_snd_records_flatMap lf 12 rowLine fun i hi ↦ lf_notMem_rowLine (h i hi)
  refine ⟨(0, text "id,name,age"), records lf 12 (is.flatMap fun i ↦ rowLine i ++ [lf]), ?_,
    by decide, by decide, ?_⟩
  · rw [hheader]
    exact .cons 0 (by decide) (cutsInto_iff.mpr rfl)
  · rw [hlines, List.forall₂_map_left_iff, List.forall₂_map_right_iff, List.forall₂_same]
    exact fun i hi ↦ rowLine_workloadRow (h i hi)

/-! ### The files -/

/-- No path under the data directory is cut off. -/
theorem snprintfStr_dataDir (config : AppConfig) {path : Bytes} (h : path.length ≤ 256) :
    snprintfStr benchmarkPathLen (config.dataDir ++ path) = config.dataDir ++ path := by
  apply snprintfStr_of_lt
  rw [List.length_append]
  exact Nat.add_lt_add_of_lt_of_le config.length_dataDir h

theorem prepareBenchmarkWorkspace_eq (config : AppConfig) :
    prepareBenchmarkWorkspace config =
      { schemaDir := config.dataDir ++ (text "/benchmark" ++ text "/schemas")
        dataDir := config.dataDir ++ (text "/benchmark" ++ text "/data")
        pkSqlPath := config.dataDir ++ (text "/benchmark" ++ (text "/sql" ++ text "/pk_lookup.sql"))
        nonPkSqlPath :=
          config.dataDir ++ (text "/benchmark" ++ (text "/sql" ++ text "/non_pk_lookup.sql"))
        csvPath :=
          config.dataDir ++ (text "/benchmark" ++ (text "/data" ++ text "/users.csv")) } := by
  unfold prepareBenchmarkWorkspace
  simp (disch := decide) only [List.append_assoc, snprintfStr_dataDir]

/-- The files of a workload, when the loop ends: the loader reads the schema, and the data file has
the rows. -/
theorem buildBenchmarkFiles_eq {config : AppConfig} {n : Nat} (target : Nat) (disk : Disk)
    (hn : n < 2147483647) :
    ∃ disk', buildBenchmarkFiles (prepareBenchmarkWorkspace config) n target disk = some disk' ∧
      loadTableSchema disk'.files (prepareBenchmarkWorkspace config).schemaDir (text "users") =
        .ok usersSchema ∧
      disk'.files (prepareBenchmarkWorkspace config).csvPath = some (text "id,name,age\n" ++
        (List.range' 1 n).flatMap fun i ↦ rowLine i ++ [lf]) := by
  have hrows : generateRows n (n + 1) 1 = _ :=
    generateRows_eq (Nat.add_comm 1 n) (Nat.lt_succ_self n) hn
  have hne : ∀ {s s' : Bytes}, s ≠ s' → config.dataDir ++ s ≠ config.dataDir ++ s' :=
    fun h he ↦ h (List.append_cancel_left he)
  have hname : text "/" ++ (text "users" ++ text ".schema") = text "/users.schema" := rfl
  have hpath : schemaPath (prepareBenchmarkWorkspace config).schemaDir (text "users") =
      snprintfStr benchmarkPathLen
        ((prepareBenchmarkWorkspace config).schemaDir ++ text "/users.schema") := by
    rw [schemaPath, List.append_assoc, List.append_assoc, hname]
  have hcopy : snprintfStr benchmarkPathLen
      (config.dataDir ++ (text "/benchmark" ++ text "/schemas") ++ text "/users.schema") =
      config.dataDir ++ (text "/benchmark" ++ (text "/schemas" ++ text "/users.schema")) := by
    rw [List.append_assoc, List.append_assoc, snprintfStr_dataDir config (by decide)]
  rw [buildBenchmarkFiles, hrows]
  refine ⟨_, rfl, loadTableSchema_users ?_, ?_⟩
  · rw [hpath, prepareBenchmarkWorkspace_eq, hcopy, Disk.write_files_of_ne _ (hne (by decide)),
      Disk.write_files_of_ne _ (hne (by decide)), Disk.write_files_of_ne _ (hne (by decide)),
      Disk.write_files_self]
    rfl
  · rw [prepareBenchmarkWorkspace_eq, Disk.write_files_of_ne _ (hne (by decide)),
      Disk.write_files_of_ne _ (hne (by decide)), Disk.write_files_self]

/-! ### Safe sizes -/

/-- A workload is safe exactly when nine times its record count is an `int`. -/
theorem promptRecordCount_workloadSafe {config : AppConfig} {n : Nat} {stdin rest : CFile}
    (disk : Disk) (h : promptRecordCount stdin = (.ok n, rest)) :
    WorkloadSafe config disk n ↔ n ≤ 238609294 := by
  obtain ⟨hpos, -⟩ := promptLoop_range h
  constructor
  · intro hsafe
    exact (targetId_eq_some_iff.mp hsafe.target).1
  · intro hn
    obtain ⟨disk', hbuild, -, hcsv⟩ := buildBenchmarkFiles_eq (workloadTarget n) disk
      (Nat.lt_of_le_of_lt hn (by decide))
    refine ⟨targetId_eq_some_iff.mpr ⟨hn, rfl⟩, ?_, disk', _, hbuild, hcsv, ?_⟩
    · unfold workloadTarget
      omega
    · apply fileRows_of_rowLines
      intro i hi
      obtain ⟨-, hlt⟩ := List.mem_range'_1.mp hi
      omega

theorem promptRecordCount_workloadSafe_sample :
    WorkloadSafe ⟨text "s", text "d", by decide, by decide⟩ ⟨fun _ ↦ none, []⟩ 10 ↔
      10 ≤ 238609294 :=
  @promptRecordCount_workloadSafe _ 10 (.start (text "10\n")) ⟨text "10\n", 3, false⟩ _
    (by decide +kernel)

theorem promptRecordCount_tooMany :
    (∃ rest, promptRecordCount (.start (text "238609295\n")) = (.ok 238609295, rest)) ∧
      ¬ WorkloadSafe ⟨text "s", text "d", by decide, by decide⟩ ⟨fun _ ↦ none, []⟩ 238609295 := by
  refine ⟨⟨⟨text "238609295\n", 10, false⟩, by decide +kernel⟩, fun h ↦ ?_⟩
  have hnone : targetId 238609295 = none := by decide
  have htarget := h.target
  rw [hnone] at htarget
  cases htarget

/-- A run has no value exactly when the accepted record count is too large. -/
theorem runBenchmarkMode_eq_none_iff {config : AppConfig} {stdin : CFile} {w : World} :
    runBenchmarkMode config stdin w = none ↔
      ∃ n, (promptRecordCount stdin).1 = .ok n ∧ 238609294 < n := by
  unfold runBenchmarkMode
  obtain ⟨result, rest⟩ := promptRecordCount stdin
  cases result with
  | error e =>
    apply iff_of_false (Option.some_ne_none _)
    rintro ⟨n, ⟨⟩, -⟩
  | ok n =>
    simp only [Except.ok.injEq, exists_eq_left']
    cases htarget : targetId n with
    | none =>
      have hlarge : 238609294 < n := by
        by_contra hn
        rw [targetId_eq_some_iff.mpr ⟨Nat.le_of_not_lt hn, rfl⟩] at htarget
        cases htarget
      exact iff_of_true rfl hlarge
    | some target =>
      have hn := (targetId_eq_some_iff.mp htarget).1
      obtain ⟨disk, hbuild, -⟩ := buildBenchmarkFiles_eq target w.disk
        (Nat.lt_of_le_of_lt hn (by decide))
      rw [Option.bind_eq_bind, Option.bind_some, hbuild]
      exact iff_of_false (Option.some_ne_none _) (Nat.not_lt.mpr hn)

end SqlProc.App
