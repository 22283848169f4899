import SqlProc.App.Benchmark

/-!
# The program

Library `App`. Models `src/main.c` and the rest of `src/app.c`: the command line, the three modes
and what is written to standard error. The prompts of the interactive mode are left out. The
arguments are those after the name of the program.
-/

namespace SqlProc.App

open Base Front Schema Storage Executor

/-! ### The model -/

/-- `AppConfig` with all its fields. -/
structure RunConfig extends AppConfig where
  inputPath : Bytes
  interactiveMode : Bool
  benchmarkMode : Bool

/-- The size of a path in `AppConfig`. -/
abbrev configPathLen : Nat := 256

/-- The variables of `parse_arguments`. -/
structure Arguments extends RunConfig where
  hasInputPath : Bool
  modeCount : Nat

/-- `memset(config, 0, sizeof(*config))`. -/
def Arguments.zero : Arguments :=
  ⟨⟨⟨[], [], by decide, by decide⟩, [], false, false⟩, false, 0⟩

/-- `snprintf` of a value into `config->schema_dir`. -/
def Arguments.setSchemaDir (arguments : Arguments) (value : Bytes) : Arguments :=
  { arguments with
    schemaDir := snprintfStr configPathLen value
    length_schemaDir := length_snprintfStr_lt (by decide) value }

/-- `snprintf` of a value into `config->data_dir`. -/
def Arguments.setDataDir (arguments : Arguments) (value : Bytes) : Arguments :=
  { arguments with
    dataDir := snprintfStr configPathLen value
    length_dataDir := length_snprintfStr_lt (by decide) value }

/-- The loop of `parse_arguments`. -/
def scanArguments : List Bytes → Arguments → Option Arguments
  | [], arguments => some arguments
  | arg :: rest, arguments =>
    if arg = text "--schema-dir" then
      match rest with
      | [] => none
      | value :: rest => scanArguments rest (arguments.setSchemaDir value)
    else if arg = text "--data-dir" then
      match rest with
      | [] => none
      | value :: rest => scanArguments rest (arguments.setDataDir value)
    else if arg = text "--interactive" then
      scanArguments rest
        { arguments with interactiveMode := true, modeCount := arguments.modeCount + 1 }
    else if arg = text "-b" || arg = text "--benchmark" then
      scanArguments rest
        { arguments with benchmarkMode := true, modeCount := arguments.modeCount + 1 }
    else if arg.head? = some minus then none
    else if arguments.hasInputPath then none
    else
      scanArguments rest
        { arguments with inputPath := snprintfStr configPathLen arg, hasInputPath := true }

/-- The checks at the end of `parse_arguments`. -/
def Arguments.complete (arguments : Arguments) : Bool :=
  if arguments.schemaDir = [] || arguments.dataDir = [] then false
  else if arguments.modeCount > 1 then false
  else if arguments.hasInputPath && arguments.modeCount > 0 then false
  else if !arguments.hasInputPath && arguments.modeCount = 0 then false
  else !arguments.hasInputPath || arguments.inputPath ≠ []

/-- `parse_arguments`. -/
def parseArguments (args : List Bytes) : Option RunConfig :=
  match scanArguments args .zero with
  | none => none
  | some arguments => if arguments.complete then some arguments.toRunConfig else none

/-- `print_error`: the lines on standard error. -/
def printError (error : ErrorInfo) : List String :=
  if error.message = "" then []
  else if error.line > 0 then
    ["오류: " ++ error.message ++ " (line " ++ toString error.line ++ ", column " ++
      toString error.column ++ ")"]
  else ["오류: " ++ error.message]

/-- `print_usage`: the lines on standard error. -/
def printUsage : List String :=
  ["usage: ./sqlproc --schema-dir <dir> --data-dir <dir> <input.sql>",
    "       ./sqlproc --schema-dir <dir> --data-dir <dir> --interactive",
    "       ./sqlproc --schema-dir <dir> --data-dir <dir> --benchmark"]

/-- The end of the program: its exit status, what it has written to standard error, and the
files and standard output that it leaves. -/
structure Exit where
  status : Nat
  stderr : List String
  world : World

/-- What an action of the interactive mode writes to standard error. -/
def Action.stderr : Action → List String
  | .run _ _ (.error error) => printError error
  | _ => []

/-- The interactive mode on what is left of standard input. -/
def runInteractiveMode (config : AppConfig) (stdin : CFile) (w : World) : Exit :=
  let (actions, w) := runInteractiveProgram config (remaining stdin) w
  ⟨0, actions.flatMap Action.stderr, w⟩

/-- `run_program`; a size that `int` does not hold leaves the benchmark without a value. -/
def runProgram (config : RunConfig) (stdin : CFile) (w : World) : Option Exit :=
  if config.benchmarkMode then
    match runBenchmarkMode config.toAppConfig stdin w with
    | none => none
    | some (.error error, _, w) => some ⟨1, printError error, w⟩
    | some (.ok (), rest, w) => some (runInteractiveMode config.toAppConfig rest w)
  else if config.interactiveMode then some (runInteractiveMode config.toAppConfig stdin w)
  else
    match runSqlFile config.toAppConfig config.inputPath w with
    | (.error error, w) => some ⟨1, printError error, w⟩
    | (.ok (), w) => some ⟨0, [], w⟩

/-- `main`. -/
def main (args : List Bytes) (stdin : CFile) (w : World) : Option Exit :=
  match parseArguments args with
  | none => some ⟨1, printUsage, w⟩
  | some config => runProgram config stdin w

/-! ### Command lines -/

/-- One item of a command line. -/
inductive Argument where
  | schemaDir (value : Bytes)
  | dataDir (value : Bytes)
  | interactive
  | benchmark (short : Bool)
  | inputPath (path : Bytes)
  deriving DecidableEq, Repr

/-- The words of an item. -/
def Argument.words : Argument → List Bytes
  | .schemaDir value => [text "--schema-dir", value]
  | .dataDir value => [text "--data-dir", value]
  | .interactive => [text "--interactive"]
  | .benchmark short => [if short then text "-b" else text "--benchmark"]
  | .inputPath path => [path]

/-- No path looks like an option. -/
def Argument.Plain : Argument → Prop
  | .inputPath path => path.head? ≠ some minus
  | _ => True

/-- The value of an item that sets the schema directory. -/
def Argument.schemaDir? : Argument → Option Bytes
  | .schemaDir value => some value
  | _ => none

/-- The value of an item that sets the data directory. -/
def Argument.dataDir? : Argument → Option Bytes
  | .dataDir value => some value
  | _ => none

/-- An item that selects what the program does. -/
def Argument.isMode : Argument → Bool
  | .interactive | .benchmark _ | .inputPath _ => true
  | _ => false

/-- The mode that an item selects: the path, and the two flags. -/
def Argument.Selects (config : RunConfig) : Argument → Prop
  | .interactive =>
    config.interactiveMode = true ∧ config.benchmarkMode = false ∧ config.inputPath = []
  | .benchmark _ =>
    config.interactiveMode = false ∧ config.benchmarkMode = true ∧ config.inputPath = []
  | .inputPath path =>
    config.interactiveMode = false ∧ config.benchmarkMode = false ∧
      config.inputPath = path.take 255
  | _ => False

/-- Items that give the program both directories and one thing to do. The last value of a
directory counts; what a buffer does not hold of a path is cut off. -/
structure CommandLine (items : List Argument) (config : RunConfig) : Prop where
  schemaDir : ∃ value, (items.filterMap Argument.schemaDir?).getLast? = some value ∧
    value ≠ [] ∧ config.schemaDir = value.take 255
  dataDir : ∃ value, (items.filterMap Argument.dataDir?).getLast? = some value ∧
    value ≠ [] ∧ config.dataDir = value.take 255
  mode : ∃ item, items.filter Argument.isMode = [item] ∧ item ≠ .inputPath [] ∧
    item.Selects config

/-! ### What the loop accepts -/

/-- One item of a command line, as the loop takes it: a second path is refused. -/
def Arguments.add (arguments : Arguments) : Argument → Option Arguments
  | .schemaDir value => some (arguments.setSchemaDir value)
  | .dataDir value => some (arguments.setDataDir value)
  | .interactive =>
    some { arguments with interactiveMode := true, modeCount := arguments.modeCount + 1 }
  | .benchmark _ =>
    some { arguments with benchmarkMode := true, modeCount := arguments.modeCount + 1 }
  | .inputPath path =>
    if arguments.hasInputPath then none
    else some
      { arguments with inputPath := snprintfStr configPathLen path, hasInputPath := true }

/-- A path is none of the options. -/
theorem ne_of_plain {path : Bytes} (h : path.head? ≠ some minus) (option : Bytes)
    (ho : option.head? = some minus) : path ≠ option := by
  rintro rfl
  exact h ho

/-- The loop takes the words of an item together. -/
theorem scanArguments_words {item : Argument} (hp : item.Plain) (rest : List Bytes)
    (arguments : Arguments) : scanArguments (item.words ++ rest) arguments =
      (arguments.add item).bind (scanArguments rest) := by
  cases item with
  | schemaDir value => rfl
  | dataDir value => rfl
  | interactive =>
    rw [Argument.words, List.singleton_append, scanArguments.eq_def]
    rfl
  | benchmark short =>
    rw [Argument.words, List.singleton_append, scanArguments.eq_def]
    cases short with
    | true => rfl
    | false => rfl
  | inputPath path =>
    have hpath : path.head? ≠ some minus := hp
    have h₁ := ne_of_plain hpath (text "--schema-dir") rfl
    have h₂ := ne_of_plain hpath (text "--data-dir") rfl
    have h₃ := ne_of_plain hpath (text "--interactive") rfl
    have h₄ := ne_of_plain hpath (text "-b") rfl
    have h₅ := ne_of_plain hpath (text "--benchmark") rfl
    rw [Argument.words, List.singleton_append, scanArguments.eq_def]
    simp only [h₁, h₂, h₃, h₄, h₅, hpath, Arguments.add, if_false, decide_false, Bool.or_self,
      Bool.false_eq_true]
    split
    · rfl
    · rfl

/-- The loop reads the items one after the other. -/
theorem scanArguments_flatMap {items : List Argument} (hp : ∀ item ∈ items, item.Plain)
    (arguments : Arguments) :
    scanArguments (items.flatMap Argument.words) arguments =
      items.foldlM Arguments.add arguments := by
  induction items generalizing arguments with
  | nil => rfl
  | cons item items ih =>
    obtain ⟨hitem, hitems⟩ := List.forall_mem_cons.mp hp
    rw [List.flatMap_cons, scanArguments_words hitem, List.foldlM_cons]
    cases arguments.add item with
    | none => rfl
    | some arguments => exact ih hitems arguments

/-- Words in front of the words of items. -/
theorem exists_items_cons (item : Argument) (hp : item.Plain) {args rest : List Bytes}
    (he : args = item.words ++ rest)
    (h : ∃ items : List Argument, rest = items.flatMap Argument.words ∧
      ∀ item ∈ items, item.Plain) :
    ∃ items : List Argument, args = items.flatMap Argument.words ∧
      ∀ item ∈ items, item.Plain := by
  obtain ⟨items, rfl, hitems⟩ := h
  exact ⟨item :: items, he, List.forall_mem_cons.mpr ⟨hp, hitems⟩⟩

/-- Every command line that the loop accepts is a list of items. -/
theorem exists_items {args : List Bytes} {arguments result : Arguments}
    (h : scanArguments args arguments = some result) :
    ∃ items : List Argument, args = items.flatMap Argument.words ∧
      ∀ item ∈ items, item.Plain := by
  fun_induction scanArguments args arguments with
  | case1 => exact ⟨[], rfl, List.forall_mem_nil _⟩
  | case2 => cases h
  | case3 arguments value rest ih =>
    exact exists_items_cons (.schemaDir value) trivial rfl (ih h)
  | case4 => cases h
  | case5 arguments value rest _ ih =>
    exact exists_items_cons (.dataDir value) trivial rfl (ih h)
  | case6 rest arguments _ _ ih =>
    exact exists_items_cons .interactive trivial rfl (ih h)
  | case7 arg rest arguments _ _ _ hb ih =>
    rcases (Bool.or_eq_true _ _).mp hb with harg | harg
    · exact exists_items_cons (.benchmark true) trivial
        (congrArg (· :: rest) (of_decide_eq_true harg)) (ih h)
    · exact exists_items_cons (.benchmark false) trivial
        (congrArg (· :: rest) (of_decide_eq_true harg)) (ih h)
  | case8 => cases h
  | case9 => cases h
  | case10 arg rest arguments _ _ _ _ hp _ ih =>
    exact exists_items_cons (.inputPath arg) hp rfl (ih h)

/-! ### What the loop has read -/

/-- The variables after the items: the directories are the last ones, every mode counts, and what
a single mode sets is set. -/
structure Arguments.Reads (arguments : Arguments) (items : List Argument) : Prop where
  schemaDir : arguments.schemaDir =
    ((items.filterMap Argument.schemaDir?).getLast?.getD []).take 255
  dataDir : arguments.dataDir = ((items.filterMap Argument.dataDir?).getLast?.getD []).take 255
  count : arguments.modeCount + arguments.hasInputPath.toNat =
    (items.filter Argument.isMode).length
  idle : items.filter Argument.isMode = [] → arguments.hasInputPath = false ∧
    arguments.interactiveMode = false ∧ arguments.benchmarkMode = false ∧
    arguments.inputPath = []
  mode : ∀ item, items.filter Argument.isMode = [item] →
    item.Selects arguments.toRunConfig ∧
      (arguments.hasInputPath = true ↔ ∃ path, item = .inputPath path)

theorem Arguments.reads_zero : Arguments.zero.Reads [] where
  schemaDir := rfl
  dataDir := rfl
  count := rfl
  idle := fun _ => ⟨rfl, rfl, rfl, rfl⟩
  mode := by
    intro item h
    cases h

theorem getLast?_filterMap_concat {α β : Type} (f : α → Option β) (items : List α) (item : α) :
    ((items ++ [item]).filterMap f).getLast? = (f item).or (items.filterMap f).getLast? := by
  rw [List.filterMap_append, List.getLast?_append]
  cases hf : f item with
  | none => rw [List.filterMap_cons_none hf]; rfl
  | some value => rw [List.filterMap_cons_some hf]; rfl

theorem filter_isMode_concat {items : List Argument} {item : Argument} (h : item.isMode = true) :
    (items ++ [item]).filter Argument.isMode = items.filter Argument.isMode ++ [item] := by
  rw [List.filter_append, List.filter_cons_of_pos h, List.filter_nil]

theorem filter_isMode_concat_of_false {items : List Argument} {item : Argument}
    (h : item.isMode = false) :
    (items ++ [item]).filter Argument.isMode = items.filter Argument.isMode := by
  rw [List.filter_append, List.filter_cons_of_neg (ne_true_of_eq_false h), List.filter_nil,
    List.append_nil]

/-- The last item is the only mode only where none is before it. -/
theorem eq_of_filter_concat {items : List Argument} {item item' : Argument}
    (h : item.isMode = true)
    (he : (items ++ [item]).filter Argument.isMode = [item']) :
    items.filter Argument.isMode = [] ∧ item = item' := by
  rw [filter_isMode_concat h] at he
  obtain ⟨hnil, hitem⟩ := List.append_eq_singleton_iff.mp he |>.resolve_right (by simp)
  exact ⟨hnil, List.singleton_inj.mp hitem⟩

/-- A directory leaves what the modes have set. -/
theorem Arguments.Reads.setSchemaDir {arguments : Arguments} {items : List Argument}
    (h : arguments.Reads items) (value : Bytes) :
    (arguments.setSchemaDir value).Reads (items ++ [.schemaDir value]) where
  schemaDir := by rw [getLast?_filterMap_concat]; rfl
  dataDir := by rw [getLast?_filterMap_concat]; exact h.dataDir
  count := by rw [filter_isMode_concat_of_false rfl]; exact h.count
  idle := by rw [filter_isMode_concat_of_false rfl]; exact h.idle
  mode := by rw [filter_isMode_concat_of_false rfl]; exact h.mode

theorem Arguments.Reads.setDataDir {arguments : Arguments} {items : List Argument}
    (h : arguments.Reads items) (value : Bytes) :
    (arguments.setDataDir value).Reads (items ++ [.dataDir value]) where
  schemaDir := by rw [getLast?_filterMap_concat]; exact h.schemaDir
  dataDir := by rw [getLast?_filterMap_concat]; rfl
  count := by rw [filter_isMode_concat_of_false rfl]; exact h.count
  idle := by rw [filter_isMode_concat_of_false rfl]; exact h.idle
  mode := by rw [filter_isMode_concat_of_false rfl]; exact h.mode

/-- A mode after the items, of which `result` holds what it sets. -/
theorem Arguments.Reads.addMode {arguments result : Arguments} {items : List Argument}
    (h : arguments.Reads items) {item : Argument} (hm : item.isMode = true)
    (hdirs : result.schemaDir = arguments.schemaDir ∧ result.dataDir = arguments.dataDir)
    (hcount : result.modeCount + result.hasInputPath.toNat =
      arguments.modeCount + arguments.hasInputPath.toNat + 1)
    (hmode : items.filter Argument.isMode = [] → item.Selects result.toRunConfig ∧
      (result.hasInputPath = true ↔ ∃ path, item = .inputPath path)) :
    result.Reads (items ++ [item]) where
  schemaDir := by
    rw [getLast?_filterMap_concat, hdirs.1, h.schemaDir]
    cases item with
    | schemaDir value => cases hm
    | _ => rfl
  dataDir := by
    rw [getLast?_filterMap_concat, hdirs.2, h.dataDir]
    cases item with
    | dataDir value => cases hm
    | _ => rfl
  count := by rw [hcount, h.count, filter_isMode_concat hm, List.length_append]; rfl
  idle := by
    intro hnil
    rw [filter_isMode_concat hm] at hnil
    exact absurd hnil (List.concat_ne_nil _ _)
  mode := by
    intro item' he
    obtain ⟨hnil, rfl⟩ := eq_of_filter_concat hm he
    exact hmode hnil

/-- One more item. -/
theorem Arguments.Reads.add {arguments result : Arguments} {items : List Argument}
    (h : arguments.Reads items) {item : Argument} (he : arguments.add item = some result) :
    result.Reads (items ++ [item]) := by
  cases item with
  | schemaDir value =>
    obtain rfl := Option.some.inj he
    exact h.setSchemaDir value
  | dataDir value =>
    obtain rfl := Option.some.inj he
    exact h.setDataDir value
  | interactive =>
    obtain rfl := Option.some.inj he
    refine h.addMode rfl ⟨rfl, rfl⟩ (Nat.add_right_comm _ _ _) ?_
    intro hnil
    obtain ⟨hpath, _, hbenchmark, hinput⟩ := h.idle hnil
    refine ⟨⟨rfl, hbenchmark, hinput⟩, ?_⟩
    simp [hpath]
  | benchmark short =>
    obtain rfl := Option.some.inj he
    refine h.addMode rfl ⟨rfl, rfl⟩ (Nat.add_right_comm _ _ _) ?_
    intro hnil
    obtain ⟨hpath, hinteractive, _, hinput⟩ := h.idle hnil
    refine ⟨⟨hinteractive, rfl, hinput⟩, ?_⟩
    simp [hpath]
  | inputPath path =>
    simp only [Arguments.add] at he
    split at he
    case isTrue => cases he
    case isFalse hp =>
      obtain rfl := Option.some.inj he
      refine h.addMode rfl ⟨rfl, rfl⟩ ?_ ?_
      · rw [eq_false_of_ne_true hp]
        rfl
      · intro hnil
        obtain ⟨_, hinteractive, hbenchmark, _⟩ := h.idle hnil
        exact ⟨⟨hinteractive, hbenchmark, rfl⟩, ⟨fun _ => ⟨path, rfl⟩, fun _ => rfl⟩⟩

/-- A second path comes after a mode. -/
theorem Arguments.Reads.two_le_of_add {arguments : Arguments} {items : List Argument}
    (h : arguments.Reads items) {item : Argument} (he : arguments.add item = none) :
    2 ≤ ((items ++ [item]).filter Argument.isMode).length := by
  cases item with
  | inputPath path =>
    simp only [Arguments.add] at he
    split at he
    case isTrue hp =>
      have hc := h.count
      rw [hp] at hc
      rw [filter_isMode_concat rfl, List.length_append]
      simp only [Bool.toNat_true, List.length_singleton] at hc ⊢
      omega
    case isFalse => cases he
  | schemaDir value => cases he
  | dataDir value => cases he
  | interactive => cases he
  | benchmark short => cases he

/-- All the items, from the beginning: only too many modes stop the loop. -/
theorem foldlM_add (items : List Argument) :
    (items.foldlM Arguments.add .zero = none ∧ 2 ≤ (items.filter Argument.isMode).length) ∨
      ∃ arguments, items.foldlM Arguments.add .zero = some arguments ∧
        arguments.Reads items := by
  induction items using List.reverseRecOn with
  | nil => exact .inr ⟨.zero, rfl, Arguments.reads_zero⟩
  | append_singleton items item ih =>
    rw [List.foldlM_append]
    rcases ih with ⟨hnone, htwo⟩ | ⟨arguments, hsome, hreads⟩
    · rw [hnone, List.filter_append, List.length_append]
      exact .inl ⟨rfl, Nat.le_add_right_of_le htwo⟩
    · rw [hsome]
      cases hadd : arguments.add item with
      | none => exact .inl ⟨by simp [hadd], hreads.two_le_of_add hadd⟩
      | some result => exact .inr ⟨result, by simp [hadd], hreads.add hadd⟩

/-! ### The grammar of the command line -/

/-- What the checks at the end come to: both directories, and either one flag or a path. -/
theorem Arguments.complete_iff (arguments : Arguments) : arguments.complete = true ↔
    arguments.schemaDir ≠ [] ∧ arguments.dataDir ≠ [] ∧
      arguments.modeCount + arguments.hasInputPath.toNat = 1 ∧
      (arguments.hasInputPath = true → arguments.inputPath ≠ []) := by
  unfold Arguments.complete
  cases arguments.hasInputPath with
  | false => simp; grind
  | true => simp; grind

theorem take_ne_nil {value : Bytes} (h : value ≠ []) : value.take 255 ≠ [] := by
  cases value with
  | nil => exact absurd rfl h
  | cons b value => exact List.cons_ne_nil _ _

/-- A directory is set by a last value that is not empty. -/
theorem exists_of_take_getD {last : Option Bytes} (h : (last.getD []).take 255 ≠ []) :
    ∃ value, last = some value ∧ value ≠ [] := by
  cases last with
  | none => exact absurd rfl h
  | some value =>
    refine ⟨value, rfl, ?_⟩
    rintro rfl
    exact h rfl

/-- The checks at the end accept what the items make a command line. -/
theorem Arguments.Reads.complete_iff {arguments : Arguments} {items : List Argument}
    (h : arguments.Reads items) :
    arguments.complete = true ↔ CommandLine items arguments.toRunConfig := by
  rw [arguments.complete_iff, h.count]
  constructor
  · rintro ⟨hschema, hdata, hone, hpath⟩
    obtain ⟨schema, hs, hschema⟩ := exists_of_take_getD (h.schemaDir ▸ hschema)
    obtain ⟨data, hd, hdata⟩ := exists_of_take_getD (h.dataDir ▸ hdata)
    obtain ⟨item, hitem⟩ := List.length_eq_one_iff.mp hone
    obtain ⟨hselects, hinput⟩ := h.mode item hitem
    refine ⟨⟨schema, hs, hschema, ?_⟩, ⟨data, hd, hdata, ?_⟩, item, hitem, ?_, hselects⟩
    · rw [h.schemaDir, hs, Option.getD_some]
    · rw [h.dataDir, hd, Option.getD_some]
    · rintro rfl
      exact hpath (hinput.mpr ⟨[], rfl⟩) hselects.2.2
  · rintro ⟨⟨schema, hs, hschema, he⟩, ⟨data, hd, hdata, he'⟩, item, hitem, hne, hselects⟩
    refine ⟨he ▸ take_ne_nil hschema, he' ▸ take_ne_nil hdata, ?_, ?_⟩
    · rw [hitem, List.length_singleton]
    · intro hinput
      obtain ⟨path, rfl⟩ := (h.mode item hitem).2.mp hinput
      rw [hselects.2.2]
      exact take_ne_nil fun hnil => hne (congrArg Argument.inputPath hnil)

/-- What is a command line for some configuration is one for what the loop has read. -/
theorem Arguments.Reads.commandLine {arguments : Arguments} {items : List Argument}
    (h : arguments.Reads items) {config : RunConfig} (hline : CommandLine items config) :
    CommandLine items arguments.toRunConfig := by
  obtain ⟨⟨schema, hs, hschema, _⟩, ⟨data, hd, hdata, _⟩, item, hitem, hne, _⟩ := hline
  refine ⟨⟨schema, hs, hschema, ?_⟩, ⟨data, hd, hdata, ?_⟩, item, hitem, hne,
    (h.mode item hitem).1⟩
  · rw [h.schemaDir, hs, Option.getD_some]
  · rw [h.dataDir, hd, Option.getD_some]

/-- Items are the command line of one configuration. -/
theorem CommandLine.unique {items : List Argument} {config config' : RunConfig}
    (h : CommandLine items config) (h' : CommandLine items config') : config = config' := by
  obtain ⟨schema, hs, _, hschema⟩ := h.schemaDir
  obtain ⟨data, hd, _, hdata⟩ := h.dataDir
  obtain ⟨item, hitem, _, hselects⟩ := h.mode
  obtain ⟨schema', hs', _, hschema'⟩ := h'.schemaDir
  obtain ⟨data', hd', _, hdata'⟩ := h'.dataDir
  obtain ⟨item', hitem', _, hselects'⟩ := h'.mode
  obtain rfl := Option.some.inj (hs.symm.trans hs')
  obtain rfl := Option.some.inj (hd.symm.trans hd')
  obtain rfl := List.singleton_inj.mp (hitem.symm.trans hitem')
  have hmode : config.inputPath = config'.inputPath ∧
      config.interactiveMode = config'.interactiveMode ∧
      config.benchmarkMode = config'.benchmarkMode := by
    cases item with
    | schemaDir value => exact hselects.elim
    | dataDir value => exact hselects.elim
    | _ =>
      obtain ⟨hi, hb, hp⟩ := hselects
      obtain ⟨hi', hb', hp'⟩ := hselects'
      exact ⟨hp.trans hp'.symm, hi.trans hi'.symm, hb.trans hb'.symm⟩
  obtain ⟨hp, hi, hb⟩ := hmode
  obtain ⟨⟨s, d, ls, ld⟩, p, i, b⟩ := config
  obtain ⟨⟨s', d', ls', ld'⟩, p', i', b'⟩ := config'
  obtain rfl : s = s' := hschema.trans hschema'.symm
  obtain rfl : d = d' := hdata.trans hdata'.symm
  obtain rfl : p = p' := hp
  obtain rfl : i = i' := hi
  obtain rfl : b = b' := hb
  rfl

/-- The program takes exactly the command lines: both directories are given, in any order and any
number of times, and there is one thing to do. -/
theorem parseArguments_eq_some_iff (args : List Bytes) (config : RunConfig) :
    parseArguments args = some config ↔
      ∃ items : List Argument, args = items.flatMap Argument.words ∧
        (∀ item ∈ items, item.Plain) ∧ CommandLine items config := by
  unfold parseArguments
  constructor
  · intro h
    split at h
    case h_1 => cases h
    case h_2 arguments hscan =>
      obtain ⟨hcomplete, he⟩ := Option.ite_none_right_eq_some.mp h
      obtain rfl := Option.some.inj he
      obtain ⟨items, rfl, hplain⟩ := exists_items hscan
      rw [scanArguments_flatMap hplain] at hscan
      refine ⟨items, rfl, hplain, ?_⟩
      rcases foldlM_add items with ⟨hnone, _⟩ | ⟨arguments', hsome, hreads⟩
      · rw [hnone] at hscan
        cases hscan
      · obtain rfl := Option.some.inj (hsome.symm.trans hscan)
        exact hreads.complete_iff.mp hcomplete
  · rintro ⟨items, rfl, hplain, hline⟩
    obtain ⟨item, hitem, hne, _⟩ := hline.mode
    rw [scanArguments_flatMap hplain]
    rcases foldlM_add items with ⟨_, htwo⟩ | ⟨arguments, hsome, hreads⟩
    · rw [hitem, List.length_singleton] at htwo
      exact absurd htwo (by decide)
    · have hcomplete := hreads.complete_iff.mpr (hreads.commandLine hline)
      rw [hsome]
      simp only [hcomplete, if_true, Option.some.injEq]
      exact (hreads.commandLine hline).unique hline

end SqlProc.App
