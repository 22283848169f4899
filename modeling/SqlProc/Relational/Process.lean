import SqlProc.App.Main
import SqlProc.Executor.Places
import SqlProc.Relational.Restart

/-!
# The program as a process

Library `Relational`. A run of the program on the files of a database answers the SQL texts that
it reads as the database does: standard output is what the database prints, standard error has
one line for each text that is refused, and the exit status tells whether a file was refused.
-/

namespace SqlProc.Relational

open Base Front Schema Storage Executor App Support

variable {config : AppConfig} {tables : List TableSchema} {w : World} {db : Database}

/-! ### Errors -/

/-- Every error of a text has a message, and a place of the text or none. -/
theorem explains_runSqlText (config : AppConfig) (sqlText : Bytes) :
    (runSqlText config sqlText).Raises (Explained (InText sqlText)) := by
  intro w e he
  rw [runSqlText_apply] at he
  cases hprogram : tokenizeSql sqlText >>= parseProgram with
  | error e' =>
    rw [hprogram] at he
    obtain rfl := Except.error.inj he
    exact (fails_parseProgram sqlText e' hprogram).imp_right .inr
  | ok program =>
    rw [hprogram] at he
    exact explains_executeProgram (inText_none sqlText) (parseProgram_placed hprogram) w e he

/-- Every text that fails is explained: the front end refuses it at a place of the text, and the
executor stops with a message and a place of the text or none. -/
theorem runSqlText_explains (config : AppConfig) (sqlText : Bytes) :
    Fails (Explained (IsPlace [] (cstr sqlText))) (tokenizeSql sqlText >>= parseProgram) ∧
      (runSqlText config sqlText).Raises (Explained (InText sqlText)) :=
  ⟨fails_parseProgram sqlText, explains_runSqlText config sqlText⟩

/-- A failure is one line on standard error. -/
theorem length_printError {e : ErrorInfo} (h : e.message ≠ "") : (printError e).length = 1 := by
  unfold printError
  rw [if_neg h]
  split
  · rfl
  · rfl

/-! ### Texts one after the other -/

/-- A process takes a text. -/
def runText (config : AppConfig) (w : World) (sqlText : Bytes) : Except ErrorInfo Unit × World :=
  runSqlText config sqlText w

/-- What a result puts on standard error. -/
def errorLines : Except ErrorInfo Unit → List String
  | .error e => printError e
  | .ok () => []

/-- The result of an action. -/
def actionResult : Action → Option (Except ErrorInfo Unit)
  | .run _ _ result => some result
  | .exit .. => none

/-- Each text that fails puts one line on standard error. -/
theorem length_errorLines {results : List (Except ErrorInfo Unit)}
    (h : ∀ result ∈ results, ∀ e, result = .error e → e.message ≠ "") :
    (results.flatMap errorLines).length = (results.map Except.isOk).count false := by
  induction results with
  | nil => rfl
  | cons result results ih =>
    obtain ⟨hresult, hresults⟩ := List.forall_mem_cons.mp h
    rw [List.flatMap_cons, List.length_append, ih hresults, List.map_cons]
    cases result with
    | error e =>
      have hcount : List.count false (false :: results.map Except.isOk) = _ :=
        List.count_cons_self
      rw [errorLines, length_printError (hresult e rfl), Nat.add_comm]
      exact hcount.symm
    | ok u =>
      have hcount : List.count false (true :: results.map Except.isOk) = _ :=
        List.count_cons_of_ne (by decide)
      exact (Nat.zero_add _).trans hcount.symm

theorem flatMap_stderr (actions : List Action) :
    actions.flatMap Action.stderr = (actions.filterMap actionResult).flatMap errorLines := by
  induction actions with
  | nil => rfl
  | cons action actions ih =>
    rw [List.flatMap_cons, ih]
    cases action with
    | exit position line => rfl
    | run position sqlText result =>
      cases result with
      | error e => rfl
      | ok u => rfl

/-- The loop takes the texts of its actions one after the other. -/
theorem interactiveLoop_eq_runMachine (config : AppConfig) (fuel : Nat) (stdin : CFile)
    (w : World) :
    let (actions, w') := interactiveLoop config fuel stdin w
    runMachine (runText config) ((actions.filterMap Action.ran).map Prod.snd) w =
      (actions.filterMap actionResult, w') := by
  induction fuel generalizing stdin w with
  | zero => rfl
  | succ fuel ih =>
    rw [interactiveLoop]
    cases hget : fgets maxSqlSize stdin with
    | none => rfl
    | some p =>
      obtain ⟨line, rest⟩ := p
      simp only
      split
      · rfl
      · split
        · exact ih rest w
        · have hrest := ih rest (runSqlText config (trimLineEnd line) w).2
          simp only [List.filterMap_cons, Action.ran, actionResult, List.map_cons,
            runMachine_cons, runText] at hrest ⊢
          rw [hrest]

/-- A process that implements a database takes texts as the database does. -/
theorem Implements.runTexts (h : Implements config tables w db) (texts : List Bytes) :
    let run := runMachine (runText config) texts w
    let out := runMachine (Database.runText tables) texts db
    run.1.map Except.isOk = out.1.map Prod.fst ∧
      run.2.disk.stdout = w.disk.stdout ++ out.1.flatMap Prod.snd ∧
      Implements config tables run.2 out.2 := by
  induction texts generalizing w db with
  | nil => exact ⟨rfl, (List.append_nil _).symm, h⟩
  | cons sqlText texts ih =>
    obtain ⟨hok, hout, hnext⟩ := h.runSqlText sqlText
    obtain ⟨hoks, houts, hfinal⟩ := ih hnext
    simp only [runMachine_cons, runText, List.map_cons, List.flatMap_cons] at hoks houts hfinal ⊢
    refine ⟨congrArg₂ List.cons hok hoks, ?_, hfinal⟩
    rw [houts, hout, List.append_assoc]

/-! ### The program -/

/-- The lines of an interactive session that are run. -/
def sessionTexts (input : Bytes) : List Bytes := (handled (wholeLines input)).map Prod.snd

/-- The SQL texts of a run, unless there is no file or it is too large. -/
def inputTexts (config : RunConfig) (stdin : CFile) (files : Files) : Option (List Bytes) :=
  if config.interactiveMode then some (sessionTexts (remaining stdin))
  else
    match files config.inputPath with
    | none => none
    | some content => if content.length < maxSqlSize then some [cstr content] else none

/-- The program has done with the texts what the database does. -/
structure Exits (config : AppConfig) (tables : List TableSchema) (w : World) (db : Database)
    (texts : List Bytes) (exit : Exit) : Prop where
  stdout : exit.world.disk.stdout =
    w.disk.stdout ++ (runMachine (Database.runText tables) texts db).1.flatMap Prod.snd
  stderr : exit.stderr.length =
    ((runMachine (Database.runText tables) texts db).1.map Prod.fst).count false
  implements : Implements config tables exit.world
    (runMachine (Database.runText tables) texts db).2

/-- The texts of a process are those of the database when it implements it. -/
theorem Implements.exits (h : Implements config tables w db) (texts : List Bytes)
    (status : Nat) :
    let run := runMachine (runText config) texts w
    Exits config tables w db texts ⟨status, run.1.flatMap errorLines, run.2⟩ := by
  obtain ⟨hok, hout, hfinal⟩ := h.runTexts texts
  refine ⟨hout, ?_, hfinal⟩
  rw [← hok]
  refine length_errorLines (forall_mem_runMachine ?_ texts w)
  exact fun w sqlText e he ↦ (explains_runSqlText config sqlText w e he).1

/-- The interactive mode takes the lines of its input, when they fit the buffer. -/
theorem Implements.runInteractiveMode (h : Implements config tables w db) {stdin : CFile}
    (hn : nul ∉ remaining stdin)
    (hfit : ∀ p ∈ beforeExit (wholeLines (remaining stdin)), p.2.length < maxSqlSize) :
    (App.runInteractiveMode config stdin w).status = 0 ∧
      Exits config tables w db (sessionTexts (remaining stdin))
        (App.runInteractiveMode config stdin w) := by
  have hcuts : CutsInto lf 0 (remaining stdin) (lines (remaining stdin)) :=
    cutsInto_iff.mpr rfl
  have hran := (runInteractiveProgram_pieces config w hn).1
  rw [(handled_pieces_of_short hcuts hfit).1] at hran
  have hrun := interactiveLoop_eq_runMachine config ((remaining stdin).length + 1)
    (.start (remaining stdin)) w
  have hexits := h.exits (sessionTexts (remaining stdin)) 0
  unfold App.runInteractiveMode
  unfold runInteractiveProgram at hran ⊢
  generalize interactiveLoop config ((remaining stdin).length + 1) (.start (remaining stdin)) w =
    loop at hran hrun ⊢
  obtain ⟨actions, w'⟩ := loop
  simp only [hran] at hrun
  rw [sessionTexts, wholeLines, hrun] at hexits
  refine ⟨rfl, ?_⟩
  simp only [flatMap_stderr]
  exact hexits

/-- A file that can be loaded is run as one text. -/
theorem runSqlFile_apply (config : AppConfig) (path : Bytes) (w : World) :
    runSqlFile config path w =
      match loadSqlFile w.disk.files path maxSqlSize with
      | .error e => (.error e, w)
      | .ok sqlText => runSqlText config sqlText w := by
  rw [runSqlFile, Exec.bind_ok (Exec.get_apply w), Exec.bind_apply, Exec.lift_apply]
  cases loadSqlFile w.disk.files path maxSqlSize with
  | error e => rfl
  | ok sqlText => rfl

/-- The end of a run on a file. -/
def exitOf (run : Except ErrorInfo Unit × World) : Exit :=
  match run with
  | (.error e, w) => ⟨1, printError e, w⟩
  | (.ok (), w) => ⟨0, [], w⟩

/-- A file that is refused leaves everything as it was. -/
theorem exitOf_error {e : ErrorInfo} (h : e.message ≠ "") :
    (exitOf (.error e, w)).status = 1 ∧ (exitOf (.error e, w)).stderr.length = 1 ∧
      (exitOf (.error e, w)).world = w := ⟨rfl, length_printError h, rfl⟩

/-- One text, whose failure is the failure of the program. -/
theorem Implements.exitOf (h : Implements config tables w db) (sqlText : Bytes) :
    let exit := Relational.exitOf (App.runSqlText config sqlText w)
    Exits config tables w db [sqlText] exit ∧ exit.status = exit.stderr.length := by
  have hmessage := explains_runSqlText config sqlText w
  have hexits := h.exits [sqlText]
  simp only [runText, runMachine] at hexits
  generalize App.runSqlText config sqlText w = run at hmessage hexits ⊢
  obtain ⟨result, w'⟩ := run
  cases result with
  | error e =>
    refine ⟨?_, (length_printError (hmessage e rfl).1).symm⟩
    have := hexits 1
    rwa [List.flatMap_singleton] at this
  | ok u => exact ⟨hexits 0, rfl⟩

/-- A file that fits the buffer is run as one text. -/
theorem runSqlFile_of_lt {path content : Bytes} (hfile : w.disk.files path = some content)
    (hlen : content.length < maxSqlSize) :
    runSqlFile config path w = App.runSqlText config (cstr content) w := by
  have hle : ¬ maxSqlSize - 1 < content.length := Nat.not_lt.mpr (Nat.le_pred_of_lt hlen)
  rw [runSqlFile_apply, loadSqlFile, hfile]
  simp only [if_neg hle]

/-- The program in its interactive mode. -/
theorem main_interactive {config : RunConfig} {args : List Bytes}
    (hargs : parseArguments args = some config) (hb : config.benchmarkMode = false)
    (hi : config.interactiveMode = true) (stdin : CFile) :
    App.main args stdin w = some (App.runInteractiveMode config.toAppConfig stdin w) := by
  simp only [App.main, hargs, runProgram, hb, hi, Bool.false_eq_true, if_false, if_true]

/-- The program on a file. -/
theorem main_file {config : RunConfig} {args : List Bytes}
    (hargs : parseArguments args = some config) (hb : config.benchmarkMode = false)
    (hi : config.interactiveMode = false) (stdin : CFile) :
    App.main args stdin w =
      some (exitOf (runSqlFile config.toAppConfig config.inputPath w)) := by
  simp only [App.main, hargs, runProgram, hb, hi, Bool.false_eq_true, if_false]
  generalize runSqlFile config.toAppConfig config.inputPath w = run
  obtain ⟨result, w'⟩ := run
  cases result with
  | error e => rfl
  | ok u => rfl

/-- What a run of the program does on the files of a database, when it is not a benchmark: a file
that cannot be read is refused; a file that the database refuses is a failure; the interactive
mode goes on after what is refused. -/
theorem main_answers {config : RunConfig} {args : List Bytes} {stdin : CFile}
    (h : Implements config.toAppConfig tables w db) (hargs : parseArguments args = some config)
    (hb : config.benchmarkMode = false)
    (hstdin : config.interactiveMode = true → nul ∉ remaining stdin ∧
      ∀ p ∈ beforeExit (wholeLines (remaining stdin)), p.2.length < maxSqlSize) :
    ∃ exit, App.main args stdin w = some exit ∧
      match inputTexts config stdin w.disk.files with
      | none => exit.status = 1 ∧ exit.stderr.length = 1 ∧ exit.world = w
      | some texts => Exits config.toAppConfig tables w db texts exit ∧
        exit.status = if config.interactiveMode then 0 else exit.stderr.length := by
  cases hi : config.interactiveMode with
  | true =>
    obtain ⟨hn, hfit⟩ := hstdin hi
    obtain ⟨hstatus, hexits⟩ := h.runInteractiveMode hn hfit
    refine ⟨_, main_interactive hargs hb hi stdin, ?_⟩
    rw [inputTexts, hi]
    exact ⟨hexits, hstatus⟩
  | false =>
    refine ⟨_, main_file hargs hb hi stdin, ?_⟩
    simp only [inputTexts, hi, Bool.false_eq_true, if_false]
    cases hfile : w.disk.files config.inputPath with
    | none =>
      rw [runSqlFile_apply, loadSqlFile, hfile]
      exact exitOf_error (by decide)
    | some content =>
      by_cases hlen : content.length < maxSqlSize
      · rw [runSqlFile_of_lt hfile hlen]
        simp only [if_pos hlen]
        exact h.exitOf (cstr content)
      · have hlt : maxSqlSize - 1 < content.length :=
          Nat.lt_of_lt_of_le (by decide) (Nat.le_of_not_lt hlen)
        rw [runSqlFile_apply, loadSqlFile, hfile]
        simp only [if_neg hlen, if_pos hlt]
        exact exitOf_error (by decide)

/-- A session on the files with the schema of `t`. -/
def sampleArgs : List Bytes :=
  [text "--schema-dir", text "s", text "--data-dir", text "d", text "--interactive"]

/-- The configuration of the session. -/
def sampleRunConfig : RunConfig := ⟨sampleConfig, [], true, false⟩

/-- Lines that are run and refused, and one that is not reached. -/
def sampleInput : Bytes :=
  text "INSERT INTO t (name) VALUES ('a');\n\nSELECT\nSELECT * FROM t;\r\nexit\nSELECT"

theorem main_answers_sample :
    ∃ exit, App.main sampleArgs (.start sampleInput) sampleWorld = some exit ∧
      match inputTexts sampleRunConfig (.start sampleInput) sampleWorld.disk.files with
      | none => exit.status = 1 ∧ exit.stderr.length = 1 ∧ exit.world = sampleWorld
      | some texts =>
        Exits sampleRunConfig.toAppConfig [sampleSchema] sampleWorld .empty texts exit ∧
          exit.status = if sampleRunConfig.interactiveMode then 0 else exit.stderr.length := by
  have hargs : parseArguments sampleArgs = some sampleRunConfig := rfl
  refine main_answers implements_sampleWorld hargs rfl fun _ ↦ ⟨?_, ?_⟩
  · decide +kernel
  · decide +kernel

end SqlProc.Relational
