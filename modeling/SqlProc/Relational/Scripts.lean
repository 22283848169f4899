import SqlProc.Front.Scripts
import SqlProc.Relational.Process
import SqlProc.Relational.Programs

/-!
# Scripts

Library `Relational`. A script is a text in which every line is empty or spells a program. The
program can be given it as a file, which is run as one text, or as the input of a session, which
runs the lines one after the other: it does the same until a statement is refused.
-/

namespace SqlProc.Relational

open Base Front Schema Storage Executor App Support

variable {config : AppConfig} {tables : List TableSchema} {w : World} {db : Database}
  {programs : List Program}

/-- A script, whose lines are also one program within the limits. -/
structure Script where
  content : Bytes
  programs : List Program
  whole : Program
  commands_eq : whole.commands = programs.flatMap Program.commands
  spelled : List.Forall₂ Spelled programs (sessionTexts content)
  noExit : ∀ p ∈ wholeLines content, isExitCommand p.2 = false
  length_lt : content.length < maxSqlSize

/-! ### One text -/

theorem isBlank_of_isLineEnd (c : UInt8) : isLineEnd c = true → isBlank c = true := by
  revert c
  decide +kernel

/-- The text of a line before the texts of other lines. -/
theorem writes_line {texts : List Bytes} {line tail : Bytes}
    (hs : List.Forall₂ Spelled programs
      (if trimLineEnd line = [] then texts else trimLineEnd line :: texts))
    (htail : ∀ {programs}, List.Forall₂ Spelled programs texts →
      Writes (programLexemes (programs.flatMap Program.commands)) tail) :
    Writes (programLexemes (programs.flatMap Program.commands)) (line ++ tail) := by
  obtain ⟨ends, hline, hends⟩ := exists_eq_trimLineEnd_append line
  have hblank : ∀ c ∈ ends, isBlank c = true := fun c hc ↦ isBlank_of_isLineEnd c (hends c hc)
  rw [hline, List.append_assoc]
  by_cases hnil : trimLineEnd line = []
  · rw [if_pos hnil] at hs
    rw [hnil, List.nil_append]
    exact (htail hs).blanks_append hblank
  · rw [if_neg hnil] at hs
    cases hs with
    | @cons program _ programs _ hprogram hprograms =>
      rw [List.flatMap_cons, programLexemes, List.flatMap_append]
      exact hprogram.append (getLast?_programLexemes _) ((htail hprograms).blanks_append hblank)

/-- The texts of lines that are not empty. -/
def filledTexts (lines : List (Nat × Bytes)) : List Bytes :=
  ((trimLines lines).filter fun p ↦ p.2 ≠ []).map Prod.snd

theorem filledTexts_cons (position : Nat) (line : Bytes) (lines : List (Nat × Bytes)) :
    filledTexts ((position, line) :: lines) =
      if trimLineEnd line = [] then filledTexts lines
      else trimLineEnd line :: filledTexts lines := by
  unfold filledTexts
  rw [trimLines, List.map_cons, List.filter_cons]
  by_cases hnil : trimLineEnd line = []
  · rw [if_pos hnil, if_neg (by simp [hnil])]
    rfl
  · rw [if_neg hnil, if_pos (by simp [hnil]), List.map_cons]
    rfl

/-- Lines that spell programs, with empty ones between them, spell the programs together. -/
theorem writes_lines {start : Nat} {content : Bytes} {lines : List (Nat × Bytes)}
    (h : CutsInto lf start content lines)
    (hs : List.Forall₂ Spelled programs (filledTexts lines)) :
    Writes (programLexemes (programs.flatMap Program.commands)) content := by
  have hnone : ∀ {programs}, List.Forall₂ Spelled programs [] →
      Writes (programLexemes (programs.flatMap Program.commands)) [] := by
    rintro _ ⟨⟩
    exact .nil [] (List.forall_mem_nil _)
  induction h generalizing programs with
  | nil start => exact hnone hs
  | @last start record hlf hne =>
    rw [filledTexts_cons] at hs
    rw [← List.append_nil record]
    exact writes_line hs hnone
  | @cons start record rest later hlf ht ih =>
    rw [filledTexts_cons] at hs
    apply writes_line hs
    intro programs hprograms
    exact (ih hprograms).blanks_append (List.forall_mem_singleton.mpr rfl)

/-- Without an exit command, the lines that are not empty are run. -/
theorem sessionTexts_of_noExit {content : Bytes}
    (h : ∀ p ∈ wholeLines content, isExitCommand p.2 = false) :
    sessionTexts content = filledTexts (lines content) := by
  have hbefore : beforeExit (wholeLines content) = wholeLines content := by
    rw [beforeExit, List.takeWhile_eq_self_iff]
    intro p hp
    rw [h p hp]
    rfl
  rw [sessionTexts, handled, hbefore]
  rfl

/-- The lines of a script fit the buffer. -/
theorem Script.fits (script : Script) :
    ∀ p ∈ beforeExit (wholeLines script.content), p.2.length < maxSqlSize := by
  intro p hp
  obtain ⟨line, hline, rfl⟩ := List.mem_map.mp (List.takeWhile_subset _ hp)
  have htrim : (trimLineEnd line.2).length ≤ line.2.length :=
    (List.rdropWhile_prefix _ line.2).length_le
  have hle := length_le_of_mem_records lf hline
  exact Nat.lt_of_le_of_lt (htrim.trans hle) script.length_lt

/-- A script spells its program. -/
theorem Script.spelledWhole (script : Script) : Spelled script.whole script.content := by
  have hcuts : CutsInto lf 0 script.content (lines script.content) := cutsInto_iff.mpr rfl
  have hspelled := script.spelled
  rw [sessionTexts_of_noExit script.noExit] at hspelled
  rw [Spelled, script.commands_eq]
  exact writes_lines hcuts hspelled

/-! ### One text, or line by line -/

/-- A program is a batch of statements. -/
theorem Database.executeProgram_eq_runBatch (program : SqlProgram) (db : Database) :
    db.executeProgram tables program = runBatch (Database.execute tables) program db := by
  induction program generalizing db with
  | nil => rfl
  | cons statement program ih =>
    rw [Database.executeProgram, runBatch]
    obtain ⟨answer, db'⟩ := db.execute tables statement
    cases answer with
    | none => rfl
    | some output => simp only [ih]

/-- Texts that spell programs run them. -/
theorem runMachine_spelled {texts : List Bytes} (h : List.Forall₂ Spelled programs texts)
    (db : Database) :
    runMachine (Database.runText tables) texts db =
      runMachine (fun db batch ↦ runBatch (Database.execute tables) batch db)
        (programs.map meaning) db := by
  induction h generalizing db with
  | nil => rfl
  | cons hspelled _ ih =>
    rw [List.map_cons, runMachine_cons, runMachine_cons, hspelled.runText,
      Database.executeProgram_eq_runBatch, ih]

/-- On the database a script does as one text what it does line by line. -/
theorem Script.joins (script : Script) (db : Database) :
    Joins (db.runText tables script.content)
      (runMachine (Database.runText tables) (sessionTexts script.content) db) := by
  have hmeaning : meaning script.whole = (script.programs.map meaning).flatten := by
    rw [meaning, script.commands_eq, List.map_flatMap]
    rfl
  rw [script.spelledWhole.runText, Database.executeProgram_eq_runBatch, hmeaning,
    runMachine_spelled script.spelled]
  exact joins_runBatch _ db

/-! ### The two ways to run a script -/

/-- A script as a file, and as the input of a session: the file prints a first part of what the
session prints, it succeeds when the session has nothing to report, and then it prints the same
and leaves the files of the same database. -/
structure SameScript (config : AppConfig) (tables : List TableSchema) (file session : Exit) :
    Prop where
  printed : file.world.disk.stdout <+: session.world.disk.stdout
  status : file.status = 0 ↔ session.stderr = []
  same : file.status = 0 → file.world.disk.stdout = session.world.disk.stdout ∧
    ∃ db, Implements config tables file.world db ∧ Implements config tables session.world db

/-- No answer is a failure when there is no line on standard error. -/
theorem Exits.stderr_eq_nil_iff {texts : List Bytes} {exit : Exit}
    (h : Exits config tables w db texts exit) : exit.stderr = [] ↔
      ∀ answer ∈ (runMachine (Database.runText tables) texts db).1, answer.1 = true := by
  rw [← List.length_eq_zero_iff, h.stderr, List.count_eq_zero, List.mem_map]
  constructor
  · intro hnone answer hanswer
    cases hdone : answer.1 with
    | true => rfl
    | false => exact absurd ⟨answer, hanswer, hdone⟩ hnone
  · rintro hall ⟨answer, hanswer, hdone⟩
    rw [hall answer hanswer] at hdone
    cases hdone

/-- A script that the program is given as a file does what it does as the input of a session,
until a statement is refused. -/
theorem main_script {script : Script} {config session : RunConfig} {args args' : List Bytes}
    {stdin : CFile} (h : Implements config.toAppConfig tables w db)
    (hargs : parseArguments args = some config) (hb : config.benchmarkMode = false)
    (hi : config.interactiveMode = false)
    (hfile : w.disk.files config.inputPath = some script.content)
    (hargs' : parseArguments args' = some session) (hb' : session.benchmarkMode = false)
    (hi' : session.interactiveMode = true) (hconfig : session.toAppConfig = config.toAppConfig)
    (hstdin : remaining stdin = script.content) (unread : CFile) :
    ∃ exit exit', App.main args unread w = some exit ∧ App.main args' stdin w = some exit' ∧
      SameScript config.toAppConfig tables exit exit' := by
  have hnul : nul ∉ remaining stdin := by
    rw [hstdin]
    exact script.spelledWhole.nul_notMem
  have hfits := script.fits
  rw [← hstdin] at hfits
  have hone : runMachine (Database.runText tables) [script.content] db =
      ([(db.runText tables script.content).1], (db.runText tables script.content).2) := rfl
  obtain ⟨hdone, hanswers, hsame⟩ := @Script.joins tables script db
  obtain ⟨hexits, hstatus⟩ := h.exitOf script.content
  obtain ⟨-, hexits'⟩ := h.runInteractiveMode hnul hfits
  rw [hstdin] at hexits'
  have hrun := @runSqlFile_of_lt config.toAppConfig w _ _ hfile script.length_lt
  rw [cstr_eq_self script.spelledWhole.nul_notMem] at hrun
  refine ⟨_, _, main_file hargs hb hi unread, main_interactive hargs' hb' hi' stdin, ?_⟩
  rw [hrun, hconfig]
  have hsucceeds : (exitOf (App.runSqlText config.toAppConfig script.content w)).status = 0 ↔
      (db.runText tables script.content).1.1 = true := by
    rw [hstatus, List.length_eq_zero_iff, hexits.stderr_eq_nil_iff, hone,
      List.forall_mem_singleton]
  refine ⟨?_, ?_, fun hzero ↦ ?_⟩
  · rw [hexits.stdout, hexits'.stdout, hone, List.flatMap_singleton]
    exact (List.prefix_append_right_inj _).mpr hanswers
  · rw [hsucceeds, hexits'.stderr_eq_nil_iff]
    exact hdone
  · obtain ⟨houtput, hdb⟩ := hsame (hsucceeds.mp hzero)
    refine ⟨?_, _, hexits.implements, ?_⟩
    · rw [hexits.stdout, hexits'.stdout, hone, List.flatMap_singleton, houtput]
    · rw [hone, hdb]
      exact hexits'.implements

/-- Two lines, and an empty one between them. -/
def sampleScript : Script where
  content := text "select * FROM T;\r\n\nselect * FROM T;"
  programs := [sampleSelectAll, sampleSelectAll]
  whole :=
    { commands := sampleSelectAll.commands ++ sampleSelectAll.commands
      commands_ne_nil := List.cons_ne_nil _ _
      length_commands_le := by decide
      length_lexemes_lt := by decide }
  commands_eq := rfl
  spelled := by
    have htexts : sessionTexts (text "select * FROM T;\r\n\nselect * FROM T;") =
        [text "select * FROM T;", text "select * FROM T;"] := by decide +kernel
    rw [htexts]
    exact .cons spelled_sampleSelectAll (.cons spelled_sampleSelectAll .nil)
  noExit := by decide +kernel
  length_lt := by decide

/-- The process that finds the schema of `t` and the script. -/
def scriptWorld : World := sampleWorld.write (text "q.sql") sampleScript.content

theorem implements_scriptWorld : Implements sampleConfig [sampleSchema] scriptWorld .empty := by
  apply implements_sampleWorld.congr
  · exact ⟨_, List.Subset.refl _, by decide, slotsOf_nil _ rfl⟩
  · intro name hlen
    apply Disk.write_files_of_ne
    rw [schemaPath_eq sampleConfig hlen]
    intro hpath
    cases congrArg List.head? hpath
  · exact List.forall_mem_singleton.mpr rfl

theorem main_script_sample : ∃ exit exit',
    App.main [text "--schema-dir", text "s", text "--data-dir", text "d", text "q.sql"] (.start [])
      scriptWorld = some exit ∧
    App.main sampleArgs (.start sampleScript.content) scriptWorld = some exit' ∧
      SameScript sampleConfig [sampleSchema] exit exit' :=
  @main_script _ _ _ _ ⟨sampleConfig, text "q.sql", false, false⟩ sampleRunConfig _ _ _
    implements_scriptWorld rfl rfl rfl rfl rfl rfl rfl rfl rfl _

end SqlProc.Relational
