import SqlProc.Front.RoundTrip
import SqlProc.Relational.Restart

/-!
# What a program means

Library `Relational`. A program of the language means a sequence of statements on the database,
which do not depend on the places in the text. Every text that spells the program, with any
blanks and any case of its words, does what the program means.
-/

namespace SqlProc.Relational

open Base Front Schema Storage Executor App

variable {config : AppConfig} {tables : List TableSchema} {w : World} {db : Database}

/-! ### Places do not matter -/

theorem takes_erase (dataType : DataType) (value : LiteralValue) :
    Takes dataType value.erase ↔ Takes dataType value := by
  cases dataType <;> exact Iff.rfl

/-- The statement of `INSERT` without its places. -/
abbrev eraseInsert (statement : InsertStatement) : InsertStatement :=
  { statement with
    tableLocation := noLocation
    columns := statement.columns.map ColumnName.erase
    values := statement.values.map LiteralValue.erase }

theorem accepts_erase (schema : TableSchema) (statement : InsertStatement) :
    Accepts schema (eraseInsert statement) ↔ Accepts schema statement := by
  have hnames : (statement.columns.map ColumnName.erase).map ColumnName.name =
      statement.columns.map ColumnName.name := List.map_map
  have horder : (∀ p ∈ schema.columns.zip (statement.values.map LiteralValue.erase),
      Takes p.1.type p.2) ↔ ∀ p ∈ schema.columns.zip statement.values, Takes p.1.type p.2 := by
    rw [List.zip_map_right, List.forall_mem_map]
    exact forall₂_congr fun p _ ↦ takes_erase p.1.type p.2
  have hlisted : (∀ p ∈ (statement.columns.map ColumnName.erase).zip
      (statement.values.map LiteralValue.erase),
      ∃ column ∈ schema.columns, column.name = p.1.name ∧ Takes column.type p.2) ↔
      ∀ p ∈ statement.columns.zip statement.values,
        ∃ column ∈ schema.columns, column.name = p.1.name ∧ Takes column.type p.2 := by
    rw [List.zip_map, List.forall_mem_map]
    refine forall₂_congr fun p _ ↦ exists_congr fun column ↦ ?_
    exact and_congr_right fun _ ↦ and_congr_right fun _ ↦ takes_erase column.type p.2
  constructor
  · intro h
    refine ⟨fun hc ↦ ?_, fun hc ↦ horder.mp (h.inOrder hc), fun hc ↦ ?_,
      fun hc ↦ hlisted.mp (h.listed hc)⟩
    · rw [← h.counted hc, List.length_map]
    · rw [← hnames]
      exact h.different hc
  · intro h
    refine ⟨fun hc ↦ ?_, fun hc ↦ horder.mpr (h.inOrder hc), fun hc ↦ ?_,
      fun hc ↦ hlisted.mpr (h.listed hc)⟩
    · rw [List.length_map]
      exact h.counted hc
    · rw [hnames]
      exact h.different hc

theorem listedText_erase (columns : List ColumnName) (values : List LiteralValue) (name : Bytes) :
    listedText (columns.map ColumnName.erase) (values.map LiteralValue.erase) name =
      listedText columns values name := by
  induction columns generalizing values with
  | nil => rfl
  | cons column columns ih =>
    rw [List.map_cons, listedText, listedText, ← List.map_tail, ih]
    cases values <;> rfl

theorem givenCells_erase (schema : TableSchema) (statement : InsertStatement) :
    givenCells schema (eraseInsert statement) = givenCells schema statement := by
  unfold givenCells givenText
  simp only [listedText_erase, List.getElem?_map, Option.map_map]
  rfl

theorem select_erase (schema : TableSchema) (statement : SelectStatement) (r : Relation) :
    r.select schema { statement with
      columns := statement.columns.map ColumnName.erase
      whereColumnLocation := noLocation
      whereValue := statement.whereValue.erase } = r.select schema statement := by
  have hselected : selectedColumns schema { statement with
      columns := statement.columns.map ColumnName.erase
      whereColumnLocation := noLocation
      whereValue := statement.whereValue.erase } = selectedColumns schema statement := by
    simp only [selectedColumns, List.mapM_map]
    rfl
  rw [Relation.select, Relation.select, hselected]
  rfl

/-- A statement does the same wherever it stands. -/
theorem Database.execute_erase (statement : Statement) :
    db.execute tables statement.erase = db.execute tables statement := by
  cases statement with
  | insert location statement =>
    simp only [Statement.erase, Database.execute]
    cases tables.find? (·.tableName = statement.tableName) with
    | none => rfl
    | some schema =>
      have haccepts := accepts_erase schema statement
      have hcells := givenCells_erase schema statement
      simp only [eraseInsert] at haccepts hcells
      simp only [haccepts, hcells]
  | select location statement =>
    simp only [Statement.erase, Database.execute]
    cases tables.find? (·.tableName = statement.tableName) with
    | none => rfl
    | some schema => simp only [select_erase]

/-- Programs that differ in places only do the same. -/
theorem Database.executeProgram_erase (program : SqlProgram) :
    db.executeProgram tables (program.map Statement.erase) = db.executeProgram tables program := by
  induction program generalizing db with
  | nil => rfl
  | cons statement program ih =>
    rw [List.map_cons, Database.executeProgram, Database.executeProgram, Database.execute_erase]
    simp only [ih]

/-! ### Texts that spell a program -/

/-- The statements of a program. -/
def meaning (program : Program) : SqlProgram := program.commands.map Command.statement

/-- The text spells the program. -/
def Spelled (program : Program) (sqlText : Bytes) : Prop :=
  Writes (programLexemes program.commands) sqlText

/-- The front end reads a text that spells a program as its statements. -/
theorem Spelled.parsed {program : Program} {sqlText : Bytes} (h : Spelled program sqlText) :
    ∃ parsed, (tokenizeSql sqlText >>= parseProgram) = .ok parsed ∧
      parsed.map Statement.erase = meaning program := by
  obtain ⟨read, eof, htokens, hread, heof⟩ :=
    tokenizeSql_writes h (isChain_programLexemes program.commands) program.length_lexemes_lt
  obtain ⟨parsed, hparsed, hq⟩ := parseProgram_of_matches program hread heof
  refine ⟨parsed, ?_, hq⟩
  rw [htokens]
  exact hparsed

/-- On the database a text does what the program that it spells means. -/
theorem Spelled.runText {program : Program} {sqlText : Bytes} (h : Spelled program sqlText)
    (db : Database) : db.runText tables sqlText = db.executeProgram tables (meaning program) := by
  obtain ⟨parsed, hparsed, hmeaning⟩ := h.parsed
  rw [Database.runText, hparsed, ← hmeaning, Database.executeProgram_erase]

/-- A process does with every text that spells a program what the program means. -/
theorem runSqlText_means (h : Implements config tables w db) (program : Program) {sqlText : Bytes}
    (hs : Spelled program sqlText) :
    let run := runSqlText config sqlText w
    let out := db.executeProgram tables (meaning program)
    run.1.isOk = out.1.1 ∧ run.2.disk.stdout = w.disk.stdout ++ out.1.2 ∧
      Implements config tables run.2 out.2 := by
  rw [← hs.runText]
  exact h.runSqlText sqlText

/-- A keyword in any case. -/
theorem spells_keyword {type : TokenType} {spelled : Bytes}
    (h : spelled.map tolower = keywordText type ∧ spelled ≠ []) :
    Spells (.keyword type) spelled := .keyword _ _ h.1 h.2

/-- `*` is no list of columns. -/
theorem star_ne_nil : ∀ names ∈ (none : Option (List Identifier)), names ≠ [] := by
  rintro names ⟨⟩

theorem star_length_le :
    ∀ names ∈ (none : Option (List Identifier)), names.length ≤ maxColumns := by
  rintro names ⟨⟩

/-- `SELECT * FROM t;` -/
def sampleSelectAll : Program where
  commands := [.select
    { table := ⟨text "t", by decide +kernel⟩
      columns := none
      condition := none
      columns_ne_nil := star_ne_nil
      length_columns_le := star_length_le }]
  commands_ne_nil := List.cons_ne_nil _ _
  length_commands_le := by decide
  length_lexemes_lt := by decide

theorem spelled_sampleSelectAll : Spelled sampleSelectAll (text "select * FROM T;") := by
  have pieces : text "select * FROM T;" = text "" ++ (text "select" ++ (text " " ++ (text "*" ++
      (text " " ++ (text "FROM" ++ (text " " ++ (text "T" ++ (text "" ++ (text ";" ++
        text ""))))))))) := rfl
  rw [Spelled, pieces]
  refine .cons _ _ _ _ _ (by decide +kernel) (spells_keyword (by decide +kernel)) ?_ fun _ _ ↦ rfl
  refine .cons _ _ _ _ _ (by decide +kernel) (.symbol _ (by decide)) ?_ fun _ _ ↦ rfl
  refine .cons _ _ _ _ _ (by decide +kernel) (spells_keyword (by decide +kernel)) ?_ fun _ _ ↦ rfl
  refine .cons _ _ _ _ _ (by decide +kernel) (.identifier _ _ (by decide +kernel)) ?_
    fun _ h ↦ by cases h
  refine .cons _ _ _ _ _ (by decide +kernel) (.symbol _ (by decide)) ?_ fun h _ ↦ by cases h
  exact .nil _ (by decide +kernel)

theorem runSqlText_means_sample :
    let run := runSqlText sampleConfig (text "select * FROM T;") sampleWorld
    let out := Database.empty.executeProgram [sampleSchema] (meaning sampleSelectAll)
    run.1.isOk = out.1.1 ∧ run.2.disk.stdout = sampleWorld.disk.stdout ++ out.1.2 ∧
      Implements sampleConfig [sampleSchema] run.2 out.2 :=
  runSqlText_means implements_sampleWorld sampleSelectAll spelled_sampleSelectAll

end SqlProc.Relational
