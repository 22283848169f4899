import SqlProc.App.Interactive
import SqlProc.Relational.Select
import SqlProc.Support.Machine

/-!
# Sessions

Library `Relational`. A process that implements a database does with every statement, program and
SQL text what the database does.
-/

namespace SqlProc.Relational

open Base Front Index Schema Storage Executor App Support

variable {config : AppConfig} {tables : List TableSchema} {schema : TableSchema} {w w' : World}
  {owners : List (Bytes × Bytes × Bytes)} {db db' : Database} {r : Relation}
  {rows : List (Nat × List Bytes)}

/-- The process holds the relation of each table, finds the schemas of the tables and no other
one, and has room for the slots of the tables with a key, beside those of tables of other
directories. -/
structure Implements (config : AppConfig) (tables : List TableSchema) (w : World)
    (db : Database) : Prop where
  loads : ∀ schema ∈ tables,
    loadTableSchema w.disk.files config.schemaDir schema.tableName = .ok schema
  others : ∀ name : Bytes, name.length < maxNameLen →
    (∀ schema ∈ tables, schema.tableName ≠ name) →
      ∀ schema, loadTableSchema w.disk.files config.schemaDir name ≠ .ok schema
  represents : ∀ schema ∈ tables, ∃ rows, Represents config schema w (db schema.tableName) rows
  slots : ∃ owners, keyedTables config tables ⊆ owners ∧ owners.length ≤ executorMaxTableStates ∧
    SlotsOf owners w
  room : (keyedTables config tables).length ≤ executorMaxTableStates

/-- Files that are neither a schema nor the data of a table do not matter, nor do the slots of
tables of other directories. -/
theorem Implements.congr (h : Implements config tables w db)
    (hslots : ∃ owners, keyedTables config tables ⊆ owners ∧
      owners.length ≤ executorMaxTableStates ∧ SlotsOf owners w')
    (hschemas : ∀ name : Bytes, name.length < maxNameLen →
      w'.disk.files (schemaPath config.schemaDir name) =
        w.disk.files (schemaPath config.schemaDir name))
    (hviews : ∀ schema ∈ tables,
      w'.view config schema.tableName = w.view config schema.tableName) :
    Implements config tables w' db := by
  refine ⟨fun schema hm ↦ ?_, fun name hlen hnone ↦ ?_, fun schema hm ↦ ?_, hslots, h.room⟩
  · have hlen := length_tableName_of_loadTableSchema (h.loads schema hm)
    rw [loadTableSchema_congr (hschemas _ hlen)]
    exact h.loads schema hm
  · rw [loadTableSchema_congr (hschemas name hlen)]
    exact h.others name hlen hnone
  · obtain ⟨rows, hrows⟩ := h.represents schema hm
    exact ⟨rows, hrows.congr (hviews schema hm)⟩

/-! ### Statements -/

/-- A statement that answers for its table leaves the other tables alone. -/
theorem Implements.update (h : Implements config tables w db) (hm : schema ∈ tables)
    {run : Except ErrorInfo Unit × World} {answer : Option (List Output)}
    (hsub : keyedTables config tables ⊆ owners) (hmax : owners.length ≤ executorMaxTableStates)
    (ha : Answers config owners schema w run answer r)
    (htouch : Touches config schema.tableName w run.2) :
    Implements config tables run.2 (db.set schema.tableName r) := by
  have hname := length_tableName_of_loadTableSchema (h.loads schema hm)
  refine ⟨fun other hother ↦ htouch.schema_eq hname (h.loads other hother),
    fun name hlen hnone ↦ ?_, fun other hother ↦ ?_, ⟨owners, hsub, hmax, ha.slots⟩, h.room⟩
  · rw [loadTableSchema_congr (htouch.files _ (schemaPath_ne_tablePath hlen hname))]
    exact h.others name hlen hnone
  · by_cases hsame : other.tableName = schema.tableName
    · have hload := h.loads other hother
      rw [hsame, h.loads schema hm] at hload
      obtain rfl := Except.ok.inj hload
      rw [Database.set_self]
      exact ha.represents
    · obtain ⟨rows, hrows⟩ := h.represents other hother
      have hlen := length_tableName_of_loadTableSchema (h.loads other hother)
      rw [Database.set_of_ne db hsame]
      exact ⟨rows, hrows.congr (htouch.view_eq hname hlen hsame)⟩

/-- What a statement answers, and the database after it. -/
structure Follows (config : AppConfig) (tables : List TableSchema) (w : World)
    (run : Except ErrorInfo Unit × World) (answer : Option (List Output)) (db : Database) :
    Prop where
  result : run.1.isOk = answer.isSome
  printed : run.2.disk.stdout = w.disk.stdout ++ answer.getD []
  implements : Implements config tables run.2 db

/-- A statement on a table that there is none of. -/
theorem follows_unknown (h : Implements config tables w db) {e : ErrorInfo} :
    Follows config tables w (.error e, w) none db :=
  ⟨rfl, (List.append_nil _).symm, h⟩

/-- The schema that a statement finds is the one of the table. -/
theorem find?_table {name : Bytes} (hfind : tables.find? (·.tableName = name) = some schema) :
    schema ∈ tables ∧ name = schema.tableName := by
  have hname := List.find?_some hfind
  rw [decide_eq_true_eq] at hname
  exact ⟨List.mem_of_find?_eq_some hfind, hname.symm⟩

/-- A table that there is none of has no schema. -/
theorem Implements.exists_error (h : Implements config tables w db) {name : Bytes}
    (hlen : name.length < maxNameLen) (hfind : tables.find? (·.tableName = name) = none) :
    ∃ e, loadTableSchema w.disk.files config.schemaDir name = .error e := by
  have hnone : ∀ schema ∈ tables, schema.tableName ≠ name := by
    simpa using hfind
  cases hload : loadTableSchema w.disk.files config.schemaDir name with
  | error e => exact ⟨e, rfl⟩
  | ok schema => exact absurd hload (h.others name hlen hnone schema)

/-- Every statement that the front end has accepted does what it does on the database. -/
theorem Implements.executeStatement (h : Implements config tables w db) {statement : Statement}
    (ha : statement.Accepted) :
    Follows config tables w (executeStatement config statement w)
      (db.execute tables statement).1 (db.execute tables statement).2 := by
  have hlen := length_statementTable ha.1
  have htouch := touches_executeStatement config hlen w
  cases statement with
  | insert location statement =>
    have hlen : statement.tableName.length < maxNameLen := hlen
    simp only [Database.execute]
    cases hfind : tables.find? (·.tableName = statement.tableName) with
    | none =>
      obtain ⟨e, he⟩ := h.exists_error hlen hfind
      rw [Executor.executeStatement, executeInsert, Exec.bind_ok (Exec.get_apply w),
        Exec.bind_error (by rw [Exec.lift_apply, he])]
      exact follows_unknown h
    | some schema =>
      obtain ⟨hm, hn⟩ := find?_table hfind
      obtain ⟨rows, hrows⟩ := h.represents schema hm
      obtain ⟨owners, hsub, hmax, hslots⟩ := h.slots
      have hanswers := answers_executeInsert (fun k hk ↦ hsub (mem_keyedTables hm hk)) hmax hslots
        (h.loads schema hm) hrows hn ha.1 ha.2
      rw [statementTable, hn] at htouch
      simp only [hn]
      by_cases hfits : Accepts schema statement
      · rw [if_pos hfits] at hanswers ⊢
        exact ⟨hanswers.result, hanswers.printed, h.update hm hsub hmax hanswers htouch⟩
      · rw [if_neg hfits] at hanswers ⊢
        have hupdate := h.update hm hsub hmax hanswers htouch
        rw [Database.set_eq_self] at hupdate
        exact ⟨hanswers.result, hanswers.printed, hupdate⟩
  | select location statement =>
    have hlen : statement.tableName.length < maxNameLen := hlen
    simp only [Database.execute]
    cases hfind : tables.find? (·.tableName = statement.tableName) with
    | none =>
      obtain ⟨e, he⟩ := h.exists_error hlen hfind
      rw [Executor.executeStatement, executeSelect, Exec.bind_ok (Exec.get_apply w),
        Exec.bind_error (by rw [Exec.lift_apply, he])]
      exact follows_unknown h
    | some schema =>
      obtain ⟨hm, hn⟩ := find?_table hfind
      obtain ⟨rows, hrows⟩ := h.represents schema hm
      obtain ⟨owners, hsub, hmax, hslots⟩ := h.slots
      have hanswers := answers_executeSelect hslots (h.loads schema hm) hrows hn
        (fun k hk ↦ hsub (mem_keyedTables hm hk)) hmax
      rw [statementTable, hn] at htouch
      have hupdate := h.update hm hsub hmax hanswers htouch
      rw [Database.set_eq_self] at hupdate
      simp only [hn]
      exact ⟨hanswers.result, hanswers.printed, hupdate⟩

/-! ### Programs and texts -/

/-- The statements of a program, up to the first that fails. -/
theorem Implements.executeProgram {program : SqlProgram} (h : Implements config tables w db)
    (hp : program.Accepted) :
    let run := executeProgram config program w
    let out := db.executeProgram tables program
    run.1.isOk = out.1.1 ∧ run.2.disk.stdout = w.disk.stdout ++ out.1.2 ∧
      Implements config tables run.2 out.2 := by
  induction program generalizing w db with
  | nil => exact ⟨rfl, (List.append_nil _).symm, h⟩
  | cons statement program ih =>
    obtain ⟨hs, hrest⟩ := List.forall_mem_cons.mp hp
    obtain ⟨hresult, hprinted, himplements⟩ := h.executeStatement hs
    simp only [Executor.executeProgram, Database.executeProgram, Exec.bind_apply]
    generalize Executor.executeStatement config statement w = run at hresult hprinted himplements ⊢
    generalize db.execute tables statement = out at hresult hprinted himplements ⊢
    obtain ⟨result, w'⟩ := run
    obtain ⟨answer, db'⟩ := out
    cases result with
    | error e =>
      cases answer with
      | none => exact ⟨rfl, hprinted, himplements⟩
      | some output => cases hresult
    | ok u =>
      cases answer with
      | none => cases hresult
      | some output =>
        obtain ⟨hok, hout, hfinal⟩ := ih himplements hrest
        refine ⟨hok, ?_, hfinal⟩
        rw [hout, hprinted, List.append_assoc]
        rfl

/-- A text runs the program that the front end takes it for. -/
theorem runSqlText_apply (config : AppConfig) (sqlText : Bytes) (w : World) :
    runSqlText config sqlText w =
      match tokenizeSql sqlText >>= parseProgram with
      | .error e => (.error e, w)
      | .ok program => executeProgram config program w := by
  rw [runSqlText, Exec.bind_apply, Exec.lift_apply]
  cases tokenizeSql sqlText with
  | error e => rfl
  | ok tokens =>
    change (Exec.lift (parseProgram tokens) >>= executeProgram config) w = _
    rw [Exec.bind_apply, Exec.lift_apply]
    cases hparse : parseProgram tokens with
    | error e => simp only [bind, Except.bind, hparse]
    | ok program => simp only [bind, Except.bind, hparse]

/-- A text does what it does on the database. -/
theorem Implements.runSqlText (h : Implements config tables w db) (sqlText : Bytes) :
    let run := runSqlText config sqlText w
    let out := db.runText tables sqlText
    run.1.isOk = out.1.1 ∧ run.2.disk.stdout = w.disk.stdout ++ out.1.2 ∧
      Implements config tables run.2 out.2 := by
  simp only [runSqlText_apply, Database.runText]
  cases hprogram : tokenizeSql sqlText >>= parseProgram with
  | error e => exact ⟨rfl, (List.append_nil _).symm, h⟩
  | ok program =>
    have haccepted : program.Accepted := fun statement hm ↦
      IsParsed.accepted ⟨sqlText, program, hprogram, hm⟩
    exact h.executeProgram haccepted

/-- What the process answers to a text: whether it was run without an error, and what was
printed. -/
def answerText (config : AppConfig) (w : World) (sqlText : Bytes) :
    (Bool × List Output) × World :=
  let run := App.runSqlText config sqlText w
  ((run.1.isOk, run.2.disk.stdout.drop w.disk.stdout.length), run.2)

/-- To every text the process answers what the database answers. -/
theorem simulates_answerText (config : AppConfig) (tables : List TableSchema) :
    Simulates (Implements config tables) (answerText config) (Database.runText tables) := by
  intro w db sqlText h
  obtain ⟨hok, hout, hnext⟩ := h.runSqlText sqlText
  refine ⟨Prod.ext hok ?_, hnext⟩
  simp only [answerText, hout, List.drop_left]

end SqlProc.Relational
