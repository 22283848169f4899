import SqlProc.Executor.Atomic
import SqlProc.Executor.ExplicitId
import SqlProc.Executor.Reopen

/-!
# The next automatic id

Library `Executor`. The next id of a slot is one more than the largest id of the data file, or
one when the file has no row, as long as no INSERT loses an id, stores a negative id as the
first one or stores `INT_MAX`.
-/

namespace SqlProc.Executor

open Base Front Index Schema Storage Support

variable {config : AppConfig} {schema : TableSchema} {primaryKeyIndex : Nat} {w w' w₀ : World}
  {slot : TableRuntimeState} {statement : InsertStatement} {programs : List SqlProgram}
  {index : PkIndex}

/-! ### Runs whose steps meet a condition -/

/-- Every statement that a program executes meets a condition in the state before it. -/
def ProgramMeets (config : AppConfig) (meets : World → Statement → Prop) :
    SqlProgram → World → Prop
  | [], _ => True
  | statement :: program, w =>
    meets w statement ∧ ((executeStatement config statement w).1 = .ok () →
      ProgramMeets config meets program (executeStatement config statement w).2)

/-- Every statement that a run executes meets a condition in the state before it. -/
def RunMeets (config : AppConfig) (meets : World → Statement → Prop) :
    List SqlProgram → World → Prop
  | [], _ => True
  | program :: programs, w =>
    ProgramMeets config meets program w ∧
      RunMeets config meets programs (executeProgram config program w).2

section Meets

variable {meets : World → Statement → Prop} {P : World → Prop}

/-- What each statement that meets the condition keeps holds after the program. -/
theorem ProgramMeets.invariant {program : SqlProgram}
    (hstep : ∀ statement ∈ program, ∀ w, P w → meets w statement →
      P (executeStatement config statement w).2)
    (h : ProgramMeets config meets program w) (hw : P w) :
    P (executeProgram config program w).2 := by
  induction program generalizing w with
  | nil => exact hw
  | cons statement program ih =>
    obtain ⟨hs, hr⟩ := List.forall_mem_cons.mp hstep
    obtain ⟨hmeets, hrest⟩ := h
    have hw' := hs w hw hmeets
    rw [executeProgram, Exec.bind_apply]
    generalize executeStatement config statement w = out at hw' hrest ⊢
    obtain ⟨r, w'⟩ := out
    cases r with
    | error e => exact hw'
    | ok u => exact ih hr (hrest rfl) hw'

/-- What each statement that meets the condition keeps holds after the run. -/
theorem RunMeets.invariant
    (hstep : ∀ program ∈ programs, ∀ statement ∈ program, ∀ w, P w → meets w statement →
      P (executeStatement config statement w).2)
    (h : RunMeets config meets programs w) (hw : P w) : P (runPrograms config programs w) := by
  induction programs generalizing w with
  | nil => exact hw
  | cons program programs ih =>
    obtain ⟨hp, hr⟩ := List.forall_mem_cons.mp hstep
    exact ih hr h.2 (h.1.invariant hp hw)

end Meets

/-! ### The next id of a slot -/

/-- The next id of the slot is one more than the largest key of its index, or `INT_MAX`, from
which no id is taken. -/
def FollowsMax (slot : TableRuntimeState) : Prop :=
  slot.nextId = intMax ∨
    ∃ index, slot.pkIndex = some index ∧ MaxKey index (slot.nextId - 1)

theorem followsMax_freshSlot (hp : schema.primaryKeyIndex = some primaryKeyIndex)
    (h : freshSlot config schema w = some slot) : FollowsMax slot := by
  obtain ⟨index, maxId, hr, -, rfl⟩ := (freshSlot_eq_some_iff hp).mp h
  obtain ⟨hkey, -⟩ := storageRebuildPkIndex_maxKey hr
  refine Or.inr ⟨index, rfl, ?_⟩
  simp only [Int.add_sub_cancel]
  exact hkey

/-- No id follows `INT_MAX`. -/
theorem nextId_registered_max {key offset : Int} (hm : slot.nextId = intMax) (hk : key ≤ intMax) :
    (slot.registered index key offset).nextId = intMax := by
  simp only [TableRuntimeState.registered, hm]
  rw [if_neg]
  omega

/-- Entering a key keeps the next id after the largest one, unless the key is a negative one and
the first, or `INT_MAX`. -/
theorem FollowsMax.registered {key offset : Int} (h : FollowsMax slot)
    (hi : slot.pkIndex = some index) (hk : findEntry key index.entries = none)
    (hr : key ≤ intMax) (hneg : index.entries = [] → 0 ≤ key)
    (hmax : key = intMax → slot.nextId = intMax) :
    FollowsMax (slot.registered index key offset) := by
  by_cases hm : slot.nextId = intMax
  · exact Or.inl (nextId_registered_max hm hr)
  · have hkm : key ≠ intMax := fun hkm ↦ hm (hmax hkm)
    obtain ⟨index', hi', hkey⟩ := h.resolve_left hm
    obtain rfl := Option.some.inj (hi.symm.trans hi')
    refine Or.inr ⟨_, rfl, ?_⟩
    by_cases hle : slot.nextId ≤ key
    · have hnext : (slot.registered index key offset).nextId = key + 1 := by
        simp only [TableRuntimeState.registered, if_pos (And.intro hkm hle)]
      rw [hnext, Int.add_sub_cancel]
      refine maxKey_insert (fun e he ↦ ?_) hk
      have := hkey.le e he
      omega
    · have hnext : (slot.registered index key offset).nextId = slot.nextId := by
        simp only [TableRuntimeState.registered, hle, and_false, if_false]
      rw [hnext]
      refine hkey.insert (by omega) (fun hnil ↦ ?_) hk
      -- the first key is not negative, and the next id was one
      have hzero := hkey.eq_zero hnil
      have := hneg hnil
      omega

/-! ### The step -/

/-- A table that takes rows has a slot, if any, whose next id follows the largest one. -/
def NextIdFollows (schema : TableSchema) (v : TableView) : Prop :=
  Appendable schema v.file → ∀ slot, v.slot = some slot → FollowsMax slot

/-- The INSERT stores an explicit id that the next id does not follow: a negative one in a table
without rows, or `INT_MAX` while there are automatic ids left. -/
def MissesId (config : AppConfig) (schema : TableSchema) (primaryKeyIndex : Nat) (w : World)
    (statement : InsertStatement) : Prop :=
  ∃ (row : List Bytes) (key : Int) (slot : TableRuntimeState),
    rowCells schema statement = .ok (row.map some) ∧ rowId primaryKeyIndex row = some key ∧
    obtainSlot config schema w = some slot ∧ Appendable schema (w.file config schema.tableName) ∧
    (key < 0 ∧ dataLines ((w.file config schema.tableName).getD []) = [] ∨
      key = intMax ∧ slot.nextId ≠ intMax)

/-- The statement is not an INSERT into the table that loses or misses an id. -/
def KeepsNextId (config : AppConfig) (schema : TableSchema) (primaryKeyIndex : Nat) (w : World) :
    Statement → Prop
  | .insert _ statement => statement.tableName = schema.tableName →
    ¬ LosesId config schema primaryKeyIndex w statement ∧
      ¬ MissesId config schema primaryKeyIndex w statement
  | .select _ _ => True

/-- What holds of a table between statements. -/
structure NextIdInv (config : AppConfig) (schema : TableSchema) (primaryKeyIndex : Nat)
    (w : World) : Prop where
  tableAt : TableAt config schema w
  viewOk : ViewOk schema primaryKeyIndex (w.view config schema.tableName)
  follows : NextIdFollows schema (w.view config schema.tableName)

/-- The slot that a statement works with follows the largest id. -/
theorem NextIdFollows.followsMax (hp : schema.primaryKeyIndex = some primaryKeyIndex)
    (h : NextIdFollows schema (w.view config schema.tableName))
    (hs : obtainSlot config schema w = some slot)
    (happ : Appendable schema (w.file config schema.tableName)) : FollowsMax slot := by
  rcases obtainSlot_eq_some_iff.mp hs with hslot | ⟨-, -, hfresh⟩
  · exact h happ slot hslot
  · exact followsMax_freshSlot hp hfresh

/-- The index that a statement works with holds the rows of the file. -/
theorem NextIdInv.exists_rows (hp : schema.primaryKeyIndex = some primaryKeyIndex)
    (h : NextIdInv config schema primaryKeyIndex w)
    (hs : obtainSlot config schema w = some slot) :
    ∃ index rows, slot.pkIndex = some index ∧
      TableRows schema ((w.file config schema.tableName).getD []) rows ∧
        Indexes primaryKeyIndex rows index := by
  rcases obtainSlot_eq_some_iff.mp hs with hslot | ⟨-, -, hfresh⟩
  · exact h.viewOk.slot slot hslot
  · exact exists_rows_of_freshSlot hp h.viewOk.nul_notMem hfresh

/-- An index without keys belongs to a file without rows. -/
theorem dataLines_eq_nil {content : Bytes} {rows : List (Nat × List Bytes)}
    (hr : TableRows schema content rows) (hi : Indexes primaryKeyIndex rows index)
    (hnil : index.entries = []) : dataLines content = [] := by
  have hlen := List.Perm.length_eq hi
  rw [hnil, List.map_nil, List.length_nil, List.length_map] at hlen
  rw [List.eq_nil_of_length_eq_zero hlen.symm] at hr
  exact List.forall₂_nil_right_iff.mp hr

/-- An INSERT that neither loses nor misses an id keeps the next id after the largest one. -/
theorem nextIdFollows_executeInsert (hp : schema.primaryKeyIndex = some primaryKeyIndex)
    (h : NextIdInv config schema primaryKeyIndex w) (hn : statement.tableName = schema.tableName)
    (hloses : ¬ LosesId config schema primaryKeyIndex w statement)
    (hmisses : ¬ MissesId config schema primaryKeyIndex w statement) :
    NextIdFollows schema
      ((executeInsert config statement w).2.view config schema.tableName) := by
  have hout := executeInsert_outcome hp (h.tableAt.loads hn) h.tableAt.slot
  generalize executeInsert config statement w = out at hout ⊢
  obtain ⟨r, w'⟩ := out
  cases hout with
  | rejected e => exact h.follows
  | opened e slot hs =>
    rw [view_opened hs]
    rintro happ _ ⟨⟩
    exact h.follows.followsMax hp hs happ
  | burned e slot before after hc hl hs hm hwhy =>
    have hfor := isFor_allocated_obtainSlot hs
    rw [view_setSlot (slot_opened hs) hfor, file_opened]
    intro happ
    exact absurd ⟨before, after, slot, hc, hl, hwhy.resolve_right (not_not_intro happ), hs, hm,
      happ⟩ hloses
  | given slot row key index hc hs hi hid hk happ =>
    rw [view_stored hs (isFor_obtainSlot hs)]
    rintro - _ ⟨⟩
    obtain ⟨index', rows, hi', hr, hindex⟩ := h.exists_rows hp hs
    obtain rfl := Option.some.inj (hi.symm.trans hi')
    have hfollows := h.follows.followsMax hp hs happ
    refine hfollows.registered hi hk (strtolInt_range hid).2 (fun hnil ↦ ?_) fun hmax ↦ ?_
    · by_contra hneg
      exact hmisses ⟨row, key, slot, hc, hid, hs, happ,
        Or.inl ⟨Int.not_le.mp hneg, dataLines_eq_nil hr hindex hnil⟩⟩
    · by_contra hne
      exact hmisses ⟨row, key, slot, hc, hid, hs, happ, Or.inr ⟨hmax, hne⟩⟩
  | assigned slot before after index hc hl hs hm hi hk happ =>
    have hfor := isFor_allocated_obtainSlot hs
    rw [view_stored hs hfor, TableRuntimeState.registered_allocated hm]
    rintro - _ ⟨⟩
    have hfollows := h.follows.followsMax hp hs happ
    refine hfollows.registered hi hk (nextIdOk_obtainSlot hp h.tableAt.slot hs).range.2
      (fun hnil ↦ ?_) id
    -- the first automatic id is one
    obtain ⟨index', hi', hkey⟩ := hfollows.resolve_left hm
    obtain rfl := Option.some.inj (hi.symm.trans hi')
    have hzero := hkey.eq_zero hnil
    omega

/-- The next id still follows the largest one. -/
def KeepsFollowing (config : AppConfig) (schema : TableSchema) (w w' : World) : Prop :=
  NextIdFollows schema (w.view config schema.tableName) →
    NextIdFollows schema (w'.view config schema.tableName)

instance (config : AppConfig) (schema : TableSchema) :
    IsPreorder World (KeepsFollowing config schema) where
  refl _ := id
  trans _ _ _ h h' := h' ∘ h

/-- A SELECT at most opens the slot of the table. -/
theorem nextIdFollows_executeSelect (hp : schema.primaryKeyIndex = some primaryKeyIndex)
    {statement : SelectStatement}
    (hschema : loadTableSchema w.disk.files config.schemaDir statement.tableName = .ok schema) :
    KeepsFollowing config schema w (executeSelect config statement w).2 := by
  refine within_executeSelect (R := KeepsFollowing config schema) ?_ ?_ hschema
  · intro w h
    cases hs : obtainSlot config schema w with
    | none =>
      obtain ⟨e, he⟩ := getTableStateIndex_of_none hs
      rw [he]
      exact h
    | some slot =>
      obtain ⟨i, hi, -⟩ := getTableStateIndex_of_some hs
      rw [hi, view_opened hs]
      rintro happ _ ⟨⟩
      exact h.followsMax hp hs happ
  · intro x hx w h
    rw [view_onDisk hx]
    exact h

/-- A statement that neither loses nor misses an id of the table keeps what holds of it. -/
theorem NextIdInv.executeStatement (hp : schema.primaryKeyIndex = some primaryKeyIndex)
    {statement : Statement} (hl : statement.Lexical)
    (h : NextIdInv config schema primaryKeyIndex w)
    (hkeeps : KeepsNextId config schema primaryKeyIndex w statement) :
    NextIdInv config schema primaryKeyIndex (executeStatement config statement w).2 := by
  have hv := h.tableAt.valid
  obtain ⟨hat, hmoves⟩ := advances_executeStatement hp hl w h.tableAt
  refine ⟨hat, hmoves.invariant (fun _ _ hok hs ↦ hs.viewOk hp hv hok) h.viewOk, ?_⟩
  by_cases hn : schema.tableName = statementTable statement
  · cases statement with
    | insert location statement =>
      exact nextIdFollows_executeInsert hp h hn.symm (hkeeps hn.symm).1 (hkeeps hn.symm).2
    | select location statement =>
      exact nextIdFollows_executeSelect hp (h.tableAt.loads hn.symm) h.follows
  · have hlen := length_statementTable hl
    rw [(touches_executeStatement config hlen w).view_eq hlen h.tableAt.length_tableName hn]
    exact h.follows

/-! ### The promised id -/

/-- The id is one more than the largest one of the file, or one when the file has no row. -/
def IsNextId (schema : TableSchema) (primaryKeyIndex : Nat) (content : Bytes) (id : Int) : Prop :=
  dataLines content = [] ∧ id = 1 ∨
    (∃ position, IsDataRow schema primaryKeyIndex content position (id - 1)) ∧
      ∀ position key, IsDataRow schema primaryKeyIndex content position key → key < id

/-- The next id of an index is that of the file whose rows it holds. -/
theorem isNextId_of_maxKey {content : Bytes} {rows : List (Nat × List Bytes)} {id : Int}
    (hr : TableRows schema content rows) (hi : Indexes primaryKeyIndex rows index)
    (hm : MaxKey index (id - 1)) : IsNextId schema primaryKeyIndex content id := by
  have hsearch := search_eq_some_iff_isDataRow hr hi
  have hmem : ∀ {key offset : Int},
      index.search key = some offset ↔ (key, offset) ∈ index.entries := by
    intro key offset
    rw [PkIndex.search_eq, findEntry_eq_some_iff index.sortedKeys_entries]
  rcases hm.attained with ⟨hnil, hzero⟩ | ⟨⟨key, offset⟩, he, hkey⟩
  · exact Or.inl ⟨dataLines_eq_nil hr hi hnil, by omega⟩
  · right
    constructor
    · obtain ⟨position, -, hrow⟩ := (hsearch key offset).mp (hmem.mpr he)
      simp only at hkey
      exact ⟨position, hkey ▸ hrow⟩
    · intro position key' hrow
      have hle := hm.le _ (hmem.mp ((hsearch key' _).mpr ⟨position, rfl, hrow⟩))
      simp only at hle
      omega

/-- An INSERT that omits the id and succeeds gets the promised id. -/
theorem NextIdInv.isNextId (hp : schema.primaryKeyIndex = some primaryKeyIndex)
    (h : NextIdInv config schema primaryKeyIndex w) (hl : statement.Lexical)
    (hn : statement.tableName = schema.tableName) (ho : OmitsId statement) {id : Int}
    (hg : GivesId config schema primaryKeyIndex w statement id) :
    IsNextId schema primaryKeyIndex ((w.file config schema.tableName).getD []) id := by
  obtain ⟨_, _, slot, -, -, hs, hm, happ, rfl⟩ := (givesId_iff hp h.tableAt hl hn ho).mp hg
  obtain ⟨index, rows, hi, hr, hindex⟩ := h.exists_rows hp hs
  obtain ⟨index', hi', hkey⟩ := (h.follows.followsMax hp hs happ).resolve_left hm
  obtain rfl := Option.some.inj (hi.symm.trans hi')
  exact isNextId_of_maxKey hr hindex hkey

/-! ### Runs with restarts -/

/-- Processes one after the other, each on the files that those before it have left. -/
def runProcesses (config : AppConfig) (processes : List (List SqlProgram)) (w : World) : World :=
  processes.foldl (fun w programs ↦ runPrograms config programs w.reopened) w

/-- A table with a schema whose file holds no terminator. -/
structure Loadable (config : AppConfig) (schema : TableSchema) (w : World) : Prop where
  schema_eq : loadTableSchema w.disk.files config.schemaDir schema.tableName = .ok schema
  nul_notMem : ∀ content, w.file config schema.tableName = some content → nul ∉ content

/-- In a new process the next id follows the largest one. -/
theorem Loadable.nextIdInv (h : Loadable config schema w) :
    NextIdInv config schema primaryKeyIndex w.reopened := by
  refine ⟨tableAt_fresh h.schema_eq rfl, viewOk_fresh rfl h.nul_notMem, ?_⟩
  intro _ slot hs
  cases hs

/-- A process leaves a file for the next one. -/
theorem Loadable.runPrograms (hp : schema.primaryKeyIndex = some primaryKeyIndex)
    (hprograms : ∀ program ∈ programs, program.Lexical) (h : Loadable config schema w) :
    Loadable config schema (runPrograms config programs w.reopened) := by
  have hinv : NextIdInv config schema primaryKeyIndex w.reopened := h.nextIdInv
  obtain ⟨hat, hok⟩ := viewOk_runPrograms hp hinv.tableAt hinv.viewOk hprograms
  refine ⟨hat.schema_eq, fun content hf ↦ ?_⟩
  have hnul := hok.nul_notMem
  rw [World.view, hf, Option.getD_some] at hnul
  exact hnul

theorem Loadable.runProcesses {processes : List (List SqlProgram)}
    (hp : schema.primaryKeyIndex = some primaryKeyIndex)
    (hprocesses : ∀ programs ∈ processes, ∀ program ∈ programs, program.Lexical)
    (h : Loadable config schema w) : Loadable config schema (runProcesses config processes w) := by
  induction processes generalizing w with
  | nil => exact h
  | cons programs processes ih =>
    obtain ⟨hprograms, hrest⟩ := List.forall_mem_cons.mp hprocesses
    exact ih hrest (h.runPrograms hp hprograms)

/-- After every sequence of processes, and in every state of a process whose statements neither
lose nor miss an id of the table, an INSERT that omits the id and succeeds gets one more than the
largest id of the file, or one when the file has no row. -/
theorem runProcesses_nextId {processes : List (List SqlProgram)}
    (hp : schema.primaryKeyIndex = some primaryKeyIndex)
    (hschema : loadTableSchema w₀.disk.files config.schemaDir schema.tableName = .ok schema)
    (hnul : ∀ content, w₀.file config schema.tableName = some content → nul ∉ content)
    (hprocesses : ∀ programs ∈ processes, ∀ program ∈ programs, program.Lexical)
    (hprograms : ∀ program ∈ programs, program.Lexical)
    (hkeeps : RunMeets config (KeepsNextId config schema primaryKeyIndex) programs
      (runProcesses config processes w₀).reopened) :
    let w := runPrograms config programs (runProcesses config processes w₀).reopened
    ∀ (statement : InsertStatement) (id : Int), statement.Lexical →
      statement.tableName = schema.tableName → OmitsId statement →
      GivesId config schema primaryKeyIndex w statement id →
        IsNextId schema primaryKeyIndex ((w.file config schema.tableName).getD []) id := by
  intro w statement id hl hn ho hg
  have hload : Loadable config schema (runProcesses config processes w₀) :=
    Loadable.runProcesses hp hprocesses ⟨hschema, hnul⟩
  have hinv : NextIdInv config schema primaryKeyIndex w :=
    hkeeps.invariant (fun program hm statement hs w hw hmeets ↦
      hw.executeStatement hp (hprograms program hm statement hs) hmeets) hload.nextIdInv
  exact hinv.isNextId hp hl hn ho hg

theorem keepsNextId_sampleAutoInsert (w : World) :
    KeepsNextId sampleConfig sampleSchema 0 w (.insert noLocation sampleAutoInsert) := by
  have hcells : rowCells sampleSchema sampleAutoInsert = .ok [none, some (text "y")] := rfl
  refine fun _ ↦ ⟨?_, ?_⟩
  · rintro ⟨before, after, slot, hc, hl, hnone, -⟩
    obtain rfl := List.eq_nil_of_length_eq_zero hl
    obtain ⟨-, rfl⟩ := List.cons.inj (Except.ok.inj (hcells.symm.trans hc))
    simp at hnone
  · rintro ⟨row, key, slot, hc, -⟩
    have hrow := Except.ok.inj (hcells.symm.trans hc)
    cases row with
    | nil => cases hrow
    | cons text row => cases (List.cons.inj hrow).1

theorem runProcesses_nextId_sample :
    let w := runPrograms sampleConfig [[.insert noLocation sampleAutoInsert]]
      (runProcesses sampleConfig [samplePrograms] sampleWorld).reopened
    IsNextId sampleSchema 0 ((w.file sampleConfig sampleSchema.tableName).getD []) 10 := by
  intro w
  have hlexical : sampleAutoInsert.Lexical := by decide
  have hgives : GivesId sampleConfig sampleSchema 0 w sampleAutoInsert 10 :=
    ⟨by decide +kernel, [text "10", text "y"], by decide +kernel, rfl, by decide, by decide⟩
  have hkeeps : RunMeets sampleConfig (KeepsNextId sampleConfig sampleSchema 0)
      [[.insert noLocation sampleAutoInsert]]
      (runProcesses sampleConfig [samplePrograms] sampleWorld).reopened :=
    ⟨⟨keepsNextId_sampleAutoInsert _, fun _ ↦ trivial⟩, trivial⟩
  refine runProcesses_nextId rfl loadTableSchema_sampleWorld (fun content h ↦ by cases h)
    (fun programs hm ↦ ?_) (fun program hm statement hs ↦ ?_) hkeeps sampleAutoInsert 10 hlexical
    rfl ⟨rfl, by decide⟩ hgives
  · rw [List.mem_singleton.mp hm]
    exact lexical_samplePrograms
  · rw [List.mem_singleton.mp hm] at hs
    rw [List.mem_singleton.mp hs]
    exact hlexical

/-- `INSERT INTO t VALUES (-5, 'x')`. -/
def sampleNegativeInsert : InsertStatement :=
  ⟨text "t", noLocation, false, [],
    [⟨.int, text "-5", noLocation⟩, ⟨.string, text "x", noLocation⟩]⟩

/-- After the first row was stored with the id -5, the next automatic id is 1. -/
theorem not_isNextId_negative :
    let w := runPrograms sampleConfig [[.insert noLocation sampleNegativeInsert]] sampleWorld
    sampleNegativeInsert.Lexical ∧ sampleAutoInsert.Lexical ∧ OmitsId sampleAutoInsert ∧
      GivesId sampleConfig sampleSchema 0 w sampleAutoInsert 1 ∧
      ¬ IsNextId sampleSchema 0 ((w.file sampleConfig sampleSchema.tableName).getD []) 1 := by
  intro w
  have hfile : (w.file sampleConfig sampleSchema.tableName).getD [] =
      text "id,name\n-5,x\n" := by decide +kernel
  have hlines : dataLines (text "id,name\n-5,x\n") = [(8, text "-5,x")] := by decide +kernel
  refine ⟨by decide, by decide, ⟨rfl, by decide⟩, ⟨by decide +kernel, [text "1", text "y"],
    by decide +kernel, rfl, by decide, by decide⟩, ?_⟩
  rw [hfile]
  rintro (⟨hnil, -⟩ | ⟨⟨position, line, cells, hm, hd, hid⟩, -⟩)
  · rw [hlines] at hnil
    cases hnil
  · rw [hlines] at hm
    obtain ⟨-, rfl⟩ := Prod.mk.inj (List.mem_singleton.mp hm)
    have hcells : decodeRow sampleSchema (text "-5,x") = .ok [text "-5", text "x"] := by
      decide +kernel
    obtain rfl := Except.ok.inj (hcells.symm.trans hd)
    exact absurd hid (by decide)

end SqlProc.Executor
