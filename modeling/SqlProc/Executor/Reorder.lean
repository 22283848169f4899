import SqlProc.Base.Lockstep
import SqlProc.Executor.ExplicitId

/-!
# The order of the columns of an INSERT

Library `Executor`. The values of an INSERT are placed by name, one independent of the other,
so the order in which the statement lists its columns makes no difference; and without a column
list the order is that of the schema.
-/

namespace SqlProc.Executor

open Base Front Index Schema Storage

variable {config : AppConfig} {schema : TableSchema} {w : World}

/-- The column names of a statement, each with the value for it. -/
def listedPairs (statement : InsertStatement) : List (Bytes × LiteralType × Bytes) :=
  (statement.columns.map ColumnName.name).zip (statement.values.map literalContent)

/-- The columns of the schema, each with the value of a statement without a column list. -/
def schemaPairs (schema : TableSchema) (statement : InsertStatement) :
    List (Bytes × LiteralType × Bytes) :=
  (schema.columns.map ColumnSchema.name).zip (statement.values.map literalContent)

/-- The second statement lists the columns and values of the first one in another order. -/
structure Reorders (statement permuted : InsertStatement) : Prop where
  tableName : permuted.tableName = statement.tableName
  hasColumnList : permuted.hasColumnList = true
  counted : permuted.columns.length = permuted.values.length
  pairs : (listedPairs permuted).Perm (listedPairs statement)

/-- The second statement gives the values of the first one without their columns, in the order
of the schema. -/
structure InSchemaOrder (schema : TableSchema) (statement positional : InsertStatement) :
    Prop where
  tableName : positional.tableName = statement.tableName
  hasColumnList : positional.hasColumnList = false
  counted : positional.values.length = schema.columnCount
  pairs : (schemaPairs schema positional).Perm (listedPairs statement)

/-! ### One value placed -/

/-- Place a value under a name: the column is there, still free, and takes the value. -/
def placePair (schema : TableSchema) (cells : List (Option Bytes))
    (pair : Bytes × LiteralType × Bytes) : Option (List (Option Bytes)) :=
  match findSchemaColumn schema pair.1 with
  | none => none
  | some i =>
    if cells.getD i none = none ∧
        checkInsertValue (columnType schema i) ⟨pair.2.1, pair.2.2, noLocation⟩ = .ok () then
      some (cells.set i (some (snprintfStr maxValueLen pair.2.2)))
    else none

/-- Place values under names one after the other. -/
def placePairs (schema : TableSchema) (pairs : List (Bytes × LiteralType × Bytes))
    (cells : Option (List (Option Bytes))) : Option (List (Option Bytes)) :=
  pairs.foldl (fun cells pair ↦ cells.bind (placePair schema · pair)) cells

@[simp] theorem placePairs_none (pairs : List (Bytes × LiteralType × Bytes)) :
    placePairs schema pairs none = none := by
  induction pairs with
  | nil => rfl
  | cons pair pairs ih => exact ih

theorem placePairs_cons (pair : Bytes × LiteralType × Bytes)
    (pairs : List (Bytes × LiteralType × Bytes)) (cells : List (Option Bytes)) :
    placePairs schema (pair :: pairs) (some cells) =
      placePairs schema pairs (placePair schema cells pair) := rfl

theorem placePair_eq_some_iff {cells cells' : List (Option Bytes)}
    {pair : Bytes × LiteralType × Bytes} :
    placePair schema cells pair = some cells' ↔ ∃ i, findSchemaColumn schema pair.1 = some i ∧
      cells.getD i none = none ∧
      checkInsertValue (columnType schema i) ⟨pair.2.1, pair.2.2, noLocation⟩ = .ok () ∧
      cells.set i (some (snprintfStr maxValueLen pair.2.2)) = cells' := by
  unfold placePair
  cases findSchemaColumn schema pair.1 with
  | none => simp
  | some i => simp [and_assoc]

/-- A cell other than the one that was set. -/
theorem getD_set_ne {cells : List (Option Bytes)} {i j : Nat} (hne : i ≠ j)
    (cell : Option Bytes) : (cells.set i cell).getD j none = cells.getD j none := by
  rw [List.getD_eq_getElem?_getD, List.getElem?_set_ne hne, ← List.getD_eq_getElem?_getD]

/-- Where two values can be placed in one order, they can in the other. -/
theorem placePair_swap {cells one both : List (Option Bytes)} {p q : Bytes × LiteralType × Bytes}
    (hp : placePair schema cells p = some one) (hq : placePair schema one q = some both) :
    (placePair schema cells q).bind (placePair schema · p) = some both := by
  obtain ⟨i, hi, hfree, hcheck, rfl⟩ := placePair_eq_some_iff.mp hp
  obtain ⟨j, hj, hfree', hcheck', rfl⟩ := placePair_eq_some_iff.mp hq
  rw [Option.bind_eq_some_iff]
  by_cases hij : i = j
  · subst hij
    -- the same cell is free twice only when there is no such cell
    have hlen : cells.length ≤ i := by
      by_contra hlt
      rw [List.getD_eq_getElem?_getD, List.getElem?_set_self (Nat.lt_of_not_le hlt)] at hfree'
      cases hfree'
    simp only [List.set_eq_of_length_le hlen]
    refine ⟨cells, placePair_eq_some_iff.mpr ⟨i, hj, hfree, hcheck', ?_⟩,
      placePair_eq_some_iff.mpr ⟨i, hi, hfree, hcheck, ?_⟩⟩
    · exact List.set_eq_of_length_le hlen
    · exact List.set_eq_of_length_le hlen
  · rw [getD_set_ne hij] at hfree'
    refine ⟨_, placePair_eq_some_iff.mpr ⟨j, hj, hfree', hcheck', rfl⟩,
      placePair_eq_some_iff.mpr ⟨i, hi, ?_, hcheck, List.set_comm _ _ (Ne.symm hij)⟩⟩
    rw [getD_set_ne (Ne.symm hij), hfree]

/-- Two values can be placed in either order. -/
theorem placePair_comm (cells : Option (List (Option Bytes)))
    (p q : Bytes × LiteralType × Bytes) :
    (cells.bind (placePair schema · p)).bind (placePair schema · q) =
      (cells.bind (placePair schema · q)).bind (placePair schema · p) := by
  cases cells with
  | none => rfl
  | some cells =>
    ext both
    constructor
    · intro h
      obtain ⟨one, hp, hq⟩ := Option.bind_eq_some_iff.mp h
      exact placePair_swap hp hq
    · intro h
      obtain ⟨one, hq, hp⟩ := Option.bind_eq_some_iff.mp h
      exact placePair_swap hq hp

/-- Values are placed in any order. -/
theorem placePairs_perm {pairs pairs' : List (Bytes × LiteralType × Bytes)}
    (h : pairs.Perm pairs') (cells : Option (List (Option Bytes))) :
    placePairs schema pairs cells = placePairs schema pairs' cells := by
  unfold placePairs
  exact h.foldl_eq' (fun p _ q _ cells ↦ placePair_comm cells p q) cells

/-! ### The cells of the row -/

/-- The checks do not look at the place of a value in the source. -/
theorem checkInsertValue_content (dataType : DataType) (value : LiteralValue) :
    checkInsertValue dataType ⟨(literalContent value).1, (literalContent value).2, noLocation⟩ =
      .ok () ↔ checkInsertValue dataType value = .ok () :=
  ⟨checkInsertValue_congr rfl, checkInsertValue_congr rfl⟩

/-- The loop over a column list places its pairs. -/
theorem placeValues_eq_ok_iff {columns : List ColumnName} {values : List LiteralValue}
    {cells cells' : List (Option Bytes)} (hlen : columns.length = values.length) :
    placeValues schema columns values cells = .ok cells' ↔
      placePairs schema ((columns.map ColumnName.name).zip (values.map literalContent))
        (some cells) = some cells' := by
  induction columns generalizing values cells with
  | nil =>
    constructor
    · intro h
      exact congrArg some (Except.ok.inj h)
    · intro h
      exact congrArg Except.ok (Option.some.inj h)
  | cons column columns ih =>
    cases values with
    | nil => cases hlen
    | cons value values =>
      rw [placeValues_cons_eq_ok_iff, List.map_cons, List.map_cons, List.zip_cons_cons,
        placePairs_cons]
      simp only [List.headD_cons, List.tail_cons, ih (Nat.succ.inj hlen)]
      constructor
      · rintro ⟨i, hf, hfree, hcheck, h⟩
        rw [placePair_eq_some_iff.mpr ⟨i, hf, hfree, (checkInsertValue_content _ value).mpr hcheck,
          rfl⟩]
        exact h
      · intro h
        cases hp : placePair schema cells (column.name, literalContent value) with
        | none =>
          rw [hp, placePairs_none] at h
          cases h
        | some one =>
          obtain ⟨i, hf, hfree, hcheck, rfl⟩ := placePair_eq_some_iff.mp hp
          rw [hp] at h
          exact ⟨i, hf, hfree, (checkInsertValue_content _ value).mp hcheck, h⟩

/-- A value for the first column without a cell is placed there. -/
theorem placePair_next (hv : Valid schema) {done columns : List ColumnSchema}
    {column : ColumnSchema} (hs : schema.columns = done ++ column :: columns)
    {before : List Bytes} (hb : before.length = done.length) (value : LiteralValue)
    (rest : List (Option Bytes)) :
    placePair schema (before.map some ++ none :: rest) (column.name, literalContent value) =
      if checkInsertValue column.type value = .ok () then
        some (before.map some ++ some (snprintfStr maxValueLen value.text) :: rest)
      else none := by
  have hi : schema.columns[before.length]? = some column := by
    rw [hs, hb, List.getElem?_append_right (Nat.le_refl _), Nat.sub_self, List.getElem?_cons_zero]
  have htype : columnType schema before.length = column.type := by
    rw [columnType, hi]
  have hlen : (before.map some).length = before.length := List.length_map _
  have hfree : (before.map some ++ none :: rest).getD before.length none = none := by
    rw [List.getD_eq_getElem?_getD, List.getElem?_append_right (Nat.le_of_eq hlen), hlen,
      Nat.sub_self, List.getElem?_cons_zero, Option.getD_some]
  have hset (cell : Option Bytes) : (before.map some ++ none :: rest).set before.length cell =
      before.map some ++ cell :: rest := by
    rw [List.set_append_right _ _ (Nat.le_of_eq hlen), hlen, Nat.sub_self, List.set_cons_zero]
  rw [placePair, findSchemaColumn_name hv hi]
  simp only [hfree, htype, hset, checkInsertValue_content, true_and]
  rfl

/-- The loop without a column list places the values in the order of the schema. -/
theorem placePairs_copyValues (hv : Valid schema) {done columns : List ColumnSchema}
    (hs : schema.columns = done ++ columns) {before : List Bytes}
    (hb : before.length = done.length) {values : List LiteralValue}
    (hlen : values.length = columns.length) :
    placePairs schema ((columns.map ColumnSchema.name).zip (values.map literalContent))
        (some (before.map some ++ List.replicate columns.length none)) =
      (copyValues columns values).toOption.map fun texts ↦ (before ++ texts).map some := by
  induction columns generalizing done before values with
  | nil =>
    rw [copyValues]
    simp [placePairs, Except.toOption]
  | cons column columns ih =>
    cases values with
    | nil => cases hlen
    | cons value values =>
      rw [List.map_cons, List.map_cons, List.zip_cons_cons, placePairs_cons, List.length_cons,
        List.replicate_succ, placePair_next hv hs hb, copyValues, List.headD_cons, List.tail_cons]
      cases checkInsertValue column.type value with
      | error e => rw [if_neg (by rintro ⟨⟩), placePairs_none]; rfl
      | ok u =>
        have hs' : schema.columns = (done ++ [column]) ++ columns := by
          rw [hs, List.append_assoc, List.singleton_append]
        have hb' : (before ++ [snprintfStr maxValueLen value.text]).length =
            (done ++ [column]).length := by
          rw [List.length_append, List.length_append, hb, List.length_singleton,
            List.length_singleton]
        have hstep := ih hs' hb' (Nat.succ.inj hlen)
        rw [List.map_append, List.map_singleton, List.append_assoc, List.singleton_append] at hstep
        rw [if_pos rfl, hstep]
        cases copyValues columns values with
        | error e => rfl
        | ok texts => simp [Except.toOption, bind, Except.bind]

/-- The row of a statement with a column list. -/
theorem rowCells_listed_iff {statement : InsertStatement} {cells : List (Option Bytes)}
    (hl : statement.hasColumnList = true)
    (hc : statement.columns.length = statement.values.length) :
    rowCells schema statement = .ok cells ↔ placePairs schema (listedPairs statement)
      (some (List.replicate schema.columnCount none)) = some cells := by
  rw [rowCells, hl, Bool.not_true, if_neg Bool.false_ne_true, placeValues_eq_ok_iff hc, listedPairs]

/-- The row of a statement without a column list. -/
theorem rowCells_positional_iff (hv : Valid schema) {statement : InsertStatement}
    {cells : List (Option Bytes)} (hl : statement.hasColumnList = false)
    (hc : statement.values.length = schema.columnCount) :
    rowCells schema statement = .ok cells ↔ placePairs schema (schemaPairs schema statement)
      (some (List.replicate schema.columnCount none)) = some cells := by
  have hs : schema.columns = [] ++ schema.columns := rfl
  have hb : ([] : List Bytes).length = ([] : List ColumnSchema).length := rfl
  have hplace := placePairs_copyValues hv hs hb hc
  rw [List.map_nil, List.nil_append] at hplace
  rw [rowCells, hl, Bool.not_false, if_pos rfl, if_neg (not_not_intro hc), schemaPairs,
    TableSchema.columnCount, hplace]
  cases copyValues schema.columns statement.values with
  | error e => simp [Except.toOption]
  | ok texts => simp [Except.toOption]

/-! ### The two statements -/

/-- Missing cells are filled in the same way, whatever the place of the table name. -/
theorem fillCells_sameAt (location location' : SourceLocation) (i : Nat)
    (cells : List (Option Bytes)) (w : World) :
    Exec.SameAt (fillCells config schema location i cells)
      (fillCells config schema location' i cells) w := by
  induction cells generalizing i w with
  | nil => exact Exec.sameAt_refl _ w
  | cons cell cells ih =>
    cases cell with
    | some text =>
      rw [fillCells, fillCells]
      exact (ih (i + 1) w).bind fun _ t ↦ Exec.sameAt_refl _ t
    | none =>
      rw [fillCells, fillCells]
      split
      · exact (Exec.sameAt_refl _ w).bind fun _ t ↦
          (ih (i + 1) t).bind fun _ t ↦ Exec.sameAt_refl _ t
      · exact Exec.sameAt_of_error rfl rfl

/-- Statements that give the same cells have the same outcome. -/
theorem executeInsert_sameAt {statement other : InsertStatement}
    (hn : other.tableName = statement.tableName)
    (hc : ∀ schema, loadTableSchema w.disk.files config.schemaDir statement.tableName =
      .ok schema → ∀ cells, rowCells schema other = .ok cells ↔
        rowCells schema statement = .ok cells) :
    Exec.SameAt (executeInsert config statement) (executeInsert config other) w := by
  cases hschema : loadTableSchema w.disk.files config.schemaDir statement.tableName with
  | error e =>
    have hfail : executeInsert config statement w = (.error e, w) := by
      rw [executeInsert, Exec.bind_ok (Exec.get_apply w), Exec.bind_error (e := e)]
      rw [Exec.lift_apply, hschema]
    have hfail' : executeInsert config other w = (.error e, w) := by
      rw [executeInsert, Exec.bind_ok (Exec.get_apply w), Exec.bind_error (e := e)]
      rw [Exec.lift_apply, hn, hschema]
    exact Exec.sameAt_of_error hfail hfail'
  | ok schema =>
    have hcells := hc schema hschema
    have hbuild : Exec.SameAt (buildInsertRowValues config schema statement)
        (buildInsertRowValues config schema other) w := by
      cases hr : rowCells schema statement with
      | error e =>
        cases hr' : rowCells schema other with
        | ok cells => cases hr.symm.trans ((hcells cells).mp hr')
        | error e' =>
          have hfail : buildInsertRowValues config schema statement w = (.error e, w) := by
            rw [buildInsertRowValues_apply, hr]
          have hfail' : buildInsertRowValues config schema other w = (.error e', w) := by
            rw [buildInsertRowValues_apply, hr']
          exact Exec.sameAt_of_error hfail hfail'
      | ok cells =>
        have hfill : Exec.SameAt (fillCells config schema statement.tableLocation 0 cells)
            (fillCells config schema other.tableLocation 0 cells) w :=
          fillCells_sameAt statement.tableLocation other.tableLocation 0 cells w
        refine ⟨fun a ↦ ?_, ?_⟩
        · rw [buildInsertRowValues_apply, buildInsertRowValues_apply, hr, (hcells cells).mpr hr]
          exact hfill.result a
        · rw [buildInsertRowValues_apply, buildInsertRowValues_apply, hr, (hcells cells).mpr hr]
          exact hfill.state
    have hboth := hbuild.bind fun row t ↦ Exec.sameAt_refl (storeRow config schema row) t
    refine ⟨fun a ↦ ?_, ?_⟩
    · rw [executeInsert_apply hschema, executeInsert_apply (hn ▸ hschema)]
      exact hboth.result a
    · rw [executeInsert_apply hschema, executeInsert_apply (hn ▸ hschema)]
      exact hboth.state

/-- A list that names every column once has its values in the order of the schema too. -/
theorem exists_inSchemaOrder {statement : InsertStatement}
    (hc : statement.columns.length = statement.values.length)
    (hall : (statement.columns.map ColumnName.name).Perm
      (schema.columns.map ColumnSchema.name)) :
    ∃ positional, InSchemaOrder schema statement positional := by
  have hnames : (listedPairs statement).map Prod.fst = statement.columns.map ColumnName.name := by
    rw [listedPairs, List.map_fst_zip]
    rw [List.length_map, List.length_map, hc]
  have hperm : (schema.columns.map ColumnSchema.name).Perm
      ((listedPairs statement).map Prod.fst) := by
    rw [hnames]
    exact hall.symm
  obtain ⟨pairs, hfst, hpairs⟩ := (congrFun₂ (List.eq_map_comp_perm Prod.fst) _ _).mpr hperm
  have hcontent : (pairs.map fun pair ↦ (⟨pair.2.1, pair.2.2, noLocation⟩ : LiteralValue)).map
      literalContent = pairs.map Prod.snd := by
    rw [List.map_map]
    rfl
  refine ⟨⟨statement.tableName, noLocation, false, [],
    pairs.map fun pair ↦ ⟨pair.2.1, pair.2.2, noLocation⟩⟩, rfl, rfl, ?_, ?_⟩
  · rw [List.length_map, TableSchema.columnCount, ← List.length_map ColumnSchema.name, hfst,
      List.length_map]
  · rw [schemaPairs, hcontent, hfst, List.zip_map']
    change (pairs.map id).Perm (listedPairs statement)
    rw [List.map_id]
    exact hpairs

/-- However an accepted INSERT orders its columns, its outcome is the same; when it lists every
column of the schema, it is that of the statement without a column list. -/
theorem executeInsert_reorders {location : SourceLocation} {statement permuted : InsertStatement}
    (hparsed : IsParsed (.insert location statement)) (hlist : statement.hasColumnList = true)
    (hr : Reorders statement permuted) (w : World) :
    Exec.SameAt (executeInsert config statement) (executeInsert config permuted) w ∧
      ∀ schema, loadTableSchema w.disk.files config.schemaDir statement.tableName = .ok schema →
        (statement.columns.map ColumnName.name).Perm (schema.columns.map ColumnSchema.name) →
        (∃ positional, InSchemaOrder schema statement positional) ∧
          ∀ positional, InSchemaOrder schema statement positional →
            Exec.SameAt (executeInsert config statement) (executeInsert config positional) w := by
  have hc : statement.columns.length = statement.values.length := hparsed.accepted.2 hlist
  refine ⟨executeInsert_sameAt hr.tableName fun schema _ cells ↦ ?_, fun schema hschema hall ↦
    ⟨exists_inSchemaOrder hc hall, fun positional hp ↦
      executeInsert_sameAt hp.tableName fun schema' hschema' cells ↦ ?_⟩⟩
  · rw [rowCells_listed_iff hr.hasColumnList hr.counted, rowCells_listed_iff hlist hc,
      placePairs_perm hr.pairs]
  · obtain rfl := Except.ok.inj (hschema.symm.trans hschema')
    have hv := (loadTableSchema_valid hschema).1
    rw [rowCells_positional_iff hv hp.hasColumnList hp.counted, rowCells_listed_iff hlist hc,
      placePairs_perm hp.pairs]

/-- `INSERT INTO t (name, id) VALUES ('z', 5);`. -/
def sampleListedInsert : InsertStatement :=
  ⟨text "t", ⟨1, 13⟩, true, [⟨text "name", ⟨1, 16⟩⟩, ⟨text "id", ⟨1, 22⟩⟩],
    [⟨.string, text "z", ⟨1, 34⟩⟩, ⟨.int, text "5", ⟨1, 39⟩⟩]⟩

/-- `INSERT INTO t (id, name) VALUES (5, 'z');`. -/
def sampleReorderedInsert : InsertStatement :=
  { sampleListedInsert with
    columns := sampleListedInsert.columns.reverse
    values := sampleListedInsert.values.reverse }

/-- `INSERT INTO t VALUES (5, 'z');`. -/
def samplePositionalInsert : InsertStatement :=
  { sampleReorderedInsert with hasColumnList := false, columns := [] }

theorem isParsed_sampleListedInsert : IsParsed (.insert ⟨1, 1⟩ sampleListedInsert) := by
  refine ⟨text "INSERT INTO t (name, id) VALUES ('z', 5);", _, ?_, List.mem_singleton_self _⟩
  decide +kernel

theorem executeInsert_reorders_sample :
    let w := runPrograms sampleConfig samplePrograms sampleWorld
    (executeInsert sampleConfig sampleListedInsert w).1 = .ok () ∧
      Exec.SameAt (executeInsert sampleConfig sampleListedInsert)
        (executeInsert sampleConfig sampleReorderedInsert) w ∧
      Exec.SameAt (executeInsert sampleConfig sampleListedInsert)
        (executeInsert sampleConfig samplePositionalInsert) w := by
  intro w
  have hschema : loadTableSchema w.disk.files sampleConfig.schemaDir
      sampleListedInsert.tableName = .ok sampleSchema := by decide +kernel
  have hr : Reorders sampleListedInsert sampleReorderedInsert :=
    ⟨rfl, rfl, rfl, List.Perm.swap _ _ _⟩
  obtain ⟨hsame, hlisted⟩ := executeInsert_reorders isParsed_sampleListedInsert rfl hr w
  obtain ⟨-, hpositional⟩ := hlisted sampleSchema hschema (List.Perm.swap _ _ _)
  exact ⟨by decide +kernel, hsame,
    hpositional samplePositionalInsert ⟨rfl, rfl, rfl, List.Perm.swap _ _ _⟩⟩

end SqlProc.Executor
