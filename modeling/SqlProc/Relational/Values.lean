import SqlProc.Executor.ExplicitId
import SqlProc.Relational.Database

/-!
# The values of an INSERT

Library `Relational`. The loops over the values of an INSERT accept exactly the values that fit
the table, and what they store can be compared later.
-/

namespace SqlProc.Relational

open Base Front Schema Storage Executor

variable {schema : TableSchema} {statement : InsertStatement}

/-- The checks on a value are those of its column. -/
theorem checkInsertValue_eq_ok_iff_takes {dataType : DataType} {value : LiteralValue} :
    checkInsertValue dataType value = .ok () ↔ Takes dataType value := by
  rw [checkInsertValue_eq_ok_iff]
  obtain ⟨type, text, location⟩ := value
  cases dataType with
  | int => cases type <;> simp [Takes, validateLiteralType, intLiteralInRange]
  | string =>
    cases type with
    | int => simp [Takes, validateLiteralType]
    | string =>
      cases text with
      | nil => simp [Takes, validateLiteralType, stringLiteralIsSafeForCsv]
      | cons c cs => simp [Takes, validateLiteralType, stringLiteralIsSafeForCsv]

/-- Values in order are copied when each column takes its value. -/
theorem exists_copyValues_iff {columns : List ColumnSchema} {values : List LiteralValue}
    (hlen : values.length = columns.length) :
    (∃ texts, copyValues columns values = .ok texts) ↔
      ∀ p ∈ columns.zip values, Takes p.1.type p.2 := by
  induction columns generalizing values with
  | nil => simp [copyValues]
  | cons column columns ih =>
    cases values with
    | nil => cases hlen
    | cons value values =>
      rw [List.zip_cons_cons, List.forall_mem_cons, ← ih (Nat.succ.inj hlen), copyValues,
        List.headD_cons, List.tail_cons, ← checkInsertValue_eq_ok_iff_takes]
      simp only [except_bind_eq_ok_iff]
      constructor
      · rintro ⟨texts, u, hcheck, rest, hrest, -⟩
        exact ⟨hcheck, rest, hrest⟩
      · rintro ⟨hcheck, rest, hrest⟩
        exact ⟨_, (), hcheck, rest, hrest, rfl⟩

/-! ### A column list -/

/-- The place of a name determines it. -/
theorem findSchemaColumn_inj {name name' : Bytes} {i : Nat}
    (h : findSchemaColumn schema name = some i) (h' : findSchemaColumn schema name' = some i) :
    name = name' := by
  obtain ⟨column, hi, hname⟩ := name_of_findSchemaColumn h
  obtain ⟨column', hi', hname'⟩ := name_of_findSchemaColumn h'
  obtain rfl := Option.some.inj (hi.symm.trans hi')
  exact hname.symm.trans hname'

/-- A column of the schema with the name takes the value. -/
theorem exists_column_takes_iff (hv : Valid schema) {name : Bytes} {value : LiteralValue} :
    (∃ column ∈ schema.columns, column.name = name ∧ Takes column.type value) ↔
      ∃ i, findSchemaColumn schema name = some i ∧ Takes (columnType schema i) value := by
  constructor
  · rintro ⟨column, hm, rfl, ht⟩
    obtain ⟨i, hi⟩ := List.getElem?_of_mem hm
    refine ⟨i, findSchemaColumn_name hv hi, ?_⟩
    rw [columnType, hi]
    exact ht
  · rintro ⟨i, hf, ht⟩
    obtain ⟨column, hi, hname⟩ := name_of_findSchemaColumn hf
    rw [columnType, hi] at ht
    exact ⟨column, List.mem_of_getElem? hi, hname, ht⟩

/-- A cell is free after another one was filled. -/
theorem getD_set_eq_none_iff {cells : List (Option Bytes)} {i j : Nat} {text : Bytes}
    (hlt : i < cells.length) :
    (cells.set i (some text)).getD j none = none ↔ j ≠ i ∧ cells.getD j none = none := by
  by_cases h : j = i
  · subst h
    simp [List.getD_eq_getElem?_getD, List.getElem?_set_self hlt]
  · simp only [List.getD_eq_getElem?_getD, List.getElem?_set_ne (Ne.symm h), ne_eq, h,
      not_false_eq_true, true_and]

/-- The cells of the listed columns are free. -/
def FreeCells (schema : TableSchema) (columns : List ColumnName) (cells : List (Option Bytes)) :
    Prop :=
  ∀ column ∈ columns, ∀ i, findSchemaColumn schema column.name = some i →
    cells.getD i none = none

/-- After a cell was filled the others are free when its column is not listed again. -/
theorem freeCells_set_iff {column : ColumnName} {columns : List ColumnName}
    {cells : List (Option Bytes)} {i : Nat} {text : Bytes}
    (hf : findSchemaColumn schema column.name = some i) (hlt : i < cells.length) :
    FreeCells schema columns (cells.set i (some text)) ↔
      column.name ∉ columns.map ColumnName.name ∧ FreeCells schema columns cells := by
  simp only [FreeCells, getD_set_eq_none_iff hlt]
  constructor
  · intro h
    refine ⟨fun hm ↦ ?_, fun listed hm j hj ↦ (h listed hm j hj).2⟩
    obtain ⟨listed, hm, hname⟩ := List.mem_map.mp hm
    exact (h listed hm i (by rw [hname]; exact hf)).1 rfl
  · rintro ⟨hnew, hfree⟩ listed hm j hj
    refine ⟨?_, hfree listed hm j hj⟩
    rintro rfl
    rw [← findSchemaColumn_inj hj hf] at hnew
    exact hnew (List.mem_map_of_mem hm)

/-- Listed values are placed when the columns are different ones of the schema, are free and take
their values. -/
theorem exists_placeValues_iff (hv : Valid schema) {columns : List ColumnName}
    {values : List LiteralValue} {cells : List (Option Bytes)}
    (hlen : columns.length = values.length) (hcells : cells.length = schema.columnCount) :
    (∃ cells', placeValues schema columns values cells = .ok cells') ↔
      (columns.map ColumnName.name).Nodup ∧ FreeCells schema columns cells ∧
        ∀ p ∈ columns.zip values,
          ∃ column ∈ schema.columns, column.name = p.1.name ∧ Takes column.type p.2 := by
  induction columns generalizing values cells with
  | nil => simp [placeValues, FreeCells]
  | cons column columns ih =>
    cases values with
    | nil => cases hlen
    | cons value values =>
      simp only [placeValues_cons_eq_ok_iff, List.headD_cons, List.tail_cons, List.zip_cons_cons,
        List.forall_mem_cons, List.map_cons, List.nodup_cons, exists_column_takes_iff hv,
        checkInsertValue_eq_ok_iff_takes]
      have hrest : ∀ i, findSchemaColumn schema column.name = some i →
          ((∃ cells', placeValues schema columns values
            (cells.set i (some (snprintfStr maxValueLen value.text))) = .ok cells') ↔
            (columns.map ColumnName.name).Nodup ∧ (column.name ∉ columns.map ColumnName.name ∧
              FreeCells schema columns cells) ∧
              ∀ p ∈ columns.zip values, ∃ i,
                findSchemaColumn schema p.1.name = some i ∧ Takes (columnType schema i) p.2) := by
        intro i hf
        obtain ⟨found, hi, -⟩ := name_of_findSchemaColumn hf
        have hlt : i < cells.length := (List.getElem?_eq_some_iff.mp hi).1.trans_eq hcells.symm
        rw [ih (Nat.succ.inj hlen) (by rw [List.length_set]; exact hcells),
          freeCells_set_iff hf hlt]
        simp only [exists_column_takes_iff hv]
      constructor
      · rintro ⟨cells', i, hf, hfree, ht, hplace⟩
        obtain ⟨hnodup, ⟨hnew, hfrees⟩, htakes⟩ := (hrest i hf).mp ⟨cells', hplace⟩
        refine ⟨⟨hnew, hnodup⟩, List.forall_mem_cons.mpr ⟨fun j hj ↦ ?_, hfrees⟩, ⟨i, hf, ht⟩,
          htakes⟩
        obtain rfl := Option.some.inj (hf.symm.trans hj)
        exact hfree
      · rintro ⟨⟨hnew, hnodup⟩, hfree, ⟨i, hf, ht⟩, htakes⟩
        obtain ⟨hfirst, hfrees⟩ := List.forall_mem_cons.mp hfree
        obtain ⟨cells', hplace⟩ := (hrest i hf).mpr ⟨hnodup, ⟨hnew, hfrees⟩, htakes⟩
        exact ⟨cells', i, hf, hfirst i hf, ht, hplace⟩

/-! ### The cells -/

/-- The cells of a row that no value was placed in are free. -/
theorem freeCells_replicate (columns : List ColumnName) (n : Nat) :
    FreeCells schema columns (List.replicate n none) := by
  intro column _ i _
  rw [List.getD_eq_getElem?_getD, List.getElem?_replicate]
  split <;> rfl

/-- Without a column list there is one value for each column, and each is taken. -/
theorem exists_rowCells_inOrder_iff (hlist : statement.hasColumnList = false) :
    (∃ cells, rowCells schema statement = .ok cells) ↔
      statement.values.length = schema.columnCount ∧
        ∀ p ∈ schema.columns.zip statement.values, Takes p.1.type p.2 := by
  unfold rowCells
  simp only [hlist, Bool.not_false, if_true]
  by_cases hlen : statement.values.length = schema.columnCount
  · rw [if_neg (not_not.mpr hlen), ← exists_copyValues_iff hlen, and_iff_right hlen]
    cases copyValues schema.columns statement.values with
    | error e => simp
    | ok texts => simp
  · rw [if_pos hlen]
    simp [hlen]

/-- With one the listed columns are different ones of the schema, and each takes its value. -/
theorem exists_rowCells_listed_iff (hv : Valid schema) (hlist : statement.hasColumnList = true)
    (hlen : statement.columns.length = statement.values.length) :
    (∃ cells, rowCells schema statement = .ok cells) ↔
      (statement.columns.map ColumnName.name).Nodup ∧
        ∀ p ∈ statement.columns.zip statement.values,
          ∃ column ∈ schema.columns, column.name = p.1.name ∧ Takes column.type p.2 := by
  unfold rowCells
  simp only [hlist, Bool.not_true, Bool.false_eq_true, if_false]
  rw [exists_placeValues_iff hv hlen List.length_replicate]
  simp only [freeCells_replicate, true_and]

/-- An INSERT that counts as the parser does is accepted when its values fit the table. -/
theorem exists_rowCells_iff (hv : Valid schema)
    (hcount : statement.hasColumnList = true → statement.columns.length = statement.values.length) :
    (∃ cells, rowCells schema statement = .ok cells) ↔ Accepts schema statement := by
  cases hlist : statement.hasColumnList with
  | false =>
    have hnot : statement.hasColumnList ≠ true := by
      rw [hlist]
      exact Bool.false_ne_true
    rw [exists_rowCells_inOrder_iff hlist]
    constructor
    · rintro ⟨hlen, htakes⟩
      exact ⟨fun _ ↦ hlen, fun _ ↦ htakes, fun h ↦ absurd h hnot, fun h ↦ absurd h hnot⟩
    · intro h
      exact ⟨h.counted hlist, h.inOrder hlist⟩
  | true =>
    have hnot : statement.hasColumnList ≠ false := by
      rw [hlist]
      exact Bool.false_ne_true.symm
    rw [exists_rowCells_listed_iff hv hlist (hcount hlist)]
    constructor
    · rintro ⟨hnodup, htakes⟩
      exact ⟨fun h ↦ absurd h hnot, fun h ↦ absurd h hnot, fun _ ↦ hnodup, fun _ ↦ htakes⟩
    · intro h
      exact ⟨h.different hlist, h.listed hlist⟩

/-- The cells of an accepted INSERT are the texts that it gives. -/
theorem rowCells_eq_ok_iff (hv : Valid schema) (hl : statement.Lexical)
    (hcount : statement.hasColumnList = true → statement.columns.length = statement.values.length)
    {cells : List (Option Bytes)} :
    rowCells schema statement = .ok cells ↔
      Accepts schema statement ∧ cells = givenCells schema statement := by
  rw [← exists_rowCells_iff hv hcount]
  constructor
  · intro h
    exact ⟨⟨cells, h⟩, rowCells_eq_givenCells hv hl h⟩
  · rintro ⟨⟨cells', h⟩, rfl⟩
    rw [h, rowCells_eq_givenCells hv hl h]

/-! ### Cells that can be compared -/

/-- The cells of `int` columns are integers in range. -/
def Typed (schema : TableSchema) (row : List Bytes) : Prop :=
  ∀ i, columnType schema i = .int → (strtolInt (row.getD i [])).isSome = true

/-- The text listed for a name is that of its value. -/
theorem exists_of_listedText {columns : List ColumnName} {values : List LiteralValue}
    {name text : Bytes} (hlen : columns.length = values.length)
    (h : listedText columns values name = some text) :
    ∃ p ∈ columns.zip values, p.1.name = name ∧ p.2.text = text := by
  induction columns generalizing values with
  | nil => cases h
  | cons column columns ih =>
    cases values with
    | nil => cases hlen
    | cons value values =>
      rw [listedText, List.headD_cons, List.tail_cons] at h
      rw [List.zip_cons_cons]
      split at h
      · next hname => exact ⟨_, List.mem_cons_self, hname, Option.some.inj h⟩
      · obtain ⟨p, hm, hp⟩ := ih (Nat.succ.inj hlen) h
        exact ⟨p, List.mem_cons_of_mem _ hm, hp⟩

/-- A text that an accepted INSERT gives for a column is that of a value which the column takes. -/
theorem Accepts.takes_of_givenText (hv : Valid schema) (ha : Accepts schema statement)
    (hcount : statement.hasColumnList = true → statement.columns.length = statement.values.length)
    {column : ColumnSchema} {i : Nat} {text : Bytes} (hi : schema.columns[i]? = some column)
    (h : givenText statement i column.name = some text) :
    ∃ value, Takes column.type value ∧ value.text = text := by
  unfold givenText at h
  cases hlist : statement.hasColumnList with
  | true =>
    rw [if_pos hlist] at h
    obtain ⟨p, hm, hname, htext⟩ := exists_of_listedText (hcount hlist) h
    obtain ⟨found, hfound, hname', htakes⟩ := ha.listed hlist p hm
    obtain ⟨j, hj⟩ := List.getElem?_of_mem hfound
    have hplace := findSchemaColumn_name hv hj
    rw [hname', hname, findSchemaColumn_name hv hi] at hplace
    obtain rfl := Option.some.inj hplace
    obtain rfl := Option.some.inj (hi.symm.trans hj)
    exact ⟨p.2, htakes, htext⟩
  | false =>
    rw [if_neg (by rw [hlist]; exact Bool.false_ne_true)] at h
    obtain ⟨value, hvalue, htext⟩ := Option.map_eq_some_iff.mp h
    have hzip : (schema.columns.zip statement.values)[i]? = some (column, value) := by
      rw [List.getElem?_zip_eq_some]
      exact ⟨hi, hvalue⟩
    exact ⟨value, ha.inOrder hlist _ (List.mem_of_getElem? hzip), htext⟩

/-- The row of an accepted INSERT can be compared, with any integer for what it leaves out. -/
theorem Accepts.typed (hv : Valid schema) (ha : Accepts schema statement)
    (hcount : statement.hasColumnList = true → statement.columns.length = statement.values.length)
    {omitted : Bytes} (ho : (strtolInt omitted).isSome = true) :
    Typed schema ((givenCells schema statement).map (·.getD omitted)) := by
  intro i hint
  rw [List.getD_eq_getElem?_getD, List.getElem?_map, getElem?_givenCells]
  unfold columnType at hint
  cases hi : schema.columns[i]? with
  | none => rfl
  | some column =>
    rw [hi] at hint
    rw [Option.map_some, Option.map_some, Option.getD_some]
    cases hgiven : givenText statement i column.name with
    | none => exact ho
    | some text =>
      obtain ⟨value, htakes, rfl⟩ := ha.takes_of_givenText hv hcount hi hgiven
      rw [show column.type = .int from hint] at htakes
      exact htakes.2

end SqlProc.Relational
