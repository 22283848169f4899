import SqlProc.Executor.Insert

/-!
# The cells of an inserted row

Library `Executor`. The values of an INSERT reach the columns of the schema: in order without
a column list, and with a list each under the column that it is listed for, once.
-/

namespace SqlProc.Executor

open Base Front Index Schema Storage

variable {schema : TableSchema}

/-! ### Texts that fit -/

/-- Cells of the width of the schema whose texts fit. -/
structure ValidCells (schema : TableSchema) (cells : List (Option Bytes)) : Prop where
  length_eq : cells.length = schema.columnCount
  valid : ∀ text, some text ∈ cells → ValidCell text

theorem validCell_headD {values : List LiteralValue} (h : ∀ value ∈ values, ValidCell value.text) :
    ValidCell (snprintfStr maxValueLen (values.headD .zero).text) := by
  have hv : ValidCell (values.headD .zero).text := by
    cases values with
    | nil => exact validCell_nil
    | cons value values => exact h value List.mem_cons_self
  rw [snprintfStr_of_lt hv.length_lt]
  exact hv

theorem copyValues_valid {columns : List ColumnSchema} {values : List LiteralValue}
    {texts : List Bytes} (hv : ∀ value ∈ values, ValidCell value.text)
    (h : copyValues columns values = .ok texts) :
    texts.length = columns.length ∧ ∀ text ∈ texts, ValidCell text := by
  induction columns generalizing values texts with
  | nil =>
    obtain rfl := Except.ok.inj h
    exact ⟨rfl, by simp⟩
  | cons column columns ih =>
    rw [copyValues] at h
    cases hc : checkInsertValue column.type (values.headD .zero) with
    | error e =>
      rw [hc] at h
      cases h
    | ok u =>
      cases hr : copyValues columns values.tail with
      | error e =>
        rw [hc, hr] at h
        cases h
      | ok rest =>
        rw [hc, hr] at h
        obtain rfl := Except.ok.inj h
        obtain ⟨hlen, hrest⟩ := ih (fun value hm ↦ hv value (List.mem_of_mem_tail hm)) hr
        refine ⟨by rw [List.length_cons, List.length_cons, hlen], ?_⟩
        exact List.forall_mem_cons.mpr ⟨validCell_headD hv, hrest⟩

/-- Placing values succeeds when each column is found, is still free and takes its value. -/
theorem placeValues_cons_eq_ok_iff {column : ColumnName} {columns : List ColumnName}
    {values : List LiteralValue} {cells cells' : List (Option Bytes)} :
    placeValues schema (column :: columns) values cells = .ok cells' ↔
      ∃ i, findSchemaColumn schema column.name = some i ∧ cells.getD i none = none ∧
        checkInsertValue (columnType schema i) (values.headD .zero) = .ok () ∧
        placeValues schema columns values.tail
          (cells.set i (some (snprintfStr maxValueLen (values.headD .zero).text))) =
            .ok cells' := by
  rw [placeValues]
  cases findSchemaColumn schema column.name with
  | none => simp
  | some i =>
    simp only [Option.some.injEq, exists_eq_left']
    cases cells.getD i none with
    | some text => simp
    | none =>
      cases checkInsertValue (columnType schema i) (values.headD .zero) with
      | error e => simp [bind, Except.bind]
      | ok u => simp [bind, Except.bind]

theorem placeValues_valid {columns : List ColumnName} {values : List LiteralValue}
    {cells cells' : List (Option Bytes)} (hv : ∀ value ∈ values, ValidCell value.text)
    (hc : ValidCells schema cells) (h : placeValues schema columns values cells = .ok cells') :
    ValidCells schema cells' := by
  induction columns generalizing values cells with
  | nil =>
    obtain rfl := Except.ok.inj h
    exact hc
  | cons column columns ih =>
    obtain ⟨i, -, -, -, h⟩ := placeValues_cons_eq_ok_iff.mp h
    refine ih (fun value hm ↦ hv value (List.mem_of_mem_tail hm)) ⟨?_, ?_⟩ h
    · rw [List.length_set]
      exact hc.length_eq
    · intro text hm
      rcases List.mem_or_eq_of_mem_set hm with hm | hm
      · exact hc.valid text hm
      · rw [Option.some.inj hm]
        exact validCell_headD hv

/-- The cells that a parsed INSERT gives fit the schema. -/
theorem rowCells_valid {statement : InsertStatement} {cells : List (Option Bytes)}
    (hl : statement.Lexical) (h : rowCells schema statement = .ok cells) :
    ValidCells schema cells := by
  unfold rowCells at h
  split at h
  · split at h
    · cases h
    · cases hc : copyValues schema.columns statement.values with
      | error e =>
        rw [hc] at h
        cases h
      | ok texts =>
        rw [hc] at h
        obtain rfl := Except.ok.inj h
        obtain ⟨hlen, hvalid⟩ := copyValues_valid hl.values hc
        refine ⟨by rw [List.length_map, hlen], fun text hm ↦ hvalid text ?_⟩
        simpa using hm
  · refine placeValues_valid hl.values ⟨List.length_replicate, fun text hm ↦ ?_⟩ h
    exact absurd (List.eq_of_mem_replicate hm) (by simp)

/-- An automatic id fits a cell. -/
theorem validCell_idText {id : Int} (hl : intMin ≤ id) (hu : id ≤ intMax) :
    ValidCell (idText id) := by
  rw [idText_eq hl hu]
  have hlen := length_snprintfInt_le hl hu
  have hmem : ∀ {c}, c ∈ snprintfInt id → c ≠ nul ∧ c ≠ lf ∧ c ≠ cr := by
    intro c hc
    rcases mem_snprintfInt hc with hd | rfl
    · refine ⟨?_, ?_, ?_⟩
      · rintro rfl
        exact absurd hd (by decide)
      · rintro rfl
        exact absurd hd (by decide)
      · rintro rfl
        exact absurd hd (by decide)
    · decide
  refine ⟨⟨fun h ↦ (hmem h).1 rfl, fun h ↦ (hmem h).2.1 rfl, fun h ↦ (hmem h).2.2 rfl⟩, ?_⟩
  simp only [maxValueLen]
  omega

/-! ### Columns by name -/

theorem name_of_findSchemaColumn {name : Bytes} {i : Nat}
    (h : findSchemaColumn schema name = some i) :
    ∃ column, schema.columns[i]? = some column ∧ column.name = name := by
  obtain ⟨column, hi, hf⟩ := find?_of_findIdx? h
  have hname := List.find?_some hf
  rw [decide_eq_true_eq] at hname
  exact ⟨column, hi, hname⟩

/-- Names are different, so each finds its column. -/
theorem findSchemaColumn_name (hv : Valid schema) {column : ColumnSchema} {i : Nat}
    (hi : schema.columns[i]? = some column) : findSchemaColumn schema column.name = some i := by
  cases hf : findSchemaColumn schema column.name with
  | none =>
    have hnone := List.findIdx?_eq_none_iff.mp hf column (List.mem_of_getElem? hi)
    simp at hnone
  | some j =>
    obtain ⟨column', hj, hname⟩ := name_of_findSchemaColumn hf
    have hi' : (schema.columns.map ColumnSchema.name)[i]? = some column.name := by
      rw [List.getElem?_map, hi, Option.map_some]
    have hj' : (schema.columns.map ColumnSchema.name)[j]? = some column.name := by
      rw [List.getElem?_map, hj, Option.map_some, hname]
    obtain ⟨hilt, hieq⟩ := List.getElem?_eq_some_iff.mp hi'
    obtain ⟨hjlt, hjeq⟩ := List.getElem?_eq_some_iff.mp hj'
    rw [(List.Nodup.getElem_inj_iff hv.nodup).mp (hjeq.trans hieq.symm)]

/-- The text that a column list gives for a name. -/
def listedText : List ColumnName → List LiteralValue → Bytes → Option Bytes
  | [], _, _ => none
  | column :: columns, values, name =>
    if column.name = name then some (values.headD .zero).text
    else listedText columns values.tail name

/-- A name that finds another column is another name. -/
theorem findSchemaColumn_ne {column : ColumnSchema} {i k : Nat} {name : Bytes}
    (hi : schema.columns[i]? = some column) (hf : findSchemaColumn schema name = some k)
    (hne : name ≠ column.name) : k ≠ i := by
  rintro rfl
  obtain ⟨column', hk, hname⟩ := name_of_findSchemaColumn hf
  rw [hi] at hk
  rw [← Option.some.inj hk] at hname
  exact hne hname.symm

/-- A column whose cell is there is not listed again. -/
theorem listedText_of_placeValues {columns : List ColumnName} {values : List LiteralValue}
    {cells cells' : List (Option Bytes)} (hv : Valid schema)
    (h : placeValues schema columns values cells = .ok cells') {column : ColumnSchema} {i : Nat}
    (hi : schema.columns[i]? = some column) {text : Bytes} (hc : cells[i]? = some (some text)) :
    listedText columns values column.name = none := by
  induction columns generalizing values cells text with
  | nil => rfl
  | cons listed columns ih =>
    obtain ⟨k, hf, hfree, -, h⟩ := placeValues_cons_eq_ok_iff.mp h
    have hne : listed.name ≠ column.name := by
      intro he
      rw [he, findSchemaColumn_name hv hi] at hf
      obtain rfl := Option.some.inj hf
      rw [List.getD_eq_getElem?_getD, hc] at hfree
      cases hfree
    rw [listedText, if_neg hne]
    exact ih h (by rw [List.getElem?_set_ne (findSchemaColumn_ne hi hf hne), hc])

/-- Every cell holds the text that the list gives for its column. -/
theorem getElem?_placeValues {columns : List ColumnName} {values : List LiteralValue}
    {cells cells' : List (Option Bytes)} (hv : Valid schema)
    (h : placeValues schema columns values cells = .ok cells')
    (hlen : cells.length = schema.columnCount) {column : ColumnSchema} {i : Nat}
    (hi : schema.columns[i]? = some column) :
    cells'[i]? = match listedText columns values column.name with
      | some text => some (some (snprintfStr maxValueLen text))
      | none => cells[i]? := by
  induction columns generalizing values cells with
  | nil =>
    obtain rfl := Except.ok.inj h
    rfl
  | cons listed columns ih =>
    obtain ⟨k, hf, hfree, -, h⟩ := placeValues_cons_eq_ok_iff.mp h
    have hstep := ih h (by rw [List.length_set]; exact hlen)
    by_cases he : listed.name = column.name
    · rw [he, findSchemaColumn_name hv hi] at hf
      obtain rfl := Option.some.inj hf
      have hlt : i < cells.length := by
        rw [hlen]
        exact (List.getElem?_eq_some_iff.mp hi).1
      have hset : (cells.set i (some (snprintfStr maxValueLen
          (values.headD .zero).text)))[i]? =
          some (some (snprintfStr maxValueLen (values.headD .zero).text)) :=
        List.getElem?_set_self hlt
      rw [hstep, listedText_of_placeValues hv h hi hset, listedText, if_pos he]
      exact hset
    · rw [hstep, listedText, if_neg he,
        List.getElem?_set_ne (findSchemaColumn_ne hi hf he)]

end SqlProc.Executor
