import SqlProc.Executor.Select
import SqlProc.Storage.WellFormed

/-!
# A scan with a condition is a filter

Library `Executor`. On a file that the full scan prints, the scan with an accepted condition
prints the rows whose cell satisfies it, in the order of the file.
-/

namespace SqlProc.Executor

open Base Front Index Schema Storage Support

variable {config : AppConfig} {schema : TableSchema} {statement : SelectStatement}
  {rows : List (Nat × List Bytes)}

/-! ### What a condition means -/

/-- A cell satisfies a condition: integers are compared as numbers, strings by their bytes. -/
def Satisfies (dataType : DataType) (operator : WhereOperator) (value cell : Bytes) : Prop :=
  match dataType, operator with
  | .string, .equal => cell = value
  | .string, .notEqual => cell ≠ value
  | .string, _ => False
  | .int, operator => ∃ id v, IntOrEmptyCell cell id ∧ IntOrEmptyCell value v ∧
    keyMatches operator v id = true

theorem intOrEmptyCell_iff {cell : Bytes} {id : Int} :
    IntOrEmptyCell cell id ↔ strtolInt cell = some id := by
  rw [strtolInt_eq_some_iff]
  exact or_congr_right ⟨fun h ↦ ⟨h.decimal, h.range⟩, fun h ↦ ⟨h.1, h.2⟩⟩

theorem satisfies_int_iff {operator : WhereOperator} {value cell : Bytes} :
    Satisfies .int operator value cell ↔
      ∃ id ∈ strtolInt cell, ∃ v ∈ strtolInt value, keyMatches operator v id = true := by
  simp only [Satisfies, intOrEmptyCell_iff, Option.mem_def]
  constructor
  · rintro ⟨id, v, hid, hv, h⟩
    exact ⟨id, hid, v, hv, h⟩
  · rintro ⟨id, hid, v, hv, h⟩
    exact ⟨id, v, hid, hv, h⟩

theorem satisfies_int {operator : WhereOperator} {value cell : Bytes} {id v : Int}
    (hid : strtolInt cell = some id) (hv : strtolInt value = some v) :
    Satisfies .int operator value cell ↔ keyMatches operator v id = true := by
  rw [satisfies_int_iff, hid, hv]
  simp

instance (dataType : DataType) (operator : WhereOperator) (value cell : Bytes) :
    Decidable (Satisfies dataType operator value cell) :=
  match dataType, operator with
  | .string, .equal => inferInstanceAs (Decidable (cell = value))
  | .string, .notEqual => inferInstanceAs (Decidable (cell ≠ value))
  | .string, .greater => inferInstanceAs (Decidable False)
  | .string, .less => inferInstanceAs (Decidable False)
  | .int, _ => decidable_of_iff _ satisfies_int_iff.symm

/-- The rows whose cell in the column satisfies the condition. -/
def matchingRows (schema : TableSchema) (column : Nat) (operator : WhereOperator) (value : Bytes)
    (rows : List (Nat × List Bytes)) : List (Nat × List Bytes) :=
  rows.filter fun row ↦ Satisfies (columnType schema column) operator value
    (row.2.getD column [])

/-! ### What the executor accepts -/

/-- A condition that the executor accepts has a value of the type of its column, and compares
strings for equality only. -/
theorem resolveWhereColumn_eq_ok {column : Nat}
    (h : resolveWhereColumn schema statement = .ok column) :
    columnType schema column = .int ∧ statement.whereValue.type = .int ∧
        (∃ v, strtolInt statement.whereValue.text = some v) ∨
      columnType schema column = .string ∧
        (statement.whereOperator = .equal ∨ statement.whereOperator = .notEqual) := by
  unfold resolveWhereColumn at h
  split at h
  · cases h
  · next i hfind =>
    simp only at h
    split at h
    · cases h
    · next htype =>
      split at h
      · cases h
      · next hrange =>
        split at h
        · cases h
        · next hoperator =>
          obtain rfl := Except.ok.inj h
          cases hc : columnType schema i with
          | int =>
            rw [hc] at htype hrange
            have hvalue : statement.whereValue.type = .int := by
              cases ht : statement.whereValue.type with
              | int => rfl
              | string => simp [validateLiteralType, ht] at htype
            simp only [decide_true, Bool.true_and, Bool.not_eq_true', Bool.not_eq_false] at hrange
            exact Or.inl ⟨rfl, hvalue, Option.isSome_iff_exists.mp hrange⟩
          | string =>
            rw [hc] at hoperator
            have hequality : statement.whereOperator = .equal ∨
                statement.whereOperator = .notEqual := by
              cases ho : statement.whereOperator with
              | equal => exact Or.inl rfl
              | notEqual => exact Or.inr rfl
              | greater => simp [ho] at hoperator
              | less => simp [ho] at hoperator
            exact Or.inr ⟨rfl, hequality⟩

/-- On a cell of the right type the comparison of the scan is the condition. -/
theorem csvValueMatchesWhere_eq {column : Nat}
    (h : resolveWhereColumn schema statement = .ok column) {cells : List Bytes}
    (hcell : columnType schema column = .int → ∃ id, IntOrEmptyCell (cells.getD column []) id) :
    csvValueMatchesWhere schema cells column statement.whereOperator statement.whereValue =
      some (decide (Satisfies (columnType schema column) statement.whereOperator
        statement.whereValue.text (cells.getD column []))) := by
  rcases resolveWhereColumn_eq_ok h with ⟨hc, ht, v, hv⟩ | ⟨hc, ho⟩
  · obtain ⟨id, hid⟩ := hcell hc
    rw [intOrEmptyCell_iff] at hid
    simp only [csvValueMatchesWhere, hc, ht, ne_eq, not_true_eq_false, if_false, hid, hv,
      satisfies_int hid hv, Bool.decide_eq_true]
    cases statement.whereOperator with
    | equal => rfl
    | greater => rfl
    | less => rfl
    | notEqual => rfl
  · simp only [csvValueMatchesWhere, hc]
    rcases ho with ho | ho
    · simp only [ho]
      rfl
    · simp only [ho]
      rfl

/-! ### Conditions on one column and value -/

/-- The cells of the column are integers if the column is of type `int`. -/
def IntColumn (schema : TableSchema) (column : Nat) (rows : List (Nat × List Bytes)) : Prop :=
  columnType schema column = .int →
    ∀ row ∈ rows, ∃ id, IntOrEmptyCell (row.2.getD column []) id

/-- Of two complementary conditions each row satisfies one. -/
theorem filter_append_perm_of_not {p q : Nat × List Bytes → Bool}
    (h : ∀ row ∈ rows, q row = !p row) : (rows.filter p ++ rows.filter q).Perm rows := by
  rw [List.filter_congr h]
  exact List.filter_append_perm p rows

section Conditions

variable {column : Nat} (h : resolveWhereColumn schema statement = .ok column)
  (hc : IntColumn schema column rows)

include h hc

/-- The rows with the value and those with another one are all the rows. -/
theorem matchingRows_equal_notEqual :
    (matchingRows schema column .equal statement.whereValue.text rows ++
      matchingRows schema column .notEqual statement.whereValue.text rows).Perm rows := by
  apply filter_append_perm_of_not
  intro row hm
  rcases resolveWhereColumn_eq_ok h with ⟨hint, -, v, hv⟩ | ⟨hstring, -⟩
  · obtain ⟨id, hid⟩ := hc hint row hm
    rw [intOrEmptyCell_iff] at hid
    simp only [hint, satisfies_int hid hv, Bool.decide_eq_true]
    simp [keyMatches]
  · simp [hstring, Satisfies]

/-- The rows below the value, those with the value and those above it are all the rows of a
table whose column is of type `int`. -/
theorem matchingRows_less_equal_greater (hint : columnType schema column = .int) :
    (matchingRows schema column .less statement.whereValue.text rows ++
      (matchingRows schema column .equal statement.whereValue.text rows ++
        matchingRows schema column .greater statement.whereValue.text rows)).Perm rows := by
  have hv : ∃ v, strtolInt statement.whereValue.text = some v := by
    rcases resolveWhereColumn_eq_ok h with ⟨-, -, hv⟩ | ⟨hstring, -⟩
    · exact hv
    · rw [hint] at hstring
      cases hstring
  obtain ⟨v, hv⟩ := hv
  let sat (operator : WhereOperator) (row : Nat × List Bytes) : Bool :=
    Satisfies (columnType schema column) operator statement.whereValue.text (row.2.getD column [])
  have hsat : ∀ row ∈ rows, ∃ id, ∀ operator, sat operator row = keyMatches operator v id := by
    intro row hm
    obtain ⟨id, hid⟩ := hc hint row hm
    rw [intOrEmptyCell_iff] at hid
    refine ⟨id, fun operator ↦ ?_⟩
    simp only [sat, hint, satisfies_int hid hv, Bool.decide_eq_true]
  -- equal and greater values divide the rows that are not less
  have hnotLess (operator : WhereOperator) (ho : operator = .equal ∨ operator = .greater) :
      rows.filter (sat operator) = (rows.filter (!sat .less ·)).filter (sat operator) := by
    rw [List.filter_filter]
    apply List.filter_congr
    intro row hm
    obtain ⟨id, hid⟩ := hsat row hm
    rw [hid, hid]
    rcases ho with rfl | rfl
    · by_cases h : id = v
      · simp [keyMatches, h]
      · simp [keyMatches, h]
    · by_cases h : id > v
      · simp [keyMatches, h, Int.le_of_lt h]
      · simp [keyMatches, h]
  have hrest : (rows.filter (sat .equal) ++ rows.filter (sat .greater)).Perm
      (rows.filter (!sat .less ·)) := by
    rw [hnotLess .equal (Or.inl rfl), hnotLess .greater (Or.inr rfl)]
    apply filter_append_perm_of_not
    intro row hm
    obtain ⟨hm, hnot⟩ := List.mem_filter.mp hm
    obtain ⟨id, hid⟩ := hsat row hm
    rw [hid] at hnot ⊢
    rw [hid]
    simp only [keyMatches, Bool.not_eq_true', decide_eq_false_iff_not] at hnot ⊢
    rw [← decide_not, decide_eq_decide]
    omega
  exact (hrest.append_left _).trans (List.filter_append_perm (sat .less) rows)

end Conditions

/-! ### The scan -/

/-- When the full scan prints a file, a scan with an accepted condition prints the header and
those of its rows that satisfy the condition; the conditions on one column and value divide the
rows among them. -/
theorem storagePrintRows_where {disk disk' : Disk} {content : Bytes} {selected : List Nat}
    (hf : disk.files (tablePath config schema.tableName) = some content) (hne : content ≠ [])
    (hn : nul ∉ content)
    (hprint : storagePrintRows config schema selected disk = (.ok (), disk')) :
    ∃ rows, TableRows schema content rows ∧
      disk' = disk.print (headerOutput schema selected :: rows.map (rowOutput selected)) ∧
      ∀ statement column, resolveWhereColumn schema statement = .ok column →
        IntColumn schema column rows →
        storagePrintRowsWhereEquals config schema selected column statement.whereOperator
            statement.whereValue disk =
          (.ok (), disk.print (headerOutput schema selected ::
            (matchingRows schema column statement.whereOperator statement.whereValue.text
              rows).map (rowOutput selected))) ∧
        (matchingRows schema column .equal statement.whereValue.text rows ++
          matchingRows schema column .notEqual statement.whereValue.text rows).Perm rows ∧
        (columnType schema column = .int →
          (matchingRows schema column .less statement.whereValue.text rows ++
            (matchingRows schema column .equal statement.whereValue.text rows ++
              matchingRows schema column .greater statement.whereValue.text rows)).Perm
            rows) := by
  have hh := headerOk_of_storagePrintRows hf hn hne hprint
  obtain ⟨rows, hr⟩ := exists_rows_of_storagePrintRows hf hh hprint
  have hall := storagePrintRows_spec hf hh hr selected
  refine ⟨rows, hr, (congrArg Prod.snd (hprint.symm.trans hall)),
    fun statement column h hc ↦ ⟨?_, matchingRows_equal_notEqual h hc,
      matchingRows_less_equal_greater h hc⟩⟩
  let keep (cells : List Bytes) : Bool := Satisfies (columnType schema column)
    statement.whereOperator statement.whereValue.text (cells.getD column [])
  have hk : ∀ row ∈ rows, csvValueMatchesWhere schema row.2 column statement.whereOperator
      statement.whereValue = some (keep row.2) :=
    fun row hm ↦ csvValueMatchesWhere_eq h fun hint ↦ hc hint row hm
  exact storagePrintRowsWhereEquals_spec hf hh hr hk selected

/-- `SELECT name FROM t WHERE id > 1;`. -/
def sampleWhereSelect : SelectStatement :=
  ⟨text "t", false, [⟨text "name", ⟨1, 8⟩⟩], true, text "id", ⟨1, 26⟩, .greater,
    ⟨.int, text "1", ⟨1, 31⟩⟩⟩

/-- A file with three people. -/
def threePeople : Bytes := text "id,name\n2,b\n1,a\n3,c"

theorem storagePrintRows_where_people :
    storagePrintRowsWhereEquals sampleConfig peopleSchema [1] 0 .greater
        sampleWhereSelect.whereValue (dataDisk threePeople) =
      (.ok (), (dataDisk threePeople).print (headerOutput peopleSchema [1] ::
        [(8, [text "2", text "b"]), (16, [text "3", text "c"])].map (rowOutput [1]))) := by
  have hok : (storagePrintRows sampleConfig peopleSchema [1] (dataDisk threePeople)).1 =
      .ok () := by decide +kernel
  obtain ⟨rows, hr, -, hwhere⟩ := storagePrintRows_where (dataDisk_files threePeople)
    (by decide) (by decide) (Exec.eq_ok_of_fst hok)
  have hlines : dataLines threePeople =
      [(8, text "2,b"), (12, text "1,a"), (16, text "3,c")] := by decide +kernel
  have hrows : TableRows peopleSchema threePeople
      [(8, [text "2", text "b"]), (12, [text "1", text "a"]), (16, [text "3", text "c"])] := by
    rw [TableRows, hlines]
    exact .cons ⟨rfl, by decide +kernel⟩ (.cons ⟨rfl, by decide +kernel⟩
      (.cons ⟨rfl, by decide +kernel⟩ .nil))
  obtain rfl := hr.unique hrows
  have hcells : IntColumn peopleSchema 0
      [(8, [text "2", text "b"]), (12, [text "1", text "a"]), (16, [text "3", text "c"])] := by
    intro _ row hm
    have hsome : ∀ row ∈ [(8, [text "2", text "b"]), (12, [text "1", text "a"]),
        (16, [text "3", text "c"])], (strtolInt (row.2.getD 0 [])).isSome = true := by
      decide +kernel
    obtain ⟨id, hid⟩ := Option.isSome_iff_exists.mp (hsome row hm)
    exact ⟨id, intOrEmptyCell_iff.mpr hid⟩
  have hmatch : matchingRows peopleSchema 0 .greater (text "1")
      [(8, [text "2", text "b"]), (12, [text "1", text "a"]), (16, [text "3", text "c"])] =
        [(8, [text "2", text "b"]), (16, [text "3", text "c"])] := by decide +kernel
  rw [← hmatch]
  exact (hwhere sampleWhereSelect 0 (by decide +kernel) hcells).1

end SqlProc.Executor
