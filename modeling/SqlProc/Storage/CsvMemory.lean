import SqlProc.Base.Checked
import SqlProc.Storage.Csv

/-!
# CSV lines in memory

Library `Storage`. `parse_csv_line` of `src/storage.c` once more, with its index, its array of
values and its counters as they are in memory: a read past the terminator, a write outside the
array and an `int` that overflows have no result. It computes what `parseCsvLine` does, and never
gets there.
-/

namespace SqlProc.Storage

open Base

/-! ### The model -/

/-- `char values[SQLPROC_MAX_COLUMNS][SQLPROC_MAX_VALUE_LEN]`. -/
abbrev CsvValues := Fin maxColumns → Fin maxValueLen → UInt8

/-- `values[row][column] = c`. -/
def CsvValues.store (array : CsvValues) (row column : Nat) (c : UInt8) : Option CsvValues :=
  if h : row < maxColumns ∧ column < maxValueLen then
    some (Function.update array ⟨row, h.1⟩
      (Function.update (array ⟨row, h.1⟩) ⟨column, h.2⟩ c))
  else none

/-- The variables of `parse_csv_line`. -/
structure CsvScan where
  inQuotes : Bool
  rowIndex : Nat
  textIndex : Nat
  i : Nat
  array : CsvValues

/-- What `parse_csv_line` leaves: the array and, when it returns 1, `*value_count`. -/
structure CsvResult where
  array : CsvValues
  valueCount : Option Nat

/-- The loop returns 0. -/
def CsvScan.reject (scan : CsvScan) : CsvResult := ⟨scan.array, none⟩

/-- What follows the loop. -/
def CsvScan.finish (scan : CsvScan) : Option CsvResult :=
  if scan.rowIndex ≥ maxColumns then some scan.reject
  else do
    let array ← scan.array.store scan.rowIndex scan.textIndex nul
    let valueCount ← addInt scan.rowIndex 1
    some ⟨array, some valueCount⟩

/-- Whether the byte is a quote that another one escapes. -/
def CsvScan.escapes (scan : CsvScan) (line : Bytes) : Option Bool :=
  if scan.inQuotes then do
    let next ← addInt scan.i 1
    let c ← (line)[next]?
    some (c ≠ nul && c = dquote)
  else some false

/-- Store a byte of text. -/
def CsvScan.push (scan : CsvScan) (c : UInt8) : Option CsvScan := do
  let array ← scan.array.store scan.rowIndex scan.textIndex c
  let textIndex ← addInt scan.textIndex 1
  some { scan with array := array, textIndex := textIndex }

/-- Close a value. -/
def CsvScan.close (scan : CsvScan) : Option CsvScan := do
  let array ← scan.array.store scan.rowIndex scan.textIndex nul
  let rowIndex ← addInt scan.rowIndex 1
  some { scan with array := array, rowIndex := rowIndex, textIndex := 0 }

/-- Go on to the next byte. -/
def CsvScan.advance (scan : CsvScan) : Option CsvScan := do
  let i ← addInt scan.i 1
  some { scan with i := i }

/-- The loop of `parse_csv_line` on the memory of its line. The first argument bounds the number of
its steps. -/
def scanCsv (line : Bytes) : Nat → CsvScan → Option CsvResult
  | 0, _ => none
  | fuel + 1, scan => do
    let c ← (line)[scan.i]?
    if c = nul ∨ c = lf ∨ c = cr then scan.finish
    else if scan.rowIndex ≥ maxColumns then some scan.reject
    else if c = dquote then do
      let escaped ← scan.escapes line
      if escaped then
        if scan.textIndex ≥ maxValueLen - 1 then some scan.reject
        else do
          let scan ← scan.push dquote
          -- the loop passes over the second quote
          let scan ← scan.advance
          let scan ← scan.advance
          scanCsv line fuel scan
      else do
        let scan ← { scan with inQuotes := !scan.inQuotes }.advance
        scanCsv line fuel scan
    else if !scan.inQuotes && c = comma then do
      let scan ← scan.close
      let scan ← scan.advance
      scanCsv line fuel scan
    else if scan.textIndex ≥ maxValueLen - 1 then some scan.reject
    else do
      let scan ← scan.push c
      let scan ← scan.advance
      scanCsv line fuel scan

/-- `parse_csv_line` on the memory of its line, terminator included. -/
def parseCsvLineInMemory (line : Bytes) (array : CsvValues) : Option CsvResult :=
  scanCsv line line.length ⟨false, 0, 0, 0, array⟩

/-! ### The array -/

/-- The bytes of `values[j]`. -/
def CsvValues.row (array : CsvValues) (j : Nat) : Bytes :=
  if h : j < maxColumns then List.ofFn (array ⟨j, h⟩) else []

theorem CsvValues.length_row {array : CsvValues} {j : Nat} (h : j < maxColumns) :
    (array.row j).length = maxValueLen := by
  rw [CsvValues.row, dif_pos h, List.length_ofFn]

/-- A store in bounds changes one byte of one row. -/
theorem CsvValues.store_of_lt (array : CsvValues) {row column : Nat} (hr : row < maxColumns)
    (hc : column < maxValueLen) (c : UInt8) :
    ∃ array', array.store row column c = some array' ∧
      array'.row row = (array.row row).set column c ∧
        ∀ j, j ≠ row → array'.row j = array.row j := by
  refine ⟨_, dif_pos ⟨hr, hc⟩, ?_, fun j hj ↦ ?_⟩
  · rw [CsvValues.row, dif_pos hr, Function.update_self, CsvValues.row, dif_pos hr]
    refine List.ext_getElem ?_ fun i hi hi' ↦ ?_
    · rw [List.length_set, List.length_ofFn, List.length_ofFn]
    · rw [List.getElem_ofFn, List.getElem_set, List.getElem_ofFn, Function.update_apply]
      simp [Fin.ext_iff, eq_comm]
  · rw [CsvValues.row, CsvValues.row]
    split
    · next h =>
      have hne : (⟨j, h⟩ : Fin maxColumns) ≠ ⟨row, hr⟩ := fun he ↦ hj (Fin.mk.inj he)
      rw [Function.update_of_ne hne]
    · rfl

/-- The closed values stand in their rows with their terminators, and the text of the next one in
its own. -/
structure Holds (array : CsvValues) (values : List Bytes) (value : Bytes) : Prop where
  closed : ∀ j, (h : j < values.length) → values[j] ++ [nul] <+: array.row j
  collected : values.length < maxColumns → value <+: array.row values.length

section Loop

variable {array : CsvValues} {values : List Bytes} {value line rest : Bytes} {scan : CsvScan}
  {c : UInt8}

theorem Holds.store (h : Holds array values value) (hr : values.length < maxColumns)
    (hc : value.length < maxValueLen) (c : UInt8) :
    ∃ array', array.store values.length value.length c = some array' ∧
      Holds array' values (value ++ [c]) := by
  obtain ⟨array', hstore, hrow, hother⟩ := array.store_of_lt hr hc c
  obtain ⟨junk, hjunk⟩ := h.collected hr
  refine ⟨array', hstore, fun j hj ↦ ?_, fun _ ↦ ?_⟩
  · rw [hother j (Nat.ne_of_lt hj)]
    exact h.closed j hj
  · have hlen := array.length_row hr
    rw [← hjunk, List.length_append] at hlen
    cases junk with
    | nil =>
      rw [List.length_nil] at hlen
      omega
    | cons d junk =>
      rw [hrow, ← hjunk, List.set_append_right _ _ (Nat.le_refl _), Nat.sub_self,
        List.set_cons_zero]
      exact ⟨junk, by rw [List.append_assoc, List.singleton_append]⟩

theorem Holds.close (h : Holds array values (value ++ [nul])) (hr : values.length < maxColumns) :
    Holds array (values ++ [value]) [] := by
  refine ⟨fun j hj ↦ ?_, fun _ ↦ List.nil_prefix⟩
  rw [List.length_append, List.length_singleton] at hj
  by_cases hlast : j < values.length
  · rw [List.getElem_append_left hlast]
    exact h.closed j hlast
  · obtain rfl : j = values.length := by omega
    rw [List.getElem_concat_length rfl]
    exact h.collected hr

/-! ### The loop -/

/-- The bytes and commas that are stored, at most. -/
def storedBound (values : List Bytes) (value : Bytes) : Nat :=
  maxValueLen * values.length + value.length

/-- The scan stands before `rest`. At most two quotes in a row are not stored, so the index stays
small however long the line is. -/
structure Scans (scan : CsvScan) (line : Bytes) (values : List Bytes) (value rest : Bytes) :
    Prop where
  rest_eq : line.drop scan.i = rest ++ [nul]
  rowIndex_eq : scan.rowIndex = values.length
  textIndex_eq : scan.textIndex = value.length
  row_le : values.length ≤ maxColumns
  text_lt : value.length < maxValueLen
  holds : Holds scan.array values value
  i_le : scan.i ≤ 4 * storedBound values value + 2
  quoted : scan.inQuotes = true → scan.i ≤ 4 * storedBound values value + 1
  unquoted : scan.inQuotes = false → rest.head? = some dquote →
    scan.i ≤ 4 * storedBound values value

theorem Scans.i_lt (h : Scans scan line values value rest) : scan.i < 4400 := by
  have hrow := Nat.mul_le_mul_left maxValueLen h.row_le
  have htext := h.text_lt
  have hi := h.i_le
  simp only [storedBound, maxValueLen, maxColumns] at hrow htext hi
  omega

/-- What the array holds is what the line decodes to. -/
structure Decodes (result : CsvResult) (cells : Option (List Bytes)) : Prop where
  valueCount_eq : result.valueCount = cells.map List.length
  closed : ∀ cs ∈ cells, ∀ j, (h : j < cs.length) → cs[j] ++ [nul] <+: result.array.row j

/-- What is read at the index. -/
theorem Scans.read (h : Scans scan line values value rest) :
    (line)[scan.i]? = (rest ++ [nul]).head? := by
  rw [← h.rest_eq, List.head?_drop]

/-- What is read after the index. -/
theorem Scans.read_next (h : Scans scan line values value (c :: rest)) :
    (line)[scan.i + 1]? = (rest ++ [nul]).head? := by
  have hrest : line.drop (scan.i + 1) = rest ++ [nul] := by
    rw [← List.drop_drop, h.rest_eq]
    rfl
  rw [← hrest, List.head?_drop]

theorem Scans.escapes_eq (h : Scans scan line values value (c :: rest)) :
    scan.escapes line = some (scan.inQuotes && decide (rest.head? = some dquote)) := by
  rw [CsvScan.escapes]
  cases scan.inQuotes with
  | false => rfl
  | true =>
    have hi := h.i_lt
    rw [if_pos rfl, addInt_of_le (by omega), Option.bind_eq_bind, Option.bind_some, h.read_next]
    cases rest with
    | nil => rfl
    | cons d rest =>
      have hd : (d ≠ nul && d = dquote : Bool) = decide (d = dquote) := by
        by_cases hd : d = dquote
        · subst hd
          rfl
        · rw [decide_eq_false hd, Bool.and_false]
      show some (d ≠ nul && d = dquote : Bool) = some (true && decide (some d = some dquote))
      rw [hd, Bool.true_and]
      simp

theorem advance_of_le (h : scan.i ≤ 4400) : scan.advance = some { scan with i := scan.i + 1 } := by
  rw [CsvScan.advance, addInt_of_le (by omega)]
  rfl

theorem Scans.push (h : Scans scan line values value rest) (hr : values.length < maxColumns)
    (c : UInt8) : ∃ array, scan.push c =
        some { scan with array := array, textIndex := scan.textIndex + 1 } ∧
      Holds array values (value ++ [c]) := by
  obtain ⟨array, hstore, hholds⟩ := h.holds.store hr h.text_lt c
  have hcount : addInt value.length 1 = some (value.length + 1) :=
    addInt_of_le (Nat.le_trans h.text_lt (by decide))
  refine ⟨array, ?_, hholds⟩
  rw [CsvScan.push, h.rowIndex_eq, h.textIndex_eq, hstore, hcount]
  rfl

theorem Scans.close (h : Scans scan line values value rest) (hr : values.length < maxColumns) :
    ∃ array, scan.close =
        some { scan with array := array, rowIndex := scan.rowIndex + 1, textIndex := 0 } ∧
      Holds array (values ++ [value]) [] := by
  obtain ⟨array, hstore, hholds⟩ := h.holds.store hr h.text_lt nul
  have hcount : addInt values.length 1 = some (values.length + 1) :=
    addInt_of_le (Nat.le_trans hr (by decide))
  refine ⟨array, ?_, hholds.close hr⟩
  rw [CsvScan.close, h.rowIndex_eq, h.textIndex_eq, hstore, hcount]
  rfl

theorem decodes_reject (scan : CsvScan) : Decodes scan.reject none := ⟨rfl, by simp⟩

theorem Scans.finish (h : Scans scan line values value rest) :
    ∃ result, scan.finish = some result ∧ Decodes result (finishCsvLine values value) := by
  rw [CsvScan.finish, finishCsvLine, h.rowIndex_eq]
  by_cases hfull : values.length ≥ maxColumns
  · rw [if_pos hfull, if_pos hfull]
    exact ⟨_, rfl, decodes_reject scan⟩
  · rw [if_neg hfull, if_neg hfull]
    have hr := Nat.lt_of_not_le hfull
    obtain ⟨array, hstore, hholds⟩ := h.holds.store hr h.text_lt nul
    have hcount : addInt values.length 1 = some (values.length + 1) :=
      addInt_of_le (Nat.le_trans hr (by decide))
    refine ⟨⟨array, some (values.length + 1)⟩, ?_, ?_, ?_⟩
    · rw [h.textIndex_eq, hstore, hcount]
      rfl
    · rw [Option.map_some, List.length_append, List.length_singleton]
    · rintro _ ⟨⟩
      exact (hholds.close hr).closed

theorem Scans.drop_next (h : Scans scan line values value (c :: rest)) :
    line.drop (scan.i + 1) = rest ++ [nul] := by
  rw [← List.drop_drop, h.rest_eq]
  rfl

/-- After a byte or a comma is stored the index is small enough for two quotes. -/
theorem scans_of_le (hrest : line.drop scan.i = rest ++ [nul])
    (hrow : scan.rowIndex = values.length) (htext : scan.textIndex = value.length)
    (hr : values.length ≤ maxColumns) (ht : value.length < maxValueLen)
    (hh : Holds scan.array values value) (hi : scan.i ≤ 4 * storedBound values value) :
    Scans scan line values value rest :=
  ⟨hrest, hrow, htext, hr, ht, hh, Nat.le_add_right_of_le hi, fun _ ↦ Nat.le_succ_of_le hi,
    fun _ _ ↦ hi⟩

theorem storedBound_push (values : List Bytes) (value : Bytes) (c : UInt8) :
    storedBound values (value ++ [c]) = storedBound values value + 1 := by
  rw [storedBound, List.length_append, List.length_singleton, storedBound, Nat.add_assoc]

theorem storedBound_close (values : List Bytes) (hl : value.length < maxValueLen) :
    storedBound values value + 1 ≤ storedBound (values ++ [value]) [] := by
  rw [storedBound, storedBound, List.length_append, List.length_singleton, Nat.mul_succ]
  omega

/-- A quote that opens or closes. -/
theorem Scans.toggle (h : Scans scan line values value (dquote :: rest))
    (hlast : scan.inQuotes = true → rest.head? ≠ some dquote) :
    Scans { scan with inQuotes := !scan.inQuotes, i := scan.i + 1 } line values value rest := by
  have hquoted := h.quoted
  have hunquoted := h.unquoted
  refine ⟨h.drop_next, h.rowIndex_eq, h.textIndex_eq, h.row_le, h.text_lt, h.holds, ?_, ?_, ?_⟩
  all_goals dsimp only
  · cases hq : scan.inQuotes with
    | true => exact Nat.succ_le_succ (hquoted hq)
    | false => exact Nat.le_succ_of_le (Nat.succ_le_succ (hunquoted hq rfl))
  · rw [Bool.not_eq_true']
    exact fun hq ↦ Nat.succ_le_succ (hunquoted hq rfl)
  · rw [Bool.not_eq_false']
    exact fun hq hhead ↦ absurd hhead (hlast hq)

theorem length_concat (value : Bytes) (c : UInt8) : (value ++ [c]).length = value.length + 1 := by
  rw [List.length_append, List.length_singleton]

/-- A byte of text. -/
theorem Scans.storeByte (h : Scans scan line values value (c :: rest))
    (hr : values.length < maxColumns) (ht : value.length < maxValueLen - 1) :
    ∃ pushed next, scan.push c = some pushed ∧ pushed.advance = some next ∧
      next.inQuotes = scan.inQuotes ∧ Scans next line values (value ++ [c]) rest := by
  have hi := Nat.le_of_lt h.i_lt
  have hle := h.i_le
  obtain ⟨array, hpush, hholds⟩ := h.push hr c
  refine ⟨_, _, hpush, advance_of_le hi, rfl, scans_of_le h.drop_next h.rowIndex_eq ?_ h.row_le ?_
    hholds ?_⟩
  · rw [length_concat, ← h.textIndex_eq]
  · rw [length_concat]
    exact Nat.lt_sub_iff_add_lt.mp ht
  · rw [storedBound_push]
    exact Nat.succ_le_of_lt (Nat.lt_of_le_of_lt hle (by omega))

/-- An escaped quote. -/
theorem Scans.storeQuote (h : Scans scan line values value (dquote :: dquote :: rest))
    (hq : scan.inQuotes = true) (hr : values.length < maxColumns)
    (ht : value.length < maxValueLen - 1) :
    ∃ pushed passed next, scan.push dquote = some pushed ∧ pushed.advance = some passed ∧
      passed.advance = some next ∧ next.inQuotes = scan.inQuotes ∧
        Scans next line values (value ++ [dquote]) rest := by
  have hi := h.i_lt
  have hle := h.quoted hq
  obtain ⟨array, hpush, hholds⟩ := h.push hr dquote
  have hdrop : line.drop (scan.i + 1 + 1) = rest ++ [nul] := by
    rw [← List.drop_drop, h.drop_next]
    rfl
  refine ⟨_, _, _, hpush, advance_of_le (Nat.le_of_lt hi), advance_of_le hi, rfl,
    scans_of_le hdrop h.rowIndex_eq ?_ h.row_le ?_ hholds ?_⟩
  · rw [length_concat, ← h.textIndex_eq]
  · rw [length_concat]
    exact Nat.lt_sub_iff_add_lt.mp ht
  · rw [storedBound_push]
    show scan.i + 1 + 1 ≤ _
    omega

/-- An unquoted comma. -/
theorem Scans.closeValue (h : Scans scan line values value (c :: rest))
    (hr : values.length < maxColumns) :
    ∃ closed next, scan.close = some closed ∧ closed.advance = some next ∧
      next.inQuotes = scan.inQuotes ∧ Scans next line (values ++ [value]) [] rest := by
  have hi := Nat.le_of_lt h.i_lt
  have hle := h.i_le
  have hstored := storedBound_close values h.text_lt
  obtain ⟨array, hclose, hholds⟩ := h.close hr
  refine ⟨_, _, hclose, advance_of_le hi, rfl, scans_of_le h.drop_next ?_ rfl ?_ (by decide)
    hholds ?_⟩
  · rw [List.length_append, List.length_singleton, ← h.rowIndex_eq]
  · rw [List.length_append, List.length_singleton]
    exact hr
  · show scan.i + 1 ≤ 4 * storedBound (values ++ [value]) []
    omega

/-- The scan of a text decodes it like `parseCsvLine`, within the bounds. -/
theorem scanCsv_decodes {fuel : Nat} (h : Scans scan line values value rest) (hn : nul ∉ rest)
    (hf : rest.length < fuel) :
    ∃ result, scanCsv line fuel scan = some result ∧
      Decodes result (parseCsvFrom false scan.inQuotes values value rest) := by
  induction fuel generalizing scan values value rest with
  | zero => exact absurd hf (Nat.not_lt_zero _)
  | succ fuel ih =>
    cases rest with
    | nil =>
      have hread : (line)[scan.i]? = some nul := h.read
      rw [scanCsv, hread, Option.bind_eq_bind, Option.bind_some, if_pos (Or.inl rfl), parseCsvFrom]
      exact h.finish
    | cons c rest =>
      rw [List.length_cons] at hf
      rw [List.mem_cons, not_or] at hn
      have hread : (line)[scan.i]? = some c := h.read
      rw [scanCsv, hread, Option.bind_eq_bind, Option.bind_some, parseCsvFrom]
      by_cases hend : c = nul ∨ c = lf ∨ c = cr
      · rw [if_pos hend, if_pos hend]
        exact h.finish
      rw [if_neg hend, if_neg hend]
      by_cases hfull : values.length ≥ maxColumns
      · rw [if_pos (h.rowIndex_eq ▸ hfull), if_pos hfull]
        exact ⟨_, rfl, decodes_reject scan⟩
      rw [if_neg (h.rowIndex_eq ▸ hfull), if_neg hfull]
      have hr := Nat.lt_of_not_le hfull
      have htext : scan.textIndex ≥ maxValueLen - 1 ↔ value.length ≥ maxValueLen - 1 := by
        rw [h.textIndex_eq]
      by_cases hquote : c = dquote
      · subst hquote
        rw [if_pos rfl, if_pos rfl, h.escapes_eq, Option.bind_eq_bind, Option.bind_some]
        by_cases hescaped : (scan.inQuotes && decide (rest.head? = some dquote)) = true
        · rw [if_pos hescaped, if_pos hescaped]
          by_cases hlong : value.length ≥ maxValueLen - 1
          · rw [if_pos (htext.mpr hlong), if_pos hlong]
            exact ⟨_, rfl, decodes_reject scan⟩
          · rw [if_neg (mt htext.mp hlong), if_neg hlong]
            rw [Bool.and_eq_true, decide_eq_true_eq] at hescaped
            obtain ⟨later, rfl⟩ := List.head?_eq_some_iff.mp hescaped.2
            obtain ⟨pushed, passed, next, hpush, hpass, hnext, hq, hscan⟩ :=
              h.storeQuote hescaped.1 hr (Nat.lt_of_not_le hlong)
            rw [hpush, Option.bind_eq_bind, Option.bind_some, hpass, Option.bind_some, hnext,
              Option.bind_some]
            rw [List.length_cons] at hf
            rw [parseCsvFrom, ← hq]
            exact ih hscan (fun hm ↦ hn.2 (List.mem_cons_of_mem _ hm)) (by omega)
        · rw [if_neg hescaped, if_neg hescaped]
          have hlast : scan.inQuotes = true → rest.head? ≠ some dquote := by
            intro hq hhead
            exact hescaped (by rw [hq, hhead]; rfl)
          have hi : ({ scan with inQuotes := !scan.inQuotes } : CsvScan).i ≤ 4400 :=
            Nat.le_of_lt h.i_lt
          rw [advance_of_le hi, Option.bind_eq_bind, Option.bind_some]
          exact ih (h.toggle hlast) hn.2 (by omega)
      · rw [if_neg hquote, if_neg hquote]
        by_cases hcomma : (!scan.inQuotes && decide (c = comma)) = true
        · rw [if_pos hcomma, if_pos hcomma]
          obtain ⟨closed, next, hclose, hnext, hq, hscan⟩ := h.closeValue hr
          rw [hclose, Option.bind_eq_bind, Option.bind_some, hnext, Option.bind_some]
          rw [← hq]
          exact ih hscan hn.2 (by omega)
        · rw [if_neg hcomma, if_neg hcomma]
          by_cases hlong : value.length ≥ maxValueLen - 1
          · rw [if_pos (htext.mpr hlong), if_pos hlong]
            exact ⟨_, rfl, decodes_reject scan⟩
          · rw [if_neg (mt htext.mp hlong), if_neg hlong]
            obtain ⟨pushed, next, hpush, hnext, hq, hscan⟩ :=
              h.storeByte hr (Nat.lt_of_not_le hlong)
            rw [hpush, Option.bind_eq_bind, Option.bind_some, hnext, Option.bind_some]
            rw [← hq]
            exact ih hscan hn.2 (by omega)

end Loop

/-- On a terminated line of any length `parse_csv_line` stays within its bounds, and leaves what
`parseCsvLine` returns. -/
theorem parseCsvLineInMemory_decodes {line : Bytes} (hn : nul ∉ line) (array : CsvValues) :
    ∃ result, parseCsvLineInMemory (line ++ [nul]) array = some result ∧
      Decodes result (parseCsvLine line) := by
  have hholds : Holds array [] [] :=
    ⟨fun j h ↦ absurd h (Nat.not_lt_zero j), fun _ ↦ List.nil_prefix⟩
  have hscan : Scans ⟨false, 0, 0, 0, array⟩ (line ++ [nul]) [] [] line :=
    scans_of_le rfl rfl rfl (Nat.zero_le _) (by decide) hholds (Nat.zero_le _)
  apply scanCsv_decodes hscan hn
  rw [List.length_append, List.length_singleton]
  exact Nat.lt_succ_self _

/-! ### Fields -/

/-- The bytes that end a line. -/
def endsLine (c : UInt8) : Bool := c = nul || c = lf || c = cr

/-- The part of a line before its end. -/
def lineBody (line : Bytes) : Bytes := line.takeWhile fun c ↦ !endsLine c

/-- The fields between the unquoted commas: a comma is quoted when an odd number of quotes stand
before it. -/
def splitFields : (quoted : Bool) → Bytes → List Bytes
  | _, [] => [[]]
  | quoted, c :: rest =>
    if !quoted && c = comma then [] :: splitFields false rest
    else
      match splitFields (quoted ^^ c = dquote) rest with
      | [] => [[c]]
      | field :: fields => (c :: field) :: fields

/-- A field without its quotes: two of them inside quotes stand for one. -/
def unescape : (quoted : Bool) → Bytes → Bytes
  | _, [] => []
  | false, c :: field => if c = dquote then unescape true field else c :: unescape false field
  | true, [c] => if c = dquote then [] else [c]
  | true, c :: d :: field =>
    if c ≠ dquote then c :: unescape true (d :: field)
    else if d = dquote then dquote :: unescape true field
    else unescape false (d :: field)

/-- The fields of a line. -/
def csvFields (line : Bytes) : List Bytes := splitFields false (lineBody line)

theorem endsLine_iff {c : UInt8} : endsLine c = true ↔ c = nul ∨ c = lf ∨ c = cr := by
  rw [endsLine, Bool.or_eq_true, Bool.or_eq_true, decide_eq_true_eq, decide_eq_true_eq,
    decide_eq_true_eq, or_assoc]

theorem lineBody_cons_of_end {c : UInt8} (h : c = nul ∨ c = lf ∨ c = cr) (rest : Bytes) :
    lineBody (c :: rest) = [] :=
  List.takeWhile_cons_of_neg (by rw [endsLine_iff.mpr h]; exact Bool.false_ne_true)

theorem lineBody_cons {c : UInt8} (h : ¬ (c = nul ∨ c = lf ∨ c = cr)) (rest : Bytes) :
    lineBody (c :: rest) = c :: lineBody rest := by
  apply List.takeWhile_cons_of_pos
  rw [Bool.eq_false_iff.mpr (mt endsLine_iff.mp h)]
  rfl

theorem head?_of_lineBody {line : Bytes} {d : UInt8} (h : (lineBody line).head? = some d) :
    line.head? = some d := by
  obtain ⟨rest, hrest⟩ := List.head?_eq_some_iff.mp h
  obtain ⟨tail, htail⟩ : lineBody line <+: line := List.takeWhile_prefix _
  rw [← htail, hrest]
  rfl

theorem splitFields_cons {quoted : Bool} {c : UInt8} {rest field : Bytes} {fields : List Bytes}
    (h : (!quoted && decide (c = comma)) = false)
    (hrest : splitFields (quoted ^^ c = dquote) rest = field :: fields) :
    splitFields quoted (c :: rest) = (c :: field) :: fields := by
  rw [splitFields, h, if_neg Bool.false_ne_true, hrest]

/-- The first field starts where the line does. -/
theorem head?_of_splitFields {quoted : Bool} {line field : Bytes} {fields : List Bytes} {d : UInt8}
    (h : splitFields quoted line = (d :: field) :: fields) : line.head? = some d := by
  cases line with
  | nil =>
    rw [splitFields] at h
    cases h
  | cons c rest =>
    rw [splitFields] at h
    split at h
    · cases h
    · split at h
      all_goals
        obtain ⟨⟨rfl, rfl⟩, -⟩ := (List.cons.inj h).imp_left List.cons.inj
        rfl

theorem unescape_cons_of_ne {quoted : Bool} {c : UInt8} (h : c ≠ dquote) (field : Bytes) :
    unescape quoted (c :: field) = c :: unescape quoted field := by
  cases quoted with
  | false => rw [unescape, if_neg h]
  | true =>
    cases field with
    | nil => rw [unescape, unescape, if_neg h]
    | cons d field => rw [unescape, if_pos h]

/-- A quote that is not escaped is dropped. -/
theorem unescape_cons_dquote {quoted : Bool} {field : Bytes}
    (h : quoted = true → field.head? ≠ some dquote) :
    unescape quoted (dquote :: field) = unescape (!quoted) field := by
  cases quoted with
  | false => rw [unescape, if_pos rfl, Bool.not_false]
  | true =>
    cases field with
    | nil => rw [unescape, unescape, if_pos rfl]
    | cons d field =>
      have hd : d ≠ dquote := fun he ↦ h rfl (congrArg some he)
      rw [unescape, if_neg (not_not_intro rfl), if_neg hd, Bool.not_true]

/-- The cells of a line are its fields without their quotes. -/
theorem csvCellsFrom_eq (quoted : Bool) (value line : Bytes) :
    ∃ field fields, splitFields quoted (lineBody line) = field :: fields ∧
      csvCellsFrom false quoted value line =
        (value ++ unescape quoted field) :: fields.map (unescape false) := by
  generalize hl : line.length = n
  induction n using Nat.strong_induction_on generalizing quoted value line with
  | _ n ih =>
    cases line with
    | nil => exact ⟨[], [], rfl, by rw [csvCellsFrom, unescape, List.append_nil, List.map_nil]⟩
    | cons c rest =>
      rw [List.length_cons] at hl
      rw [csvCellsFrom]
      by_cases hend : c = nul ∨ c = lf ∨ c = cr
      · rw [if_pos hend, lineBody_cons_of_end hend]
        exact ⟨[], [], rfl, by rw [unescape, List.append_nil, List.map_nil]⟩
      rw [if_neg hend, lineBody_cons hend]
      by_cases hquote : c = dquote
      · subst hquote
        have hcomma : ∀ quoted : Bool, (!quoted && decide (dquote = comma)) = false := by decide
        rw [if_pos rfl]
        by_cases hescaped : (quoted && decide (rest.head? = some dquote)) = true
        · rw [if_pos hescaped]
          rw [Bool.and_eq_true, decide_eq_true_eq] at hescaped
          obtain ⟨rfl, hhead⟩ := hescaped
          obtain ⟨later, rfl⟩ := List.head?_eq_some_iff.mp hhead
          rw [List.length_cons] at hl
          obtain ⟨field, fields, hsplit, hcells⟩ :=
            ih _ (by omega) true (value ++ [dquote]) later rfl
          refine ⟨dquote :: dquote :: field, fields, ?_, ?_⟩
          · rw [lineBody_cons hend]
            exact splitFields_cons (hcomma _) (splitFields_cons (hcomma _) hsplit)
          · rw [csvCellsFrom, hcells, unescape, if_neg (not_not_intro rfl), if_pos rfl,
              List.append_assoc, List.singleton_append]
        · rw [if_neg hescaped]
          obtain ⟨field, fields, hsplit, hcells⟩ := ih _ (by omega) (!quoted) value rest rfl
          have hxor : (quoted ^^ decide (dquote = dquote)) = !quoted := by
            rw [decide_eq_true rfl, Bool.xor_true]
          refine ⟨dquote :: field, fields, splitFields_cons (hcomma _) (hxor ▸ hsplit), ?_⟩
          rw [hcells, unescape_cons_dquote]
          -- a quote at the start of the field would be the next byte of the line
          intro hq hhead
          obtain ⟨later, rfl⟩ := List.head?_eq_some_iff.mp hhead
          have hnext := head?_of_splitFields hsplit
          apply hescaped
          rw [hq, head?_of_lineBody hnext]
          rfl
      · rw [if_neg hquote]
        by_cases hcomma : (!quoted && decide (c = comma)) = true
        · rw [if_pos hcomma]
          obtain ⟨field, fields, hsplit, hcells⟩ := ih _ (by omega) false [] rest rfl
          refine ⟨[], field :: fields, ?_, ?_⟩
          · rw [splitFields, if_pos hcomma, hsplit]
          · rw [Bool.and_eq_true, Bool.not_eq_true'] at hcomma
            rw [hcomma.1, hcells, unescape, List.append_nil, List.map_cons, List.nil_append]
        · rw [if_neg hcomma]
          rw [Bool.not_eq_true] at hcomma
          obtain ⟨field, fields, hsplit, hcells⟩ := ih _ (by omega) quoted (value ++ [c]) rest rfl
          have hxor : (quoted ^^ decide (c = dquote)) = quoted := by
            rw [decide_eq_false hquote, Bool.xor_false]
          refine ⟨c :: field, fields, splitFields_cons hcomma (hxor.symm ▸ hsplit), ?_⟩
          rw [hcells, unescape_cons_of_ne hquote, List.append_assoc, List.singleton_append]

theorem csvCells_eq (line : Bytes) : csvCells line = (csvFields line).map (unescape false) := by
  obtain ⟨field, fields, hsplit, hcells⟩ := csvCellsFrom_eq false [] line
  rw [csvCells, hcells, csvFields, hsplit, List.map_cons, List.nil_append]

theorem isSome_parseCsvLine_iff {line : Bytes} :
    (parseCsvLine line).isSome = true ↔ (csvFields line).length ≤ maxColumns ∧
      ∀ field ∈ csvFields line, (unescape false field).length < maxValueLen := by
  have hcells : (csvCells line).length ≤ maxColumns ∧
        (∀ cell ∈ csvCells line, cell.length < maxValueLen) ↔
      (csvFields line).length ≤ maxColumns ∧
        ∀ field ∈ csvFields line, (unescape false field).length < maxValueLen := by
    rw [csvCells_eq, List.length_map, List.forall_mem_map]
  rw [← hcells, Option.isSome_iff_exists]
  simp only [parseCsvLine_eq_some_iff]
  constructor
  · rintro ⟨cells, rfl, hl, hc⟩
    exact ⟨hl, hc⟩
  · rintro ⟨hl, hc⟩
    exact ⟨_, rfl, hl, hc⟩

/-- `parse_csv_line` stays within its array and its line, accepts the lines whose fields fit it, and
leaves their texts. -/
theorem parseCsvLineInMemory_exact {line : Bytes} (hn : nul ∉ line) (array : CsvValues) :
    ∃ result, parseCsvLineInMemory (line ++ [nul]) array = some result ∧
      (result.valueCount.isSome = true ↔ (csvFields line).length ≤ maxColumns ∧
        ∀ field ∈ csvFields line, (unescape false field).length < maxValueLen) ∧
      ∀ count, result.valueCount = some count → count = (csvFields line).length ∧
        ∀ j, (h : j < (csvFields line).length) →
          unescape false (csvFields line)[j] ++ [nul] <+: result.array.row j := by
  obtain ⟨result, hresult, hdecodes⟩ := parseCsvLineInMemory_decodes hn array
  have hcount := hdecodes.valueCount_eq
  refine ⟨result, hresult, ?_, fun count hc ↦ ?_⟩
  · rw [hcount, Option.isSome_map, isSome_parseCsvLine_iff]
  · rw [hcount] at hc
    obtain ⟨cells, hcells, rfl⟩ := Option.map_eq_some_iff.mp hc
    have hclosed := hdecodes.closed cells hcells
    obtain ⟨rfl, -⟩ := parseCsvLine_eq_some_iff.mp hcells
    refine ⟨by rw [csvCells_eq, List.length_map], fun j hj ↦ ?_⟩
    have hrow := hclosed j (by rw [csvCells_eq, List.length_map]; exact hj)
    simpa only [csvCells_eq, List.getElem_map] using hrow

theorem parseCsvLineInMemory_exact_sample :
    ∃ result, parseCsvLineInMemory (text "1,\"a,\"\"b" ++ [nul]) (fun _ _ ↦ nul) = some result ∧
      (result.valueCount.isSome = true ↔ (csvFields (text "1,\"a,\"\"b")).length ≤ maxColumns ∧
        ∀ field ∈ csvFields (text "1,\"a,\"\"b"), (unescape false field).length < maxValueLen) ∧
      ∀ count, result.valueCount = some count → count = (csvFields (text "1,\"a,\"\"b")).length ∧
        ∀ j, (h : j < (csvFields (text "1,\"a,\"\"b")).length) →
          unescape false (csvFields (text "1,\"a,\"\"b"))[j] ++ [nul] <+: result.array.row j :=
  parseCsvLineInMemory_exact (by decide) _

end SqlProc.Storage
