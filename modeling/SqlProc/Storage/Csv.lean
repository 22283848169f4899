import SqlProc.Base.Bytes
import SqlProc.Base.Limits

/-!
# CSV lines

Library `Storage`. Models `parse_csv_line`, `write_csv_field` and `write_csv_row` of
`src/storage.c`: the reader undoes the writer on values that fit, and a line never decodes
to more bytes than it has.
-/

namespace SqlProc.Storage

open Base

/-- The end of `parse_csv_line`: store the last value. -/
def finishCsvLine (values : List Bytes) (value : Bytes) : Option (List Bytes) :=
  if values.length ≥ maxColumns then none else some (values ++ [value])

/-- The loop of `parse_csv_line`: `values` are the stored values and `value` is the text
collected for the next one. `skip` is set after an escaped quote, whose second byte the loop
passes over. -/
def parseCsvFrom : (skip inQuotes : Bool) → (values : List Bytes) → (value : Bytes) →
    Bytes → Option (List Bytes)
  | _, _, values, value, [] => finishCsvLine values value
  | true, inQuotes, values, value, _ :: rest => parseCsvFrom false inQuotes values value rest
  | false, inQuotes, values, value, c :: rest =>
    if c = nul ∨ c = lf ∨ c = cr then finishCsvLine values value
    else if values.length ≥ maxColumns then none
    else if c = dquote then
      if inQuotes && rest.head? = some dquote then
        if value.length ≥ maxValueLen - 1 then none
        else parseCsvFrom true inQuotes values (value ++ [dquote]) rest
      else parseCsvFrom false (!inQuotes) values value rest
    else if !inQuotes && c = comma then parseCsvFrom false inQuotes (values ++ [value]) [] rest
    else if value.length ≥ maxValueLen - 1 then none
    else parseCsvFrom false inQuotes values (value ++ [c]) rest

/-- `parse_csv_line`: the values, or nothing when it returns 0. -/
def parseCsvLine (line : Bytes) : Option (List Bytes) := parseCsvFrom false false [] [] line

/-- Inner quotes are doubled. -/
def escapeQuotes (value : Bytes) : Bytes :=
  value.flatMap fun c ↦ if c = dquote then [dquote, dquote] else [c]

/-- `write_csv_field`. -/
def writeCsvField (value : Bytes) : Bytes :=
  if value.any fun c ↦ c = comma || c = dquote || c = lf then
    dquote :: escapeQuotes value ++ [dquote]
  else value

/-- The fields of a row, joined by commas. -/
def joinFields : List Bytes → Bytes
  | [] => []
  | [field] => field
  | field :: fields => field ++ comma :: joinFields fields

/-- `write_csv_row`. -/
def writeCsvRow (values : List Bytes) : Bytes := joinFields (values.map writeCsvField) ++ [lf]

/-! ### Reading a line -/

/-- The reader stops at a line feed. -/
theorem parseCsvFrom_append_lf (skip : Bool) (inQuotes : Bool) (values : List Bytes)
    (value : Bytes) {line : Bytes} (rest : Bytes) (h : skip = true → line ≠ []) :
    parseCsvFrom skip inQuotes values value (line ++ lf :: rest) =
      parseCsvFrom skip inQuotes values value line := by
  induction line generalizing skip inQuotes values value with
  | nil =>
    cases skip with
    | true => exact absurd rfl (h rfl)
    | false => simp [parseCsvFrom]
  | cons c line ih =>
    have hhead : (line ++ lf :: rest).head? = some dquote ↔ line.head? = some dquote := by
      cases line with
      | nil => simp [show lf ≠ dquote by decide]
      | cons d line => simp
    have hne : line.head? = some dquote → line ≠ [] := by
      rintro hh rfl
      cases hh
    rw [List.cons_append]
    cases skip with
    | true => simp only [parseCsvFrom, ih false _ _ _ (by simp)]
    | false =>
      simp only [parseCsvFrom, ih false _ _ _ (by simp), hhead]
      by_cases hq : line.head? = some dquote
      · rw [ih _ _ _ _ fun _ ↦ hne hq]
      · simp only [hq, decide_false, Bool.and_false, Bool.false_eq_true, if_false]

/-- A line is read like its text without the line feed. -/
theorem parseCsvLine_append_lf (line rest : Bytes) :
    parseCsvLine (line ++ lf :: rest) = parseCsvLine line :=
  parseCsvFrom_append_lf false false [] [] rest (by simp)

section Fields

variable {values : List Bytes} (hv : values.length < maxColumns)

include hv

/-- Bytes without a meaning are collected. -/
theorem parseCsvFrom_plain {text value : Bytes} (rest : Bytes) (hp : OneLine text)
    (hc : comma ∉ text) (hq : dquote ∉ text) (hl : value.length + text.length < maxValueLen) :
    parseCsvFrom false false values value (text ++ rest) =
      parseCsvFrom false false values (value ++ text) rest := by
  induction text generalizing value with
  | nil => simp
  | cons c text ih =>
    obtain ⟨h0, h1, h2⟩ := hp
    simp only [List.mem_cons, not_or, List.length_cons] at h0 h1 h2 hc hq hl
    have hroom : (value ++ [c]).length + text.length < maxValueLen := by
      rw [List.length_append, List.length_singleton]
      omega
    have hstep := ih ⟨h0.2, h1.2, h2.2⟩ hc.2 hq.2 hroom
    rw [List.cons_append, parseCsvFrom, if_neg, if_neg (by omega), if_neg (Ne.symm hq.1),
      if_neg (by simpa using Ne.symm hc.1), if_neg (by omega), hstep, List.append_assoc]
    · rfl
    · rintro (rfl | rfl | rfl)
      · exact h0.1 rfl
      · exact h1.1 rfl
      · exact h2.1 rfl

/-- Inside quotes, escaped bytes are collected up to the closing quote. -/
theorem parseCsvFrom_escaped {text value rest : Bytes} (hp : OneLine text)
    (hl : value.length + text.length < maxValueLen) (hr : rest.head? ≠ some dquote) :
    parseCsvFrom false true values value (escapeQuotes text ++ dquote :: rest) =
      parseCsvFrom false false values (value ++ text) rest := by
  induction text generalizing value with
  | nil =>
    rw [escapeQuotes, List.flatMap_nil, List.nil_append, parseCsvFrom, if_neg (by decide),
      if_neg (by omega), if_pos rfl, if_neg (by simpa using hr), List.append_nil]
    rfl
  | cons c text ih =>
    obtain ⟨h0, h1, h2⟩ := hp
    simp only [List.mem_cons, not_or, List.length_cons] at h0 h1 h2 hl
    have hroom : (value ++ [c]).length + text.length < maxValueLen := by
      rw [List.length_append, List.length_singleton]
      omega
    have hstep := ih ⟨h0.2, h1.2, h2.2⟩ hroom
    have hcons : escapeQuotes (c :: text) =
        (if c = dquote then [dquote, dquote] else [c]) ++ escapeQuotes text := rfl
    rw [hcons]
    by_cases hcq : c = dquote
    · subst hcq
      rw [if_pos rfl, List.append_assoc, List.cons_append, parseCsvFrom, if_neg (by decide),
        if_neg (by omega), if_pos rfl, if_pos (by simp), if_neg (by omega), List.cons_append,
        parseCsvFrom, List.nil_append, hstep, List.append_assoc]
      rfl
    · rw [if_neg hcq, List.singleton_append, List.cons_append, parseCsvFrom, if_neg,
        if_neg (by omega), if_neg hcq, if_neg (by simp), if_neg (by omega), hstep,
        List.append_assoc]
      · rfl
      · rintro (rfl | rfl | rfl)
        · exact h0.1 rfl
        · exact h1.1 rfl
        · exact h2.1 rfl

/-- A written field is read back as its value. -/
theorem parseCsvFrom_writeCsvField {value rest : Bytes} (hp : OneLine value)
    (hl : value.length < maxValueLen) (hr : rest.head? ≠ some dquote) :
    parseCsvFrom false false values [] (writeCsvField value ++ rest) =
      parseCsvFrom false false values value rest := by
  unfold writeCsvField
  split
  · rw [List.cons_append, List.cons_append, List.append_assoc, parseCsvFrom,
      if_neg (by decide), if_neg (by omega), if_pos rfl, if_neg (by simp)]
    exact parseCsvFrom_escaped hv hp (by simpa using hl) hr
  · next h =>
    have hplain : comma ∉ value ∧ dquote ∉ value := by
      refine ⟨fun hm ↦ h ?_, fun hm ↦ h ?_⟩
      · exact List.any_eq_true.mpr ⟨_, hm, by decide⟩
      · exact List.any_eq_true.mpr ⟨_, hm, by decide⟩
    rw [parseCsvFrom_plain hv rest hp hplain.1 hplain.2 (by simpa using hl)]
    rfl

end Fields

/-- The reader decodes the field to the value, whatever values stand before it and whatever
follows but a quote. -/
def Encodes (field value : Bytes) : Prop :=
  ∀ (values : List Bytes) (rest : Bytes), values.length < maxColumns →
    rest.head? ≠ some dquote →
    parseCsvFrom false false values [] (field ++ rest) =
      parseCsvFrom false false values value rest

/-- A written field encodes its value. -/
theorem encodes_writeCsvField {value : Bytes} (hp : OneLine value)
    (hl : value.length < maxValueLen) : Encodes (writeCsvField value) value :=
  fun _ _ hv hr ↦ parseCsvFrom_writeCsvField hv hp hl hr

/-- A field without commas and quotes encodes itself. -/
theorem encodes_self {value : Bytes} (hp : OneLine value) (hc : comma ∉ value)
    (hq : dquote ∉ value) (hl : value.length < maxValueLen) : Encodes value value :=
  fun _ rest hv _ ↦ parseCsvFrom_plain hv rest hp hc hq (by simpa using hl)

private theorem parseCsvFrom_joinFields {values : List Bytes} {fields cells : List Bytes}
    (h : List.Forall₂ Encodes fields cells) (hne : cells ≠ [])
    (hl : values.length + cells.length ≤ maxColumns) :
    parseCsvFrom false false values [] (joinFields fields) = some (values ++ cells) := by
  induction h generalizing values with
  | nil => exact absurd rfl hne
  | cons he ht ih =>
    rename_i field cell fields cells
    rw [List.length_cons] at hl
    cases ht with
    | nil =>
      have h := he values [] (by omega) (by simp)
      rw [List.append_nil] at h
      rw [joinFields, h, parseCsvFrom, finishCsvLine, if_neg (by omega)]
    | cons he' ht' =>
      rename_i field' cell' fields cells
      have hroom : (values ++ [cell]).length + (cell' :: cells).length ≤ maxColumns := by
        rw [List.length_append, List.length_singleton]
        omega
      have h := ih (List.cons_ne_nil _ _) hroom
      rw [joinFields, he values _ (by omega) (by simp [show comma ≠ dquote by decide]),
        parseCsvFrom, if_neg (by decide), if_neg (by omega), if_neg (by decide),
        if_pos (by decide), h, List.append_assoc, List.singleton_append]
      exact List.cons_ne_nil _ _

/-- Joined fields are read back as their values. -/
theorem parseCsvLine_joinFields {fields cells : List Bytes}
    (h : List.Forall₂ Encodes fields cells) (hne : cells ≠ []) (hl : cells.length ≤ maxColumns) :
    parseCsvLine (joinFields fields) = some cells :=
  parseCsvFrom_joinFields h hne (by simpa using hl)

/-- The fields of a written row are read back as its values. -/
theorem parseCsvLine_fields {values : List Bytes} (h : ∀ v ∈ values, ValidCell v)
    (hne : values ≠ []) (hl : values.length ≤ maxColumns) :
    parseCsvLine (joinFields (values.map writeCsvField)) = some values := by
  refine parseCsvLine_joinFields ?_ hne hl
  rw [List.forall₂_map_left_iff]
  exact List.forall₂_same.mpr fun v hv ↦ encodes_writeCsvField (h v hv).oneLine (h v hv).length_lt

/-! ### What the reader accepts -/

/-- The cells of a line without any limit on their number or length: `value` is the text
collected for the first one. -/
def csvCellsFrom : (skip inQuotes : Bool) → (value : Bytes) → Bytes → List Bytes
  | _, _, value, [] => [value]
  | true, inQuotes, value, _ :: rest => csvCellsFrom false inQuotes value rest
  | false, inQuotes, value, c :: rest =>
    if c = nul ∨ c = lf ∨ c = cr then [value]
    else if c = dquote then
      if inQuotes && rest.head? = some dquote then
        csvCellsFrom true inQuotes (value ++ [dquote]) rest
      else csvCellsFrom false (!inQuotes) value rest
    else if !inQuotes && c = comma then value :: csvCellsFrom false inQuotes [] rest
    else csvCellsFrom false inQuotes (value ++ [c]) rest

/-- The cells of a line. -/
def csvCells (line : Bytes) : List Bytes := csvCellsFrom false false [] line

theorem length_csvCellsFrom_pos (skip inQuotes : Bool) (value line : Bytes) :
    0 < (csvCellsFrom skip inQuotes value line).length := by
  induction line generalizing skip inQuotes value with
  | nil =>
    rw [csvCellsFrom]
    exact Nat.one_pos
  | cons c rest ih =>
    cases skip with
    | true => exact ih _ _ _
    | false =>
      rw [csvCellsFrom]
      split
      · exact Nat.one_pos
      · split
        · split
          · exact ih _ _ _
          · exact ih _ _ _
        · split
          · exact Nat.succ_pos _
          · exact ih _ _ _

/-- Collected text is a part of the first cell. -/
theorem exists_length_csvCellsFrom_ge (skip inQuotes : Bool) (value line : Bytes) :
    ∃ cell ∈ csvCellsFrom skip inQuotes value line, value.length ≤ cell.length := by
  induction line generalizing skip inQuotes value with
  | nil => exact ⟨value, List.mem_singleton.mpr rfl, Nat.le_refl _⟩
  | cons c rest ih =>
    have hgrow : ∀ skip inQuotes d, ∃ cell ∈ csvCellsFrom skip inQuotes (value ++ [d]) rest,
        value.length ≤ cell.length := by
      intro skip inQuotes d
      obtain ⟨cell, hm, hle⟩ := ih skip inQuotes (value ++ [d])
      rw [List.length_append] at hle
      exact ⟨cell, hm, by omega⟩
    cases skip with
    | true => exact ih _ _ _
    | false =>
      rw [csvCellsFrom]
      split
      · exact ⟨value, List.mem_singleton.mpr rfl, Nat.le_refl _⟩
      · split
        · split
          · exact hgrow _ _ _
          · exact ih _ _ _
        · split
          · exact ⟨value, List.mem_cons_self, Nat.le_refl _⟩
          · exact hgrow _ _ _

/-- The reader accepts as many cells as a row has columns when each of them fits. -/
theorem parseCsvFrom_eq_some_iff {skip inQuotes : Bool} {values cells : List Bytes}
    {value line : Bytes} (hv : value.length < maxValueLen) :
    parseCsvFrom skip inQuotes values value line = some cells ↔
      cells = values ++ csvCellsFrom skip inQuotes value line ∧ cells.length ≤ maxColumns ∧
        ∀ cell ∈ csvCellsFrom skip inQuotes value line, cell.length < maxValueLen := by
  have hfinish : ∀ {values : List Bytes} {value : Bytes}, value.length < maxValueLen →
      (finishCsvLine values value = some cells ↔ cells = values ++ [value] ∧
        cells.length ≤ maxColumns ∧ ∀ cell ∈ [value], cell.length < maxValueLen) := by
    intro values value hv
    unfold finishCsvLine
    split
    · next hc =>
      constructor
      · intro h
        cases h
      · rintro ⟨rfl, hl, -⟩
        rw [List.length_append, List.length_singleton] at hl
        omega
    · next hc =>
      refine ⟨fun h ↦ ?_, fun h ↦ by rw [h.1]⟩
      obtain rfl := Option.some.inj h
      refine ⟨rfl, ?_, fun cell hm ↦ ?_⟩
      · rw [List.length_append, List.length_singleton]
        omega
      · rw [List.mem_singleton.mp hm]
        exact hv
  induction line generalizing skip inQuotes values value with
  | nil => exact hfinish hv
  | cons c rest ih =>
    cases skip with
    | true => exact ih hv
    | false =>
      rw [parseCsvFrom, csvCellsFrom]
      by_cases hend : c = nul ∨ c = lf ∨ c = cr
      · simp only [if_pos hend]
        exact hfinish hv
      · simp only [if_neg hend]
        by_cases hfull : values.length ≥ maxColumns
        · rw [if_pos hfull]
          constructor
          · intro h
            cases h
          · rintro ⟨rfl, hl, -⟩
            have hpos := length_csvCellsFrom_pos false inQuotes value (c :: rest)
            rw [csvCellsFrom, if_neg hend] at hpos
            rw [List.length_append] at hl
            omega
        · rw [if_neg hfull]
          have hcollect : ∀ skip inQuotes d,
              ((if value.length ≥ maxValueLen - 1 then none
                else parseCsvFrom skip inQuotes values (value ++ [d]) rest) = some cells ↔
                cells = values ++ csvCellsFrom skip inQuotes (value ++ [d]) rest ∧
                  cells.length ≤ maxColumns ∧
                  ∀ cell ∈ csvCellsFrom skip inQuotes (value ++ [d]) rest,
                    cell.length < maxValueLen) := by
            intro skip inQuotes d
            have hlen : (value ++ [d]).length = value.length + 1 := by
              rw [List.length_append, List.length_singleton]
            split
            · next hlong =>
              constructor
              · intro h
                cases h
              · rintro ⟨-, -, hshort⟩
                obtain ⟨cell, hm, hle⟩ :=
                  exists_length_csvCellsFrom_ge skip inQuotes (value ++ [d]) rest
                have := hshort cell hm
                omega
            · exact ih (by omega)
          by_cases hq : c = dquote
          · simp only [if_pos hq]
            split
            · exact hcollect _ _ _
            · exact ih hv
          · simp only [if_neg hq]
            split
            · have hnil : ([] : Bytes).length < maxValueLen := by decide
              apply (ih hnil).trans
              rw [List.append_assoc, List.singleton_append, List.forall_mem_cons]
              exact and_congr_right fun _ ↦ and_congr_right fun _ ↦
                (and_iff_right hv).symm
            · exact hcollect _ _ _

/-- `parse_csv_line` succeeds when the line has at most as many cells as a row can have and
each of them fits its buffer. -/
theorem parseCsvLine_eq_some_iff {line : Bytes} {cells : List Bytes} :
    parseCsvLine line = some cells ↔ cells = csvCells line ∧ cells.length ≤ maxColumns ∧
      ∀ cell ∈ cells, cell.length < maxValueLen := by
  rw [parseCsvLine, parseCsvFrom_eq_some_iff (by decide), List.nil_append]
  constructor
  · rintro ⟨rfl, hl, hc⟩
    exact ⟨rfl, hl, hc⟩
  · rintro ⟨rfl, hl, hc⟩
    exact ⟨rfl, hl, hc⟩

/-! ### The bytes of a row -/

theorem mem_joinFields {fields : List Bytes} {c : UInt8} (h : c ∈ joinFields fields) :
    c = comma ∨ ∃ f ∈ fields, c ∈ f := by
  induction fields with
  | nil => cases h
  | cons field fields ih =>
    cases fields with
    | nil => exact Or.inr ⟨field, by simp, h⟩
    | cons next fields =>
      rw [joinFields, List.mem_append, List.mem_cons] at h
      · rcases h with h | rfl | h
        · exact Or.inr ⟨field, by simp, h⟩
        · exact Or.inl rfl
        · rcases ih h with rfl | ⟨f, hf, hc⟩
          · exact Or.inl rfl
          · exact Or.inr ⟨f, List.mem_cons_of_mem _ hf, hc⟩
      · exact List.cons_ne_nil _ _

/-- Fields of one line make one line. -/
theorem oneLine_joinFields {fields : List Bytes} (h : ∀ f ∈ fields, OneLine f) :
    OneLine (joinFields fields) := by
  apply oneLine_iff.mpr
  intro c hc
  rcases mem_joinFields hc with rfl | ⟨f, hf, hc⟩
  · decide
  · exact oneLine_iff.mp (h f hf) c hc

theorem mem_joinFields_of_mem {fields : List Bytes} {f : Bytes} {c : UInt8} (hf : f ∈ fields)
    (hc : c ∈ f) : c ∈ joinFields fields := by
  induction fields with
  | nil => cases hf
  | cons field fields ih =>
    cases fields with
    | nil =>
      rw [List.mem_singleton.mp hf] at hc
      exact hc
    | cons next fields =>
      rw [joinFields, List.mem_append, List.mem_cons]
      · rcases List.mem_cons.mp hf with rfl | hf
        · exact Or.inl hc
        · exact Or.inr (Or.inr (ih hf))
      · exact List.cons_ne_nil _ _

theorem length_joinFields {fields : List Bytes} (hne : fields ≠ []) :
    (joinFields fields).length + 1 = fields.flatten.length + fields.length := by
  induction fields with
  | nil => exact absurd rfl hne
  | cons field fields ih =>
    cases fields with
    | nil => simp [joinFields]
    | cons next fields =>
      have h := ih (List.cons_ne_nil _ _)
      rw [joinFields, List.length_append, List.length_cons, List.flatten_cons,
        List.length_append, List.length_cons]
      · omega
      · exact List.cons_ne_nil _ _

theorem length_flatten_le {fields : List Bytes} {bound : Nat}
    (h : ∀ f ∈ fields, f.length ≤ bound) : fields.flatten.length ≤ fields.length * bound := by
  induction fields with
  | nil => exact Nat.zero_le _
  | cons field fields ih =>
    obtain ⟨hf, hr⟩ := List.forall_mem_cons.mp h
    have := ih hr
    rw [List.flatten_cons, List.length_append, List.length_cons, Nat.succ_mul]
    omega

theorem length_joinFields_lt {fields : List Bytes} {bound : Nat}
    (h : ∀ f ∈ fields, f.length ≤ bound) (hl : fields.length ≤ maxColumns) :
    (joinFields fields).length < maxColumns * (bound + 1) := by
  cases fields with
  | nil => exact Nat.mul_pos (by decide) (Nat.succ_pos _)
  | cons field fields =>
    have hlen := length_joinFields (List.cons_ne_nil field fields)
    have hsum := length_flatten_le h
    have hle : (field :: fields).length * (bound + 1) ≤ maxColumns * (bound + 1) :=
      Nat.mul_le_mul_right _ hl
    rw [Nat.mul_add, Nat.mul_one] at hle
    omega

theorem mem_writeCsvField {value : Bytes} {c : UInt8} (h : c ∈ writeCsvField value) :
    c = dquote ∨ c ∈ value := by
  unfold writeCsvField at h
  split at h
  · rw [List.mem_append, List.mem_cons, List.mem_singleton, escapeQuotes, List.mem_flatMap] at h
    rcases h with (rfl | ⟨d, hd, hc⟩) | rfl
    · exact Or.inl rfl
    · split at hc
      · simp only [List.mem_cons, List.not_mem_nil, or_false, or_self] at hc
        exact Or.inl hc
      · rw [List.mem_singleton.mp hc]
        exact Or.inr hd
    · exact Or.inl rfl
  · exact Or.inr h

theorem length_escapeQuotes_le (value : Bytes) :
    (escapeQuotes value).length ≤ 2 * value.length := by
  induction value with
  | nil => exact Nat.le_refl _
  | cons c value ih =>
    have hcons : escapeQuotes (c :: value) =
        (if c = dquote then [dquote, dquote] else [c]) ++ escapeQuotes value := rfl
    rw [hcons, List.length_append, List.length_cons]
    split
    · simp only [List.length_cons, List.length_nil]
      omega
    · simp only [List.length_cons, List.length_nil]
      omega

theorem length_writeCsvField_le {value : Bytes} (h : value.length < maxValueLen) :
    (writeCsvField value).length ≤ maxCsvFieldLen := by
  have he := length_escapeQuotes_le value
  simp only [maxCsvFieldLen, maxStringTextLen, maxValueLen] at h ⊢
  unfold writeCsvField
  split
  · simp only [List.length_append, List.length_cons, List.length_nil]
    omega
  · omega

/-- Writing a field adds no line end. -/
theorem oneLine_writeCsvField {value : Bytes} (h : OneLine value) :
    OneLine (writeCsvField value) := by
  apply oneLine_iff.mpr
  intro c hc
  rcases mem_writeCsvField hc with rfl | hc
  · decide
  · exact oneLine_iff.mp h c hc

/-- The line of a written row fits the line buffers and is one line. -/
theorem fields_oneLine {values : List Bytes} (h : ∀ v ∈ values, ValidCell v)
    (hl : values.length ≤ maxColumns) :
    OneLine (joinFields (values.map writeCsvField)) ∧
      (joinFields (values.map writeCsvField)).length < maxCsvRowLen - 1 := by
  have hlength : ∀ f ∈ values.map writeCsvField, f.length ≤ maxCsvFieldLen :=
    List.forall_mem_map.mpr fun v hv ↦ length_writeCsvField_le (h v hv).length_lt
  constructor
  · exact oneLine_joinFields
      (List.forall_mem_map.mpr fun v hv ↦ oneLine_writeCsvField (h v hv).oneLine)
  · exact length_joinFields_lt hlength (by rw [List.length_map]; exact hl)

/-! ### Quotes are lost -/

/-- A line decodes to at most its own bytes, and to fewer when it holds a quote. -/
theorem length_parseCsvFrom_le {skip inQuotes : Bool} {values cells : List Bytes}
    {value line : Bytes} (h : parseCsvFrom skip inQuotes values value line = some cells) :
    cells.flatten.length + cells.length + (if dquote ∈ line then 1 else 0) ≤
      values.flatten.length + values.length + value.length + 1 + line.length := by
  have hfinish : ∀ {values value}, finishCsvLine values value = some cells →
      cells.flatten.length + cells.length =
        values.flatten.length + values.length + value.length + 1 := by
    intro values value h
    unfold finishCsvLine at h
    split at h
    · cases h
    · obtain rfl := Option.some.inj h
      simp only [List.flatten_append, List.flatten_singleton, List.length_append,
        List.length_singleton]
      omega
  induction line generalizing skip inQuotes values value with
  | nil =>
    rw [parseCsvFrom] at h
    simp only [List.not_mem_nil, if_false, hfinish h, List.length_nil]
    omega
  | cons c rest ih =>
    have hone : (if dquote ∈ c :: rest then 1 else 0) ≤ 1 := by split <;> omega
    rw [List.length_cons]
    cases skip with
    | true =>
      have := ih h
      omega
    | false =>
      rw [parseCsvFrom] at h
      split at h
      · have := hfinish h
        omega
      · split at h
        · cases h
        · split at h
          · split at h
            · next hpair =>
              split at h
              · cases h
              · -- an escaped quote: the next byte is a quote as well
                have hmem : dquote ∈ rest := by
                  simp only [Bool.and_eq_true, decide_eq_true_eq] at hpair
                  exact List.mem_of_mem_head? hpair.2
                have := ih h
                rw [if_pos hmem, List.length_append, List.length_singleton] at this
                omega
            · have := ih h
              omega
          · next hc =>
            have hiff : dquote ∈ c :: rest ↔ dquote ∈ rest := by
              rw [List.mem_cons]
              exact or_iff_right (Ne.symm hc)
            simp only [hiff]
            split at h
            · have := ih h
              simp only [List.flatten_append, List.flatten_singleton, List.length_append,
                List.length_singleton, List.length_nil] at this
              omega
            · split at h
              · cases h
              · have := ih h
                rw [List.length_append, List.length_singleton] at this
                omega

/-- Names that a header line of theirs decodes to hold no quote. -/
theorem dquote_notMem_of_parseCsvLine {names : List Bytes} (hne : names ≠ [])
    (h : parseCsvLine (joinFields names) = some names) : ∀ n ∈ names, dquote ∉ n := by
  have hle := length_parseCsvFrom_le h
  have hlen := length_joinFields hne
  have hnot : dquote ∉ joinFields names := by
    intro hm
    rw [if_pos hm] at hle
    simp only [List.flatten_nil, List.length_nil] at hle
    omega
  intro n hn hq
  exact hnot (mem_joinFields_of_mem hn hq)

end SqlProc.Storage
