import SqlProc.Schema.Load

/-!
# The format of schema files

Library `Schema`. The format that the loader is for, stated without the code: the first line is a
list of entries `name:type`. The loader reads as much of that line as its buffer holds, which is
the longest line of the format.
-/

namespace SqlProc.Schema

open Base

/-! ### The format -/

/-- The first line of a file, without its line end. -/
def firstLine (content : Bytes) : Bytes := content.takeWhile fun c ↦ c ≠ cr && c ≠ lf

/-- An entry as it is written. -/
structure SchemaEntry where
  name : Bytes
  type : Bytes
  deriving DecidableEq, Repr

/-- The spelling of an entry. -/
def SchemaEntry.spelling (entry : SchemaEntry) : Bytes := entry.name ++ colon :: entry.type

/-- The column of an entry. -/
def SchemaEntry.column (entry : SchemaEntry) : ColumnSchema :=
  ⟨entry.name.map tolower, if entry.type.map tolower = text "int" then .int else .string⟩

/-- A name that fits, and a type in any case. -/
structure SchemaEntry.Valid (entry : SchemaEntry) : Prop where
  ne_nil : entry.name ≠ []
  length_lt : entry.name.length < maxNameLen
  comma_notMem : comma ∉ entry.name
  colon_notMem : colon ∉ entry.name
  type : entry.type.map tolower = text "int" ∨ entry.type.map tolower = text "string"

instance (entry : SchemaEntry) : Decidable entry.Valid :=
  decidable_of_iff (entry.name ≠ [] ∧ entry.name.length < maxNameLen ∧ comma ∉ entry.name ∧
      colon ∉ entry.name ∧
      (entry.type.map tolower = text "int" ∨ entry.type.map tolower = text "string"))
    ⟨fun h ↦ ⟨h.1, h.2.1, h.2.2.1, h.2.2.2.1, h.2.2.2.2⟩, fun h ↦ ⟨h.1, h.2, h.3, h.4, h.5⟩⟩

/-- The line separates the entries with commas. One comma after the last entry is tolerated. -/
inductive Separates : Bytes → List SchemaEntry → Prop
  | nil : Separates [] []
  | last (entry : SchemaEntry) : Separates entry.spelling [entry]
  | comma (entry : SchemaEntry) {line : Bytes} {entries : List SchemaEntry}
      (h : Separates line entries) :
    Separates (entry.spelling ++ comma :: line) (entry :: entries)

/-- A line of the format. -/
structure IsFormat (line : Bytes) (entries : List SchemaEntry) : Prop where
  separates : Separates line entries
  length_pos : 0 < entries.length
  length_le : entries.length ≤ maxColumns
  valid : ∀ entry ∈ entries, entry.Valid
  nodup : (entries.map fun entry ↦ entry.name.map tolower).Nodup

/-- The schema with these columns: its primary key is the `int` column `id`. -/
def schemaOf (tableName : Bytes) (columns : List ColumnSchema) : TableSchema :=
  ⟨snprintfStr maxNameLen tableName, columns.findIdx? (· = ⟨text "id", .int⟩), columns⟩

/-! ### The loader -/

variable {entries : List SchemaEntry} {columns : List ColumnSchema} {line cursor tableName : Bytes}
  {schema : TableSchema}

theorem parseDataType_eq_some_iff {s : Bytes} {type : DataType} :
    parseDataType s = some type ↔
      (s = text "int" ∨ s = text "string") ∧
        type = if s = text "int" then .int else .string := by
  have hne : text "string" ≠ text "int" := by decide
  unfold parseDataType
  split
  · next hint => simp [hint, eq_comm]
  · next hint =>
    split
    · next hstring => simp [hstring, hne, eq_comm]
    · next hstring => simp [hint, hstring]

/-- A type that is too long for its buffer is no type. -/
theorem toLowercaseCopy_eq_iff (type : Bytes) {s : Bytes} (hs : s.length < maxNameLen - 1) :
    toLowercaseCopy maxNameLen type = s ↔ type.map tolower = s := by
  unfold toLowercaseCopy
  by_cases hlen : type.length ≤ maxNameLen - 1
  · rw [List.take_of_length_le hlen]
  · have hshort : ∀ t : Bytes, t.length = maxNameLen - 1 ∨ t.length = type.length → t ≠ s := by
      rintro t ht rfl
      omega
    refine iff_of_false (hshort _ (Or.inl ?_)) (hshort _ (Or.inr (List.length_map _)))
    rw [List.length_map, List.length_take]
    omega

theorem parseDataType_type_iff {entry : SchemaEntry} {type : DataType} :
    parseDataType (toLowercaseCopy maxNameLen entry.type) = some type ↔
      (entry.type.map tolower = text "int" ∨ entry.type.map tolower = text "string") ∧
        type = entry.column.type := by
  have hint : toLowercaseCopy maxNameLen entry.type = text "int" ↔
      entry.type.map tolower = text "int" := toLowercaseCopy_eq_iff entry.type (by decide)
  have hstring : toLowercaseCopy maxNameLen entry.type = text "string" ↔
      entry.type.map tolower = text "string" := toLowercaseCopy_eq_iff entry.type (by decide)
  simp only [parseDataType_eq_some_iff, hint, hstring, SchemaEntry.column]

theorem hasDuplicateColumnName_schemaOf {name : Bytes} :
    hasDuplicateColumnName (schemaOf tableName columns) name = true ↔
      name ∈ columns.map ColumnSchema.name := by
  simp [hasDuplicateColumnName, schemaOf]

/-- The primary key after one more column with a new name. -/
theorem schemaOf_append {column : ColumnSchema} (h : column.name ∉ columns.map ColumnSchema.name) :
    schemaOf tableName (columns ++ [column]) =
      { schemaOf tableName columns with
        primaryKeyIndex := if column.name = text "id" ∧ column.type = .int
          then some columns.length else (schemaOf tableName columns).primaryKeyIndex
        columns := columns ++ [column] } := by
  have hid : column = ⟨text "id", .int⟩ ↔ column.name = text "id" ∧ column.type = .int := by
    cases column
    simp
  simp only [schemaOf, List.findIdx?_append, List.findIdx?_singleton, decide_eq_true_eq, hid]
  split
  · next hc =>
    have hnone : columns.findIdx? (· = ⟨text "id", .int⟩) = none := by
      rw [List.findIdx?_eq_none_iff]
      intro c hm
      rw [decide_eq_false_iff_not]
      rintro rfl
      exact h (hc.1 ▸ List.mem_map_of_mem hm)
    rw [hnone, Option.none_or, Option.map_some, Nat.zero_add]
  · rw [Option.map_none, Option.or_none]

theorem takeWhile_spelling {entry : SchemaEntry} (h : colon ∉ entry.name) :
    entry.spelling.takeWhile (· ≠ colon) = entry.name ∧
      (entry.spelling.dropWhile (· ≠ colon)).drop 1 = entry.type := by
  have hname : ∀ c ∈ entry.name, (c ≠ colon : Bool) = true := by
    intro c hc
    rw [decide_eq_true_eq]
    exact ne_of_mem_of_not_mem hc h
  rw [SchemaEntry.spelling, List.takeWhile_append_of_pos hname, List.dropWhile_append_of_pos hname]
  simp

/-- An entry is added when its name fits and is new, and its type is known. -/
theorem addEntry_spelling_eq_ok_iff {entry : SchemaEntry} (hcolon : colon ∉ entry.name) :
    addEntry (schemaOf tableName columns) entry.spelling = .ok schema ↔
      entry.name.length < maxNameLen ∧ entry.name ≠ [] ∧
        entry.name.map tolower ∉ columns.map ColumnSchema.name ∧
        (entry.type.map tolower = text "int" ∨ entry.type.map tolower = text "string") ∧
        schema = schemaOf tableName (columns ++ [entry.column]) := by
  have hmem : colon ∈ entry.spelling :=
    List.mem_append_right _ List.mem_cons_self
  obtain ⟨htake, hdrop⟩ := takeWhile_spelling hcolon
  simp only [addEntry, htake, hdrop, not_true_eq_false, hmem, if_false]
  by_cases hlen : entry.name.length < maxNameLen
  · have hlower : toLowercaseCopy maxNameLen entry.name = entry.name.map tolower := by
      rw [toLowercaseCopy, List.take_of_length_le (by omega)]
    have hnil : entry.name.map tolower = [] ↔ entry.name = [] := List.map_eq_nil_iff
    simp only [if_neg (show ¬ entry.name.length ≥ maxNameLen by omega), hlower, hnil,
      hasDuplicateColumnName_schemaOf]
    by_cases hne : entry.name = []
    · rw [if_pos hne]
      exact iff_of_false (by rintro ⟨⟩) fun h ↦ h.2.1 hne
    · rw [if_neg hne]
      by_cases hdup : entry.name.map tolower ∈ columns.map ColumnSchema.name
      · rw [if_pos hdup]
        exact iff_of_false (by rintro ⟨⟩) fun h ↦ h.2.2.1 hdup
      · have hnew : entry.column.name ∉ columns.map ColumnSchema.name := hdup
        rw [if_neg hdup, schemaOf_append hnew]
        split
        · next hnone =>
          refine iff_of_false (by rintro ⟨⟩) fun h ↦ ?_
          have hsome : parseDataType (toLowercaseCopy maxNameLen entry.type) =
              some entry.column.type := parseDataType_type_iff.mpr ⟨h.2.2.2.1, rfl⟩
          cases hnone.symm.trans hsome
        · next type htype =>
          obtain ⟨hknown, rfl⟩ := parseDataType_type_iff.mp htype
          rw [Except.ok.injEq]
          constructor
          · rintro rfl
            exact ⟨hlen, hne, hdup, hknown, rfl⟩
          · rintro ⟨-, -, -, -, rfl⟩
            rfl
  · rw [if_pos (by omega)]
    exact iff_of_false (by rintro ⟨⟩) fun h ↦ hlen h.1

/-- An entry that is added: its spelling has no comma, and its name is new. -/
theorem addEntry_eq_ok_iff {cell : Bytes} (hcomma : comma ∉ cell) :
    addEntry (schemaOf tableName columns) cell = .ok schema ↔
      ∃ entry : SchemaEntry, cell = entry.spelling ∧ entry.Valid ∧
        entry.name.map tolower ∉ columns.map ColumnSchema.name ∧
        schema = schemaOf tableName (columns ++ [entry.column]) := by
  constructor
  · intro h
    have hcolon : colon ∈ cell := by
      by_contra hn
      rw [addEntry, if_pos hn] at h
      cases h
    obtain ⟨name, type, rfl, hname⟩ := List.eq_append_cons_of_mem hcolon
    let entry : SchemaEntry := ⟨name, type⟩
    have hname' : colon ∉ entry.name := hname
    obtain ⟨hlen, hne, hnew, htype, rfl⟩ := (addEntry_spelling_eq_ok_iff hname').mp h
    have hcomma' : comma ∉ name := fun hm ↦ hcomma (List.mem_append_left _ hm)
    exact ⟨entry, rfl, ⟨hne, hlen, hcomma', hname, htype⟩, hnew, rfl⟩
  · rintro ⟨entry, rfl, hv, hnew, rfl⟩
    exact (addEntry_spelling_eq_ok_iff hv.colon_notMem).mpr
      ⟨hv.length_lt, hv.ne_nil, hnew, hv.type, rfl⟩

theorem SchemaEntry.spelling_ne_nil (entry : SchemaEntry) : entry.spelling ≠ [] :=
  List.append_ne_nil_of_right_ne_nil _ (List.cons_ne_nil _ _)

theorem SchemaEntry.Valid.comma_notMem_spelling {entry : SchemaEntry} (h : entry.Valid) :
    comma ∉ entry.spelling := by
  have htype : comma ∉ entry.type := by
    intro hm
    have hlower : comma ∈ entry.type.map tolower := List.mem_map_of_mem (f := tolower) hm
    rcases h.type with ht | ht
    all_goals
      rw [ht] at hlower
      exact absurd hlower (by decide)
  rw [SchemaEntry.spelling, List.mem_append, List.mem_cons, not_or, not_or]
  exact ⟨h.comma_notMem, by decide, htype⟩

theorem separates_nil_iff : Separates [] entries ↔ entries = [] := by
  constructor
  · intro h
    generalize hline : ([] : Bytes) = line at h
    cases h with
    | nil => rfl
    | last entry => exact absurd hline.symm entry.spelling_ne_nil
    | comma entry =>
      exact absurd hline.symm (List.append_ne_nil_of_left_ne_nil entry.spelling_ne_nil _)
  · rintro rfl
    exact .nil

/-- The first entry of a line is cut off at the first comma. -/
theorem separates_cons_iff {entry : SchemaEntry} (hcomma : comma ∉ entry.spelling) :
    Separates cursor (entry :: entries) ↔ cursor.takeWhile (· ≠ comma) = entry.spelling ∧
      Separates ((cursor.dropWhile (· ≠ comma)).drop 1) entries := by
  have hspelling : ∀ c ∈ entry.spelling, (c ≠ comma : Bool) = true := by
    intro c hc
    rw [decide_eq_true_eq]
    exact ne_of_mem_of_not_mem hc hcomma
  constructor
  · intro h
    cases h with
    | last =>
      rw [List.takeWhile_eq_self_iff.mpr hspelling, List.dropWhile_eq_nil_iff.mpr hspelling]
      exact ⟨rfl, .nil⟩
    | comma _ h =>
      rw [List.takeWhile_append_of_pos hspelling, List.dropWhile_append_of_pos hspelling]
      simpa using h
  · rintro ⟨htake, hrest⟩
    have hcursor : cursor = entry.spelling ++ cursor.dropWhile (· ≠ comma) := by
      rw [← htake, List.takeWhile_append_dropWhile]
    rw [hcursor]
    cases hdrop : cursor.dropWhile (· ≠ comma) with
    | nil =>
      rw [hdrop] at hrest
      rw [List.append_nil, separates_nil_iff.mp hrest]
      exact .last entry
    | cons c rest =>
      have hc : c = comma := by
        have hhead := List.head?_dropWhile_not (· ≠ comma) cursor
        rw [hdrop] at hhead
        simpa using hhead
      rw [hdrop] at hrest
      rw [hc]
      exact .comma entry hrest

/-- A line that continues the columns that are there. -/
structure Continues (columns : List ColumnSchema) (line : Bytes) (entries : List SchemaEntry) :
    Prop where
  separates : Separates line entries
  length_le : columns.length + entries.length ≤ maxColumns
  valid : ∀ entry ∈ entries, entry.Valid
  nodup : (columns.map ColumnSchema.name ++
    entries.map fun entry ↦ entry.name.map tolower).Nodup

theorem continues_cons_iff {entry : SchemaEntry} (hcomma : comma ∉ entry.spelling) :
    Continues columns cursor (entry :: entries) ↔
      cursor.takeWhile (· ≠ comma) = entry.spelling ∧ entry.Valid ∧
        Continues (columns ++ [entry.column]) ((cursor.dropWhile (· ≠ comma)).drop 1) entries := by
  have hnames : (columns ++ [entry.column]).map ColumnSchema.name ++
        (entries.map fun entry ↦ entry.name.map tolower) = columns.map ColumnSchema.name ++
      (entry :: entries).map fun entry ↦ entry.name.map tolower := by
    rw [List.map_append, List.append_assoc]
    rfl
  have hlength : (columns ++ [entry.column]).length + entries.length =
      columns.length + (entry :: entries).length := by
    rw [List.length_append, List.length_singleton, List.length_cons]
    omega
  constructor
  · intro h
    obtain ⟨htake, hsep⟩ := (separates_cons_iff hcomma).mp h.separates
    obtain ⟨hv, hvalid⟩ := List.forall_mem_cons.mp h.valid
    exact ⟨htake, hv, hsep, hlength ▸ h.length_le, hvalid, hnames ▸ h.nodup⟩
  · rintro ⟨htake, hv, h⟩
    exact ⟨(separates_cons_iff hcomma).mpr ⟨htake, h.separates⟩, hlength ▸ h.length_le,
      List.forall_mem_cons.mpr ⟨hv, h.valid⟩, hnames ▸ h.nodup⟩

/-- At the end of the line no entry is left. -/
theorem ok_iff_separates_nil (hl : columns.length ≤ maxColumns)
    (hn : (columns.map ColumnSchema.name).Nodup) :
    (.ok (schemaOf tableName columns) : Except ErrorInfo TableSchema) = .ok schema ↔
      ∃ entries, Continues columns [] entries ∧
        schema = schemaOf tableName (columns ++ entries.map SchemaEntry.column) := by
  rw [Except.ok.injEq]
  constructor
  · rintro rfl
    refine ⟨[], ⟨.nil, hl, List.forall_mem_nil _, ?_⟩, ?_⟩
    · rwa [List.map_nil, List.append_nil]
    · rw [List.map_nil, List.append_nil]
  · rintro ⟨entries, hrest, rfl⟩
    rw [separates_nil_iff.mp hrest.separates, List.map_nil, List.append_nil]

/-- The loop, from the columns that are there. -/
theorem readEntries_eq_ok_iff {fuel : Nat} (hf : cursor.length ≤ fuel)
    (hl : columns.length ≤ maxColumns) (hn : (columns.map ColumnSchema.name).Nodup) :
    readEntries fuel cursor (schemaOf tableName columns) = .ok schema ↔
      ∃ entries, Continues columns cursor entries ∧
        schema = schemaOf tableName (columns ++ entries.map SchemaEntry.column) := by
  induction fuel generalizing cursor columns with
  | zero =>
    obtain rfl := List.length_eq_zero_iff.mp (Nat.le_zero.mp hf)
    exact ok_iff_separates_nil hl hn
  | succ fuel ih =>
    by_cases hcursor : cursor = []
    · subst hcursor
      exact ok_iff_separates_nil hl hn
    · rw [readEntries, if_neg hcursor]
      have hcomma : comma ∉ cursor.takeWhile (· ≠ comma) := by
        intro hm
        simpa using List.mem_takeWhile_imp hm
      have hrest : ((cursor.dropWhile (· ≠ comma)).drop 1).length ≤ fuel := by
        have hle := List.length_dropWhile_le (· ≠ comma) cursor
        rw [List.length_drop]
        omega
      have hcolumn : ∀ entry : SchemaEntry, (columns ++ [entry.column]).map ColumnSchema.name =
          columns.map ColumnSchema.name ++ [entry.name.map tolower] := fun entry ↦ by
        rw [List.map_append, List.map_singleton, SchemaEntry.column]
      constructor
      · intro h
        split at h
        · cases h
        · next hroom =>
          have hroom : columns.length < maxColumns := Nat.lt_of_not_le hroom
          split at h
          · cases h
          · next schema₁ hadd =>
            obtain ⟨entry, htake, hv, hnew, rfl⟩ := (addEntry_eq_ok_iff hcomma).mp hadd
            have hn' : ((columns ++ [entry.column]).map ColumnSchema.name).Nodup := by
              rw [hcolumn, ← List.concat_eq_append]
              exact List.Nodup.concat hnew hn
            have hl' : (columns ++ [entry.column]).length ≤ maxColumns := by
              rw [List.length_append, List.length_singleton]
              exact hroom
            obtain ⟨entries, hentries, rfl⟩ := (ih hrest hl' hn').mp h
            refine ⟨entry :: entries, (continues_cons_iff hv.comma_notMem_spelling).mpr
              ⟨htake, hv, hentries⟩, ?_⟩
            rw [List.append_assoc]
            rfl
      · rintro ⟨entries, hentries, rfl⟩
        cases entries with
        | nil =>
          cases hentries.separates
          exact absurd rfl hcursor
        | cons entry entries =>
          have hv := hentries.valid entry List.mem_cons_self
          obtain ⟨htake, -, hnext⟩ :=
            (continues_cons_iff hv.comma_notMem_spelling).mp hentries
          have hle := hnext.length_le
          have hnodup := hnext.nodup
          rw [List.length_append, List.length_singleton] at hle
          have hn' := (List.nodup_append.mp hnodup).1
          have hnew : entry.name.map tolower ∉ columns.map ColumnSchema.name := by
            rw [hcolumn, List.nodup_append] at hn'
            exact fun hm ↦ hn'.2.2 _ hm _ List.mem_cons_self rfl
          have hl' : (columns ++ [entry.column]).length ≤ maxColumns := by
            rw [List.length_append, List.length_singleton]
            omega
          have hadd : addEntry (schemaOf tableName columns) (cursor.takeWhile (· ≠ comma)) =
              .ok (schemaOf tableName (columns ++ [entry.column])) :=
            (addEntry_eq_ok_iff hcomma).mpr ⟨entry, htake, hv, hnew, rfl⟩
          have hroom : ¬ (schemaOf tableName columns).columnCount ≥ maxColumns := by
            show ¬ columns.length ≥ maxColumns
            omega
          rw [if_neg hroom, hadd]
          refine (ih hrest hl' hn').mpr ⟨entries, hnext, ?_⟩
          rw [List.append_assoc]
          rfl

/-! ### Lengths -/

theorem SchemaEntry.Valid.length_le {entry : SchemaEntry} (h : entry.Valid) :
    entry.spelling.length ≤ maxSchemaEntryLen := by
  have htype : entry.type.length ≤ maxSchemaTypeLen := by
    have hlower : (entry.type.map tolower).length ≤ maxSchemaTypeLen := by
      rcases h.type with ht | ht <;> rw [ht] <;> decide
    rwa [List.length_map] at hlower
  have hname := Nat.le_sub_one_of_lt h.length_lt
  rw [SchemaEntry.spelling, List.length_append, List.length_cons, maxSchemaEntryLen]
  omega

/-- The entries, each with a comma after it. -/
def spellAll (entries : List SchemaEntry) : Bytes :=
  entries.flatMap fun entry ↦ entry.spelling ++ [comma]

theorem separates_spellAll (entries : List SchemaEntry) :
    Separates (spellAll entries) entries := by
  induction entries with
  | nil => exact .nil
  | cons entry entries ih =>
    rw [spellAll, List.flatMap_cons, List.append_assoc]
    exact .comma entry ih

/-- Each entry takes its longest spelling and a comma at most. -/
theorem Separates.length_le (h : Separates line entries) (hv : ∀ entry ∈ entries, entry.Valid) :
    line.length ≤ entries.length * (maxSchemaEntryLen + 1) := by
  induction h with
  | nil => exact Nat.zero_le _
  | last entry =>
    have := (hv entry List.mem_cons_self).length_le
    rw [List.length_singleton]
    omega
  | comma entry h ih =>
    obtain ⟨hentry, hv⟩ := List.forall_mem_cons.mp hv
    have := ih hv
    have := hentry.length_le
    rw [List.length_append, List.length_cons, List.length_cons, Nat.succ_mul]
    omega

/-- A line that is as long as that has a comma after each entry. -/
theorem Separates.eq_spellAll (h : Separates line entries) (hv : ∀ entry ∈ entries, entry.Valid)
    (hl : line.length = entries.length * (maxSchemaEntryLen + 1)) :
    line = spellAll entries ∧ ∀ entry ∈ entries, entry.spelling.length = maxSchemaEntryLen := by
  induction h with
  | nil => exact ⟨rfl, List.forall_mem_nil _⟩
  | last entry =>
    have := (hv entry List.mem_cons_self).length_le
    rw [List.length_singleton] at hl
    omega
  | @comma entry line entries h ih =>
    obtain ⟨hentry, hv⟩ := List.forall_mem_cons.mp hv
    have hle := h.length_le hv
    have hle' := hentry.length_le
    rw [List.length_append, List.length_cons, List.length_cons, Nat.succ_mul] at hl
    obtain ⟨hline, hlen⟩ := ih hv (by omega)
    refine ⟨?_, List.forall_mem_cons.mpr ⟨by omega, hlen⟩⟩
    rw [spellAll, List.flatMap_cons, List.append_assoc, List.singleton_append]
    congr 2

theorem length_spellAll (h : ∀ entry ∈ entries, entry.spelling.length = maxSchemaEntryLen) :
    (spellAll entries).length = entries.length * (maxSchemaEntryLen + 1) := by
  induction entries with
  | nil => rfl
  | cons entry entries ih =>
    obtain ⟨hentry, hlen⟩ := List.forall_mem_cons.mp h
    have hrest := ih hlen
    rw [spellAll] at hrest ⊢
    rw [List.flatMap_cons, List.length_append, List.length_append, List.length_singleton, hrest,
      hentry, List.length_cons, Nat.succ_mul, Nat.add_comm]

/-- A line of the format fits the buffer of the loader. -/
theorem IsFormat.length_lt (h : IsFormat line entries) : line.length < maxSchemaLineLen := by
  have hline := h.separates.length_le h.valid
  have hentries := Nat.mul_le_mul_right (maxSchemaEntryLen + 1) h.length_le
  exact Nat.lt_of_le_of_lt (hline.trans hentries) (by decide)

/-- A longer line whose start is as many of the longest entries as a schema may have. -/
structure Overruns (line : Bytes) (entries : List SchemaEntry) : Prop where
  prefix_of_line : spellAll entries <+: line
  ne_line : spellAll entries ≠ line
  length_eq : entries.length = maxColumns
  valid : ∀ entry ∈ entries, entry.Valid
  longest : ∀ entry ∈ entries, entry.spelling.length = maxSchemaEntryLen
  nodup : (entries.map fun entry ↦ entry.name.map tolower).Nodup

theorem Overruns.length_spellAll_eq (h : Overruns line entries) :
    (spellAll entries).length = maxSchemaLineLen - 1 := by
  rw [length_spellAll h.longest, h.length_eq]
  rfl

theorem Overruns.le_length (h : Overruns line entries) : maxSchemaLineLen ≤ line.length := by
  have hlt : (spellAll entries).length < line.length :=
    lt_of_le_of_ne h.prefix_of_line.length_le fun he ↦ h.ne_line (h.prefix_of_line.eq_of_length he)
  rw [h.length_spellAll_eq] at hlt
  omega

/-- What the buffer holds of a line that does not fit is a line of the format in this case only. -/
theorem isFormat_take_iff (hl : maxSchemaLineLen ≤ line.length) :
    IsFormat (line.take (maxSchemaLineLen - 1)) entries ↔ Overruns line entries := by
  have htake : (line.take (maxSchemaLineLen - 1)).length = maxSchemaLineLen - 1 := by
    rw [List.length_take]
    omega
  constructor
  · intro h
    have hcount : entries.length = maxColumns := by
      have hle := h.separates.length_le h.valid
      rw [htake] at hle
      by_contra hne
      have hlt := Nat.mul_le_mul_right (maxSchemaEntryLen + 1)
        (Nat.le_sub_one_of_lt (lt_of_le_of_ne h.length_le hne))
      exact absurd (hle.trans hlt) (by decide)
    obtain ⟨hline, hlongest⟩ := h.separates.eq_spellAll h.valid (by rw [htake, hcount]; rfl)
    refine ⟨hline ▸ List.take_prefix _ _, ?_, hcount, h.valid, hlongest, h.nodup⟩
    intro he
    rw [← hline] at he
    rw [he] at htake
    have hpos : 0 < maxSchemaLineLen := by decide
    omega
  · intro h
    have hline : line.take (maxSchemaLineLen - 1) = spellAll entries := by
      rw [← h.length_spellAll_eq]
      exact (List.prefix_iff_eq_take.mp h.prefix_of_line).symm
    rw [hline]
    exact ⟨separates_spellAll entries, by rw [h.length_eq]; decide, h.length_eq.le, h.valid,
      h.nodup⟩

/-! ### Files -/

/-- The first line of what `fgets` reads is what the buffer holds of the first line. -/
theorem firstLine_cstr_fgetsChunk {room : Nat} {content : Bytes} (hn : nul ∉ firstLine content) :
    firstLine (cstr (fgetsChunk room content)) = (firstLine content).take room := by
  induction content generalizing room with
  | nil => cases room <;> rfl
  | cons c content ih =>
    cases room with
    | zero => rfl
    | succ room =>
      rw [fgetsChunk]
      by_cases hlf : c = lf
      · rw [if_pos hlf, hlf]
        rfl
      · rw [if_neg hlf]
        by_cases hend : (c ≠ cr && c ≠ lf : Bool) = true
        · have hfirst : firstLine (c :: content) = c :: firstLine content :=
            List.takeWhile_cons_of_pos hend
          rw [hfirst, List.mem_cons, not_or] at hn
          have hcons : cstr (c :: fgetsChunk room content) = c :: cstr (fgetsChunk room content) :=
            List.takeWhile_cons_of_pos (by simpa using Ne.symm hn.1)
          rw [hcons, hfirst, List.take_succ_cons, ← ih hn.2]
          exact List.takeWhile_cons_of_pos hend
        · have hcr : c = cr := by simpa [hlf] using hend
          rw [hcr]
          rfl

theorem isFormat_iff : IsFormat line entries ↔ Continues [] line entries ∧ entries ≠ [] := by
  rw [← List.length_pos_iff]
  constructor
  · intro h
    refine ⟨⟨h.separates, ?_, h.valid, h.nodup⟩, h.length_pos⟩
    rw [List.length_nil, Nat.zero_add]
    exact h.length_le
  · rintro ⟨h, hpos⟩
    have hle := h.length_le
    rw [List.length_nil, Nat.zero_add] at hle
    exact ⟨h.separates, hpos, hle, h.valid, h.nodup⟩

/-- The loader on a first line. -/
theorem parseSchemaLine_eq_ok_iff {content : Bytes} :
    parseSchemaLine tableName content = .ok schema ↔
      ∃ entries, IsFormat (firstLine content) entries ∧
        schema = schemaOf tableName (entries.map SchemaEntry.column) := by
  have hloop : ∀ {schema}, readEntries (firstLine content).length (firstLine content)
        (schemaOf tableName []) = .ok schema ↔
      ∃ entries, Continues [] (firstLine content) entries ∧
        schema = schemaOf tableName (entries.map SchemaEntry.column) :=
    readEntries_eq_ok_iff le_rfl (Nat.zero_le _) List.nodup_nil
  simp only [isFormat_iff, parseSchemaLine]
  split
  · next e herror =>
    refine iff_of_false (by rintro ⟨⟩) ?_
    rintro ⟨entries, ⟨hentries, -⟩, -⟩
    cases herror.symm.trans (hloop.mpr ⟨entries, hentries, rfl⟩)
  · next schema₁ hread =>
    have hcount : ∀ {entries : List SchemaEntry},
        (schemaOf tableName (entries.map SchemaEntry.column)).columnCount = 0 ↔ entries = [] := by
      intro entries
      rw [← List.length_eq_zero_iff, ← List.length_map (f := SchemaEntry.column)]
      rfl
    constructor
    · intro h
      obtain ⟨entries, hentries, rfl⟩ := hloop.mp hread
      split at h
      · cases h
      · next hne => exact ⟨entries, ⟨hentries, mt hcount.mpr hne⟩, (Except.ok.inj h).symm⟩
    · rintro ⟨entries, ⟨hentries, hne⟩, rfl⟩
      obtain rfl := Except.ok.inj (hread.symm.trans (hloop.mpr ⟨entries, hentries, rfl⟩))
      rw [if_neg (mt hcount.mp hne)]

/-- The loader on a file, whatever its length. -/
theorem loadTableSchema_eq_ok_iff {files : Files} {schemaDir content : Bytes}
    (hfile : files (schemaPath schemaDir tableName) = some content)
    (hn : nul ∉ firstLine content) :
    loadTableSchema files schemaDir tableName = .ok schema ↔
      ∃ entries, IsFormat ((firstLine content).take (maxSchemaLineLen - 1)) entries ∧
        schema = schemaOf tableName (entries.map SchemaEntry.column) := by
  have hfgets : fgets maxSchemaLineLen (.start content) = none ∧ content = [] ∨
      ∃ file, fgets maxSchemaLineLen (.start content) =
        some (cstr (fgetsChunk (maxSchemaLineLen - 1) content), file) := by
    cases content with
    | nil => exact Or.inl ⟨rfl, rfl⟩
    | cons c content =>
      refine Or.inr ⟨_, if_neg ?_⟩
      show fgetsChunk (maxSchemaLineLen - 2 + 1) (c :: content) ≠ []
      rw [fgetsChunk]
      split <;> exact List.cons_ne_nil _ _
  simp only [loadTableSchema, hfile]
  rcases hfgets with ⟨hnone, rfl⟩ | ⟨file, hsome⟩
  · rw [hnone]
    refine iff_of_false (by rintro ⟨⟩) ?_
    rintro ⟨entries, hf, -⟩
    obtain ⟨hentries, hne⟩ := isFormat_iff.mp hf
    exact hne (separates_nil_iff.mp hentries.separates)
  · rw [hsome, ← firstLine_cstr_fgetsChunk hn]
    exact parseSchemaLine_eq_ok_iff

/-- The loader accepts its format exactly, unless the longest entries hide the rest of the line. -/
theorem loadTableSchema_format {files : Files} {schemaDir tableName content : Bytes}
    (hfile : files (schemaPath schemaDir tableName) = some content)
    (hn : nul ∉ firstLine content) :
    (∀ schema, loadTableSchema files schemaDir tableName = .ok schema ↔
        ∃ entries, IsFormat (firstLine content) entries ∧
          schema = schemaOf tableName (entries.map SchemaEntry.column)) ↔
      ¬ ∃ entries, Overruns (firstLine content) entries := by
  simp only [loadTableSchema_eq_ok_iff hfile hn]
  by_cases hl : maxSchemaLineLen ≤ (firstLine content).length
  · simp only [isFormat_take_iff hl]
    constructor
    · rintro h ⟨entries, hover⟩
      obtain ⟨entries', hformat, -⟩ := (h _).mp ⟨entries, hover, rfl⟩
      exact absurd hformat.length_lt (Nat.not_lt.mpr hl)
    · intro hnone schema
      apply iff_of_false
      · rintro ⟨entries, hover, -⟩
        exact hnone ⟨entries, hover⟩
      · rintro ⟨entries, hformat, -⟩
        exact absurd hformat.length_lt (Nat.not_lt.mpr hl)
  · rw [List.take_of_length_le (by omega)]
    refine iff_of_true (fun _ ↦ Iff.rfl) ?_
    rintro ⟨entries, hover⟩
    exact hl hover.le_length

theorem loadTableSchema_format_sample :
    (∀ schema, loadTableSchema (fun _ ↦ some (text "ID:Int,Name:STRING,\r\n")) (text "db")
        (text "users") = .ok schema ↔
        ∃ entries, IsFormat (firstLine (text "ID:Int,Name:STRING,\r\n")) entries ∧
          schema = schemaOf (text "users") (entries.map SchemaEntry.column)) ↔
      ¬ ∃ entries, Overruns (firstLine (text "ID:Int,Name:STRING,\r\n")) entries :=
  loadTableSchema_format rfl (by decide)

/-- Sixteen of the longest entries. -/
def longestEntries : List SchemaEntry :=
  (text "abcdefghijklmnop").map fun c ↦ ⟨List.replicate (maxNameLen - 1) c, text "string"⟩

/-- A line with a seventeenth column that the loader does not see. -/
def overrunLine : Bytes := spellAll longestEntries ++ text "z:int"

theorem overruns_overrunLine : Overruns overrunLine longestEntries :=
  ⟨List.prefix_append _ _, by decide +kernel, rfl, by decide +kernel, by decide +kernel,
    by decide +kernel⟩

theorem loadTableSchema_overrun :
    ¬ ∀ schema, loadTableSchema (fun _ ↦ some overrunLine) (text "db") (text "t") = .ok schema ↔
      ∃ entries, IsFormat (firstLine overrunLine) entries ∧
        schema = schemaOf (text "t") (entries.map SchemaEntry.column) := by
  intro h
  have hline : firstLine overrunLine = overrunLine := by decide +kernel
  have hnul : nul ∉ firstLine overrunLine := by decide +kernel
  have hlen := overruns_overrunLine.le_length
  have hprefix : IsFormat ((firstLine overrunLine).take (maxSchemaLineLen - 1)) longestEntries := by
    rw [hline]
    exact (isFormat_take_iff hlen).mpr overruns_overrunLine
  have hload : loadTableSchema (fun _ ↦ some overrunLine) (text "db") (text "t") =
      .ok (schemaOf (text "t") (longestEntries.map SchemaEntry.column)) := by
    rw [loadTableSchema_eq_ok_iff _ hnul]
    · exact ⟨longestEntries, hprefix, rfl⟩
    · rfl
  obtain ⟨entries, hformat, -⟩ := (h _).mp hload
  rw [hline] at hformat
  exact absurd hformat.length_lt (Nat.not_lt.mpr hlen)

end SqlProc.Schema
