import SqlProc.Storage.Rows

/-!
# Appending a row

Library `Storage`. `storage_append_row` fails before it has written anything, or it adds one
row after the others; every earlier row keeps its place. The header that it writes into a new
file is accepted later unless a column name holds a double quote.
-/

namespace SqlProc.Storage

open Base Front Index Schema Support

variable {config : AppConfig} {schema : TableSchema} {disk : Disk}

/-! ### The content that a row is appended to -/

/-- The content to which `storage_append_row` appends: that of a new file, or that of the
old one with its last line ended. -/
def appendBase (schema : TableSchema) : Option Bytes → Bytes
  | none => headerLine schema
  | some content => ensureAppendStartsOnNewLine content

theorem terminated_headerLine (schema : TableSchema) : Terminated lf (headerLine schema) :=
  Or.inr ⟨_, rfl⟩

/-- The repair ends the last line. -/
theorem terminated_ensureAppend (content : Bytes) :
    Terminated lf (ensureAppendStartsOnNewLine content) := by
  unfold ensureAppendStartsOnNewLine
  split
  · next h => exact Or.inl h
  · next hne =>
    split
    · exact Or.inr ⟨content, rfl⟩
    · next hlast =>
      rw [not_not] at hlast
      exact Or.inr ⟨content.dropLast, (List.dropLast_append_getLast? lf hlast).symm⟩

/-- The repair changes no line. -/
theorem lines_ensureAppend (content : Bytes) :
    lines (ensureAppendStartsOnNewLine content) = lines content := by
  unfold ensureAppendStartsOnNewLine
  split
  · rfl
  · next hne =>
    split
    · next hlast =>
      apply records_append_singleton_of_not_terminated lf 0
      rintro (h | ⟨ys, rfl⟩)
      · exact hne h
      · exact hlast List.getLast?_concat
    · rfl

theorem mem_ensureAppend {content : Bytes} {c : UInt8}
    (h : c ∈ ensureAppendStartsOnNewLine content) : c ∈ content ∨ c = lf := by
  unfold ensureAppendStartsOnNewLine at h
  split at h
  · exact Or.inl h
  · split at h
    · simpa using h
    · exact Or.inl h

theorem terminated_appendBase (schema : TableSchema) (file : Option Bytes) :
    Terminated lf (appendBase schema file) := by
  cases file with
  | none => exact terminated_headerLine schema
  | some content => exact terminated_ensureAppend content

/-- The text of the header that `ensure_data_file` writes. -/
abbrev headerText (schema : TableSchema) : Bytes :=
  joinFields (schema.columns.map ColumnSchema.name)

/-- The header of a valid schema is one line that fits the buffer. -/
theorem headerText_oneLine (hv : Valid schema) :
    OneLine (headerText schema) ∧ fitsLine (headerText schema) = true := by
  constructor
  · exact oneLine_joinFields (List.forall_mem_map.mpr fun column hm ↦
      (hv.names column hm).oneLine)
  · have hlen := length_joinFields_lt
      (List.forall_mem_map.mpr fun column hm ↦ Nat.le_of_lt (hv.names column hm).length_lt)
      (by rw [List.length_map]; exact hv.length_le)
    simp only [maxColumns, maxNameLen] at hlen
    simp only [headerText, fitsLine, maxCsvRowLen, maxCsvFieldLen, maxStringTextLen, maxValueLen,
      maxColumns, decide_eq_true_eq]
    omega

/-- A new file has one line, its header. -/
theorem lines_headerLine (hv : Valid schema) :
    lines (headerLine schema) = [(0, headerText schema)] :=
  records_line lf 0 (headerText_oneLine hv).1.lf_notMem

/-- The base of an append has the rows that the file had. -/
theorem dataLines_appendBase (hv : Valid schema) (file : Option Bytes) :
    dataLines (appendBase schema file) = dataLines (file.getD []) := by
  cases file with
  | none =>
    rw [appendBase, dataLines, lines_headerLine hv]
    rfl
  | some content =>
    rw [appendBase, dataLines, lines_ensureAppend]
    rfl

/-! ### The new row -/

/-- A row on its own line comes after the lines of a terminated file. -/
theorem lines_append_row {base row : Bytes} (hb : Terminated lf base) (hr : lf ∉ row) :
    lines (base ++ (row ++ [lf])) = lines base ++ [(base.length, row)] := by
  rw [lines, records_append_of_terminated lf 0 hb, Nat.zero_add, records_line lf _ hr]

/-- A written row decodes to its values. -/
theorem decodeRow_writeCsvRow {values : List Bytes} (hc : ∀ v ∈ values, ValidCell v)
    (hne : values ≠ []) (hl : values.length = schema.columnCount) (hv : Valid schema) :
    decodeRow schema (joinFields (values.map writeCsvField)) = .ok values := by
  have hmax : values.length ≤ maxColumns := hl.trans_le hv.length_le
  rw [decodeRow_eq_ok_iff, fitsLine, decide_eq_true_eq]
  exact ⟨(fields_oneLine hc hmax).2, parseCsvLine_fields hc hne hmax, hl⟩

/-- Appending a row adds it after the others. -/
theorem TableRows.append {rows : List (Nat × List Bytes)} {file : Option Bytes}
    {values : List Bytes} (hr : TableRows schema (file.getD []) rows) (hv : Valid schema)
    (hbase : lines (appendBase schema file) ≠ []) (hc : ∀ v ∈ values, ValidCell v)
    (hne : values ≠ []) (hl : values.length = schema.columnCount) :
    TableRows schema (appendBase schema file ++ writeCsvRow values)
      (rows ++ [((appendBase schema file).length, values)]) := by
  have hline := (fields_oneLine hc (hl.trans_le hv.length_le)).1
  have htail : dataLines (appendBase schema file ++ writeCsvRow values) =
      dataLines (file.getD []) ++
        [((appendBase schema file).length, joinFields (values.map writeCsvField))] := by
    rw [dataLines, writeCsvRow,
      lines_append_row (terminated_appendBase schema file) hline.lf_notMem,
      List.tail_append_of_ne_nil hbase, ← dataLines_appendBase hv]
  rw [TableRows, htail]
  refine List.rel_append hr (.cons ⟨rfl, ?_⟩ .nil)
  exact decodeRow_writeCsvRow hc hne hl hv

/-- A header that was accepted is accepted after an append. -/
theorem HeaderOk.append {base suffix : Bytes} (h : HeaderOk schema base)
    (hb : Terminated lf base) (hn : nul ∉ suffix) : HeaderOk schema (base ++ suffix) := by
  obtain ⟨header, hl, hh⟩ := h.header
  refine ⟨fun hm ↦ ?_, header, ?_, hh⟩
  · rcases List.mem_append.mp hm with hm | hm
    · exact h.nul_notMem hm
    · exact hn hm
  · rw [dataLines, lines, records_append_of_terminated lf 0 hb, ← lines, hl]
    rfl

/-- The repair keeps the header. -/
theorem HeaderOk.ensureAppend {content : Bytes} (h : HeaderOk schema content) :
    HeaderOk schema (ensureAppendStartsOnNewLine content) := by
  obtain ⟨header, hl, hh⟩ := h.header
  refine ⟨fun hm ↦ ?_, header, ?_, hh⟩
  · rcases mem_ensureAppend hm with hm | hm
    · exact h.nul_notMem hm
    · exact absurd hm (by decide)
  · rw [dataLines, lines_ensureAppend]
    exact hl

/-- A written row holds no terminator. -/
theorem nul_notMem_writeCsvRow {values : List Bytes} (hc : ∀ v ∈ values, ValidCell v)
    (hl : values.length ≤ maxColumns) : nul ∉ writeCsvRow values := by
  rw [writeCsvRow, List.mem_append, List.mem_singleton, not_or]
  exact ⟨(fields_oneLine hc hl).1.nul_notMem, by decide⟩

/-! ### The whole operation -/

/-- A disk after a file was written. -/
def Disk.write (disk : Disk) (path content : Bytes) : Disk :=
  { disk with files := Function.update disk.files path (some content) }

theorem writeFile_apply (path content : Bytes) (disk : Disk) :
    writeFile path content disk = (.ok (), disk.write path content) := rfl

@[simp] theorem Disk.write_files_self (disk : Disk) (path content : Bytes) :
    (disk.write path content).files path = some content := Function.update_self ..

theorem Disk.write_files_of_ne (disk : Disk) {path path' : Bytes} (h : path' ≠ path)
    (content : Bytes) : (disk.write path content).files path' = disk.files path' :=
  Function.update_of_ne h ..

@[simp] theorem Disk.write_write (disk : Disk) (path content content' : Bytes) :
    (disk.write path content).write path content' = disk.write path content' := by
  rw [write, write, write, Function.update_idem]

/-- The files that `storage_append_row` appends to: a missing one, or one whose first line it
accepts. -/
def Appendable (schema : TableSchema) : Option Bytes → Prop
  | none => True
  | some content => ∃ line file, fgets maxCsvRowLen (.start content) = some (line, file) ∧
      checkHeader dataFileMessages schema (validateLineLength line maxCsvRowLen file) line =
        .ok ()

/-- `storage_append_row` on a file that it accepts. -/
theorem storageAppendRow_of_appendable {path : Bytes}
    (hp : tablePath config schema.tableName = path) (h : Appendable schema (disk.files path))
    (values : List Bytes) :
    storageAppendRow config schema values disk =
      (.ok (appendBase schema (disk.files path)).length,
        disk.write path (appendBase schema (disk.files path) ++ writeCsvRow values)) := by
  cases hf : disk.files path with
  | none =>
    have hensure : ensureDataFile config schema disk =
        (.ok (), disk.write path (headerLine schema)) := by
      rw [ensureDataFile, Exec.bind_ok (Exec.get_apply disk)]
      simp only [hp, hf]
      rfl
    have hbase : ensureAppendStartsOnNewLine (headerLine schema) = headerLine schema := by
      rw [ensureAppendStartsOnNewLine, if_neg (by simp [headerLine]), if_neg (by simp [headerLine])]
    rw [storageAppendRow, Exec.bind_ok hensure, Exec.bind_ok (Exec.get_apply _)]
    simp only [hp, Disk.write_files_self, Option.getD_some, hbase, appendBase]
    rw [Exec.bind_ok (writeFile_apply ..), Exec.pure_apply, Disk.write_write]
  | some content =>
    rw [hf] at h
    obtain ⟨line, file, hget, hcheck⟩ := h
    have hensure : ensureDataFile config schema disk = (.ok (), disk) := by
      rw [ensureDataFile, Exec.bind_ok (Exec.get_apply disk)]
      simp only [hp, hf, hget, hcheck]
      rfl
    rw [storageAppendRow, Exec.bind_ok hensure, Exec.bind_ok (Exec.get_apply _)]
    simp only [hp, hf, Option.getD_some, appendBase]
    rw [Exec.bind_ok (writeFile_apply ..), Exec.pure_apply]

/-- `storage_append_row` creates a missing file. -/
theorem storageAppendRow_of_none (hd : disk.files (tablePath config schema.tableName) = none)
    (values : List Bytes) :
    storageAppendRow config schema values disk =
      (.ok (headerLine schema).length,
        disk.write (tablePath config schema.tableName)
          (headerLine schema ++ writeCsvRow values)) := by
  have h := storageAppendRow_of_appendable
    rfl (by rw [hd]; trivial) values
  rw [hd] at h
  exact h

/-- `storage_append_row` on a file that it does not accept fails and writes nothing. -/
theorem storageAppendRow_of_not_appendable
    (h : ¬ Appendable schema (disk.files (tablePath config schema.tableName)))
    (values : List Bytes) :
    ∃ e, storageAppendRow config schema values disk = (.error e, disk) := by
  obtain ⟨e, he⟩ : ∃ e, ensureDataFile config schema disk = (.error e, disk) := by
    rw [ensureDataFile, Exec.bind_ok (Exec.get_apply disk)]
    cases hf : disk.files (tablePath config schema.tableName) with
    | none =>
      rw [hf] at h
      exact absurd trivial h
    | some content =>
      rw [hf] at h
      cases hget : fgets maxCsvRowLen (.start content) with
      | none =>
        simp only [hget]
        exact ⟨_, rfl⟩
      | some p =>
        cases hcheck : checkHeader dataFileMessages schema
            (validateLineLength p.1 maxCsvRowLen p.2) p.1 with
        | error e => exact ⟨e, by simp only [hget, hcheck, Exec.lift_apply]⟩
        | ok u => exact absurd ⟨p.1, p.2, hget, hcheck⟩ h
  exact ⟨e, Exec.bind_error he _⟩

/-- An existing file that takes a row has an accepted header. -/
theorem headerOk_of_appendable {content : Bytes} (hn : nul ∉ content)
    (h : Appendable schema (some content)) : HeaderOk schema content := by
  obtain ⟨line, file, hget, hcheck⟩ := h
  exact headerOk_of_checkHeader hn hget hcheck

/-- What a row is appended to has a first line. -/
theorem lines_appendBase_ne_nil {file : Option Bytes} (hv : Valid schema)
    (hn : nul ∉ file.getD []) (h : Appendable schema file) :
    lines (appendBase schema file) ≠ [] := by
  cases file with
  | none =>
    rw [appendBase, lines_headerLine hv]
    exact List.cons_ne_nil _ _
  | some content =>
    obtain ⟨header, hl, -⟩ := (headerOk_of_appendable hn h).header
    rw [Option.getD_some] at hl
    rw [appendBase, lines_ensureAppend, hl]
    exact List.cons_ne_nil _ _

/-- What a row is appended to holds no terminator. -/
theorem nul_notMem_appendBase (file : Option Bytes) (hv : Valid schema)
    (hn : nul ∉ file.getD []) : nul ∉ appendBase schema file := by
  cases file with
  | none =>
    rw [appendBase, headerLine, List.mem_append, List.mem_singleton, not_or]
    exact ⟨(headerText_oneLine hv).1.nul_notMem, by decide⟩
  | some content =>
    intro hm
    rcases mem_ensureAppend hm with hm | hm
    · exact hn hm
    · exact absurd hm (by decide)

/-! ### The header of a new file -/

/-- The first line of a file is read as the names of the columns, and every operation accepts
it. -/
def HeaderReadsBack (schema : TableSchema) (content : Bytes) : Prop :=
  ∃ line file, fgets maxCsvRowLen (.start content) = some (line, file) ∧
    parseCsvLine line = some (schema.columns.map ColumnSchema.name) ∧
    ∀ messages, checkHeader messages schema
      (validateLineLength line maxCsvRowLen file) line = .ok ()

/-- The header text is read as the names unless one of them holds a double quote. -/
theorem parseCsvLine_headerText_iff (hv : Valid schema) (hne : schema.columns ≠ []) :
    parseCsvLine (headerText schema) = some (schema.columns.map ColumnSchema.name) ↔
      ∀ column ∈ schema.columns, dquote ∉ column.name := by
  have hnames : schema.columns.map ColumnSchema.name ≠ [] := by simpa using hne
  constructor
  · intro h column hm
    exact dquote_notMem_of_parseCsvLine hnames h _ (List.mem_map_of_mem hm)
  · intro h
    refine parseCsvLine_joinFields (List.forall₂_same.mpr fun name hn ↦ ?_) hnames
      (by rw [List.length_map]; exact hv.length_le)
    obtain ⟨column, hm, rfl⟩ := List.mem_map.mp hn
    have hname := hv.names column hm
    exact encodes_self hname.oneLine hname.comma_notMem (h column hm) hname.length_lt

/-- `fgets` at the start of a file that begins with a written header. -/
theorem fgets_headerLine (hv : Valid schema) (later : Bytes) :
    ∃ line file, fgets maxCsvRowLen (.start (headerLine schema ++ later)) = some (line, file) ∧
      parseCsvLine line = parseCsvLine (headerText schema) ∧
      ∀ messages, checkHeader messages schema (validateLineLength line maxCsvRowLen file) line =
        headerCheck messages schema (headerText schema) := by
  obtain ⟨hone, hfits⟩ := headerText_oneLine hv
  have hline : LineAt (headerLine schema ++ later) 0 (headerText schema) (lf :: later) :=
    ⟨by rw [headerLine, List.append_assoc]; rfl, hone.lf_notMem, hone.nul_notMem,
      Or.inr ⟨later, rfl⟩⟩
  obtain ⟨line, file, hget, hv, hfit⟩ :=
    fgets_line (.start (headerLine schema ++ later)) hline rfl
  refine ⟨line, file, hget, (hfit hfits).1, fun messages ↦ ?_⟩
  rw [hv]
  exact checkHeader_congr fun h ↦ (hfit h).1

/-- A written header reads back, whatever follows it, unless a name holds a double quote. -/
theorem headerReadsBack_headerLine_iff (hv : Valid schema) (hne : schema.columns ≠ [])
    (later : Bytes) : HeaderReadsBack schema (headerLine schema ++ later) ↔
      ∀ column ∈ schema.columns, dquote ∉ column.name := by
  obtain ⟨line, file, hget, hparse, hcheck⟩ := fgets_headerLine hv later
  rw [← parseCsvLine_headerText_iff hv hne, ← hparse]
  constructor
  · rintro ⟨line', file', hget', h, -⟩
    obtain ⟨rfl, -⟩ := Prod.mk.inj (Option.some.inj (hget.symm.trans hget'))
    exact h
  · intro h
    refine ⟨line, file, hget, h, fun messages ↦ ?_⟩
    rw [hcheck, headerCheck_eq_ok_iff, ← hparse]
    exact ⟨(headerText_oneLine hv).2, h⟩

/-- The header of a new file has no double quote when it is accepted later. -/
theorem headerOk_headerLine (hv : Valid schema) (hne : schema.columns ≠ [])
    (hq : ∀ column ∈ schema.columns, dquote ∉ column.name) :
    HeaderOk schema (headerLine schema) := by
  have hl := lines_headerLine hv
  refine ⟨?_, (0, headerText schema), by rw [dataLines, hl]; rfl, (headerText_oneLine hv).2,
    (parseCsvLine_headerText_iff hv hne).mpr hq⟩
  exact nul_notMem_appendBase none hv (by simp)

/-- When `storage_append_row` creates the file of a table, the header that it writes reads back
now and after any later append exactly when no column name holds a double quote. -/
theorem storageAppendRow_headerReadsBack_iff {files : Files} {schemaDir tableName : Bytes}
    (hs : loadTableSchema files schemaDir tableName = .ok schema)
    (hd : disk.files (tablePath config schema.tableName) = none) (values : List Bytes)
    (later : Bytes) :
    (∃ offset disk' content, storageAppendRow config schema values disk = (.ok offset, disk') ∧
      disk'.files (tablePath config schema.tableName) = some content ∧
      HeaderReadsBack schema (content ++ later)) ↔
      ∀ column ∈ schema.columns, dquote ∉ column.name := by
  obtain ⟨hv, hne⟩ := loadTableSchema_valid hs
  have happend := storageAppendRow_of_none hd values
  rw [← headerReadsBack_headerLine_iff hv hne (writeCsvRow values ++ later),
    ← List.append_assoc]
  constructor
  · rintro ⟨offset, disk', content, hrun, hf, h⟩
    rw [happend] at hrun
    obtain ⟨-, rfl⟩ := Prod.mk.inj hrun
    rw [Disk.write_files_self] at hf
    obtain rfl := Option.some.inj hf
    exact h
  · intro h
    exact ⟨_, _, _, happend, Disk.write_files_self .., h⟩

/-- The directories `s` and `d`. -/
def sampleConfig : AppConfig := ⟨text "s", text "d", by decide, by decide⟩

/-- The files of a process when `s/t.schema` is the only one. -/
def schemaFiles (line : Bytes) : Files := fun path ↦
  if path = text "s/t.schema" then some line else none

theorem storageAppendRow_headerReadsBack_people :
    ∃ offset disk' content, storageAppendRow sampleConfig
        ⟨text "t", some 0, [⟨text "id", .int⟩, ⟨text "name", .string⟩]⟩ [text "1", text "x"]
        ⟨schemaFiles (text "id:int,name:string\n"), []⟩ = (.ok offset, disk') ∧
      disk'.files (text "d/t.csv") = some content ∧
      HeaderReadsBack ⟨text "t", some 0, [⟨text "id", .int⟩, ⟨text "name", .string⟩]⟩
        (content ++ text "2,y\n") := by
  have hs : loadTableSchema (schemaFiles (text "id:int,name:string\n")) (text "s") (text "t") =
      .ok ⟨text "t", some 0, [⟨text "id", .int⟩, ⟨text "name", .string⟩]⟩ := rfl
  exact (storageAppendRow_headerReadsBack_iff hs rfl _ _).mpr (by simp; decide)

/-- A column name with a double quote. -/
theorem not_headerReadsBack_quote :
    ∃ schema offset disk' content,
      loadTableSchema (schemaFiles (text "id:int,a\"b:string\n")) (text "s") (text "t") =
        .ok schema ∧
      storageAppendRow sampleConfig schema [text "1", text "x"]
        ⟨schemaFiles (text "id:int,a\"b:string\n"), []⟩ = (.ok offset, disk') ∧
      disk'.files (tablePath sampleConfig schema.tableName) = some content ∧
      ¬ HeaderReadsBack schema content := by
  have hs : loadTableSchema (schemaFiles (text "id:int,a\"b:string\n")) (text "s") (text "t") =
      .ok ⟨text "t", some 0, [⟨text "id", .int⟩, ⟨text "a\"b", .string⟩]⟩ := rfl
  obtain ⟨hv, hne⟩ := loadTableSchema_valid hs
  refine ⟨_, _, _, _, hs, storageAppendRow_of_none rfl _, Disk.write_files_self .., ?_⟩
  rw [headerReadsBack_headerLine_iff hv hne]
  intro h
  exact h ⟨text "a\"b", .string⟩ (by simp) (by decide)

end SqlProc.Storage
