import SqlProc.Storage.Rows

/-!
# What the readers print

Library `Storage`. On a data file whose header is accepted and whose lines all decode, the
scans and the reads at offsets print the header and the rows they select.
-/

namespace SqlProc.Storage

open Base Front Index Schema Support

/-- A disk after more lines were printed. -/
def Disk.print (disk : Disk) (output : List Output) : Disk :=
  { disk with stdout := disk.stdout ++ output }

@[simp] theorem Disk.print_files (disk : Disk) (output : List Output) :
    (disk.print output).files = disk.files := rfl

@[simp] theorem Disk.print_print (disk : Disk) (xs ys : List Output) :
    (disk.print xs).print ys = disk.print (xs ++ ys) := by
  rw [print, print, print, List.append_assoc]

@[simp] theorem Disk.print_nil (disk : Disk) : disk.print [] = disk := by
  rw [print, List.append_nil]

/-- The line printed for the header. -/
def headerOutput (schema : TableSchema) (selected : List Nat) : Output :=
  .line (selectedText (schema.columns.map ColumnSchema.name) selected)

/-- The line printed for a row. -/
def rowOutput (selected : List Nat) (row : Nat × List Bytes) : Output :=
  .line (selectedText row.2 selected)

theorem printSelectedHeader_apply (schema : TableSchema) (selected : List Nat) (disk : Disk) :
    printSelectedHeader schema selected disk =
      (.ok (), disk.print [headerOutput schema selected]) := rfl

theorem printLine_apply (text : Bytes) (disk : Disk) :
    printLine text disk = (.ok (), disk.print [.line text]) := rfl

/-- A visit that prints the rows it keeps and goes on prints exactly those. -/
theorem visitRows_print (visit : Int → List Bytes → Exec Disk Bool) (selected : List Nat)
    (keep : List Bytes → Bool) {rows : List (Nat × List Bytes)}
    (hv : ∀ row ∈ rows, ∀ disk, visit row.1 row.2 disk =
      (.ok true, disk.print (if keep row.2 then [rowOutput selected row] else [])))
    (disk : Disk) :
    visitRows visit rows disk =
      (.ok (), disk.print ((rows.filter (keep ·.2)).map (rowOutput selected))) := by
  induction rows generalizing disk with
  | nil =>
    rw [List.filter_nil, List.map_nil, Disk.print_nil]
    rfl
  | cons row rows ih =>
    obtain ⟨hrow, hrest⟩ := List.forall_mem_cons.mp hv
    have htail := ih hrest (disk.print (if keep row.2 then [rowOutput selected row] else []))
    obtain ⟨position, values⟩ := row
    rw [visitRows, Exec.bind_ok (hrow disk), if_pos rfl, htail, Disk.print_print]
    cases hk : keep values with
    | true => rw [List.filter_cons_of_pos (by simpa using hk)]; rfl
    | false => rw [List.filter_cons_of_neg (by simp [hk])]; rfl

section Readers

variable {config : AppConfig} {schema : TableSchema} {disk : Disk} {content : Bytes}
  {rows : List (Nat × List Bytes)}

/-- `storage_print_rows` prints every row. -/
theorem storagePrintRows_spec (hf : disk.files (tablePath config schema.tableName) = some content)
    (hh : HeaderOk schema content) (hr : TableRows schema content rows) (selected : List Nat) :
    storagePrintRows config schema selected disk =
      (.ok (), disk.print (headerOutput schema selected :: rows.map (rowOutput selected))) := by
  obtain ⟨line, file, hget, hcheck, -, hscan⟩ := hh.fgets
  have hprint := visitRows_print
    (fun _ values ↦ do
      printLine (selectedText values selected)
      pure true)
    selected (fun _ ↦ true) (fun row (_ : row ∈ rows) disk ↦ rfl)
    (disk.print [headerOutput schema selected])
  rw [List.filter_true, Disk.print_print] at hprint
  rw [storagePrintRows, Exec.bind_ok (Exec.get_apply disk)]
  simp only [hf, hget]
  rw [Exec.bind_ok (by rw [Exec.lift_apply, hcheck]), Exec.bind_ok (printSelectedHeader_apply ..),
    hscan, forEachLine_eq_visitRows hr]
  exact hprint

/-- When `storage_print_rows` accepts a file with a valid header, every line after the header
is a row. -/
theorem exists_rows_of_storagePrintRows {selected : List Nat} {disk' : Disk}
    (hf : disk.files (tablePath config schema.tableName) = some content)
    (hh : HeaderOk schema content)
    (h : storagePrintRows config schema selected disk = (.ok (), disk')) :
    ∃ rows, TableRows schema content rows := by
  obtain ⟨line, file, hget, hcheck, -, hscan⟩ := hh.fgets
  rw [storagePrintRows, Exec.bind_ok (Exec.get_apply disk)] at h
  simp only [hf, hget] at h
  rw [Exec.bind_ok (by rw [Exec.lift_apply, hcheck]), Exec.bind_ok (printSelectedHeader_apply ..),
    hscan] at h
  refine exists_rows_of_forEachLine (fun _ values s b s' hv ↦ ?_) h
  rw [Exec.bind_ok (printLine_apply ..)] at hv
  exact (Except.ok.inj (Prod.mk.inj hv).1).symm

/-- When `storage_print_rows` accepts a file that is not empty, the file has a valid header. -/
theorem headerOk_of_storagePrintRows {selected : List Nat} {disk' : Disk}
    (hf : disk.files (tablePath config schema.tableName) = some content)
    (hn : nul ∉ content) (hne : content ≠ [])
    (h : storagePrintRows config schema selected disk = (.ok (), disk')) :
    HeaderOk schema content := by
  obtain ⟨p, hget⟩ := exists_fgets_start hn hne
  rw [storagePrintRows, Exec.bind_ok (Exec.get_apply disk)] at h
  simp only [hf, hget] at h
  obtain ⟨_, _, hcheck, -⟩ := Exec.bind_eq_ok_iff.mp h
  exact headerOk_of_checkHeader hn hget (Prod.mk.inj hcheck).1

/-- The table has no rows: its file is missing or empty. -/
theorem storagePrintRowsWhereEquals_empty
    (hf : disk.files (tablePath config schema.tableName) = none ∨
      disk.files (tablePath config schema.tableName) = some [])
    (selected : List Nat) (whereColumnIndex : Nat) (whereOperator : WhereOperator)
    (whereValue : LiteralValue) :
    storagePrintRowsWhereEquals config schema selected whereColumnIndex whereOperator whereValue
      disk = (.ok (), disk.print [headerOutput schema selected]) := by
  rw [storagePrintRowsWhereEquals, Exec.bind_ok (Exec.get_apply disk)]
  rcases hf with hf | hf
  · simp only [hf]
    rfl
  · simp only [hf]
    rfl

/-- `storage_print_rows_where_equals` prints the rows that match, when every row can be
compared. -/
theorem storagePrintRowsWhereEquals_spec {keep : List Bytes → Bool} {whereColumnIndex : Nat}
    {whereOperator : WhereOperator} {whereValue : LiteralValue}
    (hf : disk.files (tablePath config schema.tableName) = some content)
    (hh : HeaderOk schema content) (hr : TableRows schema content rows)
    (hk : ∀ row ∈ rows, csvValueMatchesWhere schema row.2 whereColumnIndex whereOperator
      whereValue = some (keep row.2)) (selected : List Nat) :
    storagePrintRowsWhereEquals config schema selected whereColumnIndex whereOperator whereValue
      disk = (.ok (), disk.print (headerOutput schema selected ::
        (rows.filter (keep ·.2)).map (rowOutput selected))) := by
  obtain ⟨line, file, hget, hcheck, -, hscan⟩ := hh.fgets
  rw [storagePrintRowsWhereEquals, Exec.bind_ok (Exec.get_apply disk)]
  simp only [hf, hget]
  rw [Exec.bind_ok (by rw [Exec.lift_apply, hcheck]), Exec.bind_ok (printSelectedHeader_apply ..),
    hscan, forEachLine_eq_visitRows hr]
  refine (visitRows_print _ selected keep (fun row hm disk ↦ ?_) _).trans ?_
  · simp only [hk row hm]
    cases keep row.2 with
    | true => rfl
    | false =>
      rw [if_neg (by decide), Disk.print_nil]
      rfl
  · rw [Disk.print_print]
    rfl

/-- A row comes from a line of the file. -/
theorem TableRows.line_of_mem {row : Nat × List Bytes} (hr : TableRows schema content rows)
    (hm : row ∈ rows) : ∃ line, (row.1, line) ∈ dataLines content ∧
      decodeRow schema line = .ok row.2 := by
  unfold TableRows at hr
  generalize dataLines content = ls at hr ⊢
  induction hr with
  | nil => cases hm
  | cons hp ht ih =>
    rename_i p row' _ _
    rcases List.mem_cons.mp hm with rfl | hm
    · refine ⟨p.2, ?_, hp.2⟩
      rw [hp.1]
      exact List.mem_cons_self
    · obtain ⟨line, hl, hd⟩ := ih hm
      exact ⟨line, List.mem_cons_of_mem _ hl, hd⟩

/-- A read at the offset of a row prints that row. -/
theorem printRowFromOpenFile_spec {file : CFile} (hc : file.content = content)
    (hn : nul ∉ content) (hr : TableRows schema content rows) {row : Nat × List Bytes}
    (hm : row ∈ rows) (selected : List Nat) (disk : Disk) :
    printRowFromOpenFile schema file row.1 selected disk =
      (.ok (), disk.print [rowOutput selected row]) := by
  obtain ⟨line, hl, hd⟩ := hr.line_of_mem hm
  obtain ⟨-, -, tail, hdrop, htail⟩ := drop_of_mem_records lf (List.mem_of_mem_tail hl)
  rw [Nat.sub_zero] at hdrop
  have hline : LineAt content row.1 line tail := by
    refine ⟨hdrop, sep_notMem_of_mem_records lf (List.mem_of_mem_tail hl), fun hmem ↦ hn ?_, htail⟩
    apply List.drop_subset row.1 content
    rw [hdrop]
    exact List.mem_append_left _ hmem
  have hseek : fseek file row.1 = some ⟨content, row.1, false⟩ := by
    rw [fseek, if_neg (by omega), hc, Int.toNat_natCast]
  obtain ⟨line', file', hget, hv, hfit⟩ :=
    fgets_line ⟨content, row.1, false⟩ hline rfl
  have hread := readRow_congr schema fun hfits ↦ (hfit hfits).1
  simp only [printRowFromOpenFile, hseek, hget]
  rw [Exec.bind_ok (by rw [Exec.lift_apply, hv, hread, hd])]
  rfl

/-- Reads at the offsets of rows print those rows. -/
theorem printRowsFromOpenFile_spec {file : CFile} (hc : file.content = content)
    (hn : nul ∉ content) (hr : TableRows schema content rows) {picked : List (Nat × List Bytes)}
    (hp : picked ⊆ rows) (selected : List Nat) (disk : Disk) :
    printRowsFromOpenFile schema file selected (picked.map fun row ↦ (row.1 : Int)) disk =
      (.ok (), disk.print (picked.map (rowOutput selected))) := by
  induction picked generalizing disk with
  | nil =>
    rw [List.map_nil, List.map_nil, Disk.print_nil]
    rfl
  | cons row picked ih =>
    obtain ⟨hrow, hrest⟩ := List.cons_subset.mp hp
    rw [List.map_cons, printRowsFromOpenFile,
      Exec.bind_ok (printRowFromOpenFile_spec hc hn hr hrow selected disk), ih hrest,
      Disk.print_print]
    rfl

/-- `storage_print_rows_at_offsets` on the offsets of rows. -/
theorem storagePrintRowsAtOffsets_spec {picked : List (Nat × List Bytes)}
    (hf : disk.files (tablePath config schema.tableName) = some content)
    (hh : HeaderOk schema content) (hr : TableRows schema content rows) (hp : picked ⊆ rows)
    (selected : List Nat) :
    storagePrintRowsAtOffsets config schema (picked.map fun row ↦ (row.1 : Int)) selected disk =
      (.ok (), disk.print (headerOutput schema selected :: picked.map (rowOutput selected))) := by
  rw [storagePrintRowsAtOffsets, Exec.bind_ok (printSelectedHeader_apply ..)]
  split
  · next h0 =>
    rw [List.length_map, List.length_eq_zero_iff] at h0
    rw [h0]
    rfl
  · obtain ⟨line, file, hget, hcheck, hcontent, -⟩ := hh.fgets
    rw [printRowsAtOffsets, Exec.bind_ok (Exec.get_apply _)]
    simp only [Disk.print_files, hf, hget]
    rw [Exec.bind_ok (by rw [Exec.lift_apply, hcheck]),
      printRowsFromOpenFile_spec hcontent hh.nul_notMem hr hp, Disk.print_print]
    rfl

/-- `storage_print_row_at_offset` is the read of at most one row. -/
theorem storagePrintRowAtOffset_eq {offset : Option Int} (h : ∀ o ∈ offset, 0 ≤ o)
    (selected : List Nat) :
    storagePrintRowAtOffset config schema (offset.getD (-1)) selected =
      storagePrintRowsAtOffsets config schema offset.toList selected := by
  cases offset with
  | none => rfl
  | some o =>
    have ho := h o rfl
    rw [Option.getD_some, storagePrintRowAtOffset, storagePrintRowsAtOffsets,
      if_neg (Int.not_lt.mpr ho), Option.toList_some, if_neg (by simp)]

end Readers

end SqlProc.Storage
