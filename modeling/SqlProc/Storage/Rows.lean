import SqlProc.Storage.Table
import SqlProc.Support.Records

/-!
# Scans read whole lines

Library `Storage`. On a file without terminators the loops of `src/storage.c` see exactly the
records between line feeds: each is handed whole to the CSV reader, with the position where
it starts, and a line that does not fit the buffer stops the scan instead of being cut.
-/

namespace SqlProc.Storage

open Base Front Index Schema Support

/-- A line, without its line feed, that `fgets` reads whole and `validate_line_length`
passes. -/
def fitsLine (line : Bytes) : Bool := line.length < maxCsvRowLen - 1

/-- What the checks on the header say about a line of the file. -/
def headerCheck (messages : HeaderMessages) (schema : TableSchema) (line : Bytes) :
    Except ErrorInfo Unit := checkHeader messages schema (fitsLine line) line

/-- The cells of a row, or the error that stops a scan at it. -/
def decodeRow (schema : TableSchema) (line : Bytes) : Except ErrorInfo (List Bytes) :=
  readRow schema (fitsLine line) line

/-- The lines of a file with the positions where they start. -/
abbrev lines (content : Bytes) : List (Nat × Bytes) := records lf 0 content

/-- The lines of a data file after the header. -/
abbrev dataLines (content : Bytes) : List (Nat × Bytes) := (lines content).tail

section Scan

variable {σ : Type}

/-- A scan over lines: hand the cells of each to `visit` until it says to stop. -/
def forEachLine (schema : TableSchema) (visit : Int → List Bytes → Exec σ Bool) :
    List (Nat × Bytes) → Exec σ Unit
  | [] => pure ()
  | (position, line) :: rest => do
    let values ← Exec.lift (decodeRow schema line)
    if ← visit position values then forEachLine schema visit rest else pure ()

/-- One `fgets` at a line: whether it is judged too long, how it is decoded when not, and
where the stream stands then. -/
theorem fgets_line (file : CFile) {line tail : Bytes}
    (h : LineAt file.content file.position line tail) (he : file.eof = false) :
    ∃ line' file', fgets maxCsvRowLen file = some (line', file') ∧
      validateLineLength line' maxCsvRowLen file' = fitsLine line ∧
      (fitsLine line = true →
        parseCsvLine line' = parseCsvLine line ∧ file'.content = file.content ∧
          file'.position = file.position + (line ++ tail.take 1).length ∧
          file'.eof = decide (tail = [])) := by
  by_cases hl : line.length < maxCsvRowLen - 1
  · refine ⟨_, _, fgets_of_lt h hl he, ?_, fun _ ↦ ⟨?_, rfl, rfl, rfl⟩⟩
    · rw [fitsLine, decide_eq_true hl, validateLineLength]
      rcases h.tail_eq with ⟨rfl, -⟩ | ⟨rest, rfl⟩
      · simp
      · simp
    · rcases h.tail_eq with ⟨rfl, -⟩ | ⟨rest, rfl⟩
      · rw [List.take_nil, List.append_nil]
      · exact parseCsvLine_append_lf line []
  · have hge := Nat.le_of_not_lt hl
    refine ⟨_, _, fgets_of_le h (by decide) hge he, ?_, fun hf ↦ ?_⟩
    · have hlast : (line.take (maxCsvRowLen - 1)).getLast? ≠ some lf := fun hm ↦
        h.lf_notMem (List.mem_of_mem_take (List.mem_of_getLast? hm))
      have hlen : (line.take (maxCsvRowLen - 1)).length = maxCsvRowLen - 1 := by
        rw [List.length_take, Nat.min_eq_left hge]
      rw [fitsLine, decide_eq_false hl, validateLineLength, decide_eq_true hlen,
        decide_eq_true hlast]
      rfl
    · exact absurd (of_decide_eq_true hf) hl

theorem checkHeader_congr {messages : HeaderMessages} {schema : TableSchema} {line line' : Bytes}
    (h : fitsLine line = true → parseCsvLine line' = parseCsvLine line) :
    checkHeader messages schema (fitsLine line) line' = headerCheck messages schema line := by
  unfold headerCheck checkHeader
  cases hf : fitsLine line with
  | false => rfl
  | true => simp only [h hf]

theorem readRow_congr (schema : TableSchema) {line line' : Bytes}
    (h : fitsLine line = true → parseCsvLine line' = parseCsvLine line) :
    readRow schema (fitsLine line) line' = decodeRow schema line := by
  unfold decodeRow readRow
  cases hf : fitsLine line with
  | false => rfl
  | true => simp only [h hf]

theorem fitsLine_of_decodeRow {schema : TableSchema} {line : Bytes} {cells : List Bytes}
    (h : decodeRow schema line = .ok cells) : fitsLine line = true := by
  cases hf : fitsLine line with
  | false =>
    rw [decodeRow, readRow, hf] at h
    cases h
  | true => rfl

/-- A stream that stands at the start of a line or at the end of its file. -/
structure AtLines (file : CFile) (content : Bytes) (rest : List (Nat × Bytes)) : Prop where
  content_eq : file.content = content
  nul_notMem : nul ∉ content
  records_eq : records lf file.position (content.drop file.position) = rest
  eof : file.eof = true → rest = []

theorem atLines_start {content : Bytes} (h : nul ∉ content) :
    AtLines (.start content) content (lines content) :=
  ⟨rfl, h, rfl, by simp [CFile.start]⟩

/-- A stream at its last line reads nothing. -/
theorem AtLines.fgets_nil {file : CFile} {content : Bytes} (h : AtLines file content []) :
    fgets maxCsvRowLen file = none := by
  apply fgets_eq_none
  rw [h.content_eq]
  cases hd : content.drop file.position with
  | nil => rfl
  | cons c cs =>
    have hr := h.records_eq
    rw [hd] at hr
    obtain ⟨_, _, he⟩ := records_cons lf file.position c cs
    rw [he] at hr
    cases hr

/-- A stream at a line: what `fgets` reads is judged and decoded like the line, and a line
that fits leaves the stream at the next one. -/
theorem AtLines.fgets_cons {file : CFile} {content : Bytes} {p : Nat × Bytes}
    {rest : List (Nat × Bytes)} (h : AtLines file content (p :: rest)) :
    p.1 = file.position ∧ ∃ line' file', fgets maxCsvRowLen file = some (line', file') ∧
      validateLineLength line' maxCsvRowLen file' = fitsLine p.2 ∧
      (fitsLine p.2 = true → parseCsvLine line' = parseCsvLine p.2 ∧
        AtLines file' content rest) := by
  obtain ⟨hp, hlf, tail, hx, htail⟩ := exists_of_records_eq_cons lf h.records_eq
  have heof : file.eof = false := by
    cases he : file.eof with
    | false => rfl
    | true => cases h.eof he
  have hline : LineAt file.content file.position p.2 tail := by
    rw [h.content_eq]
    refine ⟨hx, hlf, fun hm ↦ h.nul_notMem (List.drop_subset file.position content ?_), ?_⟩
    · rw [hx]
      exact List.mem_append_left _ hm
    · rcases htail with ⟨ht, hne, -⟩ | ⟨ys, ht, -⟩
      · exact Or.inl ⟨ht, hne⟩
      · exact Or.inr ⟨ys, ht⟩
  obtain ⟨line', file', hf, hv, hfit⟩ := fgets_line file hline heof
  refine ⟨hp, line', file', hf, hv, fun hfits ↦ ?_⟩
  obtain ⟨hparse, hcontent, hpos, heof'⟩ := hfit hfits
  refine ⟨hparse, hcontent.trans h.content_eq, h.nul_notMem, ?_, ?_⟩
  · rw [hpos, ← List.drop_drop, hx]
    rcases htail with ⟨rfl, -, rfl⟩ | ⟨ys, rfl, rfl⟩
    · simp
    · rw [List.take_succ_cons, List.take_zero, List.length_append, List.length_singleton]
      simp [Nat.add_assoc]
  · rw [heof']
    intro ht
    rcases htail with ⟨-, -, hr⟩ | ⟨ys, rfl, -⟩
    · exact hr
    · cases of_decide_eq_true ht

/-- The loop of the scans sees the lines that are left. -/
theorem forEachRow_eq (schema : TableSchema) (visit : Int → List Bytes → Exec σ Bool)
    {file : CFile} {content : Bytes} {rest : List (Nat × Bytes)} {fuel : Nat}
    (h : AtLines file content rest) (hfuel : rest.length ≤ fuel) :
    forEachRow schema visit fuel file = forEachLine schema visit rest := by
  induction fuel generalizing file rest with
  | zero =>
    obtain rfl : rest = [] := List.length_eq_zero_iff.mp (Nat.le_zero.mp hfuel)
    rfl
  | succ fuel ih =>
    cases rest with
    | nil =>
      rw [forEachRow, h.fgets_nil]
      rfl
    | cons p rest =>
      obtain ⟨hp, line', file', hf, hv, hfit⟩ := h.fgets_cons
      have hread := readRow_congr schema fun hfits ↦ (hfit hfits).1
      funext s
      obtain ⟨position, line⟩ := p
      simp only [forEachRow, forEachLine, hf, hv, hread, ftell, ← hp]
      cases hd : decodeRow schema line with
      | error e => rfl
      | ok values =>
        have hnext := ih (hfit (fitsLine_of_decodeRow hd)).2 (by simp at hfuel; omega)
        rw [hnext]

/-- A successful scan keeps what every successful visit keeps. -/
theorem forEachRow_preserves {schema : TableSchema} {visit : Int → List Bytes → Exec σ Bool}
    {P : σ → Prop} (hv : ∀ offset values s b s', P s → visit offset values s = (.ok b, s') → P s')
    {fuel : Nat} {file : CFile} {s s' : σ} (hs : P s)
    (h : forEachRow schema visit fuel file s = (.ok (), s')) : P s' := by
  induction fuel generalizing file s with
  | zero =>
    obtain rfl : s = s' := (Prod.mk.inj h).2
    exact hs
  | succ fuel ih =>
    rw [forEachRow] at h
    cases hf : fgets maxCsvRowLen file with
    | none =>
      simp only [hf] at h
      obtain rfl : s = s' := (Prod.mk.inj h).2
      exact hs
    | some p =>
      simp only [hf] at h
      obtain ⟨values, t, hread, h⟩ := Exec.bind_eq_ok_iff.mp h
      obtain ⟨-, rfl⟩ := Prod.mk.inj hread
      obtain ⟨goOn, t, hvisit, h⟩ := Exec.bind_eq_ok_iff.mp h
      have ht := hv _ _ _ _ _ hs hvisit
      cases goOn with
      | true => exact ih ht h
      | false =>
        obtain rfl : t = s' := (Prod.mk.inj h).2
        exact ht

end Scan

/-- The first `fgets` on a file that has a line: the header check, and a scan of the lines
after it when the header fits. -/
theorem fgets_header {content : Bytes} {header : Nat × Bytes} {rest : List (Nat × Bytes)}
    (hn : nul ∉ content) (hl : lines content = header :: rest) :
    ∃ line file, fgets maxCsvRowLen (.start content) = some (line, file) ∧
      (∀ messages schema, checkHeader messages schema
        (validateLineLength line maxCsvRowLen file) line = headerCheck messages schema header.2) ∧
      (fitsLine header.2 = true → file.content = content ∧
        ∀ (σ : Type) schema (visit : Int → List Bytes → Exec σ Bool),
          forEachRow schema visit content.length file = forEachLine schema visit rest) := by
  have hstart := atLines_start hn
  rw [hl] at hstart
  obtain ⟨-, line, file, hf, hv, hfit⟩ := hstart.fgets_cons
  refine ⟨line, file, hf, fun messages schema ↦ ?_, fun hfits ↦ ?_⟩
  · rw [hv]
    exact checkHeader_congr fun hfits ↦ (hfit hfits).1
  · have hlen : (lines content).length ≤ content.length := length_records_le lf 0 content
    rw [hl, List.length_cons] at hlen
    refine ⟨(hfit hfits).2.content_eq, fun σ schema visit ↦ ?_⟩
    exact forEachRow_eq schema visit (hfit hfits).2 (by omega)

/-- A file that is not empty has a first line. -/
theorem exists_fgets_start {content : Bytes} (hn : nul ∉ content) (hne : content ≠ []) :
    ∃ p, fgets maxCsvRowLen (.start content) = some p := by
  cases hl : lines content with
  | nil => exact absurd ((records_eq_nil_iff lf).mp hl) hne
  | cons header rest =>
    obtain ⟨line, file, hget, -⟩ := fgets_header hn hl
    exact ⟨_, hget⟩

/-- The header check of `ensure_data_file` and that of the readers differ in messages only. -/
theorem headerCheck_eq_ok_iff {messages : HeaderMessages} {schema : TableSchema} {line : Bytes} :
    headerCheck messages schema line = .ok () ↔
      fitsLine line = true ∧ parseCsvLine line = some (schema.columns.map ColumnSchema.name) := by
  unfold headerCheck checkHeader
  cases hf : fitsLine line with
  | false => simp
  | true =>
    cases hp : parseCsvLine line with
    | none => simp
    | some values =>
      simp only [Bool.not_true, Bool.false_eq_true, if_false, validateHeaderValues, true_and,
        Option.some.injEq]
      split
      · next hc =>
        constructor
        · intro h
          cases h
        · rintro rfl
          exact absurd (List.length_map _) hc
      · split
        · next hne =>
          constructor
          · intro h
            cases h
          · exact fun h ↦ absurd h hne
        · next heq => exact ⟨fun _ ↦ not_not.mp heq, fun _ ↦ rfl⟩

/-! ### The rows of a table -/

/-- A line and the row that it decodes to. -/
def DecodesTo (schema : TableSchema) (p : Nat × Bytes) (row : Nat × List Bytes) : Prop :=
  row.1 = p.1 ∧ decodeRow schema p.2 = .ok row.2

/-- The rows of a data file with the positions where their lines start. -/
def TableRows (schema : TableSchema) (content : Bytes) (rows : List (Nat × List Bytes)) : Prop :=
  List.Forall₂ (DecodesTo schema) (dataLines content) rows

/-- The rows of a data file are determined by its content. -/
theorem TableRows.unique {schema : TableSchema} {content : Bytes}
    {rows rows' : List (Nat × List Bytes)} (h : TableRows schema content rows)
    (h' : TableRows schema content rows') : rows = rows' := by
  unfold TableRows at h h'
  generalize dataLines content = ls at h h'
  induction h generalizing rows' with
  | nil =>
    cases h'
    rfl
  | cons hp ht ih =>
    cases h' with
    | cons hp' ht' =>
      rename_i p row _ rs row' rs'
      have hrow : row = row' := by
        apply Prod.ext (hp.1.trans hp'.1.symm)
        have := hp.2.symm.trans hp'.2
        exact Except.ok.inj this
      rw [hrow, ih ht']

theorem decodeRow_eq_ok_iff {schema : TableSchema} {line : Bytes} {cells : List Bytes} :
    decodeRow schema line = .ok cells ↔
      fitsLine line = true ∧ parseCsvLine line = some cells ∧
        cells.length = schema.columnCount := by
  unfold decodeRow readRow
  cases hf : fitsLine line with
  | false => simp
  | true =>
    cases hp : parseCsvLine line with
    | none => simp
    | some values =>
      simp only [Bool.not_true, Bool.false_eq_true, if_false, true_and, Option.some.injEq]
      split
      · next hc =>
        constructor
        · intro h
          cases h
        · rintro ⟨rfl, h⟩
          exact absurd h hc
      · next hc =>
        constructor
        · intro h
          obtain rfl := Except.ok.inj h
          exact ⟨rfl, not_not.mp hc⟩
        · rintro ⟨rfl, -⟩
          rfl

/-! ### Files whose header is accepted -/

/-- A file without terminators whose first line is accepted as header. -/
structure HeaderOk (schema : TableSchema) (content : Bytes) : Prop where
  nul_notMem : nul ∉ content
  header : ∃ header, lines content = header :: dataLines content ∧ fitsLine header.2 = true ∧
    parseCsvLine header.2 = some (schema.columns.map ColumnSchema.name)

/-- Every operation accepts such a header, whatever its messages. -/
theorem HeaderOk.fgets {schema : TableSchema} {content : Bytes} (h : HeaderOk schema content) :
    ∃ line file, fgets maxCsvRowLen (.start content) = some (line, file) ∧
      (∀ messages, checkHeader messages schema
        (validateLineLength line maxCsvRowLen file) line = .ok ()) ∧
      file.content = content ∧
        ∀ (σ : Type) (visit : Int → List Bytes → Exec σ Bool),
          forEachRow schema visit content.length file =
            forEachLine schema visit (dataLines content) := by
  obtain ⟨header, hl, hfits, hparse⟩ := h.header
  obtain ⟨line, file, hf, hcheck, hscan⟩ := fgets_header h.nul_notMem hl
  obtain ⟨hcontent, hscan⟩ := hscan hfits
  refine ⟨line, file, hf, fun messages ↦ ?_, hcontent, fun σ visit ↦ hscan σ schema visit⟩
  rw [hcheck, headerCheck_eq_ok_iff]
  exact ⟨hfits, hparse⟩

/-- An accepted first line is a header of the schema. -/
theorem headerOk_of_checkHeader {schema : TableSchema} {content line : Bytes} {file : CFile}
    {messages : HeaderMessages} (hn : nul ∉ content)
    (hf : fgets maxCsvRowLen (.start content) = some (line, file))
    (hc : checkHeader messages schema (validateLineLength line maxCsvRowLen file) line = .ok ()) :
    HeaderOk schema content := by
  cases hl : lines content with
  | nil =>
    have hstart := atLines_start hn
    rw [hl] at hstart
    rw [hstart.fgets_nil] at hf
    cases hf
  | cons header rest =>
    obtain ⟨line', file', hf', hcheck, -⟩ := fgets_header hn hl
    obtain ⟨rfl, rfl⟩ : line' = line ∧ file' = file := by
      rw [hf] at hf'
      simpa [eq_comm] using hf'
    rw [hcheck, headerCheck_eq_ok_iff] at hc
    refine ⟨hn, header, ?_, hc⟩
    rw [dataLines, hl]
    rfl

section Visit

variable {σ : Type}

/-- The rows handed to `visit` one after the other, until it says to stop. -/
def visitRows (visit : Int → List Bytes → Exec σ Bool) : List (Nat × List Bytes) → Exec σ Unit
  | [] => pure ()
  | (position, values) :: rest => do
    if ← visit position values then visitRows visit rest else pure ()

/-- A scan over lines that all decode visits their rows. -/
theorem forEachLine_eq_visitRows {schema : TableSchema} {visit : Int → List Bytes → Exec σ Bool}
    {ls : List (Nat × Bytes)} {rows : List (Nat × List Bytes)}
    (h : List.Forall₂ (DecodesTo schema) ls rows) :
    forEachLine schema visit ls = visitRows visit rows := by
  induction h with
  | nil => rfl
  | cons hp ht ih =>
    rename_i p row ls rows
    obtain ⟨position, line⟩ := p
    obtain ⟨position', values⟩ := row
    obtain ⟨rfl, hd⟩ := hp
    funext s
    rw [forEachLine, visitRows, Exec.bind_ok (a := values) (by rw [hd]; rfl), ih]

/-- A scan that succeeds without being stopped has decoded every line. -/
theorem exists_rows_of_forEachLine {schema : TableSchema}
    {visit : Int → List Bytes → Exec σ Bool}
    (hv : ∀ offset values s b s', visit offset values s = (.ok b, s') → b = true)
    {ls : List (Nat × Bytes)} {s s' : σ} (h : forEachLine schema visit ls s = (.ok (), s')) :
    ∃ rows, List.Forall₂ (DecodesTo schema) ls rows := by
  induction ls generalizing s with
  | nil => exact ⟨[], .nil⟩
  | cons p ls ih =>
    obtain ⟨position, line⟩ := p
    obtain ⟨values, t, hread, h⟩ := Exec.bind_eq_ok_iff.mp h
    obtain ⟨hdecode, rfl⟩ := Prod.mk.inj hread
    obtain ⟨goOn, t, hvisit, h⟩ := Exec.bind_eq_ok_iff.mp h
    obtain rfl := hv _ _ _ _ _ hvisit
    obtain ⟨rows, hrows⟩ := ih h
    exact ⟨(position, values) :: rows, .cons ⟨rfl, hdecode⟩ hrows⟩

end Visit

end SqlProc.Storage
