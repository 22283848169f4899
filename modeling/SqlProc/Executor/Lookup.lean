import SqlProc.Executor.Select
import SqlProc.Storage.SameOn
import Mathlib.Data.Nat.Log

/-!
# What a lookup reads

Library `Executor`. A SELECT on the key of a table with a slot goes down the index by few nodes,
and reads few lines of the data file: the header and the rows that it shows. What else the file
holds does not matter.
-/

namespace SqlProc.Executor

open Base Base.Exec Front Index Schema Storage Support

variable {config : AppConfig} {schema : TableSchema} {primaryKeyIndex : Nat} {w w₀ : World}
  {slot : TableRuntimeState} {programs : List SqlProgram} {index : PkIndex}
  {rows : List (Nat × List Bytes)} {statement : SelectStatement} {selected : List Nat} {v : Int}
  {P : Bytes → Prop} {out out' : List Output} {content content' : Bytes}

/-! ### The way down the index -/

/-- A stored tree is not deeper than the binary logarithm of its entries. -/
theorem depth_le_log {tree : BPlusTree} {n : Nat} {t : BPlus Int Int n} (h : Stores tree n t) :
    n + 1 ≤ max 1 (Nat.log 2 (BPlus.entries n t).length) := by
  cases n with
  | zero => exact Nat.le_max_left ..
  | succ n =>
    have hfill : BPlus.Filled bptreeMaxKeys 2 (n + 1) t := h.filled
    have hpow := hfill.pow_le_length (by decide) (by decide)
    exact (Nat.le_log_of_pow_le (by decide) hpow).trans (Nat.le_max_right ..)

/-- The leaf of a key is reached by few nodes. -/
theorem exists_findLeaf (index : PkIndex) {root : NodePtr} (hroot : index.tree.root = some root)
    (key : Int) : ∃ leaf, findLeaf index.tree key = some (some leaf) ∧
      descendToLeaf (max 1 (Nat.log 2 index.entries.length)) index.tree.heap root key =
        some leaf := by
  generalize hes : index.entries = es
  have hrep := index.represents
  rw [hes] at hrep
  cases hrep with
  | empty h =>
    rw [h] at hroot
    cases hroot
  | stored n t h =>
    obtain rfl := Option.some.inj (h.root.symm.trans hroot)
    obtain ⟨hlong, -⟩ := descendToLeaf_spec h.depth_lt h.holds key
    obtain ⟨hshort, -⟩ := descendToLeaf_spec (depth_le_log h) h.holds key
    refine ⟨_, ?_, hshort⟩
    rw [findLeaf, h.root]
    simp only [hlong, Option.map_some]

/-- The index has an entry for every line after the header. -/
theorem length_entries (hr : TableRows schema content rows)
    (hindex : Indexes primaryKeyIndex rows index) :
    index.entries.length = (dataLines content).length := by
  have hlen := hindex.length_eq
  rw [List.length_map, List.length_map] at hlen
  rw [hlen]
  exact (List.Forall₂.length_eq hr).symm

/-! ### The lines that are read -/

/-- What `fgets` reads at a place of a data file: a line, and whether it fits the buffer. -/
def readAt (content : Bytes) (position : Nat) : Option (Bytes × Bool) :=
  (fgets maxCsvRowLen ⟨content, position, false⟩).map fun p ↦
    (p.1, validateLineLength p.1 maxCsvRowLen p.2)

/-- Two places that are read alike: at both there is nothing, or a line of the same text and
length. -/
theorem readAt_eq {position position' : Nat}
    (h : readAt content' position' = readAt content position) :
    fgets maxCsvRowLen ⟨content, position, false⟩ = none ∧
        fgets maxCsvRowLen ⟨content', position', false⟩ = none ∨
      ∃ line file file', fgets maxCsvRowLen ⟨content, position, false⟩ = some (line, file) ∧
        fgets maxCsvRowLen ⟨content', position', false⟩ = some (line, file') ∧
        validateLineLength line maxCsvRowLen file' = validateLineLength line maxCsvRowLen file := by
  unfold readAt at h
  cases hread : fgets maxCsvRowLen ⟨content, position, false⟩ with
  | none =>
    rw [hread, Option.map_none, Option.map_eq_none_iff] at h
    exact Or.inl ⟨rfl, h⟩
  | some p =>
    obtain ⟨line, file⟩ := p
    rw [hread, Option.map_some] at h
    obtain ⟨⟨line', file'⟩, hread', hsame⟩ := Option.map_eq_some_iff.mp h
    obtain ⟨rfl, hfits⟩ := Prod.mk.inj hsame
    exact Or.inr ⟨line', file, file', rfl, hread', hfits⟩

/-- Rows that are read alike are printed alike. -/
theorem agree_printRowFromOpenFile_readAt {file file' : CFile} {offset : Int}
    (h : readAt file'.content offset.toNat = readAt file.content offset.toNat) :
    Agree (SameOn P out out') (printRowFromOpenFile schema file offset selected)
      (printRowFromOpenFile schema file' offset selected) := by
  unfold printRowFromOpenFile fseek
  by_cases ho : offset < 0
  · rw [if_pos ho, if_pos ho]
    exact agree_fail _
  · rw [if_neg ho, if_neg ho]
    rcases readAt_eq h with ⟨hread, hread'⟩ | ⟨line, after, after', hread, hread', hfits⟩
    · simp only [hread, hread']
      exact agree_fail _
    · simp only [hread, hread', hfits]
      exact agree_bind (agree_lift _) fun _ ↦ agree_printLine _

theorem agree_printRowsFromOpenFile_readAt {file file' : CFile} {offsets : List Int}
    (h : ∀ o ∈ offsets, readAt file'.content o.toNat = readAt file.content o.toNat) :
    Agree (SameOn P out out') (printRowsFromOpenFile schema file selected offsets)
      (printRowsFromOpenFile schema file' selected offsets) := by
  induction offsets with
  | nil => exact agree_pure ()
  | cons offset offsets ih =>
    obtain ⟨hoffset, hoffsets⟩ := List.forall_mem_cons.mp h
    exact agree_bind (agree_printRowFromOpenFile_readAt hoffset) fun _ ↦ ih hoffsets

/-- Reading does not change the file. -/
theorem content_of_fgets {size : Nat} {file file' : CFile} {line : Bytes}
    (h : fgets size file = some (line, file')) : file'.content = file.content := by
  unfold fgets at h
  simp only at h
  split at h
  · cases h
  · obtain ⟨-, rfl⟩ := Prod.mk.inj (Option.some.inj h)
    rfl

/-- Files whose header and rows are read alike are printed alike. -/
theorem agreeAt_printRowsAtOffsets {disk disk' : Disk} {offsets : List Int}
    (hdisk : SameOn P out out' disk disk')
    (hf : disk.files (tablePath config schema.tableName) = some content)
    (hf' : disk'.files (tablePath config schema.tableName) = some content')
    (hheader : readAt content' 0 = readAt content 0)
    (hrows : ∀ o ∈ offsets, readAt content' o.toNat = readAt content o.toNat) :
    AgreeAt (SameOn P out out') (printRowsAtOffsets config schema offsets selected)
      (printRowsAtOffsets config schema offsets selected) disk disk' := by
  apply agreeAt_get_bind
  rw [hf, hf']
  simp only [CFile.start]
  rcases readAt_eq hheader with ⟨hread, hread'⟩ | ⟨line, file, file', hread, hread', hfits⟩
  · simp only [hread, hread']
    exact agreeAt_fail hdisk _
  · simp only [hread, hread', hfits]
    refine agree_bind (agree_lift _) (fun _ ↦ ?_) disk disk' hdisk
    apply agree_printRowsFromOpenFile_readAt
    rw [content_of_fgets hread, content_of_fgets hread']
    exact hrows

/-- When there are no offsets, no file is read. -/
theorem agreeAt_storagePrintRowsAtOffsets {disk disk' : Disk} {offsets : List Int}
    (hdisk : SameOn P out out' disk disk')
    (h : offsets ≠ [] → AgreeAt (SameOn P out out')
      (printRowsAtOffsets config schema offsets selected)
      (printRowsAtOffsets config schema offsets selected)
      (disk.print [headerOutput schema selected]) (disk'.print [headerOutput schema selected])) :
    AgreeAt (SameOn P out out') (storagePrintRowsAtOffsets config schema offsets selected)
      (storagePrintRowsAtOffsets config schema offsets selected) disk disk' := by
  refine agreeAt_bind_ok (printSelectedHeader_apply ..) (printSelectedHeader_apply ..) ?_
  by_cases hnil : offsets = []
  · rw [hnil]
    exact agreeAt_pure (hdisk.print _) ()
  · rw [if_neg fun hlen ↦ hnil (List.length_eq_zero_iff.mp hlen)]
    exact h hnil

/-- The disks of two processes are the same at the paths of `P`. -/
def SameDisks (P : Bytes → Prop) (out out' : List Output) (w w' : World) : Prop :=
  SameOn P out out' w.disk w'.disk

theorem agreeAt_onDisk {x : Exec Disk Unit} {w w' : World}
    (h : AgreeAt (SameOn P out out') x x w.disk w'.disk) :
    AgreeAt (SameDisks P out out') (onDisk x) (onDisk x) w w' := ⟨h.result, h.state⟩

/-! ### A SELECT on the key -/

/-- The offsets of the rows that a SELECT on the key shows. -/
noncomputable def keyOffsets (index : PkIndex) (operator : WhereOperator) (v : Int) : List Int :=
  (index.entries.filter (keyMatches operator v ·.1)).map Prod.snd

theorem keyOffsets_equal (index : PkIndex) (v : Int) :
    keyOffsets index .equal v = (findEntry v index.entries).toList := by
  have hfilter : index.entries.filter (keyMatches .equal v ·.1) =
      (findEntry v index.entries).toList.map fun o ↦ (v, o) :=
    filter_eq_findEntry index.sortedKeys_entries v
  rw [keyOffsets, hfilter, List.map_map]
  exact List.map_id _

section OnKey

variable (hslot : w.slot config schema.tableName = some slot) (hi : slot.pkIndex = some index)
  (hval : strtolInt statement.whereValue.text = some v)

include hslot hi hval

theorem executeSelectWithIndex_onKey (ho : statement.whereOperator = .equal)
    (hpos : ∀ e ∈ index.entries, 0 ≤ e.2) :
    executeSelectWithIndex config schema statement selected w =
      onDisk (storagePrintRowsAtOffsets config schema
          (keyOffsets index statement.whereOperator v) selected)
        (w.print [keyBanner statement (keyOffsets index statement.whereOperator v).length]) := by
  obtain ⟨i, hi', hat⟩ := getTableStateIndex_of_some (obtainSlot_of_slot hslot)
  rw [opened_of_slot hslot] at hi' hat
  have hpos' : ∀ o ∈ findEntry v index.entries, 0 ≤ o := by
    intro o hm
    exact hpos _ ((findEntry_eq_some_iff index.sortedKeys_entries).mp hm)
  have hbanner : ∀ count, onDisk (printLine (text "[INDEX] " ++ whereText statement (text "="))) w =
      (.ok (), w.print [keyBanner statement count]) := by
    intro count
    rw [keyBanner, ho]
    exact onDisk_print (printLine_apply ..)
  have hat' : ∀ output, slotAt (w.print output) i = slot := fun _ ↦ hat.slotAt_eq
  rw [executeSelectWithIndex, bind_ok (by rw [lift_apply, parseWhereIntValue, hval]),
    bind_ok hi', bind_ok (hbanner _), bind_ok (get_apply _)]
  simp only [hat', hi, Option.bind_some, PkIndex.search_eq]
  rw [storagePrintRowAtOffset_eq hpos', ho, keyOffsets_equal]

theorem executeSelectWithIndexRange_onKey
    (ho : statement.whereOperator = .greater ∨ statement.whereOperator = .less) :
    executeSelectWithIndexRange config schema statement selected w =
      onDisk (storagePrintRowsAtOffsets config schema
          (keyOffsets index statement.whereOperator v) selected)
        (w.print [keyBanner statement (keyOffsets index statement.whereOperator v).length]) := by
  obtain ⟨i, hi', hat⟩ := getTableStateIndex_of_some (obtainSlot_of_slot hslot)
  rw [opened_of_slot hslot] at hi' hat
  have hrange := rangeOffsets_eq index statement.whereOperator v ho
  have hbanner : ∀ count : Nat, onDisk (printLine (text "[INDEX-RANGE] " ++
      whereText statement (whereOperatorText statement.whereOperator) ++ text " (" ++
        snprintfInt count ++ text " rows)")) w = (.ok (), w.print [keyBanner statement count]) := by
    intro count
    rw [keyBanner]
    rcases ho with h | h
    · rw [h]
      exact onDisk_print (printLine_apply ..)
    · rw [h]
      exact onDisk_print (printLine_apply ..)
  rw [executeSelectWithIndexRange, bind_ok (by rw [lift_apply, parseWhereIntValue, hval]),
    bind_ok hi', bind_ok (get_apply _)]
  simp only [hat.slotAt_eq, hi, hrange]
  rw [bind_ok (hbanner _)]
  rfl

end OnKey

/-- A SELECT on the key prints how the rows were found, the rows, and the elapsed time. -/
theorem executeSelect_keyOffsets
    (hschema : loadTableSchema w.disk.files config.schemaDir schema.tableName = .ok schema)
    (hp : schema.primaryKeyIndex = some primaryKeyIndex)
    (hk : KeySelect schema statement selected v)
    (hslot : w.slot config schema.tableName = some slot) (hi : slot.pkIndex = some index)
    (hpos : ∀ e ∈ index.entries, 0 ≤ e.2) :
    executeSelect config statement w =
      (onDisk (storagePrintRowsAtOffsets config schema
          (keyOffsets index statement.whereOperator v) selected) >>= fun _ ↦ printElapsed)
        (w.print [keyBanner statement (keyOffsets index statement.whereOperator v).length]) := by
  obtain ⟨hv, -⟩ := loadTableSchema_valid hschema
  obtain ⟨i, hi', -⟩ := getTableStateIndex_of_some (obtainSlot_of_slot hslot)
  rw [opened_of_slot hslot] at hi'
  have hwhere : executeSelectWhere config schema statement selected primaryKeyIndex w =
      onDisk (storagePrintRowsAtOffsets config schema
          (keyOffsets index statement.whereOperator v) selected)
        (w.print [keyBanner statement (keyOffsets index statement.whereOperator v).length]) := by
    unfold executeSelectWhere
    simp only [hp, hk.type, decide_true, Bool.and_true]
    cases ho : statement.whereOperator with
    | equal =>
      rw [if_pos (by decide), bind_ok hi', executeSelectWithIndex_onKey hslot hi hk.value ho hpos,
        ho]
    | greater =>
      rw [if_neg (by decide), if_pos (by decide), bind_ok hi',
        executeSelectWithIndexRange_onKey hslot hi hk.value (Or.inl ho), ho]
    | less =>
      rw [if_neg (by decide), if_pos (by decide), bind_ok hi',
        executeSelectWithIndexRange_onKey hslot hi hk.value (Or.inr ho), ho]
    | notEqual => exact absurd ho hk.operator
  rw [executeSelect, bind_ok (get_apply w), bind_ok (by rw [lift_apply, hk.tableName, hschema]),
    bind_ok (by rw [lift_apply, hk.selected]), hk.hasWhere, if_neg (by decide),
    bind_ok (by rw [lift_apply, hk.resolveWhereColumn hv hp]), bind_apply, bind_apply, hwhere]

/-! ### What else the file holds -/

/-- The header of the other file is read like that of the data file, and so is every row that
a comparison of the key selects, at its place. -/
structure ReadAlike (schema : TableSchema) (primaryKeyIndex : Nat) (operator : WhereOperator)
    (v : Int) (content content' : Bytes) : Prop where
  header : readAt content' 0 = readAt content 0
  rows : ∀ position key, IsDataRow schema primaryKeyIndex content position key →
    keyMatches operator v key = true → readAt content' position = readAt content position

/-- The offsets of an index of the rows are places of rows that are selected. -/
theorem readAt_keyOffsets (hr : TableRows schema content rows)
    (hindex : Indexes primaryKeyIndex rows index) {operator : WhereOperator}
    (h : ReadAlike schema primaryKeyIndex operator v content content') :
    ∀ o ∈ keyOffsets index operator v, readAt content' o.toNat = readAt content o.toNat := by
  intro o ho
  obtain ⟨⟨key, offset⟩, hm, rfl⟩ := List.mem_map.mp ho
  obtain ⟨hentry, hmatches⟩ := List.mem_filter.mp hm
  have hsearch : index.search key = some offset := by
    rw [PkIndex.search_eq, findEntry_eq_some_iff index.sortedKeys_entries]
    exact hentry
  obtain ⟨position, rfl, hrow⟩ := (search_eq_some_iff_isDataRow hr hindex key offset).mp hsearch
  exact h.rows position key hrow hmatches

/-- Without a file there are no offsets. -/
theorem file_of_keyOffsets {file : Option Bytes} {operator : WhereOperator}
    (hr : TableRows schema (file.getD []) rows) (hindex : Indexes primaryKeyIndex rows index)
    (hne : keyOffsets index operator v ≠ []) : file ≠ none := by
  rintro rfl
  have hentries : index.entries = [] := List.length_eq_zero_iff.mp (length_entries hr hindex)
  apply hne
  rw [keyOffsets, hentries]
  rfl

/-- A SELECT on the key does the same when the other file takes the place of the data file. -/
theorem executeSelect_readAlike
    (hschema : loadTableSchema w.disk.files config.schemaDir schema.tableName = .ok schema)
    (hp : schema.primaryKeyIndex = some primaryKeyIndex)
    (hk : KeySelect schema statement selected v)
    (hslot : w.slot config schema.tableName = some slot) (hi : slot.pkIndex = some index)
    (hr : TableRows schema ((w.file config schema.tableName).getD []) rows)
    (hindex : Indexes primaryKeyIndex rows index)
    (h : ReadAlike schema primaryKeyIndex statement.whereOperator v
      ((w.file config schema.tableName).getD []) content') :
    let other := executeSelect config statement
      (w.write (tablePath config schema.tableName) content')
    other.1 = (executeSelect config statement w).1 ∧
      other.2.disk.stdout = (executeSelect config statement w).2.disk.stdout := by
  have hlen := length_tableName_of_loadTableSchema hschema
  have hpath : schemaPath config.schemaDir schema.tableName ≠ tablePath config schema.tableName :=
    schemaPath_ne_tablePath hlen hlen
  have hpos : ∀ e ∈ index.entries, 0 ≤ e.2 := by
    intro e he
    obtain ⟨row, -, -, hoffset⟩ := (hindex.mem_iff e.1 e.2).mp he
    omega
  have hschema' : loadTableSchema (w.write (tablePath config schema.tableName) content').disk.files
      config.schemaDir schema.tableName = .ok schema := by
    rw [← hschema]
    exact loadTableSchema_congr (Disk.write_files_of_ne w.disk hpath content')
  have hrows := readAt_keyOffsets hr hindex h
  let offsets := keyOffsets index statement.whereOperator v
  let found : List Output := [keyBanner statement offsets.length]
  have hsame : SameOn (· ≠ tablePath config schema.tableName) w.disk.stdout w.disk.stdout
      (w.print found).disk
      ((w.write (tablePath config schema.tableName) content').print found).disk :=
    ⟨fun path hne ↦ Disk.write_files_of_ne w.disk hne content', found, rfl, rfl⟩
  have hprint : AgreeAt (SameOn (· ≠ tablePath config schema.tableName) w.disk.stdout
      w.disk.stdout) (storagePrintRowsAtOffsets config schema offsets selected)
      (storagePrintRowsAtOffsets config schema offsets selected) (w.print found).disk
      ((w.write (tablePath config schema.tableName) content').print found).disk := by
    apply agreeAt_storagePrintRowsAtOffsets hsame
    intro hne
    obtain ⟨content, hf⟩ := Option.ne_none_iff_exists'.mp (file_of_keyOffsets hr hindex hne)
    rw [hf, Option.getD_some] at h hrows
    exact agreeAt_printRowsAtOffsets (hsame.print _) hf (Disk.write_files_self ..) h.header hrows
  have helapsed : Agree (SameDisks (· ≠ tablePath config schema.tableName) w.disk.stdout
      w.disk.stdout) printElapsed printElapsed :=
    fun _ _ hdisks ↦ agreeAt_onDisk ⟨rfl, SameOn.print hdisks [.elapsed]⟩
  obtain ⟨hresult, hstate⟩ := (agreeAt_onDisk hprint).bind fun _ ↦ helapsed
  obtain ⟨printed, hprinted, hprinted'⟩ := hstate.output
  intro other
  have hother : other = _ :=
    executeSelect_keyOffsets (w := w.write _ content') hschema' hp hk hslot hi hpos
  rw [hother, executeSelect_keyOffsets hschema hp hk hslot hi hpos]
  exact ⟨hresult, hprinted'.trans hprinted.symm⟩

/-- In every state of every run in which a table has a slot, the leaf of a key is found by at most
as many nodes as the binary logarithm of the number of lines after the header, and at least one;
a SELECT on the key reads the header and the rows that it shows, and is the same whatever else
the file holds. -/
theorem runPrograms_lookup (hp : schema.primaryKeyIndex = some primaryKeyIndex)
    (hschema : loadTableSchema w₀.disk.files config.schemaDir schema.tableName = .ok schema)
    (hfresh : w₀.slot config schema.tableName = none)
    (hnul : ∀ content, w₀.file config schema.tableName = some content → nul ∉ content)
    (hprograms : ∀ program ∈ programs, program.Lexical)
    (hslot : (runPrograms config programs w₀).slot config schema.tableName = some slot) :
    let w := runPrograms config programs w₀
    let content := (w.file config schema.tableName).getD []
    ∃ index, slot.pkIndex = some index ∧
      (∀ root key, index.tree.root = some root →
        ∃ leaf, findLeaf index.tree key = some (some leaf) ∧
          descendToLeaf (max 1 (Nat.log 2 (dataLines content).length)) index.tree.heap root key =
            some leaf) ∧
      ∀ statement selected v content', KeySelect schema statement selected v →
        ReadAlike schema primaryKeyIndex statement.whereOperator v content content' →
        let run := executeSelect config statement w
        let other := executeSelect config statement
          (w.write (tablePath config schema.tableName) content')
        other.1 = run.1 ∧ other.2.disk.stdout = run.2.disk.stdout := by
  intro w content
  obtain ⟨hw, hok⟩ := viewOk_runPrograms hp (tableAt_fresh hschema hfresh)
    (viewOk_fresh hfresh hnul) hprograms
  obtain ⟨index, rows, hi, hr, hindex⟩ := hok.slot slot hslot
  refine ⟨index, hi, ?_, ?_⟩
  · have hlen : index.entries.length = (dataLines content).length := length_entries hr hindex
    intro root key hroot
    rw [← hlen]
    exact exists_findLeaf index hroot key
  · intro statement selected v content' hk h
    exact executeSelect_readAlike hw.schema_eq hp hk hslot hi hr hindex h

/-- The row with the id 7 is overwritten, that with the id 8 is not. -/
theorem readAlike_sample : ReadAlike sampleSchema 0 .greater 7 (text "id,name\n7,x\n8,y\n")
    (text "id,name\n\"\"\"\"8,y\n") := by
  refine ⟨by decide +kernel, ?_⟩
  rintro position key ⟨line, cells, hm, hd, hid⟩ hmatches
  have hlines : dataLines (text "id,name\n7,x\n8,y\n") = [(8, text "7,x"), (12, text "8,y")] := by
    decide +kernel
  rw [hlines, List.mem_cons, List.mem_singleton] at hm
  rcases hm with hm | hm
  · obtain ⟨rfl, rfl⟩ := Prod.mk.inj hm
    have hcells : decodeRow sampleSchema (text "7,x") = .ok [text "7", text "x"] := by
      decide +kernel
    obtain rfl := Except.ok.inj (hcells.symm.trans hd)
    obtain rfl : (7 : Int) = key := Option.some.inj hid
    cases hmatches
  · obtain ⟨rfl, rfl⟩ := Prod.mk.inj hm
    decide +kernel

theorem runPrograms_lookup_sample :
    let w := runPrograms sampleConfig samplePrograms sampleWorld
    let run := executeSelect sampleConfig sampleKeySelect w
    let other := executeSelect sampleConfig sampleKeySelect
      (w.write (tablePath sampleConfig sampleSchema.tableName) (text "id,name\n\"\"\"\"8,y\n"))
    other.1 = run.1 ∧ other.2.disk.stdout = run.2.disk.stdout := by
  have hsome : ((runPrograms sampleConfig samplePrograms sampleWorld).slot sampleConfig
      sampleSchema.tableName).isSome = true := by decide +kernel
  obtain ⟨slot, hslot⟩ := Option.isSome_iff_exists.mp hsome
  have hfile : (runPrograms sampleConfig samplePrograms sampleWorld).file sampleConfig
      sampleSchema.tableName = some (text "id,name\n7,x\n8,y\n") := by decide +kernel
  obtain ⟨index, -, -, hselect⟩ := runPrograms_lookup rfl loadTableSchema_sampleWorld
    slot_sampleWorld (fun content h ↦ by cases h) lexical_samplePrograms hslot
  rw [hfile, Option.getD_some] at hselect
  exact hselect sampleKeySelect [0, 1] 7 _ ⟨rfl, rfl, rfl, rfl, rfl, rfl, by decide⟩
    readAlike_sample

end SqlProc.Executor
