import SqlProc.Base.Bytes

/-!
# Streams of `stdio`

Library `Base`. A stream that is open for reading: the bytes of the file, the position and
the end-of-file indicator. `fgets` stops after a line feed, when the buffer is full, or at
the end of the file; only the last sets the indicator.
-/

namespace SqlProc.Base

/-- `FILE` open for reading. -/
structure CFile where
  content : Bytes
  position : Nat
  eof : Bool
  deriving DecidableEq, Repr

/-- A stream at the start of its file. -/
def CFile.start (content : Bytes) : CFile := ⟨content, 0, false⟩

/-- The bytes that `fgets` moves into a buffer with room for `room` of them. -/
def fgetsChunk : (room : Nat) → Bytes → Bytes
  | 0, _ => []
  | _, [] => []
  | room + 1, c :: rest => if c = lf then [lf] else c :: fgetsChunk room rest

/-- `fgets(line, size, file)`: the C string left in `line`, or nothing at the end of the
file. -/
def fgets (size : Nat) (file : CFile) : Option (Bytes × CFile) :=
  let chunk := fgetsChunk (size - 1) (file.content.drop file.position)
  if chunk = [] then none
  else
    let hitEof := decide (chunk.length < size - 1) && decide (chunk.getLast? ≠ some lf)
    some (cstr chunk, { file with
      position := file.position + chunk.length, eof := file.eof || hitEof })

/-- `ftell`. -/
def ftell (file : CFile) : Int := file.position

/-- `fseek(file, offset, SEEK_SET)`. -/
def fseek (file : CFile) (offset : Int) : Option CFile :=
  if offset < 0 then none else some { file with position := offset.toNat, eof := false }

/-- A line that fits, with its line feed. -/
theorem fgetsChunk_line {room : Nat} {line rest : Bytes} (h : lf ∉ line)
    (hr : line.length < room) : fgetsChunk room (line ++ lf :: rest) = line ++ [lf] := by
  induction line generalizing room with
  | nil =>
    obtain ⟨room, rfl⟩ : ∃ n, room = n + 1 := ⟨room - 1, by simp at hr; omega⟩
    rw [List.nil_append, fgetsChunk, if_pos rfl, List.nil_append]
  | cons c line ih =>
    obtain ⟨room, rfl⟩ : ∃ n, room = n + 1 := ⟨room - 1, by simp at hr; omega⟩
    rw [List.mem_cons, not_or] at h
    rw [List.cons_append, fgetsChunk, if_neg (Ne.symm h.1),
      ih h.2 (by simp at hr; omega), List.cons_append]

/-- A last line that fits and has no line feed. -/
theorem fgetsChunk_last {room : Nat} {line : Bytes} (h : lf ∉ line) (hr : line.length ≤ room) :
    fgetsChunk room line = line := by
  induction line generalizing room with
  | nil => cases room <;> rfl
  | cons c line ih =>
    obtain ⟨room, rfl⟩ : ∃ n, room = n + 1 := ⟨room - 1, by simp at hr; omega⟩
    rw [List.mem_cons, not_or] at h
    rw [fgetsChunk, if_neg (Ne.symm h.1), ih h.2 (by simp at hr; omega)]

/-- A line that fills the buffer before its end. -/
theorem fgetsChunk_full {room : Nat} {line rest : Bytes} (h : lf ∉ line)
    (hr : room ≤ line.length) : fgetsChunk room (line ++ rest) = line.take room := by
  induction line generalizing room with
  | nil =>
    obtain rfl : room = 0 := by simpa using hr
    rw [fgetsChunk, List.take_zero]
  | cons c line ih =>
    cases room with
    | zero => rw [fgetsChunk, List.take_zero]
    | succ room =>
      rw [List.mem_cons, not_or] at h
      rw [List.cons_append, fgetsChunk, if_neg (Ne.symm h.1),
        ih h.2 (by simp at hr; omega), List.take_succ_cons]

/-- What `fgets` reads is the start of what is left. -/
theorem isPrefix_fgetsChunk (room : Nat) (rest : Bytes) : fgetsChunk room rest <+: rest := by
  induction rest generalizing room with
  | nil => cases room <;> exact List.nil_prefix
  | cons c rest ih =>
    cases room with
    | zero => exact List.nil_prefix
    | succ room =>
      rw [fgetsChunk]
      split
      · next hc =>
        subst hc
        exact List.prefix_append [lf] rest
      · exact List.prefix_cons_iff.mpr (Or.inr ⟨_, rfl, ih room⟩)

/-- The text of a line at a position of a file, up to its line feed or the end: what follows
is nothing, or a line feed and later lines. -/
structure LineAt (content : Bytes) (position : Nat) (line tail : Bytes) : Prop where
  drop_eq : content.drop position = line ++ tail
  lf_notMem : lf ∉ line
  nul_notMem : nul ∉ line
  tail_eq : tail = [] ∧ line ≠ [] ∨ ∃ rest, tail = lf :: rest

/-- `fgets` at a line that fits reads it with its line feed. -/
theorem fgets_of_lt {size : Nat} {file : CFile} {line tail : Bytes}
    (h : LineAt file.content file.position line tail) (hl : line.length < size - 1)
    (he : file.eof = false) :
    fgets size file = some (line ++ tail.take 1, { file with
      position := file.position + (line ++ tail.take 1).length, eof := decide (tail = []) }) := by
  rcases h.tail_eq with ⟨rfl, hne⟩ | ⟨rest, rfl⟩
  · have hc : fgetsChunk (size - 1) (file.content.drop file.position) = line := by
      rw [h.drop_eq, List.append_nil, fgetsChunk_last h.lf_notMem (Nat.le_of_lt hl)]
    have hlast : line.getLast? ≠ some lf := fun hm ↦
      h.lf_notMem (List.mem_of_getLast? hm)
    simp [fgets, hc, hne, hl, hlast, he, cstr_eq_self h.nul_notMem]
  · have hc : fgetsChunk (size - 1) (file.content.drop file.position) = line ++ [lf] := by
      rw [h.drop_eq, fgetsChunk_line h.lf_notMem hl]
    have hn : nul ∉ line ++ [lf] := by
      simp [h.nul_notMem, show nul ≠ lf by decide]
    simp [fgets, hc, he, cstr_eq_self hn]

/-- `fgets` at a line that does not fit reads a part of it and stops before its end. -/
theorem fgets_of_le {size : Nat} {file : CFile} {line tail : Bytes}
    (h : LineAt file.content file.position line tail) (hs : 1 < size)
    (hl : size - 1 ≤ line.length) (he : file.eof = false) :
    fgets size file = some (line.take (size - 1), { file with
      position := file.position + (size - 1), eof := false }) := by
  have hc : fgetsChunk (size - 1) (file.content.drop file.position) = line.take (size - 1) := by
    rw [h.drop_eq, fgetsChunk_full h.lf_notMem hl]
  have hlen : (line.take (size - 1)).length = size - 1 := by
    rw [List.length_take, Nat.min_eq_left hl]
  have hne : line.take (size - 1) ≠ [] := List.ne_nil_of_length_pos (by omega)
  have hn : nul ∉ line.take (size - 1) := fun hm ↦ h.nul_notMem (List.mem_of_mem_take hm)
  simp only [fgets, hc, if_neg hne, hlen, Nat.lt_irrefl, decide_false, Bool.false_and,
    Bool.or_false, he, cstr_eq_self hn]

/-- At the end of the file `fgets` reads nothing. -/
theorem fgets_eq_none {size : Nat} {file : CFile} (h : file.content.drop file.position = []) :
    fgets size file = none := by
  have hc : fgetsChunk (size - 1) (file.content.drop file.position) = [] := by
    rw [h]
    cases size - 1 <;> rfl
  simp only [fgets, hc, if_true]

/-- After a line was read, less of the file is left. -/
theorem length_drop_of_fgets {size : Nat} {file file' : CFile} {line : Bytes}
    (h : fgets size file = some (line, file')) :
    (file'.content.drop file'.position).length < (file.content.drop file.position).length := by
  simp only [fgets] at h
  split at h
  · cases h
  · next hne =>
    obtain ⟨-, rfl⟩ := Prod.mk.inj (Option.some.inj h)
    have hpos := List.length_pos_of_ne_nil hne
    have hle := (isPrefix_fgetsChunk (size - 1) (file.content.drop file.position)).length_le
    rw [← List.drop_drop, List.length_drop]
    exact Nat.sub_lt (Nat.lt_of_lt_of_le hpos hle) hpos

/-- A line that was read holds no terminator. -/
theorem nul_notMem_of_fgets {size : Nat} {file file' : CFile} {line : Bytes}
    (h : fgets size file = some (line, file')) : nul ∉ line := by
  simp only [fgets] at h
  split at h
  · cases h
  · obtain ⟨rfl, -⟩ := Prod.mk.inj (Option.some.inj h)
    exact nul_notMem_cstr _

end SqlProc.Base
