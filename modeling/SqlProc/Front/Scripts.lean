import SqlProc.Front.RoundTrip

/-!
# Texts one after the other

Library `Front`. A text that spells lexemes and a text that spells others spell both when one
follows the other, unless a word ends where a word starts. Every program ends with a semicolon,
so texts of programs can always follow each other.
-/

namespace SqlProc.Front

open Base

variable {lexemes lexemes' : List Lexeme} {blanks sqlText sqlText' : Bytes} {lexeme : Lexeme}

/-- Blanks may stand before every text. -/
theorem Writes.blanks_append (hb : ∀ c ∈ blanks, isBlank c = true) (h : Writes lexemes sqlText) :
    Writes lexemes (blanks ++ sqlText) := by
  cases h with
  | nil later hlater => exact .nil _ (List.forall_mem_append.mpr ⟨hb, hlater⟩)
  | cons later spelled rest lexeme lexemes hlater hs hr hsep =>
    rw [← List.append_assoc]
    exact .cons _ _ _ _ _ (List.forall_mem_append.mpr ⟨hb, hlater⟩) hs hr hsep

/-- A text after one that does not end with a word. -/
theorem Writes.append (h : Writes lexemes sqlText)
    (hlast : ∀ lexeme ∈ lexemes.getLast?, lexeme.isWord = false) (h' : Writes lexemes' sqlText') :
    Writes (lexemes ++ lexemes') (sqlText ++ sqlText') := by
  induction h with
  | nil blanks hb => exact h'.blanks_append hb
  | cons blanks spelled rest lexeme lexemes hb hs hr hsep ih =>
    rw [List.append_assoc, List.append_assoc, List.cons_append]
    cases lexemes with
    | nil =>
      refine .cons _ _ _ _ _ hb hs (ih fun _ h ↦ by cases h) fun hword _ ↦ ?_
      rw [hlast lexeme rfl] at hword
      cases hword
    | cons next lexemes =>
      refine .cons _ _ _ _ _ hb hs (ih hlast) fun hword hnext ↦ ?_
      have hblank := hsep hword hnext
      cases rest with
      | nil => cases hblank
      | cons c rest => exact hblank

theorem tolower_ne_nul (c : UInt8) : tolower c = nul → c = nul := by
  revert c
  decide +kernel

/-- No lexeme has a NUL byte. -/
theorem Spells.nul_notMem {spelled : Bytes} (h : Spells lexeme spelled) : nul ∉ spelled := by
  have hword : ∀ name : Bytes, nul ∉ name → spelled.map tolower = name → nul ∉ spelled := by
    rintro name hname rfl hm
    exact hname (List.mem_map.mpr ⟨nul, hm, rfl⟩)
  have hfirst := h.startsWith
  cases h with
  | identifier identifier _ h =>
    apply hword _ _ h
    intro hm
    obtain ⟨c, hc, htolower⟩ := List.mem_map.mp hm
    obtain rfl := tolower_ne_nul c htolower
    exact Bool.false_ne_true (identifier.valid.word nul hc)
  | int _ valid =>
    obtain ⟨c, digits, rfl, hc⟩ := hfirst
    rw [List.mem_cons, not_or]
    exact ⟨hc.ne_nul.symm, fun hm ↦ Bool.false_ne_true (valid.digits nul hm)⟩
  | string value valid =>
    rw [List.mem_append, List.mem_cons, not_or, not_or]
    exact ⟨⟨by decide, valid.validCell.oneLine.nul_notMem⟩, by decide⟩
  | keyword type _ h hne =>
    apply hword _ _ h
    cases type <;> decide
  | symbol type hne => cases type <;> decide

/-- A text of lexemes has no NUL byte. -/
theorem Writes.nul_notMem (h : Writes lexemes sqlText) : nul ∉ sqlText := by
  have hblanks : ∀ {blanks : Bytes}, (∀ c ∈ blanks, isBlank c = true) → nul ∉ blanks :=
    fun hb hm ↦ Bool.false_ne_true (hb nul hm)
  induction h with
  | nil blanks hb => exact hblanks hb
  | cons blanks spelled rest lexeme lexemes hb hs hr hsep ih =>
    rw [List.mem_append, List.mem_append, not_or, not_or]
    exact ⟨hblanks hb, hs.nul_notMem, ih⟩

/-! ### Programs -/

/-- A program does not end with a word. -/
theorem getLast?_programLexemes (commands : List Command) :
    ∀ lexeme ∈ (programLexemes commands).getLast?, lexeme.isWord = false := by
  cases commands using List.reverseRecOn with
  | nil => intro lexeme h; cases h
  | append_singleton commands command =>
    intro lexeme h
    simp only [programLexemes, List.flatMap_append, List.flatMap_singleton,
      ← List.append_assoc, List.getLast?_concat] at h
    obtain rfl := Option.some.inj h
    rfl

end SqlProc.Front
