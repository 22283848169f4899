import SqlProc.Front.Syntax

/-!
# The tokenizer reads every spelling

Library `Front`. Each reader stops at the end of the lexeme that it reads, so a text that spells
lexemes yields one token for each.
-/

namespace SqlProc.Front

open Base

variable {line column : Int} {tokens : List Token} {spelled rest : Bytes} {lexeme : Lexeme}
  {lexemes : List Lexeme}

/-- The token of a lexeme, wherever it stands. -/
structure Lexeme.Matches (lexeme : Lexeme) (token : Token) : Prop where
  type_eq : token.type = lexeme.type
  identifier : ∀ identifier, lexeme = .identifier identifier → token.text = identifier.lower
  literal : ∀ literal, lexeme = .literal literal → token.text = literal.literalValue.text

/-- The lexeme is a number. -/
def Lexeme.isNumber : Lexeme → Bool
  | .literal (.int ..) => true
  | _ => false

/-- The byte after a lexeme does not continue it. -/
structure Lexeme.EndsBefore (lexeme : Lexeme) (c : UInt8) : Prop where
  word : lexeme.isWord = true → isWordByte c = false
  number : lexeme.isNumber = true → isdigit c = false

theorem takeWhile_append_of_stop {p : UInt8 → Bool} (hs : ∀ c ∈ spelled, p c = true)
    (hr : p (rest.headD nul) = false) : (spelled ++ rest).takeWhile p = spelled := by
  rw [List.takeWhile_append_of_pos hs]
  cases rest with
  | nil => simp
  | cons c rest =>
    rw [List.headD_cons] at hr
    rw [List.takeWhile_cons_of_neg (by simp [hr]), List.append_nil]

theorem dropWhile_append_of_stop {p : UInt8 → Bool} (hs : ∀ c ∈ spelled, p c = true)
    (hr : p (rest.headD nul) = false) : (spelled ++ rest).dropWhile p = rest := by
  rw [List.dropWhile_append_of_pos hs]
  cases rest with
  | nil => rfl
  | cons c rest =>
    rw [List.headD_cons] at hr
    exact List.dropWhile_cons_of_neg (by simp [hr])

theorem startsWord_map_tolower (s : Bytes) : startsWord (s.map tolower) = startsWord s := by
  cases s with
  | nil => rfl
  | cons c s =>
    simp only [startsWord, List.map_cons, List.headD_cons, isalpha_tolower]
    congr 1
    exact decide_eq_decide.mpr (tolower_eq_underscore_iff c)

theorem startsWord_append (h : startsWord spelled = true) (rest : Bytes) :
    startsWord (spelled ++ rest) = true := by
  cases spelled with
  | nil => exact absurd h (by decide)
  | cons c spelled => exact h

/-! ### Words -/

/-- A word that fits is read whole. -/
theorem readToken_word (hstart : startsWord (spelled.map tolower) = true)
    (hword : ∀ c ∈ spelled.map tolower, isWordByte c = true)
    (hlen : (spelled.map tolower).length < maxValueLen)
    (hr : isWordByte (rest.headD nul) = false) (ht : tokens.length < maxTokens) :
    ∃ token column', readToken (spelled ++ rest) line column tokens =
        .ok (tokens ++ [token], rest, column') ∧
      token.type = keywordType (spelled.map tolower) ∧
      (token.type = .identifier → token.text = spelled.map tolower) := by
  rw [startsWord_map_tolower] at hstart
  rw [List.length_map] at hlen
  have hbytes : ∀ c ∈ spelled, isWordByte c = true := by
    intro c hc
    rw [← isWordByte_tolower]
    exact hword _ (List.mem_map_of_mem hc)
  have hread : readWord (spelled ++ rest) line column tokens =
      .ok (tokens ++ [wordToken spelled line column], rest) := by
    rw [readWord_eq_ok_iff, takeWhile_append_of_stop hbytes hr, dropWhile_append_of_stop hbytes hr]
    exact ⟨hlen, ht, rfl, rfl⟩
  rw [readToken, if_pos (startsWord_append hstart rest), hread]
  exact ⟨_, _, rfl, rfl, fun h ↦ if_pos h⟩

theorem matches_of_word {identifier : Identifier} {token : Token}
    (htype : token.type = .identifier) (htext : token.text = identifier.lower) :
    (Lexeme.identifier identifier).Matches token := by
  refine ⟨htype, ?_, nofun⟩
  rintro _ ⟨⟩
  exact htext

/-- A keyword, as the tokenizer recognises it. -/
theorem keywordText_spec {type : TokenType} (h : keywordText type ≠ []) :
    startsWord (keywordText type) = true ∧ (∀ c ∈ keywordText type, isWordByte c = true) ∧
      (keywordText type).length < maxValueLen ∧ keywordType (keywordText type) = type ∧
      type ≠ .identifier := by
  cases type <;> first | exact absurd rfl h | decide +kernel

/-! ### Literals -/

theorem startsNumber_append (h : startsNumber spelled = true) (rest : Bytes) :
    startsNumber (spelled ++ rest) = true := by
  match spelled, h with
  | [c], h =>
    rw [startsNumber, Bool.or_eq_true] at h ⊢
    refine Or.inl (h.resolve_right fun h ↦ ?_)
    simp at h
    exact absurd h.2 (by decide)
  | c :: d :: spelled, h => exact h

/-- A digit starts no word. -/
theorem startsWord_cons_of_isdigit (c : UInt8) :
    (isdigit c || c = minus) = true → (isalpha c || c = underscore) = false := by
  revert c
  decide +kernel

theorem startsWord_of_startsNumber (h : startsNumber spelled = true) :
    startsWord spelled = false := by
  cases spelled with
  | nil => rfl
  | cons c s =>
    apply startsWord_cons_of_isdigit c
    rw [startsNumber, Bool.or_eq_true, Bool.and_eq_true, decide_eq_true_eq] at h
    rw [Bool.or_eq_true, decide_eq_true_eq]
    exact h.imp id fun h ↦ Option.some.inj h.1

/-- A number is its sign and its digits. -/
theorem IsInteger.exists_digits {value : Bytes} (hv : IsInteger value) (rest : Bytes) :
    ∃ digits, value = signText (value ++ rest) ++ digits ∧ ∀ c ∈ digits, isdigit c = true := by
  obtain ⟨hstart, hdigits, -⟩ := hv
  cases value with
  | nil => exact absurd hstart (by decide)
  | cons c value =>
    rw [Front.startsNumber, Bool.or_eq_true, Bool.and_eq_true, decide_eq_true_eq] at hstart
    by_cases hc : c = minus
    · subst hc
      exact ⟨value, rfl, hdigits⟩
    · have hsign : signText (c :: value ++ rest) = [] :=
        if_neg fun h ↦ hc (Option.some.inj h)
      refine ⟨c :: value, by rw [hsign]; rfl, List.forall_mem_cons.mpr ⟨?_, hdigits⟩⟩
      exact hstart.resolve_right fun h ↦ hc (Option.some.inj h.1)

/-- A number is read whole. -/
theorem readToken_int {value : Bytes} (hv : IsInteger value) (hr : isdigit (rest.headD nul) = false)
    (ht : tokens.length < maxTokens) :
    ∃ token column', readToken (value ++ rest) line column tokens =
      .ok (tokens ++ [token], rest, column') ∧ token.type = .number ∧ token.text = value := by
  have hstart := startsNumber_append hv.startsNumber rest
  obtain ⟨digits, hvalue, hdigits⟩ := hv.exists_digits rest
  have hdrop : (value ++ rest).drop (signText (value ++ rest)).length = digits ++ rest := by
    generalize signText (value ++ rest) = sign at hvalue ⊢
    rw [hvalue, List.append_assoc, List.drop_left]
  have hnumber : numberText (value ++ rest) = value := by
    rw [numberText, afterSign, hdrop, takeWhile_append_of_stop hdigits hr, ← hvalue]
  have hne : value ≠ [] := by
    rintro rfl
    exact absurd hv.startsNumber (by decide)
  have hread : readNumber (value ++ rest) line column tokens =
      .ok (tokens ++ [⟨.number, value, line, column⟩], rest) := by
    rw [readNumber_eq_ok_iff, hnumber, afterSign, hdrop, dropWhile_append_of_stop hdigits hr]
    exact ⟨hne, hv.length_lt, ht, rfl, rfl⟩
  rw [readToken, startsWord_of_startsNumber hstart, if_neg Bool.false_ne_true, if_pos hstart, hread]
  exact ⟨_, _, rfl, rfl, rfl⟩

/-- A string literal is read whole. -/
theorem readToken_string {value : Bytes} (hv : IsString value) (ht : tokens.length < maxTokens) :
    ∃ token column', readToken (squote :: value ++ [squote] ++ rest) line column tokens =
      .ok (tokens ++ [token], rest, column') ∧ token.type = .string ∧ token.text = value := by
  have hword : ∀ s : Bytes, startsWord (squote :: s) = false := fun _ ↦ rfl
  have hnumber : ∀ s : Bytes, startsNumber (squote :: s) = false := fun _ ↦ rfl
  have hread : readString (squote :: (value ++ squote :: rest)) line column tokens =
      .ok (tokens ++ [⟨.string, value, line, column⟩], rest) := by
    rw [readString_eq_ok_iff]
    exact ⟨value, ⟨rfl, hv.validCell.oneLine, hv.squote_notMem, fun _ ↦
      (Nat.zero_add _).trans_lt hv.validCell.length_lt⟩, ht, rfl⟩
  rw [List.cons_append, List.cons_append, List.append_assoc, List.singleton_append, readToken,
    hword, hnumber, if_neg Bool.false_ne_true, if_neg Bool.false_ne_true, List.headD_cons,
    if_pos rfl, hread]
  exact ⟨_, _, rfl, rfl, rfl⟩

/-! ### Symbols -/

/-- A symbol is read whole. -/
theorem readToken_symbol {type : TokenType} (hne : symbolText type ≠ [])
    (ht : tokens.length < maxTokens) :
    ∃ token column', readToken (symbolText type ++ rest) line column tokens =
      .ok (tokens ++ [token], rest, column') ∧ token.type = type := by
  have hread : readToken (symbolText type ++ rest) line column tokens =
      withColumn (fun token ↦ column + token.text.length) (do
        let tokens ← appendToken tokens type (symbolText type) line column
        .ok (tokens, rest)) := by
    cases type <;> first | exact absurd rfl hne | rfl
  have happend := appendToken_of_lt ht type (symbolText type) line column
  rw [hread, happend]
  exact ⟨_, _, rfl, rfl⟩

/-! ### Lexemes -/

/-- A spelled lexeme is read whole when the next byte does not continue it. -/
theorem readToken_spells (hs : Spells lexeme spelled) (he : lexeme.EndsBefore (rest.headD nul))
    (ht : tokens.length < maxTokens) :
    ∃ token column', readToken (spelled ++ rest) line column tokens =
      .ok (tokens ++ [token], rest, column') ∧ lexeme.Matches token := by
  cases hs with
  | identifier identifier spelled h =>
    obtain ⟨hstart, hword, hlen, hkeyword⟩ := identifier.valid
    rw [Identifier.lower] at h
    obtain ⟨token, column', hread, htype, htext⟩ := readToken_word
      (by rw [h, startsWord_map_tolower]; exact hstart)
      (fun c hc ↦ by
        rw [h] at hc
        obtain ⟨d, hd, rfl⟩ := List.mem_map.mp hc
        rw [isWordByte_tolower]
        exact hword d hd)
      (by rw [h, List.length_map]; exact hlen) (he.word rfl) ht
    rw [h] at htype htext
    rw [hkeyword] at htype
    exact ⟨token, column', hread, matches_of_word htype (htext htype)⟩
  | int value valid =>
    obtain ⟨token, column', hread, htype, htext⟩ := readToken_int
      valid (he.number rfl) ht
    refine ⟨token, column', hread, htype, nofun, ?_⟩
    rintro _ ⟨⟩
    exact htext
  | string value valid =>
    obtain ⟨token, column', hread, htype, htext⟩ := readToken_string
      valid ht
    refine ⟨token, column', hread, htype, nofun, ?_⟩
    rintro _ ⟨⟩
    exact htext
  | keyword type spelled h hne =>
    have hne' : keywordText type ≠ [] := by
      rw [← h]
      simpa using hne
    obtain ⟨hstart, hword, hlen, hkeyword, -⟩ := keywordText_spec hne'
    rw [← h] at hstart hword hlen hkeyword
    obtain ⟨token, column', hread, htype, -⟩ := readToken_word
      hstart hword hlen (he.word rfl) ht
    exact ⟨token, column', hread, htype.trans hkeyword, nofun, nofun⟩
  | symbol type hne =>
    obtain ⟨token, column', hread, htype⟩ := readToken_symbol
      hne ht
    exact ⟨token, column', hread, htype, nofun, nofun⟩

/-- Blanks are skipped. -/
theorem tokenizeFrom_blanks (line column : Int) (tokens : List Token) (rest : Bytes)
    {blanks : Bytes} (hb : ∀ c ∈ blanks, isBlank c = true) (fuel : Nat) :
    ∃ line' column', tokenizeFrom (blanks.length + fuel) (blanks ++ rest) line column tokens =
      tokenizeFrom fuel rest line' column' tokens := by
  induction blanks generalizing line column with
  | nil => exact ⟨line, column, by rw [List.length_nil, Nat.zero_add, List.nil_append]⟩
  | cons c blanks ih =>
    obtain ⟨hc, hblanks⟩ := List.forall_mem_cons.mp hb
    have hnul : c ≠ nul := by
      rintro rfl
      exact absurd hc (by decide)
    rw [List.length_cons, Nat.add_right_comm, List.cons_append, tokenizeFrom, if_neg hnul]
    split
    · exact ih line (column + 1) hblanks
    · next hspace =>
      have hlf : c = lf := by
        rw [isBlank, Bool.or_eq_true, decide_eq_true_eq] at hc
        exact hc.resolve_left hspace
      rw [if_pos hlf]
      exact ih (line + 1) 1 hblanks

/-! ### Texts of lexemes -/

/-- The lexemes after which a number may stand. -/
def Lexeme.isSymbol : Lexeme → Bool
  | .symbol _ => true
  | _ => false

/-- A number stands after a symbol. -/
def Follows (lexeme next : Lexeme) : Prop := next.isNumber = true → lexeme.isSymbol = true

theorem isBlank_spec (c : UInt8) : isBlank c = true → isWordByte c = false ∧ isdigit c = false := by
  revert c
  decide +kernel

theorem wordStart_spec (c : UInt8) : (isalpha c || c = underscore) = true →
    c ≠ nul ∧ isBlank c = false ∧ isdigit c = false := by
  revert c
  decide +kernel

theorem numberStart_spec (c : UInt8) : (isdigit c || c = minus) = true →
    c ≠ nul ∧ isBlank c = false := by
  revert c
  decide +kernel

/-- What the first byte of a lexeme tells about it. -/
structure Lexeme.StartsWith (lexeme : Lexeme) (c : UInt8) : Prop where
  ne_nul : c ≠ nul
  not_isBlank : isBlank c = false
  not_isdigit : lexeme.isNumber = false → isdigit c = false
  not_isWordByte : lexeme.isNumber = false → lexeme.isWord = false → isWordByte c = false

theorem startsWith_of_word (hw : lexeme.isWord = true)
    (hs : startsWord (spelled.map tolower) = true) :
    ∃ c s, spelled = c :: s ∧ lexeme.StartsWith c := by
  rw [startsWord_map_tolower] at hs
  cases spelled with
  | nil => exact absurd hs (by decide)
  | cons c s =>
    obtain ⟨hnul, hblank, hdigit⟩ := wordStart_spec c hs
    refine ⟨c, s, rfl, hnul, hblank, fun _ ↦ hdigit, fun _ hn ↦ ?_⟩
    rw [hw] at hn
    cases hn

/-- The first byte of a spelled lexeme. -/
theorem Spells.startsWith (hs : Spells lexeme spelled) :
    ∃ c s, spelled = c :: s ∧ lexeme.StartsWith c := by
  cases hs with
  | identifier identifier spelled h =>
    apply startsWith_of_word rfl
    rw [h, Identifier.lower, startsWord_map_tolower]
    exact identifier.valid.startsWord
  | keyword type spelled h hne =>
    apply startsWith_of_word rfl
    rw [h]
    refine (keywordText_spec ?_).1
    rw [← h]
    simpa using hne
  | int _ valid =>
    cases spelled with
    | nil => exact absurd valid.startsNumber (by decide)
    | cons c s =>
      have hstart := valid.startsNumber
      rw [startsNumber, Bool.or_eq_true, Bool.and_eq_true, decide_eq_true_eq] at hstart
      obtain ⟨hnul, hblank⟩ := numberStart_spec c (by
        rw [Bool.or_eq_true, decide_eq_true_eq]
        exact hstart.imp id fun h ↦ Option.some.inj h.1)
      refine ⟨c, s, rfl, hnul, hblank, ?_, ?_⟩ <;>
      · intro h
        cases h
  | string value valid =>
    exact ⟨squote, _, rfl, by decide, rfl, fun _ ↦ rfl, fun _ _ ↦ rfl⟩
  | symbol type hne =>
    cases type <;> first
      | exact absurd rfl hne
      | exact ⟨_, _, rfl, by decide, rfl, fun _ ↦ rfl, fun _ _ ↦ rfl⟩

/-- The first byte of what comes after a lexeme does not continue it. -/
theorem endsBefore_of_writes (hr : Writes lexemes rest)
    (hsep : lexeme.isWord = true → lexemes.head?.any Lexeme.isWord = true →
      rest.head?.any isBlank = true)
    (hf : ∀ next ∈ lexemes.head?, Follows lexeme next) :
    lexeme.EndsBefore (rest.headD nul) := by
  have hblank : ∀ c, isBlank c = true → lexeme.EndsBefore c := fun c hc ↦
    ⟨fun _ ↦ (isBlank_spec c hc).1, fun _ ↦ (isBlank_spec c hc).2⟩
  cases hr with
  | nil blanks hb =>
    cases rest with
    | nil => exact ⟨fun _ ↦ rfl, fun _ ↦ rfl⟩
    | cons c blanks => exact hblank c (hb c List.mem_cons_self)
  | cons blanks spelled rest next lexemes hb hs hr hsep' =>
    cases blanks with
    | cons c blanks => exact hblank c (hb c List.mem_cons_self)
    | nil =>
      obtain ⟨c, s, rfl, hc⟩ := hs.startsWith
      have hnext := hf next rfl
      cases hn : next.isNumber with
      | true =>
        -- only a symbol stands before a number
        have hsymbol := hnext hn
        cases lexeme with
        | symbol type => exact ⟨nofun, nofun⟩
        | _ => cases hsymbol
      | false =>
        refine ⟨fun hw ↦ ?_, fun _ ↦ hc.not_isdigit hn⟩
        cases hword : next.isWord with
        | false => exact hc.not_isWordByte hn hword
        | true =>
          have hsome := hsep hw hword
          have hfalse : isBlank c = true := hsome
          rw [hc.not_isBlank] at hfalse
          cases hfalse

/-- The loop reads a spelled lexeme. -/
theorem tokenizeFrom_spelled {tokens' : List Token} {column' : Int} (hs : Spells lexeme spelled)
    (hread : readToken (spelled ++ rest) line column tokens = .ok (tokens', rest, column')) :
    tokenizeFrom ((spelled ++ rest).length + 1) (spelled ++ rest) line column tokens =
      tokenizeFrom (rest.length + 1) rest line column' tokens' := by
  obtain ⟨c, s, rfl, hc⟩ := hs.startsWith
  have hblank := hc.not_isBlank
  rw [isBlank, Bool.or_eq_false_iff, decide_eq_false_iff_not] at hblank
  rw [List.cons_append] at hread ⊢
  have hlt := (readToken_reads hread).length_lt
  rw [tokenizeFrom, if_neg hc.ne_nul, if_neg (by rw [hblank.1]; exact Bool.false_ne_true),
    if_neg hblank.2, hread]
  exact tokenizeFrom_fuel hlt (Nat.lt_succ_self _) line column' tokens'

/-- Lexemes are read one after the other. -/
theorem tokenizeFrom_writes {sqlText : Bytes} (h : Writes lexemes sqlText)
    (hf : lexemes.IsChain Follows) (ht : tokens.length + lexemes.length < maxTokens) :
    ∃ read eof, tokenizeFrom (sqlText.length + 1) sqlText line column tokens =
        .ok (tokens ++ (read ++ [eof])) ∧
      List.Forall₂ Lexeme.Matches lexemes read ∧ eof.type = .eof := by
  induction h generalizing line column tokens with
  | nil blanks hb =>
    obtain ⟨line', column', hblanks⟩ := tokenizeFrom_blanks line column tokens [] hb 1
    rw [List.append_nil] at hblanks
    have happend := appendToken_of_lt ht .eof [] line' column'
    exact ⟨[], _, hblanks.trans happend, .nil, rfl⟩
  | cons blanks spelled rest lexeme lexemes hb hs hr hsep ih =>
    rw [List.length_cons] at ht
    obtain ⟨line', column', hblanks⟩ := tokenizeFrom_blanks line column tokens
      (spelled ++ rest) hb ((spelled ++ rest).length + 1)
    have hlt : tokens.length < maxTokens := by omega
    have hends := endsBefore_of_writes hr hsep fun next hnext ↦ by
      cases lexemes with
      | nil => cases hnext
      | cons _ lexemes =>
        obtain rfl := Option.some.inj hnext
        exact (List.isChain_cons_cons.mp hf).1
    obtain ⟨token, column'', hread, hmatches⟩ := readToken_spells hs hends hlt
    have hroom : (tokens ++ [token]).length + lexemes.length < maxTokens := by
      rw [List.length_append, List.length_singleton]
      omega
    obtain ⟨read, eof, hrest, hall, heof⟩ := ih hf.tail hroom
    have hfuel : (blanks ++ (spelled ++ rest)).length + 1 =
        blanks.length + ((spelled ++ rest).length + 1) := by
      rw [List.length_append, Nat.add_assoc]
    refine ⟨token :: read, eof, ?_, .cons hmatches hall, heof⟩
    rw [hfuel, hblanks, tokenizeFrom_spelled hs hread, hrest, List.append_assoc]
    rfl

/-- The tokens of a text: one for each lexeme that it spells, and the end. -/
theorem tokenizeSql_writes {sqlText : Bytes} (h : Writes lexemes sqlText)
    (hf : lexemes.IsChain Follows) (ht : lexemes.length < maxTokens) :
    ∃ read eof, tokenizeSql sqlText = .ok (read ++ [eof]) ∧
      List.Forall₂ Lexeme.Matches lexemes read ∧ eof.type = .eof :=
  tokenizeFrom_writes h hf (by rw [List.length_nil, Nat.zero_add]; exact ht)

end SqlProc.Front
