import SqlProc.Front.Syntax

/-!
# Tokens and their places in the text

Library `Front`. The tokens of a text are its words, numbers, strings and symbols from left to
right, with nothing but blanks between them, and each has the line and column where it starts.
-/

namespace SqlProc.Front

open Base

variable {line column : Int} {tokens tokens' : List Token} {token : Token}
  {before sqlText spelling rest : Bytes}

/-! ### Places -/

/-- The line after a text: one more than its line feeds. -/
def lineAfter (before : Bytes) : Int := 1 + before.count lf

/-- The column after a text: one more than the bytes since its last line feed. -/
def columnAfter (before : Bytes) : Int := 1 + (before.reverse.takeWhile (· ≠ lf)).length

theorem lineAfter_append (before : Bytes) (h : lf ∉ spelling) :
    lineAfter (before ++ spelling) = lineAfter before := by
  rw [lineAfter, List.count_append, List.count_eq_zero_of_not_mem h, Nat.add_zero, lineAfter]

theorem columnAfter_append (before : Bytes) (h : lf ∉ spelling) :
    columnAfter (before ++ spelling) = columnAfter before + spelling.length := by
  have hall : ∀ c ∈ spelling.reverse, (c ≠ lf : Bool) = true := by
    intro c hc
    rw [decide_eq_true_eq]
    rintro rfl
    exact h (List.mem_reverse.mp hc)
  rw [columnAfter, List.reverse_append, List.takeWhile_append_of_pos hall, List.length_append,
    List.length_reverse, columnAfter]
  omega

theorem lineAfter_append_lf : lineAfter (before ++ [lf]) = lineAfter before + 1 := by
  rw [lineAfter, List.count_append, List.count_singleton_self, lineAfter]
  omega

theorem columnAfter_append_lf (before : Bytes) : columnAfter (before ++ [lf]) = 1 := by
  simp [columnAfter]

/-! ### Spellings -/

/-- The token is spelled so, and its spelling ends before the rest of the text: words and numbers
cannot be continued. -/
inductive SpelledAs : Token → Bytes → Bytes → Prop
  | word {token : Token} {spelling rest : Bytes} (hs : startsWord spelling = true)
      (hw : ∀ c ∈ spelling, isWordByte c = true)
      (ht : token.type = keywordType (spelling.map tolower))
      (htext : token.text =
        if token.type = .identifier then spelling.map tolower else spelling)
      (hr : isWordByte (rest.headD nul) = false) : SpelledAs token spelling rest
  | number {token : Token} {rest : Bytes} (ht : token.type = .number)
      (hi : IsInteger token.text) (hr : isdigit (rest.headD nul) = false) :
    SpelledAs token token.text rest
  | string {token : Token} {rest : Bytes} (ht : token.type = .string)
      (hv : IsString token.text) : SpelledAs token (squote :: token.text ++ [squote]) rest
  | symbol {token : Token} {rest : Bytes} (hne : symbolText token.type ≠ [])
      (htext : token.text = symbolText token.type) : SpelledAs token token.text rest

/-- The text that follows `before` consists of the tokens, each where its line and column say,
with blanks before them and before the end of the text, where the EOF token stands. -/
inductive Lays : Bytes → Bytes → List Token → Prop
  | eof {before blanks : Bytes} {token : Token} (hb : ∀ c ∈ blanks, isBlank c = true)
      (ht : token.type = .eof) (hl : token.line = lineAfter (before ++ blanks))
      (hc : token.column = columnAfter (before ++ blanks)) : Lays before blanks [token]
  | token {before blanks spelling rest : Bytes} {token : Token} {tokens : List Token}
      (hb : ∀ c ∈ blanks, isBlank c = true) (hs : SpelledAs token spelling rest)
      (hl : token.line = lineAfter (before ++ blanks))
      (hc : token.column = columnAfter (before ++ blanks))
      (hr : Lays (before ++ blanks ++ spelling) rest tokens) :
    Lays before (blanks ++ (spelling ++ rest)) (token :: tokens)

theorem keywordType_ne (word : Bytes) : keywordType word ≠ .eof ∧ keywordType word ≠ .string := by
  unfold keywordType
  repeat' split
  all_goals exact ⟨by decide, by decide⟩

theorem SpelledAs.type_ne_eof (h : SpelledAs token spelling rest) : token.type ≠ .eof := by
  cases h with
  | word _ _ ht => exact ht ▸ (keywordType_ne _).1
  | number ht =>
    rw [ht]
    decide
  | string ht =>
    rw [ht]
    decide
  | symbol hne =>
    intro he
    exact hne (by rw [he]; rfl)

/-- An integer consists of digits and a sign. -/
theorem IsInteger.isdigit_or {value : Bytes} (h : IsInteger value) :
    ∀ c ∈ value, (isdigit c || c = minus) = true := by
  obtain ⟨hs, hd, -⟩ := h
  cases value with
  | nil => exact List.forall_mem_nil _
  | cons c value =>
    rw [Front.startsNumber, Bool.or_eq_true, Bool.and_eq_true, decide_eq_true_eq] at hs
    refine List.forall_mem_cons.mpr ⟨?_, fun d hm ↦ ?_⟩
    · rw [Bool.or_eq_true, decide_eq_true_eq]
      exact hs.imp id fun h ↦ Option.some.inj h.1
    · rw [hd d hm]
      rfl

/-- A spelling is on one line of the text. -/
theorem SpelledAs.oneLine (h : SpelledAs token spelling rest) : OneLine spelling := by
  cases h with
  | word _ hw => exact oneLine_of_forall hw rfl rfl rfl
  | number _ hi => exact oneLine_of_forall hi.isdigit_or rfl rfl rfl
  | string _ hv =>
    have hone := oneLine_iff.mp hv.validCell.oneLine
    apply oneLine_iff.mpr
    intro c hc
    rw [List.cons_append, List.mem_cons, List.mem_append, List.mem_singleton] at hc
    rcases hc with rfl | hc | rfl
    · decide
    · exact hone c hc
    · decide
  | symbol hne htext =>
    rw [htext]
    revert hne
    cases token.type <;> decide

/-- The column after a token is computed from its text. -/
theorem SpelledAs.length_eq (h : SpelledAs token spelling rest) :
    spelling.length = token.text.length + if token.type = .string then 2 else 0 := by
  cases h with
  | word hs hw ht htext hr =>
    rw [if_neg (ht ▸ (keywordType_ne _).2), htext]
    split
    · rw [List.length_map, Nat.add_zero]
    · rfl
  | number ht => rw [ht, if_neg (by decide), Nat.add_zero]
  | string ht => rw [ht, if_pos rfl, List.length_append, List.length_cons, List.length_singleton]
  | symbol hne =>
    rw [if_neg, Nat.add_zero]
    intro ht
    exact hne (by rw [ht]; rfl)

/-! ### The readers -/

/-- A reader has appended the token, and what it has read spells the token. -/
structure ReadsAs (sqlText : Bytes) (line column : Int) (tokens tokens' : List Token)
    (rest : Bytes) (token : Token) (spelling : Bytes) : Prop where
  tokens_eq : tokens' = tokens ++ [token]
  length_lt : tokens.length < maxTokens
  text_eq : sqlText = spelling ++ rest
  spelled : SpelledAs token spelling rest
  line_eq : token.line = line
  column_eq : token.column = column

theorem ReadsAs.lastToken_eq
    (h : ReadsAs sqlText line column tokens tokens' rest token spelling) :
    lastToken tokens' = token := by
  rw [h.tokens_eq, lastToken, List.getLast?_concat, Option.getD_some]

theorem headD_dropWhile {p : UInt8 → Bool} (hn : p nul = false) (s : Bytes) :
    p ((s.dropWhile p).headD nul) = false := by
  induction s with
  | nil => exact hn
  | cons c s ih =>
    by_cases hc : p c = true
    · rw [List.dropWhile_cons_of_pos hc]
      exact ih
    · rw [List.dropWhile_cons_of_neg hc]
      exact Bool.not_eq_true _ ▸ hc

theorem readWord_readsAs (hs : startsWord sqlText = true)
    (h : readWord sqlText line column tokens = .ok (tokens', rest)) :
    ∃ token spelling, ReadsAs sqlText line column tokens tokens' rest token spelling ∧
      token.type ≠ .string := by
  obtain ⟨-, hlt, rfl, rfl⟩ := readWord_eq_ok_iff.mp h
  refine ⟨_, sqlText.takeWhile isWordByte, ⟨rfl, hlt, List.takeWhile_append_dropWhile.symm, ?_,
    rfl, rfl⟩, (keywordType_ne _).2⟩
  exact .word (startsWord_takeWhile hs) (fun c hc ↦ List.mem_takeWhile_imp hc) rfl rfl
    (headD_dropWhile rfl sqlText)

/-- The number at the start of a text starts like the text. -/
theorem startsNumber_numberText (hs : startsNumber sqlText = true) :
    startsNumber (numberText sqlText) = true ∧
      ∀ c ∈ (numberText sqlText).tail, isdigit c = true := by
  have hdigits : ∀ s : Bytes, ∀ c ∈ s.takeWhile isdigit, isdigit c = true := fun s c hc ↦
    List.mem_takeWhile_imp hc
  cases sqlText with
  | nil => cases hs
  | cons c sqlText =>
    rw [startsNumber, Bool.or_eq_true, Bool.and_eq_true, decide_eq_true_eq] at hs
    by_cases hc : c = minus
    · subst hc
      have hnumber : numberText (minus :: sqlText) = minus :: sqlText.takeWhile isdigit := rfl
      have hdigit := (hs.resolve_left fun h ↦ absurd h (by rw [List.headD_cons]; decide)).2
      rw [hnumber]
      refine ⟨?_, hdigits sqlText⟩
      cases sqlText with
      | nil => exact absurd hdigit (by decide)
      | cons d sqlText =>
        have hd : isdigit d = true := hdigit
        rw [List.takeWhile_cons_of_pos hd, startsNumber, Bool.or_eq_true, Bool.and_eq_true]
        exact Or.inr ⟨rfl, hd⟩
    · have hsign : signText (c :: sqlText) = [] := if_neg fun h ↦ hc (Option.some.inj h)
      have hdigit : isdigit c = true := hs.resolve_right fun h ↦ hc (Option.some.inj h.1)
      rw [numberText, afterSign, hsign, List.nil_append, List.length_nil, List.drop_zero]
      refine ⟨?_, fun d hd ↦ hdigits (c :: sqlText) d (List.mem_of_mem_tail hd)⟩
      rw [List.takeWhile_cons_of_pos hdigit, startsNumber, List.headD_cons, hdigit]
      rfl

theorem readNumber_readsAs (hs : startsNumber sqlText = true)
    (h : readNumber sqlText line column tokens = .ok (tokens', rest)) :
    ∃ token spelling, ReadsAs sqlText line column tokens tokens' rest token spelling ∧
      token.type ≠ .string := by
  obtain ⟨-, hlen, hlt, rfl, rfl⟩ := readNumber_eq_ok_iff.mp h
  obtain ⟨hstart, htail⟩ := startsNumber_numberText hs
  have htype : TokenType.number ≠ .string := by decide
  refine ⟨_, numberText sqlText, ⟨rfl, hlt, (numberText_append_dropWhile sqlText).symm, ?_,
    rfl, rfl⟩, htype⟩
  exact .number rfl ⟨hstart, htail, hlen⟩ (headD_dropWhile rfl (afterSign sqlText))

theorem readString_readsAs (hs : sqlText.headD nul = squote)
    (h : readString sqlText line column tokens = .ok (tokens', rest)) :
    ∃ token spelling, ReadsAs sqlText line column tokens tokens' rest token spelling ∧
      token.type = .string := by
  obtain ⟨stringText, hcloses, hlt, rfl⟩ := readString_eq_ok_iff.mp h
  cases sqlText with
  | nil => exact absurd hs (by decide)
  | cons c sqlText =>
    obtain rfl : c = squote := hs
    have htext : sqlText = stringText ++ squote :: rest := hcloses.text_eq
    refine ⟨_, squote :: stringText ++ [squote], ⟨rfl, hlt, ?_,
      .string rfl ⟨⟨hcloses.oneLine, hcloses.length_text_lt⟩, hcloses.squote_notMem⟩, rfl, rfl⟩,
      rfl⟩
    rw [htext, List.append_assoc, List.singleton_append]
    rfl

/-- The spelling of a symbol is its text. -/
theorem IsSymbol.symbolText_eq {type : TokenType} (h : IsSymbol type spelling) :
    symbolText type = spelling := by
  cases h with
  | one h =>
    unfold symbolType at h
    repeat' split at h
    all_goals first | (obtain rfl := Option.some.inj h; exact Eq.symm ‹_›) | cases h
  | bangEqual => rfl

theorem readSymbol_readsAs (h : readSymbol sqlText line column tokens = .ok (tokens', rest)) :
    ∃ token spelling, ReadsAs sqlText line column tokens tokens' rest token spelling ∧
      token.type ≠ .string := by
  obtain ⟨type, spelling, hs, htext, hlt, rfl⟩ := readSymbol_eq_ok_iff.mp h
  have hne : symbolText type ≠ [] := hs.symbolText_eq ▸ hs.validCell.2
  refine ⟨_, spelling, ⟨rfl, hlt, htext, .symbol hne hs.symbolText_eq.symm, rfl, rfl⟩, ?_⟩
  rintro rfl
  exact hne rfl

/-- The reader of the next token leaves the column after the spelling. -/
theorem readToken_readsAs {column' : Int}
    (h : readToken sqlText line column tokens = .ok (tokens', rest, column')) :
    ∃ token spelling, ReadsAs sqlText line column tokens tokens' rest token spelling ∧
      column' = column + spelling.length := by
  have hword : ∀ {token spelling},
      ReadsAs sqlText line column tokens tokens' rest token spelling → token.type ≠ .string →
        (lastToken tokens').text.length = spelling.length := by
    intro token spelling hr htype
    rw [hr.lastToken_eq, hr.spelled.length_eq, if_neg htype, Nat.add_zero]
  unfold readToken at h
  split at h
  · next hs =>
    obtain ⟨hread, hcolumn⟩ := withColumn_eq_ok_iff.mp h
    obtain ⟨token, spelling, hr, htype⟩ := readWord_readsAs hs hread
    refine ⟨token, spelling, hr, ?_⟩
    rw [← hcolumn, hword hr htype, hr.lastToken_eq, hr.column_eq]
  · split at h
    · next hs =>
      obtain ⟨hread, hcolumn⟩ := withColumn_eq_ok_iff.mp h
      obtain ⟨token, spelling, hr, htype⟩ := readNumber_readsAs hs hread
      refine ⟨token, spelling, hr, ?_⟩
      rw [← hcolumn, hword hr htype, hr.lastToken_eq, hr.column_eq]
    · split at h
      · next hs =>
        obtain ⟨hread, hcolumn⟩ := withColumn_eq_ok_iff.mp h
        obtain ⟨token, spelling, hr, htype⟩ := readString_readsAs hs hread
        refine ⟨token, spelling, hr, ?_⟩
        rw [← hcolumn, hr.lastToken_eq, hr.spelled.length_eq, if_pos htype]
        rfl
      · obtain ⟨hread, hcolumn⟩ := withColumn_eq_ok_iff.mp h
        obtain ⟨token, spelling, hr, htype⟩ := readSymbol_readsAs hread
        refine ⟨token, spelling, hr, ?_⟩
        rw [← hcolumn, hword hr htype]

/-! ### Whole texts -/

theorem Lays.blank {c : UInt8} (hc : isBlank c = true)
    (h : Lays (before ++ [c]) rest tokens) : Lays before (c :: rest) tokens := by
  cases h with
  | eof hb ht hl hcol =>
    rw [List.append_assoc] at hl hcol
    exact .eof (List.forall_mem_cons.mpr ⟨hc, hb⟩) ht hl hcol
  | @token _ blanks spelling rest token tokens hb hs hl hcol hr =>
    have hassoc : before ++ [c] ++ blanks = before ++ c :: blanks := by
      rw [List.append_assoc, List.singleton_append]
    rw [hassoc] at hl hcol hr
    exact .token (List.forall_mem_cons.mpr ⟨hc, hb⟩) hs hl hcol hr

theorem cstr_cons {c : UInt8} (hc : c ≠ nul) (s : Bytes) : cstr (c :: s) = c :: cstr s :=
  List.takeWhile_cons_of_pos (by simpa using hc)

theorem headD_cstr (s : Bytes) : (cstr s).headD nul = s.headD nul := by
  cases s with
  | nil => rfl
  | cons c s =>
    by_cases hc : c = nul
    · subst hc
      rfl
    · rw [cstr_cons hc]
      rfl

/-- What stands after the terminator does not matter to a spelling. -/
theorem SpelledAs.cstr (h : SpelledAs token spelling rest) :
    SpelledAs token spelling (cstr rest) := by
  cases h with
  | word hs hw ht htext hr => exact .word hs hw ht htext (headD_cstr rest ▸ hr)
  | number ht hi hr => exact .number ht hi (headD_cstr rest ▸ hr)
  | string ht hv => exact .string ht hv
  | symbol hne htext => exact .symbol hne htext

theorem cstr_append_of_oneLine (h : OneLine spelling) (rest : Bytes) :
    cstr (spelling ++ rest) = spelling ++ cstr rest := by
  apply List.takeWhile_append_of_pos
  intro c hc
  rw [decide_eq_true_eq]
  exact (oneLine_iff.mp h c hc).1

/-- The EOF token. -/
theorem appendToken_lays
    (h : appendToken tokens .eof [] (lineAfter before) (columnAfter before) = .ok tokens') :
    tokens'.length ≤ maxTokens ∧ ∃ new, tokens' = tokens ++ new ∧ Lays before [] new := by
  obtain ⟨hlt, rfl⟩ := appendToken_eq_ok_iff.mp h
  refine ⟨?_, _, rfl, .eof (List.forall_mem_nil _) rfl ?_ ?_⟩
  · rw [List.length_append, List.length_singleton]
    exact hlt
  · rw [List.append_nil]
  · rw [List.append_nil]

/-- The tokens of the rest of a text, when the line and the column are those of its start. -/
theorem tokenizeFrom_lays {fuel : Nat} (hf : sqlText.length < fuel)
    (h : tokenizeFrom fuel sqlText (lineAfter before) (columnAfter before) tokens = .ok tokens') :
    tokens'.length ≤ maxTokens ∧
      ∃ new, tokens' = tokens ++ new ∧ Lays before (cstr sqlText) new := by
  -- the induction carries the line and the column of the text read so far
  induction fuel generalizing sqlText before tokens with
  | zero => exact absurd hf (Nat.not_lt_zero _)
  | succ fuel ih =>
    cases sqlText with
    | nil => exact appendToken_lays h
    | cons c sqlText =>
      rw [List.length_cons] at hf
      rw [tokenizeFrom] at h
      split at h
      · next hnul =>
        subst hnul
        exact appendToken_lays h
      · next hnul =>
        rw [cstr_cons hnul]
        split at h
        · next hspace =>
          have hblank : isBlank c = true := by
            rw [isBlank, hspace, Bool.true_or]
          have hone : lf ∉ [c] := by
            rw [List.mem_singleton]
            rintro rfl
            exact absurd hspace (by decide)
          have hcolumn := columnAfter_append before hone
          rw [List.length_singleton] at hcolumn
          rw [← lineAfter_append before hone, ← Int.natCast_one, ← hcolumn] at h
          obtain ⟨hle, new, rfl, hlays⟩ := ih (by omega) h
          exact ⟨hle, new, rfl, hlays.blank hblank⟩
        · split at h
          · next hlf =>
            subst hlf
            rw [← lineAfter_append_lf, ← columnAfter_append_lf before] at h
            obtain ⟨hle, new, rfl, hlays⟩ := ih (by omega) h
            exact ⟨hle, new, rfl, hlays.blank rfl⟩
          · obtain ⟨⟨tokens₁, rest, column'⟩, hread, h⟩ := except_bind_eq_ok_iff.mp h
            have hlt := (readToken_reads hread).length_lt
            obtain ⟨token, spelling, hr, rfl⟩ := readToken_readsAs hread
            obtain rfl := hr.tokens_eq
            rw [← columnAfter_append before hr.spelled.oneLine.lf_notMem,
              ← lineAfter_append before hr.spelled.oneLine.lf_notMem] at h
            rw [List.length_cons] at hlt
            obtain ⟨hle, new, rfl, hlays⟩ := ih (by omega) h
            refine ⟨hle, token :: new, by rw [List.append_assoc, List.singleton_append], ?_⟩
            rw [← cstr_cons hnul, hr.text_eq, cstr_append_of_oneLine hr.spelled.oneLine]
            refine .token (List.forall_mem_nil _) hr.spelled.cstr ?_ ?_ ?_
            · rw [List.append_nil, hr.line_eq]
            · rw [List.append_nil, hr.column_eq]
            · rw [List.append_nil]
              exact hlays

/-- The last token is the only EOF token. -/
theorem Lays.concat (h : Lays before rest tokens) :
    ∃ body eof, tokens = body ++ [eof] ∧ eof.type = .eof ∧ ∀ token ∈ body, token.type ≠ .eof := by
  induction h with
  | @eof _ _ token _ ht => exact ⟨[], token, rfl, ht, List.forall_mem_nil _⟩
  | @token _ _ _ _ token tokens _ hs _ _ _ ih =>
    obtain ⟨body, eof, rfl, heof, hbody⟩ := ih
    exact ⟨token :: body, eof, rfl, heof, List.forall_mem_cons.mpr ⟨hs.type_ne_eof, hbody⟩⟩

/-- The tokenizer loses nothing of a text but its blanks, and knows where each token starts. -/
theorem tokenizeSql_lossless {sqlText : Bytes} {tokens : List Token}
    (h : tokenizeSql sqlText = .ok tokens) :
    Lays [] (cstr sqlText) tokens ∧ tokens.length ≤ maxTokens ∧
      ∃ body eof, tokens = body ++ [eof] ∧ eof.type = .eof ∧
        ∀ token ∈ body, token.type ≠ .eof := by
  have hstart : tokenizeFrom (sqlText.length + 1) sqlText (lineAfter []) (columnAfter []) [] =
      .ok tokens := h
  obtain ⟨hle, new, rfl, hlays⟩ := tokenizeFrom_lays (Nat.lt_succ_self _) hstart
  exact ⟨hlays, hle, hlays.concat⟩

/-- The tokens of a text of two lines. -/
abbrev sampleLines : List Token :=
  [⟨.keywordSelect, text "SELECT", 1, 1⟩, ⟨.star, text "*", 1, 8⟩,
    ⟨.keywordFrom, text "FROM", 2, 2⟩, ⟨.identifier, text "users", 2, 7⟩,
    ⟨.semicolon, text ";", 2, 12⟩, ⟨.eof, [], 2, 13⟩]

theorem tokenizeSql_lossless_sample :
    Lays [] (cstr (text "SELECT *\n FROM Users;")) sampleLines ∧ sampleLines.length ≤ maxTokens ∧
      ∃ body eof, sampleLines = body ++ [eof] ∧ eof.type = .eof ∧
        ∀ token ∈ body, token.type ≠ .eof :=
  tokenizeSql_lossless (by decide +kernel)

end SqlProc.Front
