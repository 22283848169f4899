import SqlProc.Base.Exec
import SqlProc.Base.Limits

/-!
# The tokenizer

Library `Front`. Models `src/tokenizer.c`. The text that is left stands for the string and the
index into it, and its end for the terminator. Lines, columns and the index are `int` in the source
and unbounded here: texts are shorter than `INT_MAX`, as the callers' buffers are.
-/

namespace SqlProc.Front

open Base

/-- `TokenType`. -/
inductive TokenType where
  | eof
  | identifier
  | number
  | string
  | comma
  | semicolon
  | lparen
  | rparen
  | star
  | equal
  | greater
  | less
  | bangEqual
  | keywordInsert
  | keywordInto
  | keywordValues
  | keywordSelect
  | keywordFrom
  | keywordWhere
  deriving DecidableEq, Repr

/-- `Token`. -/
structure Token where
  type : TokenType
  text : Bytes
  line : Int
  column : Int
  deriving DecidableEq, Repr

/-- A `Token` after `memset`. -/
def Token.zero : Token := ⟨.eof, [], 0, 0⟩

/-- `to_lowercase_copy`. -/
def toLowercaseCopy (destSize : Nat) (src : Bytes) : Bytes := (src.take (destSize - 1)).map tolower

/-- `keyword_type`. -/
def keywordType (word : Bytes) : TokenType :=
  if word = text "insert" then .keywordInsert
  else if word = text "into" then .keywordInto
  else if word = text "values" then .keywordValues
  else if word = text "select" then .keywordSelect
  else if word = text "from" then .keywordFrom
  else if word = text "where" then .keywordWhere
  else .identifier

/-- `append_token`. -/
def appendToken (tokens : List Token) (type : TokenType) (text : Bytes) (line column : Int) :
    Except ErrorInfo (List Token) :=
  if maxTokens ≤ tokens.length then .error ⟨"토큰 수가 최대 개수를 넘었습니다.", line, column⟩
  else .ok (tokens ++ [⟨type, snprintfStr maxValueLen text, line, column⟩])

/-- The bytes of a word. -/
def isWordByte (c : UInt8) : Bool := isalnum c || c = underscore

/-- `read_word`: the tokens, and the text that is left. -/
def readWord (sqlText : Bytes) (line column : Int) (tokens : List Token) :
    Except ErrorInfo (List Token × Bytes) :=
  let rawText := sqlText.takeWhile isWordByte
  if maxValueLen ≤ rawText.length then .error ⟨"식별자 길이가 너무 깁니다.", line, column⟩
  else do
    let lowerText := toLowercaseCopy maxValueLen rawText
    let type := keywordType lowerText
    let tokens ←
      appendToken tokens type (if type = .identifier then lowerText else rawText) line column
    .ok (tokens, sqlText.dropWhile isWordByte)

/-- The optional minus sign of a number. -/
def signText (sqlText : Bytes) : Bytes := if sqlText.head? = some minus then [minus] else []

/-- `read_number`. -/
def readNumber (sqlText : Bytes) (line column : Int) (tokens : List Token) :
    Except ErrorInfo (List Token × Bytes) :=
  let digits := sqlText.drop (signText sqlText).length
  let numberText := signText sqlText ++ digits.takeWhile isdigit
  if numberText.length = 0 || maxValueLen ≤ numberText.length then
    .error ⟨"숫자 리터럴이 잘못되었습니다.", line, column⟩
  else do
    let tokens ← appendToken tokens .number numberText line column
    .ok (tokens, digits.dropWhile isdigit)

/-- The loop of `read_string`: the string, and the text after its closing quote. -/
def readStringText (line column : Int) : Nat → Bytes → Except ErrorInfo (Bytes × Bytes)
  | _, [] => .error ⟨"문자열 리터럴이 닫히지 않았습니다.", line, column⟩
  | textIndex, c :: sqlText =>
    if c = nul then .error ⟨"문자열 리터럴이 닫히지 않았습니다.", line, column⟩
    else if c = squote then .ok ([], sqlText)
    else if c = lf || c = cr then
      .error ⟨"문자열 리터럴 안에는 줄바꿈을 넣을 수 없습니다.", line, column + textIndex + 1⟩
    else if maxValueLen - 1 ≤ textIndex then
      .error ⟨"문자열 길이가 최대 길이를 넘었습니다.", line, column⟩
    else do
      let (stringText, rest) ← readStringText line column (textIndex + 1) sqlText
      .ok (c :: stringText, rest)

/-- `read_string`. -/
def readString (sqlText : Bytes) (line column : Int) (tokens : List Token) :
    Except ErrorInfo (List Token × Bytes) := do
  let (stringText, rest) ← readStringText line column 0 sqlText.tail
  let tokens ← appendToken tokens .string stringText line column
  .ok (tokens, rest)

/-- The type of a symbol of one byte. -/
def symbolType (c : UInt8) : Option TokenType :=
  if [c] = text "," then some .comma
  else if [c] = text ";" then some .semicolon
  else if [c] = text "(" then some .lparen
  else if [c] = text ")" then some .rparen
  else if [c] = text "*" then some .star
  else if [c] = text "=" then some .equal
  else if [c] = text ">" then some .greater
  else if [c] = text "<" then some .less
  else none

/-- `read_symbol`. -/
def readSymbol (sqlText : Bytes) (line column : Int) (tokens : List Token) :
    Except ErrorInfo (List Token × Bytes) :=
  match symbolType (sqlText.headD nul) with
  | some type => do
    let tokens ← appendToken tokens type (sqlText.take 1) line column
    .ok (tokens, sqlText.drop 1)
  | none =>
    if sqlText.take 2 = text "!=" then do
      let tokens ← appendToken tokens .bangEqual (text "!=") line column
      .ok (tokens, sqlText.drop 2)
    else .error ⟨"지원하지 않는 문자를 찾았습니다.", line, column⟩

/-- The text starts with a letter or an underscore. -/
def startsWord (sqlText : Bytes) : Bool :=
  isalpha (sqlText.headD nul) || sqlText.headD nul = underscore

/-- The text starts with a digit, or with a minus sign and a digit. -/
def startsNumber (sqlText : Bytes) : Bool :=
  isdigit (sqlText.headD nul) || (sqlText.head? = some minus && isdigit (sqlText.tail.headD nul))

/-- The token that was appended last. -/
def lastToken (tokens : List Token) : Token := tokens.getLast?.getD .zero

/-- What a reader returns, with the column after the token that it has appended. -/
def withColumn (columnAfter : Token → Int) :
    Except ErrorInfo (List Token × Bytes) → Except ErrorInfo (List Token × Bytes × Int)
  | .error e => .error e
  | .ok (tokens, rest) => .ok (tokens, rest, columnAfter (lastToken tokens))

/-- The reader that `tokenize_sql` calls at a byte that is not blank: the tokens, the text that
is left, and the column after the token. -/
def readToken (sqlText : Bytes) (line column : Int) (tokens : List Token) :
    Except ErrorInfo (List Token × Bytes × Int) :=
  if startsWord sqlText then
    withColumn (fun token ↦ token.column + token.text.length)
      (readWord sqlText line column tokens)
  else if startsNumber sqlText then
    withColumn (fun token ↦ token.column + token.text.length)
      (readNumber sqlText line column tokens)
  else if sqlText.headD nul = squote then
    -- the text of the token lacks the two quotes
    withColumn (fun token ↦ column + (token.text.length + 2))
      (readString sqlText line column tokens)
  else
    withColumn (fun token ↦ column + token.text.length) (readSymbol sqlText line column tokens)

/-- The loop of `tokenize_sql`. The first argument bounds the number of its steps. -/
def tokenizeFrom : Nat → Bytes → Int → Int → List Token → Except ErrorInfo (List Token)
  | 0, _, _, _, tokens => .ok tokens
  | _ + 1, [], line, column, tokens => appendToken tokens .eof [] line column
  | fuel + 1, c :: sqlText, line, column, tokens =>
    if c = nul then appendToken tokens .eof [] line column
    else if c = space || c = tab || c = cr then
      tokenizeFrom fuel sqlText line (column + 1) tokens
    else if c = lf then tokenizeFrom fuel sqlText (line + 1) 1 tokens
    else do
      let (tokens, rest, column) ← readToken (c :: sqlText) line column tokens
      tokenizeFrom fuel rest line column tokens

/-- `tokenize_sql`. -/
def tokenizeSql (sqlText : Bytes) : Except ErrorInfo (List Token) :=
  tokenizeFrom (sqlText.length + 1) sqlText 1 1 []

/-! ### What the readers do -/

variable {sqlText rest stringText : Bytes} {line column : Int} {tokens tokens' : List Token}

theorem appendToken_eq_ok_iff {type : TokenType} {text : Bytes} :
    appendToken tokens type text line column = .ok tokens' ↔ tokens.length < maxTokens ∧
      tokens' = tokens ++ [⟨type, snprintfStr maxValueLen text, line, column⟩] := by
  unfold appendToken
  split
  · next h =>
    constructor
    · intro he
      cases he
    · rintro ⟨hlt, -⟩
      exact absurd hlt (Nat.not_lt.mpr h)
  · next h =>
    constructor
    · intro he
      exact ⟨Nat.lt_of_not_le h, (Except.ok.inj he).symm⟩
    · rintro ⟨-, rfl⟩
      rfl

/-- There is room for one more token. -/
theorem appendToken_of_lt (ht : tokens.length < maxTokens)
    (type : TokenType) (text : Bytes) (line column : Int) :
    appendToken tokens type text line column =
      .ok (tokens ++ [⟨type, snprintfStr maxValueLen text, line, column⟩]) :=
  appendToken_eq_ok_iff.mpr ⟨ht, rfl⟩

/-- A reader ends with the token that it appends and the text that it leaves. -/
theorem appendToken_bind_eq_ok_iff {type : TokenType} {text rest' : Bytes} :
    (appendToken tokens type text line column >>= fun tokens ↦ .ok (tokens, rest')) =
        .ok (tokens', rest) ↔
      tokens.length < maxTokens ∧
        tokens' = tokens ++ [⟨type, snprintfStr maxValueLen text, line, column⟩] ∧
        rest = rest' := by
  rw [except_bind_eq_ok_iff]
  constructor
  · rintro ⟨tokens₁, happend, h⟩
    obtain ⟨rfl, rfl⟩ := Prod.mk.inj (Except.ok.inj h)
    obtain ⟨hlt, rfl⟩ := appendToken_eq_ok_iff.mp happend
    exact ⟨hlt, rfl, rfl⟩
  · rintro ⟨hlt, rfl, rfl⟩
    exact ⟨_, appendToken_eq_ok_iff.mpr ⟨hlt, rfl⟩, rfl⟩

/-! ### Words -/

/-- The token of a word. -/
def wordToken (word : Bytes) (line column : Int) : Token :=
  let type := keywordType (word.map tolower)
  ⟨type, if type = .identifier then word.map tolower else word, line, column⟩

/-- `read_word` takes a whole word that fits. -/
theorem readWord_eq_ok_iff :
    readWord sqlText line column tokens = .ok (tokens', rest) ↔
      (sqlText.takeWhile isWordByte).length < maxValueLen ∧ tokens.length < maxTokens ∧
        tokens' = tokens ++ [wordToken (sqlText.takeWhile isWordByte) line column] ∧
        rest = sqlText.dropWhile isWordByte := by
  simp only [readWord]
  generalize sqlText.takeWhile isWordByte = word
  split
  · next hlong => exact iff_of_false (by rintro ⟨⟩) fun h ↦ Nat.not_lt.mpr hlong h.1
  · next hfits =>
    have hlen := Nat.lt_of_not_le hfits
    have hlower : toLowercaseCopy maxValueLen word = word.map tolower := by
      rw [toLowercaseCopy, List.take_of_length_le (by omega)]
    have htext : ∀ b : Prop, [Decidable b] → snprintfStr maxValueLen
        (if b then word.map tolower else word) = if b then word.map tolower else word := by
      intro b _
      apply snprintfStr_of_lt
      split
      · rwa [List.length_map]
      · exact hlen
    rw [appendToken_bind_eq_ok_iff, hlower, htext, and_iff_right hlen]
    rfl

theorem startsWord_takeWhile (hs : startsWord sqlText = true) :
    startsWord (sqlText.takeWhile isWordByte) = true := by
  cases sqlText with
  | nil => cases hs
  | cons c sqlText =>
    have hc : isWordByte c = true := by
      rw [startsWord, Bool.or_eq_true] at hs
      rw [isWordByte, isalnum, Bool.or_eq_true, Bool.or_eq_true]
      exact hs.imp_left Or.inl
    rw [List.takeWhile_cons_of_pos hc]
    exact hs

/-! ### Numbers -/

/-- The digits after the optional sign of a number. -/
abbrev afterSign (sqlText : Bytes) : Bytes := sqlText.drop (signText sqlText).length

/-- The text of a number. -/
abbrev numberText (sqlText : Bytes) : Bytes :=
  signText sqlText ++ (afterSign sqlText).takeWhile isdigit

/-- `read_number` takes a whole number that fits. -/
theorem readNumber_eq_ok_iff :
    readNumber sqlText line column tokens = .ok (tokens', rest) ↔
      numberText sqlText ≠ [] ∧ (numberText sqlText).length < maxValueLen ∧
        tokens.length < maxTokens ∧
        tokens' = tokens ++ [⟨.number, numberText sqlText, line, column⟩] ∧
        rest = (afterSign sqlText).dropWhile isdigit := by
  have hchecks : (decide ((numberText sqlText).length = 0) ||
      decide (maxValueLen ≤ (numberText sqlText).length)) = true ↔
        ¬ (numberText sqlText ≠ [] ∧ (numberText sqlText).length < maxValueLen) := by
    rw [Bool.or_eq_true, decide_eq_true_eq, decide_eq_true_eq, List.length_eq_zero_iff,
      Decidable.not_and_iff_not_or_not, not_not, Nat.not_lt]
  simp only [readNumber]
  split
  · next h => 
    rw [← and_assoc]
    exact iff_of_false (by rintro ⟨⟩) fun h' ↦ hchecks.mp h h'.1
  · next h =>
    obtain ⟨hne, hlen⟩ := not_not.mp (mt hchecks.mpr h)
    rw [appendToken_bind_eq_ok_iff, snprintfStr_of_lt hlen, and_iff_right hne, and_iff_right hlen]

theorem signText_append_afterSign (sqlText : Bytes) :
    signText sqlText ++ afterSign sqlText = sqlText := by
  unfold afterSign signText
  split
  · next h =>
    obtain ⟨sqlText, rfl⟩ := List.head?_eq_some_iff.mp h
    rfl
  · rfl

theorem numberText_append_dropWhile (sqlText : Bytes) :
    numberText sqlText ++ (afterSign sqlText).dropWhile isdigit = sqlText := by
  rw [List.append_assoc, List.takeWhile_append_dropWhile, signText_append_afterSign]

/-- A number consists of digits and a sign. -/
theorem isdigit_or_of_mem_numberText {c : UInt8} (h : c ∈ numberText sqlText) :
    (isdigit c || c = minus) = true := by
  rw [Bool.or_eq_true, decide_eq_true_eq]
  rcases List.mem_append.mp h with hc | hc
  · unfold signText at hc
    split at hc
    · exact Or.inr (List.mem_singleton.mp hc)
    · cases hc
  · exact Or.inl (List.mem_takeWhile_imp hc)

/-! ### Strings -/

/-- The text before the closing quote, and the text after it. -/
structure Closes (textIndex : Nat) (sqlText stringText rest : Bytes) : Prop where
  text_eq : sqlText = stringText ++ squote :: rest
  oneLine : OneLine stringText
  squote_notMem : squote ∉ stringText
  length_lt : stringText ≠ [] → textIndex + stringText.length < maxValueLen

theorem closes_squote_iff {textIndex : Nat} :
    Closes textIndex (squote :: sqlText) stringText rest ↔ stringText = [] ∧ rest = sqlText := by
  constructor
  · intro h
    obtain ⟨htext, -, hquote, -⟩ := h
    cases stringText with
    | nil => exact ⟨rfl, (List.cons.inj htext).2.symm⟩
    | cons d stringText => exact absurd ((List.cons.inj htext).1 ▸ List.mem_cons_self) hquote
  · rintro ⟨rfl, rfl⟩
    exact ⟨rfl, by decide, List.not_mem_nil, fun h ↦ absurd rfl h⟩

theorem closes_cons_iff {textIndex : Nat} {c : UInt8} (hc : c ≠ squote) :
    Closes textIndex (c :: sqlText) stringText rest ↔
      (c ≠ nul ∧ c ≠ lf ∧ c ≠ cr) ∧ textIndex < maxValueLen - 1 ∧
        ∃ later, stringText = c :: later ∧ Closes (textIndex + 1) sqlText later rest := by
  simp only [maxValueLen]
  constructor
  · rintro ⟨htext, hone, hquote, hlen⟩
    cases stringText with
    | nil => exact absurd (List.cons.inj htext).1 hc
    | cons d later =>
      obtain ⟨rfl, rfl⟩ := List.cons.inj htext
      obtain ⟨hbyte, hlater⟩ := List.forall_mem_cons.mp (oneLine_iff.mp hone)
      have hlt := hlen (List.cons_ne_nil _ _)
      rw [List.length_cons] at hlt
      simp only [maxValueLen] at hlt
      refine ⟨hbyte, by omega, later, rfl, rfl, oneLine_iff.mpr hlater,
        fun hm ↦ hquote (List.mem_cons_of_mem _ hm), fun _ ↦ ?_⟩
      simp only [maxValueLen]
      omega
  · rintro ⟨hbyte, hroom, later, rfl, rfl, hone, hquote, hlen⟩
    refine ⟨rfl, oneLine_iff.mpr (List.forall_mem_cons.mpr ⟨hbyte, oneLine_iff.mp hone⟩), ?_,
      fun _ ↦ ?_⟩
    · rw [List.mem_cons, not_or]
      exact ⟨Ne.symm hc, hquote⟩
    · rw [List.length_cons]
      by_cases hnil : later = []
      · subst hnil
        simp only [maxValueLen, List.length_nil]
        omega
      · have hlt := hlen hnil
        omega

/-- The loop of `read_string` takes the text up to the closing quote, when it is on one line and
fits. -/
theorem readStringText_eq_ok_iff {textIndex : Nat} :
    readStringText line column textIndex sqlText = .ok (stringText, rest) ↔
      Closes textIndex sqlText stringText rest := by
  induction sqlText generalizing textIndex stringText with
  | nil =>
    refine iff_of_false (by rintro ⟨⟩) fun h ↦ ?_
    exact List.append_ne_nil_of_right_ne_nil _ (List.cons_ne_nil _ _) h.text_eq.symm
  | cons c sqlText ih =>
    rw [readStringText]
    by_cases hquote : c = squote
    · subst hquote
      rw [if_neg (by decide), if_pos rfl, closes_squote_iff, Except.ok.injEq, Prod.mk.injEq,
        eq_comm, @eq_comm _ sqlText]
    · rw [closes_cons_iff hquote]
      split
      · next hnul => exact iff_of_false (by rintro ⟨⟩) fun h ↦ h.1.1 hnul
      · next hnul =>
        split
        · next hline =>
          rw [Bool.or_eq_true, decide_eq_true_eq, decide_eq_true_eq] at hline
          exact iff_of_false (by rintro ⟨⟩) fun h ↦ hline.elim h.1.2.1 h.1.2.2
        · next hline =>
          rw [Bool.or_eq_true, decide_eq_true_eq, decide_eq_true_eq, not_or] at hline
          split
          · next hroom => exact iff_of_false (by rintro ⟨⟩) fun h ↦ Nat.not_lt.mpr hroom h.2.1
          · next hroom =>
            rw [and_iff_right ⟨hnul, hline⟩, and_iff_right (Nat.lt_of_not_le hroom),
              except_bind_eq_ok_iff]
            constructor
            · rintro ⟨⟨later, rest'⟩, hread, h⟩
              obtain ⟨rfl, rfl⟩ := Prod.mk.inj (Except.ok.inj h)
              exact ⟨later, rfl, ih.mp hread⟩
            · rintro ⟨later, rfl, h⟩
              exact ⟨(later, rest), ih.mpr h, rfl⟩

theorem Closes.length_text_lt (h : Closes 0 sqlText stringText rest) :
    stringText.length < maxValueLen := by
  cases stringText with
  | nil => decide
  | cons c stringText =>
    have := h.length_lt (List.cons_ne_nil _ _)
    rwa [Nat.zero_add] at this

/-- `read_string` takes a whole string after its opening quote. -/
theorem readString_eq_ok_iff :
    readString sqlText line column tokens = .ok (tokens', rest) ↔
      ∃ stringText, Closes 0 sqlText.tail stringText rest ∧ tokens.length < maxTokens ∧
        tokens' = tokens ++ [⟨.string, stringText, line, column⟩] := by
  rw [readString, except_bind_eq_ok_iff]
  constructor
  · rintro ⟨⟨stringText, rest'⟩, hread, h⟩
    obtain ⟨hlt, rfl, rfl⟩ := appendToken_bind_eq_ok_iff.mp h
    have hcloses := readStringText_eq_ok_iff.mp hread
    rw [snprintfStr_of_lt hcloses.length_text_lt]
    exact ⟨stringText, hcloses, hlt, rfl⟩
  · rintro ⟨stringText, hcloses, hlt, rfl⟩
    refine ⟨(stringText, rest), readStringText_eq_ok_iff.mpr hcloses,
      appendToken_bind_eq_ok_iff.mpr ⟨hlt, ?_, rfl⟩⟩
    rw [snprintfStr_of_lt hcloses.length_text_lt]

/-! ### Symbols -/

/-- A symbol and its spelling. -/
inductive IsSymbol : TokenType → Bytes → Prop
  | one {c : UInt8} {type : TokenType} (h : symbolType c = some type) : IsSymbol type [c]
  | bangEqual : IsSymbol .bangEqual (text "!=")

/-- `read_symbol` takes a symbol. -/
theorem readSymbol_eq_ok_iff :
    readSymbol sqlText line column tokens = .ok (tokens', rest) ↔
      ∃ type spelled, IsSymbol type spelled ∧ sqlText = spelled ++ rest ∧
        tokens.length < maxTokens ∧ tokens' = tokens ++ [⟨type, spelled, line, column⟩] := by
  have hnul : symbolType nul = none := by decide
  have hbang : symbolType 33 = none := by decide
  unfold readSymbol
  constructor
  · intro h
    cases ht : symbolType (sqlText.headD nul) with
    | some type =>
      simp only [ht] at h
      obtain ⟨hlt, rfl, rfl⟩ := appendToken_bind_eq_ok_iff.mp h
      cases sqlText with
      | nil => exact absurd (ht.symm.trans hnul) (by rintro ⟨⟩)
      | cons c sqlText => exact ⟨type, [c], .one ht, rfl, hlt, rfl⟩
    | none =>
      simp only [ht] at h
      split at h
      · next htake =>
        obtain ⟨hlt, rfl, rfl⟩ := appendToken_bind_eq_ok_iff.mp h
        refine ⟨_, _, .bangEqual, ?_, hlt, rfl⟩
        rw [← htake, List.take_append_drop]
      · cases h
  · rintro ⟨type, spelled, hs, rfl, hlt, rfl⟩
    cases hs with
    | one ht =>
      simp only [List.singleton_append, List.headD_cons, ht]
      exact appendToken_bind_eq_ok_iff.mpr ⟨hlt, rfl, rfl⟩
    | bangEqual =>
      have hhead : (text "!=" ++ rest).headD nul = 33 := rfl
      have htake : (text "!=" ++ rest).take 2 = text "!=" := rfl
      simp only [hhead, hbang, htake, if_true]
      exact appendToken_bind_eq_ok_iff.mpr ⟨hlt, rfl, rfl⟩

/-- A symbol is a text that fits a cell. -/
theorem IsSymbol.validCell {type : TokenType} {spelled : Bytes} (h : IsSymbol type spelled) :
    ValidCell spelled ∧ spelled ≠ [] := by
  cases h with
  | @one c type h =>
    have hnot : ∀ d, symbolType d = none → d ∉ [c] := by
      intro d hd hm
      rw [List.mem_singleton.mp hm, h] at hd
      cases hd
    have hone : OneLine [c] := ⟨hnot nul (by decide), hnot lf (by decide), hnot cr (by decide)⟩
    exact ⟨⟨hone, show 1 < maxValueLen by decide⟩, List.cons_ne_nil _ _⟩
  | bangEqual => exact ⟨by decide, by decide⟩

/-! ### The next token -/

/-- A reader has appended one token that fits, and has left less text. -/
structure ReadsToken (sqlText : Bytes) (tokens tokens' : List Token) (rest : Bytes) : Prop where
  appended : ∃ token, tokens' = tokens ++ [token] ∧ ValidCell token.text
  length_lt : rest.length < sqlText.length

theorem isWordByte_tolower (c : UInt8) : isWordByte (tolower c) = isWordByte c := by
  rw [isWordByte, isWordByte, isalnum_tolower]
  congr 1
  exact decide_eq_decide.mpr (tolower_eq_underscore_iff c)

/-- The bytes of a word, in any case, hold no line end. -/
theorem wordToken_validCell {word : Bytes} (hw : ∀ c ∈ word, isWordByte c = true)
    (hl : word.length < maxValueLen) (line column : Int) :
    ValidCell (wordToken word line column).text := by
  have hlower : ∀ c ∈ word.map tolower, isWordByte c = true := by
    intro c hc
    obtain ⟨d, hd, rfl⟩ := List.mem_map.mp hc
    rw [isWordByte_tolower]
    exact hw d hd
  unfold wordToken
  dsimp only
  split
  · exact ⟨oneLine_of_forall hlower rfl rfl rfl, by rwa [List.length_map]⟩
  · exact ⟨oneLine_of_forall hw rfl rfl rfl, hl⟩

/-- A reader that takes some of the text has left less. -/
theorem length_lt_of_append {spelled : Bytes} (h : spelled ++ rest = sqlText)
    (hne : spelled ≠ []) : rest.length < sqlText.length := by
  have hpos := List.length_pos_of_ne_nil hne
  rw [← h, List.length_append]
  omega

theorem readWord_reads (hs : startsWord sqlText = true)
    (h : readWord sqlText line column tokens = .ok (tokens', rest)) :
    ReadsToken sqlText tokens tokens' rest := by
  obtain ⟨hlen, -, rfl, rfl⟩ := readWord_eq_ok_iff.mp h
  have hne : sqlText.takeWhile isWordByte ≠ [] := by
    intro hnil
    have hstart := startsWord_takeWhile hs
    rw [hnil] at hstart
    cases hstart
  have hvalid := wordToken_validCell (fun c hc ↦ List.mem_takeWhile_imp hc) hlen line column
  exact ⟨⟨_, rfl, hvalid⟩, length_lt_of_append List.takeWhile_append_dropWhile hne⟩

theorem readNumber_reads (h : readNumber sqlText line column tokens = .ok (tokens', rest)) :
    ReadsToken sqlText tokens tokens' rest := by
  obtain ⟨hne, hlen, -, rfl, rfl⟩ := readNumber_eq_ok_iff.mp h
  have hone : OneLine (numberText sqlText) :=
    oneLine_of_forall (fun _ hc ↦ isdigit_or_of_mem_numberText hc) rfl rfl rfl
  exact ⟨⟨_, rfl, hone, hlen⟩, length_lt_of_append (numberText_append_dropWhile sqlText) hne⟩

theorem readString_reads (h : readString sqlText line column tokens = .ok (tokens', rest)) :
    ReadsToken sqlText tokens tokens' rest := by
  obtain ⟨stringText, hcloses, -, rfl⟩ := readString_eq_ok_iff.mp h
  have hlen : sqlText.tail.length = (stringText ++ squote :: rest).length :=
    congrArg List.length hcloses.text_eq
  rw [List.length_tail, List.length_append, List.length_cons] at hlen
  exact ⟨⟨_, rfl, hcloses.oneLine, hcloses.length_text_lt⟩, by omega⟩

theorem readSymbol_reads (h : readSymbol sqlText line column tokens = .ok (tokens', rest)) :
    ReadsToken sqlText tokens tokens' rest := by
  obtain ⟨type, spelled, hs, htext, -, rfl⟩ := readSymbol_eq_ok_iff.mp h
  obtain ⟨hvalid, hne⟩ := hs.validCell
  exact ⟨⟨_, rfl, hvalid⟩, length_lt_of_append htext.symm hne⟩

theorem withColumn_eq_ok_iff {columnAfter : Token → Int}
    {read : Except ErrorInfo (List Token × Bytes)} {tokens : List Token} {rest : Bytes}
    {column : Int} : withColumn columnAfter read = .ok (tokens, rest, column) ↔
      read = .ok (tokens, rest) ∧ columnAfter (lastToken tokens) = column := by
  cases read with
  | error e => simp [withColumn]
  | ok p =>
    obtain ⟨tokens', rest'⟩ := p
    simp only [withColumn, Except.ok.injEq, Prod.mk.injEq]
    constructor
    · rintro ⟨rfl, rfl, h⟩
      exact ⟨⟨rfl, rfl⟩, h⟩
    · rintro ⟨⟨rfl, rfl⟩, h⟩
      exact ⟨rfl, rfl, h⟩

theorem readToken_reads {column' : Int}
    (h : readToken sqlText line column tokens = .ok (tokens', rest, column')) :
    ReadsToken sqlText tokens tokens' rest := by
  unfold readToken at h
  split at h
  · next hword => exact readWord_reads hword (withColumn_eq_ok_iff.mp h).1
  · split at h
    · exact readNumber_reads (withColumn_eq_ok_iff.mp h).1
    · split at h
      · exact readString_reads (withColumn_eq_ok_iff.mp h).1
      · exact readSymbol_reads (withColumn_eq_ok_iff.mp h).1

/-! ### Whole texts -/

/-- The texts of all tokens fit. -/
theorem tokenizeFrom_validCell {fuel : Nat} {sqlText : Bytes} {line column : Int}
    {tokens tokens' : List Token} (ht : ∀ token ∈ tokens, ValidCell token.text)
    (h : tokenizeFrom fuel sqlText line column tokens = .ok tokens') :
    ∀ token ∈ tokens', ValidCell token.text := by
  induction fuel generalizing sqlText line column tokens with
  | zero =>
    obtain rfl := Except.ok.inj h
    exact ht
  | succ fuel ih =>
    have heof : ∀ {tokens'}, appendToken tokens .eof [] line column = .ok tokens' →
        ∀ token ∈ tokens', ValidCell token.text := by
      intro tokens' he
      obtain ⟨-, rfl⟩ := appendToken_eq_ok_iff.mp he
      exact List.forall_mem_append.mpr ⟨ht, List.forall_mem_singleton.mpr validCell_nil⟩
    cases sqlText with
    | nil => exact heof h
    | cons c sqlText =>
      rw [tokenizeFrom] at h
      split at h
      · exact heof h
      · split at h
        · exact ih ht h
        · split at h
          · exact ih ht h
          · obtain ⟨⟨tokens₁, rest, column₁⟩, hread, h⟩ := except_bind_eq_ok_iff.mp h
            obtain ⟨token, rfl, hvalid⟩ := (readToken_reads hread).appended
            refine ih (List.forall_mem_append.mpr ⟨ht, ?_⟩) h
            exact List.forall_mem_singleton.mpr hvalid

/-- The tokens of a text fit a cell. -/
theorem tokenizeSql_validCell {sqlText : Bytes} {tokens : List Token}
    (h : tokenizeSql sqlText = .ok tokens) : ∀ token ∈ tokens, ValidCell token.text :=
  tokenizeFrom_validCell (List.forall_mem_nil _) h

/-- Two bounds that both exceed the length of the text give the same result. -/
theorem tokenizeFrom_fuel {fuel fuel' : Nat} {sqlText : Bytes} (hl : sqlText.length < fuel)
    (hl' : sqlText.length < fuel') (line column : Int) (tokens : List Token) :
    tokenizeFrom fuel sqlText line column tokens =
      tokenizeFrom fuel' sqlText line column tokens := by
  induction fuel generalizing fuel' sqlText line column tokens with
  | zero => exact absurd hl (Nat.not_lt_zero _)
  | succ fuel ih =>
    obtain ⟨fuel', rfl⟩ := Nat.exists_eq_add_one_of_ne_zero (Nat.ne_of_gt (Nat.zero_lt_of_lt hl'))
    cases sqlText with
    | nil => rfl
    | cons c sqlText =>
      rw [List.length_cons] at hl hl'
      have hnext : ∀ {rest : Bytes} (line column : Int) (tokens : List Token),
          rest.length ≤ sqlText.length → tokenizeFrom fuel rest line column tokens =
            tokenizeFrom fuel' rest line column tokens := by
        intro rest line column tokens hle
        exact ih (by omega) (by omega) line column tokens
      have htoken : (readToken (c :: sqlText) line column tokens >>= fun p ↦
            tokenizeFrom fuel p.2.1 line p.2.2 p.1) =
          readToken (c :: sqlText) line column tokens >>= fun p ↦
            tokenizeFrom fuel' p.2.1 line p.2.2 p.1 := by
        cases hread : readToken (c :: sqlText) line column tokens with
        | error e => rfl
        | ok p =>
          have hlt := (readToken_reads hread).length_lt
          exact hnext line p.2.2 p.1 (Nat.le_of_lt_succ hlt)
      rw [tokenizeFrom, tokenizeFrom, hnext _ _ _ le_rfl, hnext _ _ _ le_rfl]
      simp only [htoken]

end SqlProc.Front
