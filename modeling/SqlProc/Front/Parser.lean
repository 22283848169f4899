import SqlProc.Front.Statement
import SqlProc.Front.Tokenizer

/-!
# The parser

Library `Front`. Models `src/parser.c`: recursive descent over the tokens. A function that
fails leaves the position where it was when it found the error.
-/

namespace SqlProc.Front

open Base

/-- `ParserState`. -/
structure ParserState where
  tokens : List Token
  position : Nat

/-- `current_token`; the array past the last token is zeroed. -/
def currentToken : Exec ParserState Token := do
  let state ← Exec.get
  pure (state.tokens.getD state.position .zero)

/-- `previous_token`. -/
def previousToken : Exec ParserState Token := do
  let state ← Exec.get
  pure (state.tokens.getD (state.position - 1) .zero)

/-- `advance_token`. -/
def advanceToken : Exec ParserState Unit :=
  Exec.modify fun state ↦
    if state.position + 1 < state.tokens.length then
      { state with position := state.position + 1 }
    else state

/-- `token_matches`. -/
def tokenMatches (expectedType : TokenType) : Exec ParserState Bool := do
  let token ← currentToken
  pure (token.type = expectedType)

/-- Fail at a token. -/
def failAt {α : Type} (token : Token) (message : String) : Exec ParserState α :=
  Exec.fail ⟨message, token.line, token.column⟩

/-- The location of a token. -/
def Token.location (token : Token) : SourceLocation := ⟨token.line, token.column⟩

/-- `consume_token`. -/
def consumeToken (expectedType : TokenType) (message : String) : Exec ParserState Unit := do
  let token ← currentToken
  if token.type = expectedType then advanceToken else failAt token message

/-- `copy_name`. -/
def copyName (token : Token) : Exec ParserState ColumnName :=
  if maxNameLen ≤ token.text.length then failAt token "이름 길이가 너무 깁니다."
  else pure ⟨snprintfStr maxNameLen token.text, token.location⟩

/-- `parse_identifier`. -/
def parseIdentifier : Exec ParserState ColumnName := do
  let token ← currentToken
  if token.type = .identifier then do
    let name ← copyName token
    advanceToken
    pure name
  else failAt token "식별자가 필요합니다."

/-- The type of a literal token. -/
def literalType : TokenType → Option LiteralType
  | .number => some .int
  | .string => some .string
  | _ => none

/-- `parse_literal`. -/
def parseLiteral : Exec ParserState LiteralValue := do
  let token ← currentToken
  match literalType token.type with
  | some type => do
    advanceToken
    pure ⟨type, snprintfStr maxValueLen token.text, token.location⟩
  | none => failAt token "정수 또는 문자열 리터럴이 필요합니다."

/-- The operator of an operator token. -/
def whereOperator : TokenType → Option WhereOperator
  | .equal => some .equal
  | .greater => some .greater
  | .less => some .less
  | .bangEqual => some .notEqual
  | _ => none

/-- `parse_where_operator`. -/
def parseWhereOperator : Exec ParserState WhereOperator := do
  let token ← currentToken
  match whereOperator token.type with
  | some operator => do
    advanceToken
    pure operator
  | none => failAt token "WHERE 연산자는 =, >, <, != 중 하나여야 합니다."

/-- The loop of `parse_value_list`, with the free cells of the array that are left. -/
def parseValues (expectedCount : Option Nat) :
    Nat → List LiteralValue → Exec ParserState (List LiteralValue)
  | 0, _ => do
    let token ← currentToken
    failAt token "값 수가 최대 개수를 넘었습니다."
  | free + 1, values => do
    if expectedCount.any (· ≤ values.length) then do
      let token ← currentToken
      failAt token "값 수가 컬럼 수보다 많습니다."
    else do
      let value ← parseLiteral
      if ← tokenMatches .comma then do
        advanceToken
        parseValues expectedCount free (values ++ [value])
      else pure (values ++ [value])

/-- `parse_value_list`; no expected count stands for a negative one. -/
def parseValueList (expectedCount : Option Nat) : Exec ParserState (List LiteralValue) := do
  let values ← parseValues expectedCount maxColumns []
  if expectedCount.any (values.length ≠ ·) then do
    let token ← previousToken
    failAt token "컬럼 수와 값 수가 일치하지 않습니다."
  else pure values

/-- The loop over column names of `parse_insert_statement` and `parse_select_statement`, with
the free cells of the array that are left. -/
def parseColumns : Nat → List ColumnName → Exec ParserState (List ColumnName)
  | 0, _ => do
    let token ← currentToken
    failAt token "컬럼 수가 최대 개수를 넘었습니다."
  | free + 1, columns => do
    let column ← parseIdentifier
    if ← tokenMatches .comma then do
      advanceToken
      parseColumns free (columns ++ [column])
    else pure (columns ++ [column])

/-- The optional column list of `parse_insert_statement`. -/
def parseColumnList : Exec ParserState (Option (List ColumnName)) := do
  if ← tokenMatches .lparen then do
    advanceToken
    let columns ← parseColumns maxColumns []
    consumeToken .rparen ") 가 필요합니다."
    pure (some columns)
  else pure none

/-- `parse_insert_statement`. -/
def parseInsertStatement : Exec ParserState Statement := do
  let start ← currentToken
  consumeToken .keywordInsert "INSERT 키워드가 필요합니다."
  consumeToken .keywordInto "INTO 키워드가 필요합니다."
  let table ← parseIdentifier
  let columns ← parseColumnList
  consumeToken .keywordValues "VALUES 키워드가 필요합니다."
  consumeToken .lparen "( 가 필요합니다."
  let values ← parseValueList (columns.map List.length)
  consumeToken .rparen ") 가 필요합니다."
  pure (.insert start.location
    ⟨table.name, table.location, columns.isSome, columns.getD [], values⟩)

/-- `SELECT *`, or the column names of `parse_select_statement`. -/
def parseSelected : Exec ParserState (Option (List ColumnName)) := do
  if ← tokenMatches .star then do
    advanceToken
    pure none
  else do
    let columns ← parseColumns maxColumns []
    pure (some columns)

/-- The optional condition of `parse_select_statement`. -/
def parseCondition : Exec ParserState (Option (ColumnName × WhereOperator × LiteralValue)) := do
  if ← tokenMatches .keywordWhere then do
    advanceToken
    let column ← parseIdentifier
    let operator ← parseWhereOperator
    let value ← parseLiteral
    pure (some (column, operator, value))
  else pure none

/-- A SELECT with the members of the struct that were not set left zeroed. -/
def selectStatement (table : Bytes) (columns : Option (List ColumnName))
    (condition : Option (ColumnName × WhereOperator × LiteralValue)) : SelectStatement :=
  let (column, operator, value) := condition.getD (⟨[], noLocation⟩, .equal, .zero)
  { tableName := table, selectAll := columns.isNone, columns := columns.getD [],
    hasWhere := condition.isSome, whereColumn := column.name,
    whereColumnLocation := column.location, whereOperator := operator, whereValue := value }

/-- `parse_select_statement`. -/
def parseSelectStatement : Exec ParserState Statement := do
  let start ← currentToken
  consumeToken .keywordSelect "SELECT 키워드가 필요합니다."
  let columns ← parseSelected
  consumeToken .keywordFrom "FROM 키워드가 필요합니다."
  let table ← parseIdentifier
  let condition ← parseCondition
  pure (.select start.location (selectStatement table.name columns condition))

/-- `parse_statement`. -/
def parseStatement : Exec ParserState Statement := do
  let token ← currentToken
  match token.type with
  | .keywordInsert => parseInsertStatement
  | .keywordSelect => parseSelectStatement
  | _ => failAt token "지원하지 않는 SQL 문장입니다."

/-- The loop of `parse_program`, with the free cells of the array that are left. -/
def parseStatements : Nat → SqlProgram → Exec ParserState SqlProgram
  | free, program => do
    let token ← currentToken
    if token.type = .eof then pure program
    else
      match free with
      | 0 => failAt token "문장 수가 최대 개수를 넘었습니다."
      | free + 1 => do
        let statement ← parseStatement
        consumeToken .semicolon "문장 끝에는 세미콜론이 필요합니다."
        parseStatements free (program ++ [statement])

/-- `parse_program` on a parser state. -/
def parseTokens : Exec ParserState SqlProgram := do
  let token ← currentToken
  if token.type = .eof then failAt token "SQL 문장이 비어 있습니다."
  else parseStatements maxStatements []

/-- `parse_program`. -/
def parseProgram (tokens : List Token) : Except ErrorInfo SqlProgram :=
  (parseTokens ⟨tokens, 0⟩).1

/-! ### Parsed statements fit their buffers -/

/-- Every token has a text that fits a cell. -/
def TokensFit (state : ParserState) : Prop := ∀ token ∈ state.tokens, ValidCell token.text

theorem ensures_currentToken :
    currentToken.Ensures TokensFit fun token ↦ ValidCell token.text := by
  intro state hs
  refine ⟨hs, fun token ht ↦ ?_⟩
  obtain rfl := Except.ok.inj ht
  rw [List.getD_eq_getElem?_getD]
  cases hi : state.tokens[state.position]? with
  | none => exact validCell_nil
  | some token => exact hs token (List.mem_of_getElem? hi)

theorem ensures_advanceToken : advanceToken.Ensures TokensFit fun _ ↦ True := by
  intro state hs
  refine ⟨?_, fun _ _ ↦ trivial⟩
  rw [advanceToken, Exec.modify_apply]
  split <;> exact hs

theorem ensures_failAt {α : Type} {Q : α → Prop} (token : Token) (message : String) :
    (failAt token message : Exec ParserState α).Ensures TokensFit Q :=
  Exec.ensures_fail _

theorem ensures_tokenMatches (expectedType : TokenType) :
    (tokenMatches expectedType).Ensures TokensFit fun _ ↦ True :=
  Exec.ensures_bind ensures_currentToken fun _ _ ↦ Exec.ensures_pure trivial

theorem ensures_consumeToken (expectedType : TokenType) (message : String) :
    (consumeToken expectedType message).Ensures TokensFit fun _ ↦ True := by
  refine Exec.ensures_bind ensures_currentToken fun token _ ↦ ?_
  split
  · exact ensures_advanceToken
  · exact ensures_failAt _ _

theorem ensures_parseIdentifier :
    parseIdentifier.Ensures TokensFit fun column ↦ column.name.length < maxNameLen := by
  refine Exec.ensures_bind ensures_currentToken fun token _ ↦ ?_
  split
  · refine Exec.ensures_bind (Q := fun column ↦ column.name.length < maxNameLen) ?_ fun name hn ↦
      Exec.ensures_bind ensures_advanceToken fun _ _ ↦ Exec.ensures_pure hn
    unfold copyName
    split
    · exact ensures_failAt _ _
    · exact Exec.ensures_pure (length_snprintfStr_lt (by decide) _)
  · exact ensures_failAt _ _

theorem ensures_parseLiteral :
    parseLiteral.Ensures TokensFit fun value ↦ ValidCell value.text := by
  refine Exec.ensures_bind ensures_currentToken fun token ht ↦ ?_
  split
  · refine Exec.ensures_bind ensures_advanceToken fun _ _ ↦ Exec.ensures_pure ?_
    rw [snprintfStr_of_lt ht.length_lt]
    exact ht
  · exact ensures_failAt _ _

theorem ensures_parseWhereOperator : parseWhereOperator.Ensures TokensFit fun _ ↦ True := by
  refine Exec.ensures_bind ensures_currentToken fun token _ ↦ ?_
  split
  · exact Exec.ensures_bind ensures_advanceToken fun _ _ ↦ Exec.ensures_pure trivial
  · exact ensures_failAt _ _

theorem ensures_parseValues (expectedCount : Option Nat) {free : Nat}
    {values : List LiteralValue} (hv : ∀ value ∈ values, ValidCell value.text) :
    (parseValues expectedCount free values).Ensures TokensFit
      fun values ↦ ∀ value ∈ values, ValidCell value.text := by
  induction free generalizing values with
  | zero => exact Exec.ensures_bind ensures_currentToken fun _ _ ↦ ensures_failAt _ _
  | succ free ih =>
    rw [parseValues]
    split
    · exact Exec.ensures_bind ensures_currentToken fun _ _ ↦ ensures_failAt _ _
    · refine Exec.ensures_bind ensures_parseLiteral fun value hvalue ↦ ?_
      have hmore : ∀ v ∈ values ++ [value], ValidCell v.text := by
        simpa [or_imp, forall_and] using ⟨hv, hvalue⟩
      refine Exec.ensures_bind (ensures_tokenMatches _) fun comma _ ↦ ?_
      split
      · exact Exec.ensures_bind ensures_advanceToken fun _ _ ↦ ih hmore
      · exact Exec.ensures_pure hmore

theorem ensures_parseValueList (expectedCount : Option Nat) :
    (parseValueList expectedCount).Ensures TokensFit fun values ↦
      (∀ value ∈ values, ValidCell value.text) ∧ ∀ n ∈ expectedCount, values.length = n := by
  refine Exec.ensures_bind (ensures_parseValues expectedCount nofun) fun values hv ↦ ?_
  split
  · refine Exec.ensures_bind (Q := fun _ ↦ True) ?_ fun _ _ ↦ ensures_failAt _ _
    exact fun state hs ↦ ⟨hs, fun _ _ ↦ trivial⟩
  · next hcount =>
    refine Exec.ensures_pure ⟨hv, fun n hn ↦ ?_⟩
    rw [Option.mem_def.mp hn, Option.any_some, decide_eq_true_eq, not_not] at hcount
    exact hcount

theorem ensures_parseColumns {free : Nat} {columns : List ColumnName} :
    (parseColumns free columns).Ensures TokensFit fun _ ↦ True := by
  induction free generalizing columns with
  | zero => exact Exec.ensures_bind ensures_currentToken fun _ _ ↦ ensures_failAt _ _
  | succ free ih =>
    refine Exec.ensures_bind ensures_parseIdentifier fun column _ ↦ ?_
    refine Exec.ensures_bind (ensures_tokenMatches _) fun comma _ ↦ ?_
    split
    · exact Exec.ensures_bind ensures_advanceToken fun _ _ ↦ ih
    · exact Exec.ensures_pure trivial

theorem ensures_parseColumnList : parseColumnList.Ensures TokensFit fun _ ↦ True := by
  refine Exec.ensures_bind (ensures_tokenMatches _) fun lparen _ ↦ ?_
  split
  · refine Exec.ensures_bind ensures_advanceToken fun _ _ ↦ ?_
    refine Exec.ensures_bind ensures_parseColumns fun _ _ ↦ ?_
    exact Exec.ensures_bind (ensures_consumeToken _ _) fun _ _ ↦ Exec.ensures_pure trivial
  · exact Exec.ensures_pure trivial

/-- The statement fits its buffers and its values match its column list. -/
def Statement.Accepted (statement : Statement) : Prop := statement.Lexical ∧ statement.Counted

/-- All statements of the program fit, with values that match the column lists. -/
def SqlProgram.Accepted (program : SqlProgram) : Prop :=
  ∀ statement ∈ program, statement.Accepted

theorem ensures_parseInsertStatement :
    parseInsertStatement.Ensures TokensFit Statement.Accepted := by
  refine Exec.ensures_bind ensures_currentToken fun start _ ↦ ?_
  refine Exec.ensures_bind (ensures_consumeToken _ _) fun _ _ ↦ ?_
  refine Exec.ensures_bind (ensures_consumeToken _ _) fun _ _ ↦ ?_
  refine Exec.ensures_bind ensures_parseIdentifier fun table htable ↦ ?_
  refine Exec.ensures_bind ensures_parseColumnList fun columns _ ↦ ?_
  refine Exec.ensures_bind (ensures_consumeToken _ _) fun _ _ ↦ ?_
  refine Exec.ensures_bind (ensures_consumeToken _ _) fun _ _ ↦ ?_
  refine Exec.ensures_bind (ensures_parseValueList _) fun values hvalues ↦ ?_
  refine Exec.ensures_bind (ensures_consumeToken _ _) fun _ _ ↦ ?_
  refine Exec.ensures_pure ⟨⟨htable, hvalues.1⟩, fun hlist ↦ ?_⟩
  cases columns with
  | none => cases hlist
  | some columns => exact (hvalues.2 _ rfl).symm

theorem ensures_parseSelected : parseSelected.Ensures TokensFit fun _ ↦ True := by
  refine Exec.ensures_bind (ensures_tokenMatches _) fun star _ ↦ ?_
  split
  · exact Exec.ensures_bind ensures_advanceToken fun _ _ ↦ Exec.ensures_pure trivial
  · exact Exec.ensures_bind ensures_parseColumns fun _ _ ↦ Exec.ensures_pure trivial

theorem ensures_parseCondition : parseCondition.Ensures TokensFit fun _ ↦ True := by
  refine Exec.ensures_bind (ensures_tokenMatches _) fun keyword _ ↦ ?_
  split
  · refine Exec.ensures_bind ensures_advanceToken fun _ _ ↦ ?_
    refine Exec.ensures_bind ensures_parseIdentifier fun _ _ ↦ ?_
    refine Exec.ensures_bind ensures_parseWhereOperator fun _ _ ↦ ?_
    exact Exec.ensures_bind ensures_parseLiteral fun _ _ ↦ Exec.ensures_pure trivial
  · exact Exec.ensures_pure trivial

theorem ensures_parseSelectStatement :
    parseSelectStatement.Ensures TokensFit Statement.Accepted := by
  refine Exec.ensures_bind ensures_currentToken fun start _ ↦ ?_
  refine Exec.ensures_bind (ensures_consumeToken _ _) fun _ _ ↦ ?_
  refine Exec.ensures_bind ensures_parseSelected fun columns _ ↦ ?_
  refine Exec.ensures_bind (ensures_consumeToken _ _) fun _ _ ↦ ?_
  refine Exec.ensures_bind ensures_parseIdentifier fun table htable ↦ ?_
  refine Exec.ensures_bind ensures_parseCondition fun condition _ ↦ ?_
  exact Exec.ensures_pure ⟨⟨htable⟩, trivial⟩

theorem ensures_parseStatements {free : Nat} {program : SqlProgram} (h : program.Accepted) :
    (parseStatements free program).Ensures TokensFit SqlProgram.Accepted := by
  induction free generalizing program with
  | zero =>
    rw [parseStatements]
    refine Exec.ensures_bind ensures_currentToken fun token _ ↦ ?_
    split
    · exact Exec.ensures_pure h
    · exact ensures_failAt _ _
  | succ free ih =>
    rw [parseStatements]
    refine Exec.ensures_bind ensures_currentToken fun token _ ↦ ?_
    split
    · exact Exec.ensures_pure h
    · refine Exec.ensures_bind (Q := Statement.Accepted) ?_ fun statement hs ↦ ?_
      · refine Exec.ensures_bind ensures_currentToken fun token _ ↦ ?_
        split
        · exact ensures_parseInsertStatement
        · exact ensures_parseSelectStatement
        · exact ensures_failAt _ _
      · refine Exec.ensures_bind (ensures_consumeToken _ _) fun _ _ ↦ ih fun s hm ↦ ?_
        rcases List.mem_append.mp hm with hm | hm
        · exact h s hm
        · rw [List.mem_singleton.mp hm]
          exact hs

theorem ensures_parseTokens : parseTokens.Ensures TokensFit SqlProgram.Accepted := by
  refine Exec.ensures_bind ensures_currentToken fun token _ ↦ ?_
  split
  · exact ensures_failAt _ _
  · exact ensures_parseStatements (List.forall_mem_nil _)

/-- A parsed program is in order when the texts of its tokens fit their buffers. -/
theorem parseProgram_accepted {tokens : List Token} {program : SqlProgram}
    (ht : ∀ token ∈ tokens, ValidCell token.text) (h : parseProgram tokens = .ok program) :
    program.Accepted := by
  unfold parseProgram at h
  exact (ensures_parseTokens ⟨tokens, 0⟩ ht).2 program h

/-- The statement is one of a program that the front end has accepted. -/
def IsParsed (statement : Statement) : Prop :=
  ∃ sqlText program, tokenizeSql sqlText >>= parseProgram = .ok program ∧ statement ∈ program

theorem IsParsed.accepted {statement : Statement} (h : IsParsed statement) :
    statement.Accepted := by
  obtain ⟨sqlText, program, hparse, hmem⟩ := h
  obtain ⟨tokens, htokens, hprogram⟩ := except_bind_eq_ok_iff.mp hparse
  exact parseProgram_accepted (tokenizeSql_validCell htokens) hprogram statement hmem

theorem IsParsed.lexical {statement : Statement} (h : IsParsed statement) : statement.Lexical :=
  h.accepted.1

end SqlProc.Front
