import SqlProc.Front.Lexing

/-!
# The parser reads every program

Library `Front`. A step of the parser reads a list of lexemes when, before any tokens of them,
it succeeds and stops at the token after them. Steps in sequence read lexemes in sequence.
-/

namespace SqlProc.Front

open Base

variable {α β : Type} {x : Exec ParserState α} {f : α → Exec ParserState β} {lexeme : Lexeme}
  {lexemes lexemes' : List Lexeme} {N N' : Token → Prop} {Q : α → Prop} {Q' : β → Prop}

/-! ### Steps that read lexemes -/

/-- The parser between the tokens that it has read and the others. -/
def stateAt (done tokens : List Token) : ParserState := ⟨done ++ tokens, done.length⟩

/-- Before a token that satisfies `N` the step reads the lexemes and returns a value in `Q`. -/
def Reads (x : Exec ParserState α) (lexemes : List Lexeme) (N : Token → Prop) (Q : α → Prop) :
    Prop :=
  ∀ done tokens next rest, List.Forall₂ Lexeme.Matches lexemes tokens → N next →
    ∃ a, x (stateAt done (tokens ++ next :: rest)) =
      (.ok a, stateAt (done ++ tokens) (next :: rest)) ∧ Q a

/-- The first of the tokens of lexemes and the token after them. -/
def Lookahead (N : Token → Prop) : List Lexeme → Token → Prop
  | [] => N
  | lexeme :: _ => lexeme.Matches

/-- No condition on a token or a value. -/
abbrev Any : α → Prop := fun _ ↦ True

theorem exists_append_of_forall₂ {tokens : List Token}
    (h : List.Forall₂ Lexeme.Matches (lexemes ++ lexemes') tokens) :
    ∃ first second, tokens = first ++ second ∧ List.Forall₂ Lexeme.Matches lexemes first ∧
      List.Forall₂ Lexeme.Matches lexemes' second := by
  refine ⟨_, _, (List.take_append_drop lexemes.length tokens).symm, ?_, ?_⟩
  · have htake := List.forall₂_take lexemes.length h
    rwa [List.take_left] at htake
  · have hdrop := List.forall₂_drop lexemes.length h
    rwa [List.drop_left] at hdrop

theorem reads_pure {a : α} (h : Q a) : Reads (pure a) [] N Q := by
  rintro done _ next rest ⟨⟩ -
  exact ⟨a, by rw [List.append_nil]; rfl, h⟩

/-- Two steps read what the first and the second one read. -/
theorem Reads.bind (hx : Reads x lexemes N Q) (hn : ∀ token, Lookahead N' lexemes' token → N token)
    (hf : ∀ a, Q a → Reads (f a) lexemes' N' Q') :
    Reads (x >>= f) (lexemes ++ lexemes') N' Q' := by
  intro done tokens next rest htokens hnext
  obtain ⟨first, second, rfl, hfirst, hsecond⟩ := exists_append_of_forall₂ htokens
  have hread : ∃ a, x (stateAt done (first ++ (second ++ next :: rest))) =
      (.ok a, stateAt (done ++ first) (second ++ next :: rest)) ∧ Q a := by
    cases hsecond with
    | nil => exact hx done first next rest hfirst (hn next hnext)
    | cons htoken _ => exact hx done first _ _ hfirst (hn _ htoken)
  obtain ⟨a, hxa, ha⟩ := hread
  obtain ⟨b, hfb, hb⟩ := hf a ha (done ++ first) second next rest hsecond hnext
  refine ⟨b, ?_, hb⟩
  rw [List.append_assoc, Exec.bind_ok hxa, hfb, List.append_assoc]

/-- A step that reads one lexeme, and a step that reads the others. -/
theorem Reads.cons (hx : Reads x [lexeme] Any Q) (hf : ∀ a, Q a → Reads (f a) lexemes N' Q') :
    Reads (x >>= f) (lexeme :: lexemes) N' Q' :=
  hx.bind (fun _ _ ↦ trivial) hf

/-- What a step reads does not depend on how the value that it returns is stated. -/
theorem Reads.mono {Q₁ : α → Prop} (hx : Reads x lexemes N Q) (h : ∀ a, Q a → Q₁ a) :
    Reads x lexemes N Q₁ := by
  intro done tokens next rest htokens hnext
  obtain ⟨a, hxa, ha⟩ := hx done tokens next rest htokens hnext
  exact ⟨a, hxa, h a ha⟩

/-! ### Tokens -/

theorem currentToken_stateAt (done rest : List Token) (token : Token) :
    currentToken (stateAt done (token :: rest)) = (.ok token, stateAt done (token :: rest)) := by
  have hget : (done ++ token :: rest).getD done.length .zero = token := by simp
  exact congrArg (fun token ↦ (Except.ok token, stateAt done _)) hget

/-- A step may look at the next token. -/
theorem Reads.currentToken {f : Token → Exec ParserState β}
    (h : ∀ token, Lookahead N' lexemes token → Reads (f token) lexemes N' Q') :
    Reads (currentToken >>= f) lexemes N' Q' := by
  intro done tokens next rest htokens hnext
  have hread : ∀ token tokens', tokens ++ next :: rest = token :: tokens' →
      (Front.currentToken >>= f) (stateAt done (tokens ++ next :: rest)) =
        f token (stateAt done (tokens ++ next :: rest)) := by
    intro token tokens' htokens
    rw [htokens, Exec.bind_ok (currentToken_stateAt done tokens' token)]
  cases htokens with
  | nil =>
    rw [hread next rest rfl]
    exact h next hnext done [] next rest .nil hnext
  | cons htoken hrest =>
    rw [hread _ _ rfl]
    exact h _ htoken done _ next rest (.cons htoken hrest) hnext

theorem advanceToken_stateAt (done later : List Token) (token next : Token) :
    advanceToken (stateAt done (token :: next :: later)) =
      (.ok (), stateAt (done ++ [token]) (next :: later)) := by
  have hlt : (stateAt done (token :: next :: later)).position + 1 <
      (stateAt done (token :: next :: later)).tokens.length := by
    simp only [stateAt, List.length_append, List.length_cons]
    omega
  rw [advanceToken, Exec.modify_apply, if_pos hlt]
  simp only [stateAt, List.append_assoc, List.singleton_append, List.length_append,
    List.length_singleton]

theorem reads_advanceToken : Reads advanceToken [lexeme] Any Any := by
  rintro done _ next rest (_ | @⟨_, token, _, _, -, ⟨⟩⟩) -
  exact ⟨(), advanceToken_stateAt done rest token next, trivial⟩

theorem reads_consumeToken {type : TokenType} (h : lexeme.type = type) (message : String) :
    Reads (consumeToken type message) [lexeme] Any Any := by
  apply Reads.currentToken
  intro token htoken
  rw [if_pos (htoken.type_eq.trans h)]
  exact reads_advanceToken

/-- A step may compare the next token. -/
theorem Reads.tokenMatches {type : TokenType} {f : Bool → Exec ParserState β}
    (h : ∀ token, Lookahead N' lexemes token →
      Reads (f (decide (token.type = type))) lexemes N' Q') :
    Reads (tokenMatches type >>= f) lexemes N' Q' := by
  have hbind : (Front.tokenMatches type >>= f) =
      Front.currentToken >>= fun token ↦ f (decide (token.type = type)) := rfl
  rw [hbind]
  exact Reads.currentToken h

/-- The branch of the expected token, which is skipped. -/
theorem reads_ifMatches {type : TokenType} {g h : Exec ParserState β} (hl : lexeme.type = type)
    (hg : Reads g lexemes N' Q') :
    Reads (tokenMatches type >>= fun b ↦ if b = true then advanceToken >>= fun _ ↦ g else h)
      (lexeme :: lexemes) N' Q' := by
  apply Reads.tokenMatches
  intro token htoken
  rw [if_pos (decide_eq_true (htoken.type_eq.trans hl))]
  exact reads_advanceToken.cons fun _ _ ↦ hg

/-- The branch of any other token. -/
theorem reads_ifNotMatches {type : TokenType} {g h : Exec ParserState β}
    (hn : ∀ token, Lookahead N' lexemes token → token.type ≠ type)
    (hh : Reads h lexemes N' Q') :
    Reads (tokenMatches type >>= fun b ↦ if b = true then g else h) lexemes N' Q' := by
  apply Reads.tokenMatches
  intro token htoken
  rw [if_neg (by rw [decide_eq_true_eq]; exact hn token htoken)]
  exact hh

/-! ### Names, literals, operators -/

theorem reads_parseIdentifier (identifier : Identifier) :
    Reads parseIdentifier [.identifier identifier] Any
      fun column ↦ column.erase = identifier.columnName := by
  apply Reads.currentToken
  intro token htoken
  have htype : token.type = .identifier := htoken.type_eq
  have htext := htoken.identifier identifier rfl
  have hlen : token.text.length < maxNameLen := by
    rw [htext, Identifier.lower, List.length_map]
    exact identifier.valid.length_lt
  have hcopy : copyName token = pure ⟨identifier.lower, token.location⟩ := by
    rw [copyName, if_neg (Nat.not_le.mpr hlen), snprintfStr_of_lt hlen, htext]
  rw [if_pos htype, hcopy]
  change Reads (advanceToken >>= fun _ ↦ pure _) _ _ _
  exact reads_advanceToken.cons fun _ _ ↦ reads_pure rfl

/-- The type of the token of a literal. -/
theorem literalType_type (literal : Literal) :
    literalType (Lexeme.literal literal).type = some literal.literalValue.type := by
  cases literal <;> rfl

theorem length_text_lt (literal : Literal) : literal.literalValue.text.length < maxValueLen := by
  cases literal with
  | int value valid => exact valid.length_lt
  | string value valid => exact valid.validCell.length_lt

theorem reads_parseLiteral (literal : Literal) :
    Reads parseLiteral [.literal literal] Any fun value ↦ value.erase = literal.literalValue := by
  apply Reads.currentToken
  intro token htoken
  have htype : literalType token.type = some literal.literalValue.type := by
    rw [htoken.type_eq, literalType_type]
  have htext := htoken.literal literal rfl
  simp only [htype]
  refine reads_advanceToken.cons fun _ _ ↦ reads_pure ?_
  rw [htext, snprintfStr_of_lt (length_text_lt literal)]
  cases literal <;> rfl

theorem reads_parseWhereOperator (operator : WhereOperator) :
    Reads parseWhereOperator [.symbol (operatorType operator)] Any (· = operator) := by
  apply Reads.currentToken
  intro token htoken
  have htype : whereOperator token.type = some operator := by
    rw [htoken.type_eq]
    cases operator <;> rfl
  simp only [htype]
  exact reads_advanceToken.cons fun _ _ ↦ reads_pure rfl

/-! ### Lists -/

/-- The token is no comma. -/
abbrev NotComma (token : Token) : Prop := token.type ≠ .comma

theorem separated_cons_cons (lexeme next : Lexeme) (lexemes : List Lexeme) :
    separated (lexeme :: next :: lexemes) =
      lexeme :: .symbol .comma :: separated (next :: lexemes) := rfl

/-- One round of a loop over items with commas between them. -/
theorem reads_separated {item : Exec ParserState α} {more : α → Exec ParserState β} {last : α → β}
    (hi : Reads item [lexeme] Any Q) (hlast : ∀ a, Q a → lexemes = [] → Q' (last a))
    (hmore : ∀ a, Q a → lexemes ≠ [] → Reads (more a) (separated lexemes) NotComma Q') :
    Reads (item >>= fun a ↦ tokenMatches .comma >>= fun b ↦
        if b = true then advanceToken >>= fun _ ↦ more a else pure (last a))
      (separated (lexeme :: lexemes)) NotComma Q' := by
  cases lexemes with
  | nil => exact hi.cons fun a ha ↦ reads_ifNotMatches (fun _ h ↦ h) (reads_pure (hlast a ha rfl))
  | cons next lexemes =>
    rw [separated_cons_cons]
    exact hi.cons fun a ha ↦ reads_ifMatches rfl (hmore a ha (List.cons_ne_nil _ _))

/-- The loop over column names. -/
theorem reads_parseColumns {names : List Identifier} {free : Nat} {columns : List ColumnName}
    (hne : names ≠ []) (hl : names.length ≤ free) :
    Reads (parseColumns free columns) (separated (names.map .identifier)) NotComma
      fun read ↦ read.map ColumnName.erase =
        columns.map ColumnName.erase ++ names.map Identifier.columnName := by
  induction names generalizing free columns with
  | nil => exact absurd rfl hne
  | cons name names ih =>
    obtain ⟨free, rfl⟩ := Nat.exists_eq_add_one_of_ne_zero
      (Nat.ne_of_gt (Nat.lt_of_lt_of_le (Nat.succ_pos _) hl))
    rw [parseColumns, List.map_cons]
    refine reads_separated (reads_parseIdentifier name) (fun column hc hnil ↦ ?_)
      fun column hc hnames ↦ ?_
    · rw [List.map_eq_nil_iff.mp hnil, List.map_append, List.map_singleton, hc]
      rfl
    · apply (ih (by simpa using hnames) (Nat.le_of_succ_le_succ hl)).mono
      intro read hread
      rw [hread, List.map_append, List.append_assoc, List.map_singleton, hc]
      rfl

/-- The loop over values. -/
theorem reads_parseValues {literals : List Literal} {free : Nat} {values : List LiteralValue}
    {expectedCount : Option Nat} (hne : literals ≠ []) (hl : literals.length ≤ free)
    (he : ∀ n ∈ expectedCount, values.length + literals.length ≤ n) :
    Reads (parseValues expectedCount free values) (separated (literals.map .literal)) NotComma
      fun read ↦ read.map LiteralValue.erase =
        values.map LiteralValue.erase ++ literals.map Literal.literalValue := by
  induction literals generalizing free values with
  | nil => exact absurd rfl hne
  | cons literal literals ih =>
    obtain ⟨free, rfl⟩ := Nat.exists_eq_add_one_of_ne_zero
      (Nat.ne_of_gt (Nat.lt_of_lt_of_le (Nat.succ_pos _) hl))
    have hroom : ¬ expectedCount.any (· ≤ values.length) = true := by
      rw [Option.any_eq_true]
      rintro ⟨n, hn, hle⟩
      have hlen := he n hn
      rw [List.length_cons] at hlen
      have hle' := of_decide_eq_true hle
      omega
    rw [parseValues, if_neg hroom, List.map_cons]
    refine reads_separated (reads_parseLiteral literal) (fun value hv hnil ↦ ?_)
      fun value hv hliterals ↦ ?_
    · rw [List.map_eq_nil_iff.mp hnil, List.map_append, List.map_singleton, hv]
      rfl
    · refine (ih (by simpa using hliterals) (Nat.le_of_succ_le_succ hl) fun n hn ↦ ?_).mono
        fun read hread ↦ ?_
      · have hlen := he n hn
        rw [List.length_cons] at hlen
        rw [List.length_append, List.length_singleton]
        omega
      · rw [hread, List.map_append, List.append_assoc, List.map_singleton, hv]
        rfl

/-- `parse_value_list`. -/
theorem reads_parseValueList {literals : List Literal} {expectedCount : Option Nat}
    (hne : literals ≠ []) (hl : literals.length ≤ maxColumns)
    (he : ∀ n ∈ expectedCount, literals.length = n) :
    Reads (parseValueList expectedCount) (separated (literals.map .literal)) NotComma
      fun read ↦ read.map LiteralValue.erase = literals.map Literal.literalValue := by
  rw [← List.append_nil (separated _)]
  refine (reads_parseValues hne hl fun n hn ↦ ?_).bind (fun _ h ↦ h)
    fun read hread ↦ ?_
  · rw [List.length_nil, Nat.zero_add]
    exact Nat.le_of_eq (he n hn)
  · have hlen := congrArg List.length hread
    simp only [List.length_append, List.length_map, List.length_nil, Nat.zero_add] at hlen
    have hcount : ¬ expectedCount.any (read.length ≠ ·) = true := by
      rw [Option.any_eq_true]
      rintro ⟨n, hn, hne⟩
      exact of_decide_eq_true hne (hlen.trans (he n hn))
    rw [if_neg hcount]
    exact reads_pure hread

theorem lookahead_separated {token : Token}
    (h : Lookahead N (separated (lexeme :: lexemes)) token) : lexeme.Matches token := by
  cases lexemes <;> exact h

/-! ### Statements -/

/-- The optional column list of an INSERT. -/
theorem reads_parseColumnList {columns : Option (List Identifier)}
    (hne : ∀ names ∈ columns, names ≠ []) (hl : ∀ names ∈ columns, names.length ≤ maxColumns) :
    Reads parseColumnList (columnListLexemes columns) (fun token ↦ token.type ≠ .lparen)
      fun read ↦ read.map (·.map ColumnName.erase) =
        columns.map (·.map Identifier.columnName) := by
  cases columns with
  | none => exact reads_ifNotMatches (fun _ h ↦ h) (reads_pure rfl)
  | some names =>
    apply reads_ifMatches rfl
    refine (reads_parseColumns (hne names rfl) (hl names rfl)).bind
      (fun token htoken ↦ ?_) fun read hread ↦ ?_
    · rw [NotComma, htoken.type_eq]
      decide
    · exact (reads_consumeToken rfl _).cons fun _ _ ↦ reads_pure (congrArg some hread)

/-- `parse_insert_statement`. -/
theorem reads_parseInsertStatement (command : InsertCommand) :
    Reads parseInsertStatement (Command.insert command).lexemes Any
      fun statement ↦ statement.erase = (Command.insert command).statement := by
  have hcolumns : ∀ names ∈ command.columns, names ≠ [] ∧ names.length ≤ maxColumns := by
    intro names hnames
    have hlen := command.length_columns names hnames
    refine ⟨?_, hlen.trans_le command.length_values_le⟩
    rintro rfl
    exact command.values_ne_nil (List.eq_nil_of_length_eq_zero hlen.symm)
  apply Reads.currentToken
  intro start _
  apply (reads_consumeToken rfl _).cons
  intro _ _
  apply (reads_consumeToken rfl _).cons
  intro _ _
  apply (reads_parseIdentifier command.table).cons
  intro table htable
  refine (reads_parseColumnList (fun names h ↦ (hcolumns names h).1)
    fun names h ↦ (hcolumns names h).2).bind (fun token htoken ↦ ?_) fun columns hread ↦ ?_
  · rw [htoken.type_eq]
    decide
  apply (reads_consumeToken rfl _).cons
  intro _ _
  apply (reads_consumeToken rfl _).cons
  intro _ _
  refine (reads_parseValueList command.values_ne_nil command.length_values_le
    fun n hn ↦ ?_).bind (fun token htoken ↦ ?_) fun values hvalues ↦ ?_
  · -- the column list that was read has as many names as the one of the command
    have hcount : columns.map List.length = command.columns.map List.length := by
      simpa [Option.map_map, Function.comp_def] using congrArg (Option.map List.length) hread
    rw [hcount] at hn
    obtain ⟨names, hnames, rfl⟩ := Option.map_eq_some_iff.mp hn
    exact (command.length_columns names hnames).symm
  · rw [NotComma, htoken.type_eq]
    decide
  refine (reads_consumeToken rfl _).cons fun _ _ ↦ reads_pure ?_
  have hname : table.name = command.table.lower := congrArg ColumnName.name htable
  have hlist : columns.isSome = command.columns.isSome := by
    simpa using congrArg Option.isSome hread
  have hnames : (columns.getD []).map ColumnName.erase =
      (command.columns.getD []).map Identifier.columnName := by
    have hget := congrArg (Option.getD · []) hread
    exact (Option.getD_map _ [] columns).symm.trans (hget.trans (Option.getD_map _ [] _))
  rw [Statement.erase, hname, hlist, hnames, hvalues]
  rfl

/-- What a SELECT selects. -/
theorem reads_parseSelected {columns : Option (List Identifier)}
    (hne : ∀ names ∈ columns, names ≠ []) (hl : ∀ names ∈ columns, names.length ≤ maxColumns) :
    Reads parseSelected (selectedLexemes columns) NotComma
      fun read ↦ read.map (·.map ColumnName.erase) =
        columns.map (·.map Identifier.columnName) := by
  cases columns with
  | none => exact reads_ifMatches rfl (reads_pure rfl)
  | some names =>
    refine reads_ifNotMatches (fun token htoken ↦ ?_) ?_
    · obtain ⟨name, names', rfl⟩ := List.exists_cons_of_ne_nil (hne names rfl)
      rw [(lookahead_separated htoken).type_eq]
      exact nofun
    · rw [← List.append_nil (selectedLexemes _)]
      exact (reads_parseColumns (hne names rfl) (hl names rfl)).bind
        (fun _ h ↦ h) fun read hread ↦ reads_pure (congrArg some hread)

/-- A condition without its locations. -/
def eraseCondition : ColumnName × WhereOperator × LiteralValue →
    ColumnName × WhereOperator × LiteralValue :=
  fun (column, operator, value) ↦ (column.erase, operator, value.erase)

/-- The condition that the parser returns. -/
def Condition.parts (condition : Condition) : ColumnName × WhereOperator × LiteralValue :=
  (condition.column.columnName, condition.operator, condition.value.literalValue)

/-- The optional condition of a SELECT. -/
theorem reads_parseCondition (condition : Option Condition) :
    Reads parseCondition (conditionLexemes condition) (fun token ↦ token.type ≠ .keywordWhere)
      fun read ↦ read.map eraseCondition = condition.map Condition.parts := by
  cases condition with
  | none => exact reads_ifNotMatches (fun _ h ↦ h) (reads_pure rfl)
  | some condition =>
    apply reads_ifMatches rfl
    apply (reads_parseIdentifier condition.column).cons
    intro column hc
    apply (reads_parseWhereOperator condition.operator).cons
    intro operator ho
    refine (reads_parseLiteral condition.value).cons fun value hv ↦ reads_pure ?_
    rw [Option.map_some, eraseCondition, hc, ho, hv]
    rfl

theorem erase_selectStatement (location : SourceLocation) (table : Bytes)
    (columns : Option (List ColumnName))
    (condition : Option (ColumnName × WhereOperator × LiteralValue)) :
    (Statement.select location (selectStatement table columns condition)).erase =
      .select noLocation (selectStatement table (columns.map (·.map ColumnName.erase))
        (condition.map eraseCondition)) := by
  cases columns <;> cases condition <;> rfl

/-- `parse_select_statement`. -/
theorem reads_parseSelectStatement (command : SelectCommand) :
    Reads parseSelectStatement (Command.select command).lexemes
      (fun token ↦ token.type ≠ .keywordWhere)
      fun statement ↦ statement.erase = (Command.select command).statement := by
  apply Reads.currentToken
  intro start _
  apply (reads_consumeToken rfl _).cons
  intro _ _
  refine (reads_parseSelected command.columns_ne_nil command.length_columns_le).bind
    (fun token htoken ↦ ?_) fun columns hcolumns ↦ ?_
  · rw [NotComma, htoken.type_eq]
    decide
  apply (reads_consumeToken rfl _).cons
  intro _ _
  apply (reads_parseIdentifier command.table).cons
  intro table htable
  rw [← List.append_nil (conditionLexemes _)]
  refine (reads_parseCondition command.condition).bind (fun _ h ↦ h) fun condition hcond ↦ ?_
  apply reads_pure
  have hname : table.name = command.table.lower := congrArg ColumnName.name htable
  rw [erase_selectStatement, hname, hcolumns, hcond]
  rfl

/-- A condition on the next token that implies the one that the step needs. -/
theorem Reads.before {N₁ : Token → Prop} (hx : Reads x lexemes N Q)
    (h : ∀ token, N₁ token → N token) : Reads x lexemes N₁ Q :=
  fun done tokens next rest htokens hnext ↦ hx done tokens next rest htokens (h next hnext)

/-- `parse_statement` before a semicolon. -/
theorem reads_parseStatement (command : Command) :
    Reads parseStatement command.lexemes (fun token ↦ token.type = .semicolon)
      fun statement ↦ statement.erase = command.statement := by
  apply Reads.currentToken
  intro token htoken
  cases command with
  | insert command =>
    have htype : token.type = .keywordInsert := htoken.type_eq
    simp only [htype]
    exact (reads_parseInsertStatement command).before fun _ _ ↦ trivial
  | select command =>
    have htype : token.type = .keywordSelect := htoken.type_eq
    simp only [htype]
    apply (reads_parseSelectStatement command).before
    intro token hnext
    rw [hnext]
    decide

/-! ### Programs -/

theorem programLexemes_cons (command : Command) (commands : List Command) :
    programLexemes (command :: commands) =
      command.lexemes ++ .symbol .semicolon :: programLexemes commands := by
  rw [programLexemes, List.flatMap_cons, List.append_assoc]
  rfl

/-- The end of the tokens. -/
abbrev IsEof (token : Token) : Prop := token.type = .eof

/-- No statement starts at the end of the tokens. -/
theorem not_isEof_of_lookahead {command : Command} {token : Token}
    (h : Lookahead N (command.lexemes ++ lexemes) token) : ¬ IsEof token := by
  unfold IsEof
  cases command with
  | insert command =>
    rw [(show token.type = .keywordInsert from h.type_eq)]
    decide
  | select command =>
    rw [(show token.type = .keywordSelect from h.type_eq)]
    decide

/-- The loop of `parse_program`. -/
theorem reads_parseStatements {commands : List Command} {free : Nat} {program : SqlProgram}
    (hl : commands.length ≤ free) :
    Reads (parseStatements free program) (programLexemes commands) IsEof
      fun read ↦ read.map Statement.erase =
        program.map Statement.erase ++ commands.map Command.statement := by
  induction commands generalizing free program with
  | nil =>
    rw [parseStatements]
    apply Reads.currentToken
    intro token htoken
    rw [if_pos (show token.type = .eof from htoken)]
    exact reads_pure (List.append_nil _).symm
  | cons command commands ih =>
    obtain ⟨free, rfl⟩ := Nat.exists_eq_add_one_of_ne_zero
      (Nat.ne_of_gt (Nat.lt_of_lt_of_le (Nat.succ_pos _) hl))
    rw [parseStatements, programLexemes_cons]
    apply Reads.currentToken
    intro token htoken
    rw [if_neg (not_isEof_of_lookahead htoken)]
    refine (reads_parseStatement command).bind (fun _ h ↦ h.type_eq) fun statement hs ↦ ?_
    apply (reads_consumeToken rfl _).cons
    intro _ _
    apply (ih (Nat.le_of_succ_le_succ hl)).mono
    intro read hread
    rw [hread, List.map_append, List.map_singleton, hs, List.append_assoc]
    rfl

/-- `parse_program` on the tokens of a program. -/
theorem parseProgram_of_matches (program : Program) {read : List Token} {eof : Token}
    (hread : List.Forall₂ Lexeme.Matches (programLexemes program.commands) read)
    (heof : eof.type = .eof) :
    ∃ parsed, parseProgram (read ++ [eof]) = .ok parsed ∧
      parsed.map Statement.erase = program.commands.map Command.statement := by
  have hreads : Reads parseTokens (programLexemes program.commands) IsEof
      fun parsed ↦ parsed.map Statement.erase = program.commands.map Command.statement := by
    apply Reads.currentToken
    intro token htoken
    obtain ⟨command, commands, hc⟩ := List.exists_cons_of_ne_nil program.commands_ne_nil
    rw [hc, programLexemes_cons] at htoken
    rw [if_neg (not_isEof_of_lookahead htoken)]
    exact reads_parseStatements program.length_commands_le
  obtain ⟨parsed, hparsed, hq⟩ := hreads [] read eof [] hread heof
  exact ⟨parsed, congrArg Prod.fst hparsed, hq⟩

/-! ### Numbers stand after symbols -/

/-- Lexemes that may stand after any lexeme. -/
structure Spaced (lexemes : List Lexeme) : Prop where
  isChain : lexemes.IsChain Follows
  head : ∀ next ∈ lexemes.head?, next.isNumber = false

theorem isChain_append (h : lexemes.IsChain Follows) (h' : Spaced lexemes') :
    (lexemes ++ lexemes').IsChain Follows := by
  refine List.isChain_append.mpr ⟨h, h'.isChain, fun _ _ next hnext hnumber ↦ ?_⟩
  rw [h'.head next hnext] at hnumber
  cases hnumber

theorem Spaced.append (h : Spaced lexemes) (h' : Spaced lexemes') :
    Spaced (lexemes ++ lexemes') := by
  refine ⟨isChain_append h.isChain h', ?_⟩
  cases lexemes with
  | nil => exact h'.head
  | cons lexeme lexemes => exact h.head

theorem spaced_word (hw : lexeme.isWord = true) (h : Spaced lexemes) :
    Spaced (lexeme :: lexemes) := by
  refine Spaced.append ⟨.singleton _, ?_⟩ h
  rintro _ ⟨⟩
  cases lexeme with
  | literal literal => cases hw
  | _ => rfl

theorem spaced_symbol (type : TokenType) (h : lexemes.IsChain Follows) :
    Spaced (.symbol type :: lexemes) := by
  refine ⟨List.isChain_cons.mpr ⟨fun _ _ _ ↦ rfl, h⟩, ?_⟩
  rintro _ ⟨⟩
  rfl

theorem spaced_nil : Spaced [] := ⟨.nil, nofun⟩

theorem isChain_separated (lexemes : List Lexeme) : (separated lexemes).IsChain Follows := by
  induction lexemes with
  | nil => exact .nil
  | cons lexeme lexemes ih =>
    cases lexemes with
    | nil => exact .singleton _
    | cons next lexemes =>
      rw [separated_cons_cons]
      exact List.isChain_cons_cons.mpr ⟨nofun, (spaced_symbol _ ih).isChain⟩

theorem spaced_columnListLexemes (columns : Option (List Identifier)) :
    Spaced (columnListLexemes columns) := by
  cases columns with
  | none => exact spaced_nil
  | some names =>
    exact spaced_symbol _ (isChain_append (isChain_separated _) (spaced_symbol _ .nil))

theorem spaced_selectedLexemes (columns : Option (List Identifier)) :
    Spaced (selectedLexemes columns) := by
  cases columns with
  | none => exact spaced_symbol _ .nil
  | some names =>
    refine ⟨isChain_separated _, ?_⟩
    rcases names with _ | ⟨name, _ | ⟨name', names⟩⟩ <;> rintro _ ⟨⟩
    · rfl
    · rfl

theorem spaced_conditionLexemes (condition : Option Condition) :
    Spaced (conditionLexemes condition) := by
  cases condition with
  | none => exact spaced_nil
  | some condition =>
    exact spaced_word rfl (spaced_word rfl (spaced_symbol _ (.singleton _)))

theorem spaced_lexemes (command : Command) : Spaced command.lexemes := by
  cases command with
  | insert command =>
    refine spaced_word rfl (spaced_word rfl (spaced_word rfl ?_))
    have hvalues := isChain_append (isChain_separated (command.values.map .literal))
      (spaced_symbol .rparen .nil)
    exact (spaced_columnListLexemes command.columns).append
      (spaced_word rfl (spaced_symbol _ hvalues))
  | select command =>
    refine spaced_word rfl ((spaced_selectedLexemes command.columns).append ?_)
    exact spaced_word rfl (spaced_word rfl (spaced_conditionLexemes command.condition))

/-- In a program a number stands after a symbol. -/
theorem isChain_programLexemes (commands : List Command) :
    (programLexemes commands).IsChain Follows := by
  induction commands with
  | nil => exact .nil
  | cons command commands ih =>
    rw [programLexemes_cons]
    exact isChain_append (spaced_lexemes command).isChain (spaced_symbol _ ih)

/-! ### The front end -/

/-- Every text that spells a program is read back as that program. -/
theorem frontEnd_readsBack (program : Program) {sqlText : Bytes}
    (h : Writes (programLexemes program.commands) sqlText) :
    ∃ tokens parsed, tokenizeSql sqlText = .ok tokens ∧ parseProgram tokens = .ok parsed ∧
      parsed.map Statement.erase = program.commands.map Command.statement := by
  obtain ⟨read, eof, htokens, hread, heof⟩ :=
    tokenizeSql_writes h (isChain_programLexemes program.commands) program.length_lexemes_lt
  obtain ⟨parsed, hparsed, hq⟩ := parseProgram_of_matches program hread heof
  exact ⟨read ++ [eof], parsed, htokens, hparsed, hq⟩

/-- An INSERT of a number and a text, and a SELECT. -/
def sampleProgram : Program where
  commands :=
    [.insert
      { table := ⟨text "Users", by decide +kernel⟩
        columns := none
        values := [.int (text "-7") (by decide +kernel), .string (text "a b") (by decide +kernel)]
        values_ne_nil := by decide
        length_values_le := by decide
        length_columns := nofun },
    .select ⟨⟨text "users", by decide +kernel⟩, none, none, nofun, nofun⟩]
  commands_ne_nil := by decide
  length_commands_le := by decide
  length_lexemes_lt := by decide

/-- The pieces of a text of the program: blanks, and a lexeme after them. -/
def samplePieces : List (Bytes × Bytes) :=
  [(text "", text "INSERT"), (text " ", text "into"), (text "\t", text "Users"),
    (text "\n", text "VALUES"), (text "", text "("), (text "", text "-7"), (text "", text ","),
    (text " ", text "'a b'"), (text "", text ")"), (text "", text ";"),
    (text "\n", text "select"), (text "", text "*"), (text "", text "FROM"),
    (text " ", text "users"), (text "", text ";")]

theorem writes_samplePieces : Writes (programLexemes sampleProgram.commands)
    (samplePieces.foldr (fun piece rest ↦ piece.1 ++ (piece.2 ++ rest)) (text "\n")) := by
  have keyword : ∀ {type spelled}, spelled.map tolower = keywordText type ∧ spelled ≠ [] →
      Spells (.keyword type) spelled := fun h ↦ .keyword _ _ h.1 h.2
  refine .cons _ _ _ _ _ (by decide +kernel) (keyword (by decide +kernel)) ?_ fun _ _ ↦ rfl
  refine .cons _ _ _ _ _ (by decide +kernel) (keyword (by decide +kernel)) ?_ fun _ _ ↦ rfl
  refine .cons _ _ _ _ _ (by decide +kernel) (.identifier _ _ (by decide +kernel)) ?_ fun _ _ ↦ rfl
  refine .cons _ _ _ _ _ (by decide +kernel) (keyword (by decide +kernel)) ?_ nofun
  refine .cons _ _ _ _ _ (by decide +kernel) (.symbol _ (by decide)) ?_ nofun
  refine .cons _ _ _ _ _ (by decide +kernel) (.int _ _) ?_ nofun
  refine .cons _ _ _ _ _ (by decide +kernel) (.symbol _ (by decide)) ?_ nofun
  refine .cons _ _ _ _ _ (by decide +kernel) (.string _ _) ?_ nofun
  refine .cons _ _ _ _ _ (by decide +kernel) (.symbol _ (by decide)) ?_ nofun
  refine .cons _ _ _ _ _ (by decide +kernel) (.symbol _ (by decide)) ?_ nofun
  refine .cons _ _ _ _ _ (by decide +kernel) (keyword (by decide +kernel)) ?_ nofun
  refine .cons _ _ _ _ _ (by decide +kernel) (.symbol _ (by decide)) ?_ nofun
  refine .cons _ _ _ _ _ (by decide +kernel) (keyword (by decide +kernel)) ?_ fun _ _ ↦ rfl
  refine .cons _ _ _ _ _ (by decide +kernel) (.identifier _ _ (by decide +kernel)) ?_ nofun
  refine .cons _ _ _ _ _ (by decide +kernel) (.symbol _ (by decide)) ?_ nofun
  exact .nil _ (by decide +kernel)

theorem frontEnd_readsBack_sample :
    ∃ tokens parsed,
      tokenizeSql (text "INSERT into\tUsers\nVALUES(-7, 'a b');\nselect*FROM users;\n") =
        .ok tokens ∧ parseProgram tokens = .ok parsed ∧
      parsed.map Statement.erase = sampleProgram.commands.map Command.statement :=
  frontEnd_readsBack sampleProgram writes_samplePieces

end SqlProc.Front
