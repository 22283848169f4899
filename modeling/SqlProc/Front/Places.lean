import SqlProc.Base.Errors
import SqlProc.Front.Parser
import SqlProc.Front.Positions

/-!
# Places of errors

Library `Front`. Every error of the tokenizer and of the parser has a message and a place in the
text, and so has every name and every literal of a program, at which the executor reports errors.
-/

namespace SqlProc.Front

open Base

variable {before mid rest sqlText spelling : Bytes} {line column : Int}
  {tokens tokens' : List Token}

/-- A place in the text that follows `before`: that of a byte, or the end. -/
def IsPlace (before rest : Bytes) (line column : Int) : Prop :=
  ∃ mid, mid <+: rest ∧ line = lineAfter (before ++ mid) ∧ column = columnAfter (before ++ mid)

/-- A place in what SQL text a C string holds, or none. -/
def InText (sqlText : Bytes) (line column : Int) : Prop :=
  (line = 0 ∧ column = 0) ∨ IsPlace [] (cstr sqlText) line column

theorem inText_none (sqlText : Bytes) : InText sqlText 0 0 := .inl ⟨rfl, rfl⟩

/-- A place further on. -/
theorem IsPlace.append (h : IsPlace (before ++ spelling) rest line column) :
    IsPlace before (spelling ++ rest) line column := by
  obtain ⟨mid, hmid, hline, hcolumn⟩ := h
  refine ⟨spelling ++ mid, (List.prefix_append_right_inj _).mpr hmid, ?_, ?_⟩
  · rw [hline, List.append_assoc]
  · rw [hcolumn, List.append_assoc]

/-- A place in the line that the text starts with. -/
theorem isPlace_of_oneLine (before : Bytes) (hmid : mid <+: rest) (hlf : lf ∉ mid) :
    IsPlace before rest (lineAfter before) (columnAfter before + mid.length) :=
  ⟨mid, hmid, (lineAfter_append before hlf).symm, (columnAfter_append before hlf).symm⟩

/-! ### The tokenizer -/

/-- Every token is at a place of the text. -/
theorem Lays.isPlace (h : Lays before rest tokens) :
    ∀ token ∈ tokens, IsPlace before rest token.line token.column := by
  induction h with
  | @eof before blanks token _ _ hl hc =>
    exact List.forall_mem_singleton.mpr ⟨blanks, List.prefix_rfl, hl, hc⟩
  | @token before blanks spelling rest token tokens _ _ hl hc _ ih =>
    refine List.forall_mem_cons.mpr ⟨⟨blanks, List.prefix_append _ _, hl, hc⟩, ?_⟩
    intro other hm
    have hplace := ih other hm
    rw [List.append_assoc] at hplace
    rw [← List.append_assoc]
    exact hplace.append

/-- An error of a reader at the given line and column: it has a message, and it is in the line
that is left. -/
def InLine (sqlText : Bytes) (line column : Int) (e : ErrorInfo) : Prop :=
  e.message ≠ "" ∧ e.line = line ∧
    ∃ mid, mid <+: cstr sqlText ∧ lf ∉ mid ∧ e.column = column + mid.length

/-- An error where the reader starts. -/
theorem inLine_start {message : String} (h : message ≠ "") (sqlText : Bytes) (line column : Int) :
    InLine sqlText line column ⟨message, line, column⟩ :=
  ⟨h, rfl, [], List.nil_prefix, List.not_mem_nil, (Int.add_zero column).symm⟩

theorem fails_appendToken (sqlText : Bytes) (type : TokenType) (text : Bytes) :
    Fails (InLine sqlText line column) (appendToken tokens type text line column) := by
  unfold appendToken
  split
  · exact fails_error (inLine_start (by decide) _ _ _)
  · exact fails_ok _

theorem fails_appendToken_bind (sqlText : Bytes) (type : TokenType) (text rest : Bytes) :
    Fails (InLine sqlText line column)
      (appendToken tokens type text line column >>= fun tokens ↦ .ok (tokens, rest)) :=
  fails_bind (fails_appendToken sqlText type text) fun _ _ ↦ fails_ok _

theorem fails_readWord :
    Fails (InLine sqlText line column) (readWord sqlText line column tokens) := by
  unfold readWord
  simp only
  split
  · exact fails_error (inLine_start (by decide) _ _ _)
  · exact fails_appendToken_bind _ _ _ _

theorem fails_readNumber :
    Fails (InLine sqlText line column) (readNumber sqlText line column tokens) := by
  unfold readNumber
  simp only
  split
  · exact fails_error (inLine_start (by decide) _ _ _)
  · exact fails_appendToken_bind _ _ _ _

/-- An error in a string, of which `textIndex` bytes are read: it has a message, and it is where
the string starts, or in the line that is left. -/
def InString (sqlText : Bytes) (line column : Int) (textIndex : Nat) (e : ErrorInfo) : Prop :=
  e.message ≠ "" ∧ e.line = line ∧ (e.column = column ∨
    ∃ mid, mid <+: cstr sqlText ∧ lf ∉ mid ∧ e.column = column + textIndex + 1 + mid.length)

theorem inString_start {message : String} (h : message ≠ "") (sqlText : Bytes)
    (line column : Int) (textIndex : Nat) :
    InString sqlText line column textIndex ⟨message, line, column⟩ := ⟨h, rfl, .inl rfl⟩

theorem inString_here {message : String} (h : message ≠ "") (sqlText : Bytes)
    (line column : Int) (textIndex : Nat) :
    InString sqlText line column textIndex ⟨message, line, column + textIndex + 1⟩ :=
  ⟨h, rfl, .inr ⟨[], List.nil_prefix, List.not_mem_nil, (Int.add_zero _).symm⟩⟩

/-- A string is not closed or is too long, or it has a line break at the byte it has come to. -/
theorem fails_readStringText {textIndex : Nat} :
    Fails (InString sqlText line column textIndex)
      (readStringText line column textIndex sqlText) := by
  induction sqlText generalizing textIndex with
  | nil => exact fails_error (inString_start (by decide) _ _ _ _)
  | cons c sqlText ih =>
    rw [readStringText]
    split
    · exact fails_error (inString_start (by decide) _ _ _ _)
    · next hnul =>
      split
      · exact fails_ok _
      · split
        · exact fails_error (inString_here (by decide) _ _ _ _)
        · next hbreak =>
          split
          · exact fails_error (inString_start (by decide) _ _ _ _)
          · refine fails_bind (fun e he ↦ ?_) fun _ _ ↦ fails_ok _
            obtain ⟨hmessage, hline, hcolumn⟩ := ih e he
            refine ⟨hmessage, hline, hcolumn.imp_right ?_⟩
            rintro ⟨mid, hmid, hlf, hcolumn⟩
            refine ⟨c :: mid, ?_, ?_, ?_⟩
            · rw [cstr_cons hnul]
              exact (List.prefix_cons_inj c).mpr hmid
            · rw [List.mem_cons, not_or]
              exact ⟨fun hc ↦ hbreak (by rw [← hc]; rfl), hlf⟩
            · rw [hcolumn, List.length_cons]
              omega

theorem fails_readString (hs : sqlText.headD nul = squote) :
    Fails (InLine sqlText line column) (readString sqlText line column tokens) := by
  cases sqlText with
  | nil => cases hs
  | cons c sqlText =>
    obtain rfl : c = squote := hs
    refine fails_bind (fun e he ↦ ?_) fun _ _ ↦ fails_appendToken_bind _ _ _ _
    obtain ⟨hmessage, hline, hcolumn⟩ := fails_readStringText e he
    refine ⟨hmessage, hline, ?_⟩
    rcases hcolumn with hcolumn | ⟨mid, hmid, hlf, hcolumn⟩
    · exact ⟨[], List.nil_prefix, List.not_mem_nil, by rw [hcolumn]; exact (Int.add_zero _).symm⟩
    · refine ⟨squote :: mid, ?_, ?_, ?_⟩
      · rw [cstr_cons (by decide)]
        exact (List.prefix_cons_inj squote).mpr hmid
      · rw [List.mem_cons, not_or]
        exact ⟨by decide, hlf⟩
      · rw [hcolumn, List.length_cons]
        omega

theorem fails_readSymbol :
    Fails (InLine sqlText line column) (readSymbol sqlText line column tokens) := by
  unfold readSymbol
  split
  · exact fails_appendToken_bind _ _ _ _
  · split
    · exact fails_appendToken_bind _ _ _ _
    · exact fails_error (inLine_start (by decide) _ _ _)

theorem fails_withColumn {columnAfter : Token → Int}
    {read : Except ErrorInfo (List Token × Bytes)} {P : ErrorInfo → Prop} (h : Fails P read) :
    Fails P (withColumn columnAfter read) := by
  cases read with
  | error e => exact fails_error (h e rfl)
  | ok p => exact fails_ok _

theorem fails_readToken :
    Fails (InLine sqlText line column) (readToken sqlText line column tokens) := by
  unfold readToken
  split
  · exact fails_withColumn fails_readWord
  · split
    · exact fails_withColumn fails_readNumber
    · split
      · next hs => exact fails_withColumn (fails_readString hs)
      · exact fails_withColumn fails_readSymbol

/-- An error in the line that is left is at a place of the text that is left. -/
theorem InLine.explained {e : ErrorInfo}
    (h : InLine sqlText (lineAfter before) (columnAfter before) e) :
    Explained (IsPlace before (cstr sqlText)) e := by
  obtain ⟨hmessage, hline, mid, hmid, hlf, hcolumn⟩ := h
  refine ⟨hmessage, ?_⟩
  rw [hline, hcolumn]
  exact isPlace_of_oneLine before hmid hlf

/-- The errors in the rest of a text, when the line and the column are those of its start. -/
theorem fails_tokenizeFrom {fuel : Nat} : Fails (Explained (IsPlace before (cstr sqlText)))
    (tokenizeFrom fuel sqlText (lineAfter before) (columnAfter before) tokens) := by
  induction fuel generalizing sqlText before tokens with
  | zero => exact fails_ok _
  | succ fuel ih =>
    cases sqlText with
    | nil => exact fun e he ↦ (fails_appendToken [] _ _ e he).explained
    | cons c sqlText =>
      rw [tokenizeFrom]
      split
      · exact fun e he ↦ (fails_appendToken _ _ _ e he).explained
      · next hnul =>
        have hblank : ∀ e, Explained (IsPlace (before ++ [c]) (cstr sqlText)) e →
            Explained (IsPlace before (cstr (c :: sqlText))) e := by
          rw [cstr_cons hnul]
          exact fun e he ↦ ⟨he.1, he.2.append⟩
        split
        · next hspace =>
          have hone : lf ∉ [c] := by
            rw [List.mem_singleton]
            rintro rfl
            exact absurd hspace (by decide)
          have hcolumn := columnAfter_append before hone
          rw [List.length_singleton] at hcolumn
          rw [← lineAfter_append before hone, ← Int.natCast_one, ← hcolumn]
          exact fun e he ↦ hblank e (ih e he)
        · split
          · next hlf =>
            subst hlf
            rw [← lineAfter_append_lf, ← columnAfter_append_lf before]
            exact fun e he ↦ hblank e (ih e he)
          · refine fails_bind (fun e he ↦ (fails_readToken e he).explained) ?_
            rintro ⟨tokens₁, rest, column'⟩ hread
            obtain ⟨token, spelling, hr, rfl⟩ := readToken_readsAs hread
            have hone := hr.spelled.oneLine
            simp only
            rw [← columnAfter_append before hone.lf_notMem,
              ← lineAfter_append before hone.lf_notMem, hr.text_eq, cstr_append_of_oneLine hone]
            intro e he
            obtain ⟨hmessage, hplace⟩ := ih e he
            exact ⟨hmessage, hplace.append⟩

/-- The tokenizer explains why it refuses a text. -/
theorem fails_tokenizeSql (sqlText : Bytes) :
    Fails (Explained (IsPlace [] (cstr sqlText))) (tokenizeSql sqlText) :=
  fails_tokenizeFrom

/-! ### The parser -/

/-- The locations at which the executor reports errors in the statement are places. -/
def Statement.Placed (place : Int → Int → Prop) : Statement → Prop
  | .insert _ statement =>
    statement.tableLocation.Placed place ∧
      (∀ column ∈ statement.columns, column.location.Placed place) ∧
      ∀ value ∈ statement.values, value.location.Placed place
  | .select _ statement =>
    (∀ column ∈ statement.columns, column.location.Placed place) ∧
      (statement.hasWhere = true → statement.whereColumnLocation.Placed place ∧
        statement.whereValue.location.Placed place)

section Parser

variable {place : Int → Int → Prop}

/-- The parser stands at a token, and every token is at a place. -/
structure AtToken (place : Int → Int → Prop) (state : ParserState) : Prop where
  position_lt : state.position < state.tokens.length
  places : ∀ token ∈ state.tokens, place token.line token.column

/-- A token up to the one at which the parser stands. -/
theorem AtToken.getD {state : ParserState} (h : AtToken place state) {i : Nat}
    (hi : i ≤ state.position) :
    place (state.tokens.getD i .zero).line (state.tokens.getD i .zero).column := by
  have hlt := Nat.lt_of_le_of_lt hi h.position_lt
  rw [List.getD_eq_getElem?_getD, List.getElem?_eq_getElem hlt, Option.getD_some]
  exact h.places _ (List.getElem_mem hlt)

theorem triple_currentToken : currentToken.Triple (AtToken place)
    (fun token ↦ place token.line token.column) (Explained place) := by
  intro state hs
  refine ⟨hs, ?_, ?_⟩
  · intro token ht
    obtain rfl := Except.ok.inj ht
    exact hs.getD (Nat.le_refl _)
  · intro e he
    cases he

theorem triple_previousToken : previousToken.Triple (AtToken place)
    (fun token ↦ place token.line token.column) (Explained place) := by
  intro state hs
  refine ⟨hs, ?_, ?_⟩
  · intro token ht
    obtain rfl := Except.ok.inj ht
    exact hs.getD (Nat.sub_le _ _)
  · intro e he
    cases he

theorem triple_advanceToken :
    advanceToken.Triple (AtToken place) (fun _ ↦ True) (Explained place) := by
  intro state hs
  refine ⟨?_, fun _ _ ↦ trivial, ?_⟩
  · rw [advanceToken, Exec.modify_apply]
    split
    · next hlt => exact ⟨hlt, hs.places⟩
    · exact hs
  · intro e he
    cases he

theorem triple_failAt {α : Type} {Q : α → Prop} {token : Token}
    (ht : place token.line token.column) {message : String} (hm : message ≠ "") :
    (failAt token message : Exec ParserState α).Triple (AtToken place) Q (Explained place) :=
  Exec.triple_fail ⟨hm, ht⟩

theorem triple_tokenMatches (expectedType : TokenType) : (tokenMatches expectedType).Triple
    (AtToken place) (fun _ ↦ True) (Explained place) :=
  Exec.triple_bind triple_currentToken fun _ _ ↦ Exec.triple_pure trivial

theorem triple_consumeToken (expectedType : TokenType) {message : String} (hm : message ≠ "") :
    (consumeToken expectedType message).Triple (AtToken place) (fun _ ↦ True)
      (Explained place) := by
  refine Exec.triple_bind triple_currentToken fun token ht ↦ ?_
  split
  · exact triple_advanceToken
  · exact triple_failAt ht hm

theorem triple_parseIdentifier : parseIdentifier.Triple (AtToken place)
    (fun column ↦ column.location.Placed place) (Explained place) := by
  refine Exec.triple_bind triple_currentToken fun token ht ↦ ?_
  split
  · refine Exec.triple_bind (Q := fun column ↦ column.location.Placed place) ?_ fun name hn ↦
      Exec.triple_bind triple_advanceToken fun _ _ ↦ Exec.triple_pure hn
    unfold copyName
    split
    · exact triple_failAt ht (by decide)
    · exact Exec.triple_pure ht
  · exact triple_failAt ht (by decide)

theorem triple_parseLiteral : parseLiteral.Triple (AtToken place)
    (fun value ↦ value.location.Placed place) (Explained place) := by
  refine Exec.triple_bind triple_currentToken fun token ht ↦ ?_
  split
  · exact Exec.triple_bind triple_advanceToken fun _ _ ↦ Exec.triple_pure ht
  · exact triple_failAt ht (by decide)

theorem triple_parseWhereOperator : parseWhereOperator.Triple (AtToken place)
    (fun _ ↦ True) (Explained place) := by
  refine Exec.triple_bind triple_currentToken fun token ht ↦ ?_
  split
  · exact Exec.triple_bind triple_advanceToken fun _ _ ↦ Exec.triple_pure trivial
  · exact triple_failAt ht (by decide)

theorem triple_parseValues (expectedCount : Option Nat) {free : Nat}
    {values : List LiteralValue} (hv : ∀ value ∈ values, value.location.Placed place) :
    (parseValues expectedCount free values).Triple (AtToken place)
      (fun values ↦ ∀ value ∈ values, value.location.Placed place) (Explained place) := by
  induction free generalizing values with
  | zero => exact Exec.triple_bind triple_currentToken fun _ ht ↦ triple_failAt ht (by decide)
  | succ free ih =>
    rw [parseValues]
    split
    · exact Exec.triple_bind triple_currentToken fun _ ht ↦ triple_failAt ht (by decide)
    · refine Exec.triple_bind triple_parseLiteral fun value hvalue ↦ ?_
      have hmore := List.forall_mem_append.mpr ⟨hv, List.forall_mem_singleton.mpr hvalue⟩
      refine Exec.triple_bind (triple_tokenMatches _) fun comma _ ↦ ?_
      split
      · exact Exec.triple_bind triple_advanceToken fun _ _ ↦ ih hmore
      · exact Exec.triple_pure hmore

theorem triple_parseValueList (expectedCount : Option Nat) :
    (parseValueList expectedCount).Triple (AtToken place)
      (fun values ↦ ∀ value ∈ values, value.location.Placed place) (Explained place) := by
  refine Exec.triple_bind (triple_parseValues expectedCount (List.forall_mem_nil _))
    fun values hv ↦ ?_
  split
  · exact Exec.triple_bind triple_previousToken fun _ ht ↦ triple_failAt ht (by decide)
  · exact Exec.triple_pure hv

theorem triple_parseColumns {free : Nat} {columns : List ColumnName}
    (hc : ∀ column ∈ columns, column.location.Placed place) :
    (parseColumns free columns).Triple (AtToken place)
      (fun columns ↦ ∀ column ∈ columns, column.location.Placed place) (Explained place) := by
  induction free generalizing columns with
  | zero => exact Exec.triple_bind triple_currentToken fun _ ht ↦ triple_failAt ht (by decide)
  | succ free ih =>
    refine Exec.triple_bind triple_parseIdentifier fun column hcolumn ↦ ?_
    have hmore := List.forall_mem_append.mpr ⟨hc, List.forall_mem_singleton.mpr hcolumn⟩
    refine Exec.triple_bind (triple_tokenMatches _) fun comma _ ↦ ?_
    split
    · exact Exec.triple_bind triple_advanceToken fun _ _ ↦ ih hmore
    · exact Exec.triple_pure hmore

theorem triple_parseColumnList : parseColumnList.Triple (AtToken place)
    (fun columns ↦ ∀ column ∈ columns.getD [], column.location.Placed place)
    (Explained place) := by
  refine Exec.triple_bind (triple_tokenMatches _) fun lparen _ ↦ ?_
  split
  · refine Exec.triple_bind triple_advanceToken fun _ _ ↦ ?_
    refine Exec.triple_bind (triple_parseColumns (List.forall_mem_nil _)) fun columns hc ↦ ?_
    exact Exec.triple_bind (triple_consumeToken _ (by decide)) fun _ _ ↦ Exec.triple_pure hc
  · exact Exec.triple_pure (List.forall_mem_nil _)

theorem triple_parseInsertStatement : parseInsertStatement.Triple (AtToken place)
    (Statement.Placed place) (Explained place) := by
  refine Exec.triple_bind triple_currentToken fun start _ ↦ ?_
  refine Exec.triple_bind (triple_consumeToken _ (by decide)) fun _ _ ↦ ?_
  refine Exec.triple_bind (triple_consumeToken _ (by decide)) fun _ _ ↦ ?_
  refine Exec.triple_bind triple_parseIdentifier fun table htable ↦ ?_
  refine Exec.triple_bind triple_parseColumnList fun columns hcolumns ↦ ?_
  refine Exec.triple_bind (triple_consumeToken _ (by decide)) fun _ _ ↦ ?_
  refine Exec.triple_bind (triple_consumeToken _ (by decide)) fun _ _ ↦ ?_
  refine Exec.triple_bind (triple_parseValueList _) fun values hvalues ↦ ?_
  refine Exec.triple_bind (triple_consumeToken _ (by decide)) fun _ _ ↦ ?_
  exact Exec.triple_pure ⟨htable, hcolumns, hvalues⟩

theorem triple_parseSelected : parseSelected.Triple (AtToken place)
    (fun columns ↦ ∀ column ∈ columns.getD [], column.location.Placed place)
    (Explained place) := by
  refine Exec.triple_bind (triple_tokenMatches _) fun star _ ↦ ?_
  split
  · exact Exec.triple_bind triple_advanceToken fun _ _ ↦
      Exec.triple_pure (List.forall_mem_nil _)
  · exact Exec.triple_bind (triple_parseColumns (List.forall_mem_nil _)) fun _ hc ↦
      Exec.triple_pure hc

theorem triple_parseCondition : parseCondition.Triple (AtToken place)
    (fun condition ↦ ∀ c ∈ condition, c.1.location.Placed place ∧ c.2.2.location.Placed place)
    (Explained place) := by
  refine Exec.triple_bind (triple_tokenMatches _) fun keyword _ ↦ ?_
  split
  · refine Exec.triple_bind triple_advanceToken fun _ _ ↦ ?_
    refine Exec.triple_bind triple_parseIdentifier fun column hcolumn ↦ ?_
    refine Exec.triple_bind triple_parseWhereOperator fun operator _ ↦ ?_
    refine Exec.triple_bind triple_parseLiteral fun value hvalue ↦ ?_
    apply Exec.triple_pure
    rintro _ ⟨⟩
    exact ⟨hcolumn, hvalue⟩
  · apply Exec.triple_pure
    rintro _ ⟨⟩

theorem placed_selectStatement {columns : Option (List ColumnName)}
    {condition : Option (ColumnName × WhereOperator × LiteralValue)} (start : SourceLocation)
    (table : Bytes) (hcolumns : ∀ column ∈ columns.getD [], column.location.Placed place)
    (hcondition : ∀ c ∈ condition, c.1.location.Placed place ∧ c.2.2.location.Placed place) :
    (Statement.select start (selectStatement table columns condition)).Placed place := by
  cases condition with
  | none =>
    refine ⟨hcolumns, ?_⟩
    intro hw
    cases hw
  | some c => exact ⟨hcolumns, fun _ ↦ hcondition c rfl⟩

theorem triple_parseSelectStatement : parseSelectStatement.Triple (AtToken place)
    (Statement.Placed place) (Explained place) := by
  refine Exec.triple_bind triple_currentToken fun start _ ↦ ?_
  refine Exec.triple_bind (triple_consumeToken _ (by decide)) fun _ _ ↦ ?_
  refine Exec.triple_bind triple_parseSelected fun columns hcolumns ↦ ?_
  refine Exec.triple_bind (triple_consumeToken _ (by decide)) fun _ _ ↦ ?_
  refine Exec.triple_bind triple_parseIdentifier fun table _ ↦ ?_
  refine Exec.triple_bind triple_parseCondition fun condition hcondition ↦ ?_
  exact Exec.triple_pure (placed_selectStatement _ _ hcolumns hcondition)

theorem triple_parseStatement : parseStatement.Triple (AtToken place)
    (Statement.Placed place) (Explained place) := by
  refine Exec.triple_bind triple_currentToken fun token ht ↦ ?_
  split
  · exact triple_parseInsertStatement
  · exact triple_parseSelectStatement
  · exact triple_failAt ht (by decide)

theorem triple_parseStatements {free : Nat} {program : SqlProgram}
    (h : ∀ statement ∈ program, statement.Placed place) :
    (parseStatements free program).Triple (AtToken place)
      (fun program ↦ ∀ statement ∈ program, statement.Placed place) (Explained place) := by
  induction free generalizing program with
  | zero =>
    rw [parseStatements]
    refine Exec.triple_bind triple_currentToken fun token ht ↦ ?_
    split
    · exact Exec.triple_pure h
    · exact triple_failAt ht (by decide)
  | succ free ih =>
    rw [parseStatements]
    refine Exec.triple_bind triple_currentToken fun token ht ↦ ?_
    split
    · exact Exec.triple_pure h
    · refine Exec.triple_bind triple_parseStatement fun statement hs ↦ ?_
      exact Exec.triple_bind (triple_consumeToken _ (by decide)) fun _ _ ↦
        ih (List.forall_mem_append.mpr ⟨h, List.forall_mem_singleton.mpr hs⟩)

theorem triple_parseTokens : parseTokens.Triple (AtToken place)
    (fun program ↦ ∀ statement ∈ program, statement.Placed place) (Explained place) := by
  refine Exec.triple_bind triple_currentToken fun token ht ↦ ?_
  split
  · exact triple_failAt ht (by decide)
  · exact triple_parseStatements (List.forall_mem_nil _)

end Parser

theorem Statement.Placed.imp {place' : Int → Int → Prop} {statement : Statement}
    (h : statement.Placed place) (hp : ∀ line column, place line column → place' line column) :
    statement.Placed place' := by
  cases statement with
  | insert _ statement =>
    obtain ⟨htable, hcolumns, hvalues⟩ := h
    exact ⟨hp _ _ htable, fun column hm ↦ hp _ _ (hcolumns column hm),
      fun value hm ↦ hp _ _ (hvalues value hm)⟩
  | select _ statement =>
    obtain ⟨hcolumns, hcondition⟩ := h
    exact ⟨fun column hm ↦ hp _ _ (hcolumns column hm),
      fun hw ↦ (hcondition hw).imp (hp _ _) (hp _ _)⟩

/-! ### The front end -/

/-- The parser starts at the first token of a text. -/
theorem atToken_start (h : tokenizeSql sqlText = .ok tokens) :
    AtToken (IsPlace [] (cstr sqlText)) ⟨tokens, 0⟩ := by
  obtain ⟨hlays, -, body, eof, rfl, -⟩ := tokenizeSql_lossless h
  exact ⟨List.length_pos_of_ne_nil (List.concat_ne_nil _ _), hlays.isPlace⟩

/-- The front end explains why it refuses a text, and otherwise the locations of the program are
places of the text. -/
theorem fails_parseProgram (sqlText : Bytes) :
    Fails (Explained (IsPlace [] (cstr sqlText))) (tokenizeSql sqlText >>= parseProgram) := by
  refine fails_bind (fails_tokenizeSql sqlText) fun tokens ht ↦ ?_
  exact (triple_parseTokens ⟨tokens, 0⟩ (atToken_start ht)).2.2

theorem parseProgram_placed {program : SqlProgram}
    (h : tokenizeSql sqlText >>= parseProgram = .ok program) :
    ∀ statement ∈ program, statement.Placed (InText sqlText) := by
  obtain ⟨tokens, ht, hp⟩ := except_bind_eq_ok_iff.mp h
  have hplaced := (triple_parseTokens ⟨tokens, 0⟩ (atToken_start ht)).2.1 program hp
  exact fun statement hm ↦ (hplaced statement hm).imp fun _ _ ↦ .inr

end SqlProc.Front
