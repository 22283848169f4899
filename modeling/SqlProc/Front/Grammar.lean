import SqlProc.Front.RoundTrip

/-!
# The grammar of the parser

Library `Front`. The token lists that `src/parser.c` accepts, whatever the texts of their tokens,
each with the program that it stands for; and the tokens of a program.
-/

namespace SqlProc.Front

open Base

variable {α β : Type}

/-! ### The grammar -/

/-- A name and the column that it is read as. -/
def IsName (token : Token) (column : ColumnName) : Prop :=
  token.type = .identifier ∧ column = ⟨token.text, token.location⟩

/-- A literal and its value. -/
def IsLiteral (token : Token) (value : LiteralValue) : Prop :=
  ∃ type, literalType token.type = some type ∧ value = ⟨type, token.text, token.location⟩

/-- Items with commas between them. -/
inductive Separated (item : Token → α → Prop) : List Token → List α → Prop
  | one {token : Token} {a : α} (h : item token a) : Separated item [token] [a]
  | more {token comma : Token} {a : α} {tokens : List Token} {as : List α} (h : item token a)
      (hc : comma.type = .comma) (hs : Separated item tokens as) :
    Separated item (token :: comma :: tokens) (a :: as)

theorem Separated.length_pos {item : Token → α → Prop} {tokens : List Token} {as : List α}
    (h : Separated item tokens as) : 0 < as.length := by
  cases h with
  | one => exact Nat.one_pos
  | more => exact Nat.succ_pos _

/-- `( names )`, or nothing. -/
inductive IsColumnList : List Token → Option (List ColumnName) → Prop
  | absent : IsColumnList [] none
  | list {lparen rparen : Token} {names : List Token} {columns : List ColumnName}
      (hl : lparen.type = .lparen) (hr : rparen.type = .rparen)
      (hn : Separated IsName names columns) (hc : columns.length ≤ maxColumns) :
    IsColumnList (lparen :: names ++ [rparen]) (some columns)

/-- `*`, or names. -/
inductive IsSelected : List Token → Option (List ColumnName) → Prop
  | all {star : Token} (h : star.type = .star) : IsSelected [star] none
  | columns {names : List Token} {columns : List ColumnName} (hn : Separated IsName names columns)
      (hc : columns.length ≤ maxColumns) : IsSelected names (some columns)

/-- `WHERE name operator literal`, or nothing. -/
inductive IsCondition : List Token → Option (ColumnName × WhereOperator × LiteralValue) → Prop
  | absent : IsCondition [] none
  | compare {keyword name operator literal : Token} {column : ColumnName}
      {comparison : WhereOperator} {value : LiteralValue} (hk : keyword.type = .keywordWhere)
      (hn : IsName name column) (ho : whereOperator operator.type = some comparison)
      (hv : IsLiteral literal value) :
    IsCondition [keyword, name, operator, literal] (some (column, comparison, value))

/-- `INSERT INTO name [( names )] VALUES ( literals )`, or
`SELECT names FROM name [WHERE condition]`. -/
inductive IsStatement : List Token → Statement → Prop
  | insert {insert into name keyword lparen rparen : Token} {list literals : List Token}
      {table : ColumnName} {columns : Option (List ColumnName)} {values : List LiteralValue}
      (hi : insert.type = .keywordInsert) (ho : into.type = .keywordInto) (hn : IsName name table)
      (hc : IsColumnList list columns) (hk : keyword.type = .keywordValues)
      (hl : lparen.type = .lparen) (hv : Separated IsLiteral literals values)
      (hm : values.length ≤ maxColumns) (he : ∀ names ∈ columns, values.length = names.length)
      (hr : rparen.type = .rparen) :
    IsStatement
      (insert :: into :: name :: (list ++ keyword :: lparen :: (literals ++ [rparen])))
      (.insert insert.location
        ⟨table.name, table.location, columns.isSome, columns.getD [], values⟩)
  | select {select source name : Token} {names condition : List Token} {table : ColumnName}
      {columns : Option (List ColumnName)}
      {comparison : Option (ColumnName × WhereOperator × LiteralValue)}
      (hs : select.type = .keywordSelect) (hc : IsSelected names columns)
      (hf : source.type = .keywordFrom) (hn : IsName name table)
      (hw : IsCondition condition comparison) :
    IsStatement (select :: (names ++ source :: name :: condition))
      (.select select.location (selectStatement table.name columns comparison))

/-- Statements, each with a semicolon after it. -/
inductive IsProgram : List Token → SqlProgram → Prop
  | nil : IsProgram [] []
  | cons {first rest : List Token} {semicolon : Token} {statement : Statement}
      {program : SqlProgram} (hs : IsStatement first statement)
      (hc : semicolon.type = .semicolon) (hp : IsProgram rest program) :
    IsProgram (first ++ semicolon :: rest) (statement :: program)

/-! ### Steps that read phrases -/

/-- Tokens up to the only EOF token, with texts that fit `Token.text`. -/
inductive Ended : List Token → Prop
  | eof {token : Token} (h : token.type = .eof) : Ended [token]
  | cons {token : Token} {rest : List Token} (h : token.type ≠ .eof)
      (hf : token.text.length < maxValueLen) (hr : Ended rest) : Ended (token :: rest)

theorem Ended.ne_nil {tokens : List Token} (h : Ended tokens) : tokens ≠ [] := by
  cases h with
  | eof => exact List.cons_ne_nil _ _
  | cons => exact List.cons_ne_nil _ _

theorem Ended.tail {token : Token} {rest : List Token} (h : Ended (token :: rest))
    (hne : rest ≠ []) : Ended rest := by
  cases h with
  | eof => exact absurd rfl hne
  | cons _ _ hr => exact hr

theorem Ended.of_append {read rest : List Token} (h : Ended (read ++ rest)) (hne : rest ≠ []) :
    Ended rest := by
  induction read with
  | nil => exact h
  | cons token read ih => exact ih (h.tail (by simp [hne]))

/-- A token that is not the last one is no EOF token, and its text fits. -/
theorem Ended.head {token : Token} {rest : List Token} (h : Ended (token :: rest))
    (ht : token.type ≠ .eof) : token.text.length < maxValueLen ∧ ∃ next later,
      rest = next :: later := by
  cases h with
  | eof he => exact absurd he ht
  | cons _ hf hr => exact ⟨hf, List.exists_cons_of_ne_nil hr.ne_nil⟩

/-- The tokens that a step reads, the value that it returns and the token where it stops. -/
abbrev Phrase (α : Type) := List Token → α → Token → Prop

/-- The step succeeds exactly on the phrases and stops at the token after them. -/
def Parses (x : Exec ParserState α) (P : Phrase α) : Prop :=
  ∀ done rest, Ended rest → ∀ a state, x (stateAt done rest) = (.ok a, state) ↔
    ∃ read next later, rest = read ++ next :: later ∧ P read a next ∧
      state = stateAt (done ++ read) (next :: later)

/-- The first of the tokens that are read, or the token after them. -/
def firstToken (read : List Token) (next : Token) : Token := read.head?.getD next

@[simp] theorem firstToken_nil (next : Token) : firstToken [] next = next := rfl

@[simp] theorem firstToken_cons (token : Token) (read : List Token) (next : Token) :
    firstToken (token :: read) next = token := rfl

theorem firstToken_of_eq {token next : Token} {read rest later : List Token}
    (h : token :: rest = read ++ next :: later) : firstToken read next = token := by
  cases read with
  | nil => exact (List.cons.inj h).1.symm
  | cons first read => exact (List.cons.inj h).1.symm

/-- Names start with a name. -/
theorem Separated.firstToken_type {read : List Token} {columns : List ColumnName}
    (h : Separated IsName read columns) (next : Token) :
    (firstToken read next).type = .identifier := by
  cases h with
  | one h => exact h.1
  | more h => exact h.1

/-- A phrase and then another one. -/
def Phrase.andThen (P : Phrase α) (Q : α → Phrase β) : Phrase β := fun read b next ↦
  ∃ first second a, read = first ++ second ∧ P first a (firstToken second next) ∧ Q a second b next

/-- One token. -/
def Phrase.one (item : Token → α → Prop) : Phrase α := fun read a _ ↦
  ∃ token, read = [token] ∧ item token a

theorem Parses.congr {x : Exec ParserState α} {P Q : Phrase α} (hx : Parses x P)
    (h : ∀ read a next, P read a next ↔ Q read a next) : Parses x Q := by
  have hPQ : P = Q := by
    funext read a next
    exact propext (h read a next)
  rw [← hPQ]
  exact hx

theorem parses_pure (a : α) : Parses (pure a) fun read b _ ↦ read = [] ∧ b = a := by
  intro done rest hrest b state
  obtain ⟨next, later, rfl⟩ := List.exists_cons_of_ne_nil hrest.ne_nil
  constructor
  · intro h
    obtain ⟨hb, rfl⟩ := Prod.mk.inj h
    exact ⟨[], next, later, rfl, ⟨rfl, (Except.ok.inj hb).symm⟩, by rw [List.append_nil]⟩
  · rintro ⟨read, next', later', hrest, ⟨rfl, rfl⟩, rfl⟩
    rw [List.append_nil, hrest]
    rfl

/-- A step that always fails. -/
theorem parses_of_error {x : Exec ParserState α} (h : ∀ state, ∃ e, (x state).1 = .error e) :
    Parses x fun _ _ _ ↦ False := by
  intro done rest _ a state
  constructor
  · intro hx
    obtain ⟨e, he⟩ := h (stateAt done rest)
    rw [hx] at he
    cases he
  · rintro ⟨_, _, _, -, ⟨⟩, -⟩

theorem parses_failAt (token : Token) (message : String) :
    Parses (failAt token message : Exec ParserState α) fun _ _ _ ↦ False :=
  parses_of_error fun _ ↦ ⟨_, rfl⟩

/-- Two steps read what the first and the second one read. -/
theorem Parses.bind {x : Exec ParserState α} {f : α → Exec ParserState β} {P : Phrase α}
    {Q : α → Phrase β} (hx : Parses x P) (hf : ∀ a, Parses (f a) (Q a)) :
    Parses (x >>= f) (P.andThen Q) := by
  intro done rest hrest b state
  rw [Exec.bind_eq_ok_iff]
  constructor
  · rintro ⟨a, middle, hxa, hfb⟩
    obtain ⟨first, next, later, rfl, hP, rfl⟩ := (hx done rest hrest a middle).mp hxa
    have hended := hrest.of_append (List.cons_ne_nil next later)
    obtain ⟨second, next', later', hrest', hQ, rfl⟩ := (hf a _ _ hended b state).mp hfb
    refine ⟨first ++ second, next', later', ?_, ⟨first, second, a, rfl, ?_, hQ⟩, ?_⟩
    · rw [hrest', List.append_assoc]
    · rw [firstToken_of_eq hrest']
      exact hP
    · rw [List.append_assoc]
  · rintro ⟨_, next, later, rfl, ⟨first, second, a, rfl, hP, hQ⟩, rfl⟩
    have hsecond : ∃ later', second ++ next :: later = firstToken second next :: later' := by
      cases second with
      | nil => exact ⟨later, rfl⟩
      | cons token second => exact ⟨second ++ next :: later, rfl⟩
    obtain ⟨later', hlater⟩ := hsecond
    rw [List.append_assoc] at hrest ⊢
    have hended := hrest.of_append (by simp)
    refine ⟨a, stateAt (done ++ first) (second ++ next :: later),
      (hx done _ hrest a _).mpr ⟨first, _, later', by rw [hlater], hP, by rw [hlater]⟩,
      (hf a _ _ hended b _).mpr ⟨second, next, later, rfl, hQ, by rw [List.append_assoc]⟩⟩

/-- A step may look at the next token. -/
theorem Parses.currentToken {f : Token → Exec ParserState β} {P : Token → Phrase β}
    (hf : ∀ token, Parses (f token) (P token)) :
    Parses (currentToken >>= f) fun read b next ↦ P (firstToken read next) read b next := by
  intro done rest hrest b state
  obtain ⟨token, rest, rfl⟩ := List.exists_cons_of_ne_nil hrest.ne_nil
  have hfirst : ∀ read next later, token :: rest = read ++ next :: later →
      firstToken read next = token := fun _ _ _ ↦ firstToken_of_eq
  rw [Exec.bind_ok (currentToken_stateAt done rest token), hf token done _ hrest b state]
  constructor
  · rintro ⟨read, next, later, hread, hP, hstate⟩
    rw [← hfirst read next later hread] at hP
    exact ⟨read, next, later, hread, hP, hstate⟩
  · rintro ⟨read, next, later, hread, hP, hstate⟩
    change P (firstToken read next) read b next at hP
    rw [hfirst read next later hread] at hP
    exact ⟨read, next, later, hread, hP, hstate⟩

/-- A step that checks the next token, which is not EOF, and skips it. -/
theorem parses_one {x : Exec ParserState α} {item : Token → α → Prop}
    (hne : ∀ token a, item token a → token.type ≠ .eof)
    (h : ∀ done token rest, (token.type ≠ .eof → token.text.length < maxValueLen) → ∀ a state,
      x (stateAt done (token :: rest)) = (.ok a, state) ↔
        item token a ∧ advanceToken (stateAt done (token :: rest)) = (.ok (), state)) :
    Parses x (Phrase.one item) := by
  intro done rest hrest a state
  obtain ⟨token, rest, rfl⟩ := List.exists_cons_of_ne_nil hrest.ne_nil
  rw [h done token rest (fun ht ↦ (hrest.head ht).1) a state]
  constructor
  · rintro ⟨hitem, hadvance⟩
    obtain ⟨-, next, later, rfl⟩ := hrest.head (hne token a hitem)
    rw [advanceToken_stateAt] at hadvance
    exact ⟨[token], next, later, rfl, ⟨token, rfl, hitem⟩, (Prod.mk.inj hadvance).2.symm⟩
  · rintro ⟨_, next, later, hread, ⟨token', rfl, hitem⟩, rfl⟩
    obtain ⟨rfl, rfl⟩ := List.cons.inj hread
    exact ⟨hitem, advanceToken_stateAt done later token next⟩

/-! ### Single tokens -/

theorem parses_consumeToken {type : TokenType} (hne : type ≠ .eof) (message : String) :
    Parses (consumeToken type message) (Phrase.one fun token _ ↦ token.type = type) := by
  refine parses_one (fun token _ ht ↦ ht ▸ hne) fun done token rest _ a state ↦ ?_
  rw [consumeToken, Exec.bind_ok (currentToken_stateAt done rest token)]
  split
  · next ht => exact ⟨fun h ↦ ⟨ht, h⟩, fun h ↦ h.2⟩
  · next ht => exact ⟨nofun, fun h ↦ absurd h.1 ht⟩

/-- A check that passes, after which the token is skipped. -/
theorem bind_advanceToken_iff {a b : α} {start state : ParserState} :
    (advanceToken >>= fun _ ↦ pure a : Exec ParserState α) start = (.ok b, state) ↔
      b = a ∧ advanceToken start = (.ok (), state) := by
  rw [Exec.bind_eq_ok_iff]
  constructor
  · rintro ⟨_, _, hadvance, hpure⟩
    obtain ⟨hb, rfl⟩ := Prod.mk.inj hpure
    exact ⟨(Except.ok.inj hb).symm, hadvance⟩
  · rintro ⟨rfl, hadvance⟩
    exact ⟨(), state, hadvance, rfl⟩

theorem parses_parseIdentifier : Parses parseIdentifier (Phrase.one IsName) := by
  have hne : TokenType.identifier ≠ .eof := by decide
  refine parses_one (fun token _ ht ↦ ht.1 ▸ hne) fun done token rest hfit column state ↦ ?_
  rw [parseIdentifier, Exec.bind_ok (currentToken_stateAt done rest token)]
  by_cases ht : token.type = .identifier
  · have hlen : token.text.length < maxNameLen := hfit (ht ▸ hne)
    have hcopy : copyName token = pure ⟨token.text, token.location⟩ := by
      rw [copyName, if_neg (Nat.not_le.mpr hlen), snprintfStr_of_lt hlen]
    rw [if_pos ht, hcopy]
    refine bind_advanceToken_iff.trans (and_congr_left fun _ ↦ ?_)
    exact ⟨fun h ↦ ⟨ht, h⟩, fun h ↦ h.2⟩
  · rw [if_neg ht]
    refine ⟨?_, fun h ↦ absurd h.1.1 ht⟩
    rintro ⟨⟩

theorem parses_parseLiteral : Parses parseLiteral (Phrase.one IsLiteral) := by
  refine parses_one ?_ fun done token rest hfit value state ↦ ?_
  · rintro token _ ⟨type, ht, -⟩ he
    rw [he] at ht
    cases ht
  · rw [parseLiteral, Exec.bind_ok (currentToken_stateAt done rest token)]
    cases ht : literalType token.type with
    | some type =>
      have hlen : token.text.length < maxValueLen := by
        apply hfit
        intro he
        rw [he] at ht
        cases ht
      simp only [snprintfStr_of_lt hlen]
      refine bind_advanceToken_iff.trans (and_congr_left fun _ ↦ ?_)
      simp [IsLiteral, ht]
    | none =>
      refine ⟨nofun, fun h ↦ ?_⟩
      obtain ⟨⟨type, hsome, -⟩, -⟩ := h
      rw [ht] at hsome
      cases hsome

theorem parses_parseWhereOperator : Parses parseWhereOperator
    (Phrase.one fun token operator ↦ whereOperator token.type = some operator) := by
  refine parses_one ?_ fun done token rest _ operator state ↦ ?_
  · intro token _ ht he
    rw [he] at ht
    cases ht
  · rw [parseWhereOperator, Exec.bind_ok (currentToken_stateAt done rest token)]
    cases ht : whereOperator token.type with
    | some comparison =>
      refine bind_advanceToken_iff.trans (and_congr_left fun _ ↦ ?_)
      rw [Option.some.injEq, eq_comm]
    | none => exact ⟨nofun, fun h ↦ by cases h.1⟩

/-! ### Optional parts and lists -/

/-- A step that skips a token of the type and goes on with one step, or goes on with another
step. -/
theorem parses_ifMatches {type : TokenType} (hne : type ≠ .eof) {g h : Exec ParserState β}
    {P Q : Phrase β} (hg : Parses g P) (hh : Parses h Q) :
    Parses (tokenMatches type >>= fun b ↦ if b = true then advanceToken >>= fun _ ↦ g else h)
      fun read a next ↦
        (∃ token rest, read = token :: rest ∧ token.type = type ∧ P rest a next) ∨
          (firstToken read next).type ≠ type ∧ Q read a next := by
  intro done rest hrest a state
  obtain ⟨token, rest, rfl⟩ := List.exists_cons_of_ne_nil hrest.ne_nil
  have hmatches : tokenMatches type (stateAt done (token :: rest)) =
      (.ok (decide (token.type = type)), stateAt done (token :: rest)) :=
    Exec.bind_ok (currentToken_stateAt done rest token) _
  have hfirst : ∀ read next later, token :: rest = read ++ next :: later →
      firstToken read next = token := fun _ _ _ ↦ firstToken_of_eq
  rw [Exec.bind_ok hmatches]
  by_cases ht : token.type = type
  · obtain ⟨-, next, later, rfl⟩ := hrest.head (ht ▸ hne)
    rw [if_pos (decide_eq_true ht), Exec.bind_ok (advanceToken_stateAt done later token next),
      hg _ _ (hrest.tail (List.cons_ne_nil _ _)) a state]
    constructor
    · rintro ⟨read, next', later', hread, hP, rfl⟩
      exact ⟨token :: read, next', later', congrArg (token :: ·) hread,
        Or.inl ⟨token, read, rfl, ht, hP⟩, by simp⟩
    · rintro ⟨read, next', later', hread, ⟨token', read', rfl, -, hP⟩ | ⟨hn, -⟩, rfl⟩
      · obtain ⟨rfl, hlater⟩ := List.cons.inj hread
        exact ⟨read', next', later', hlater, hP, by simp⟩
      · exact absurd ht (hfirst _ _ _ hread ▸ hn)
  · rw [if_neg (by simp [ht]), hh _ _ hrest a state]
    constructor
    · rintro ⟨read, next, later, hread, hQ, rfl⟩
      refine ⟨read, next, later, hread, Or.inr ⟨?_, hQ⟩, rfl⟩
      rw [hfirst read next later hread]
      exact ht
    · rintro ⟨read, next, later, hread, ⟨token', read', rfl, ht', -⟩ | ⟨-, hQ⟩, rfl⟩
      · obtain ⟨rfl, -⟩ := List.cons.inj hread
        exact absurd ht' ht
      · exact ⟨read, next, later, hread, hQ, rfl⟩

/-- Items with commas between them and no comma after them, added to those that are there. -/
def Items (item : Token → α → Prop) (count : Nat → Prop) (before : List α) : Phrase (List α) :=
  fun read as next ↦ ∃ new, as = before ++ new ∧ Separated item read new ∧ count new.length ∧
    next.type ≠ .comma

/-- One round of a loop over items with commas between them. -/
theorem parses_items {item : Token → α → Prop} {x : Exec ParserState α}
    {more : α → Exec ParserState (List α)} {count rest : Nat → Prop} {before : List α}
    (hx : Parses x (Phrase.one item))
    (hmore : ∀ a, Parses (more a) (Items item rest (before ++ [a]))) (hone : count 1)
    (hrest : ∀ n, 0 < n → (count (n + 1) ↔ rest n)) :
    Parses (x >>= fun a ↦ tokenMatches .comma >>= fun b ↦
        if b = true then advanceToken >>= fun _ ↦ more a else pure (before ++ [a]))
      (Items item count before) := by
  have hcomma : TokenType.comma ≠ .eof := by decide
  refine (hx.bind fun a ↦ parses_ifMatches hcomma (hmore a) (parses_pure _)).congr
    fun read as next ↦ ?_
  constructor
  · rintro ⟨first, second, a, rfl, ⟨token, rfl, hitem⟩, ⟨comma, later, rfl, hcomma, hlater⟩ |
      ⟨hnext, rfl, rfl⟩⟩
    · obtain ⟨new, rfl, hs, hc, hn⟩ := hlater
      have hpos : 0 < new.length := hs.length_pos
      refine ⟨a :: new, by rw [List.append_assoc]; rfl, .more hitem hcomma hs, ?_, hn⟩
      exact (hrest _ hpos).mpr hc
    · exact ⟨[a], rfl, .one hitem, hone, hnext⟩
  · rintro ⟨new, rfl, hs, hc, hn⟩
    cases hs with
    | one hitem =>
      exact ⟨_, [], _, rfl, ⟨_, rfl, hitem⟩, Or.inr ⟨hn, rfl, rfl⟩⟩
    | more hitem hcomma hs =>
      rename_i token comma a tokens as
      refine ⟨[token], comma :: tokens, a, rfl, ⟨token, rfl, hitem⟩,
        Or.inl ⟨comma, tokens, rfl, hcomma, as, ?_, hs, ?_, hn⟩⟩
      · rw [List.append_assoc]
        rfl
      · exact (hrest _ hs.length_pos).mp hc

theorem parses_parseColumns (free : Nat) (columns : List ColumnName) :
    Parses (parseColumns free columns) (Items IsName (· ≤ free) columns) := by
  induction free generalizing columns with
  | zero =>
    refine (Parses.currentToken fun token ↦ parses_failAt token _).congr fun read as next ↦
      ⟨False.elim, ?_⟩
    rintro ⟨new, -, hs, hc, -⟩
    exact Nat.lt_irrefl 0 (Nat.lt_of_lt_of_le hs.length_pos hc)
  | succ free ih =>
    rw [parseColumns]
    exact parses_items parses_parseIdentifier (fun a ↦ ih _) (Nat.succ_le_succ (Nat.zero_le _))
      fun n _ ↦ Nat.succ_le_succ_iff

/-- How many more values `parse_value_list` reads. -/
def ValueCount (expectedCount : Option Nat) (free read n : Nat) : Prop :=
  n ≤ free ∧ ∀ m ∈ expectedCount, read + n ≤ m

theorem parses_parseValues (expectedCount : Option Nat) (free : Nat)
    (values : List LiteralValue) :
    Parses (parseValues expectedCount free values)
      (Items IsLiteral (ValueCount expectedCount free values.length) values) := by
  induction free generalizing values with
  | zero =>
    refine (Parses.currentToken fun token ↦ parses_failAt token _).congr fun read as next ↦
      ⟨False.elim, ?_⟩
    rintro ⟨new, -, hs, hc, -⟩
    exact Nat.lt_irrefl 0 (Nat.lt_of_lt_of_le hs.length_pos hc.1)
  | succ free ih =>
    rw [parseValues]
    split
    · next hfull =>
      rw [Option.any_eq_true] at hfull
      obtain ⟨m, hm, hle⟩ := hfull
      refine (Parses.currentToken fun token ↦ parses_failAt token _).congr fun read as next ↦
        ⟨False.elim, ?_⟩
      rintro ⟨new, -, hs, hc, -⟩
      have := hs.length_pos
      have := hc.2 m hm
      have := of_decide_eq_true hle
      omega
    · next hroom =>
      have hmore (value : LiteralValue) : Parses
          (parseValues expectedCount free (values ++ [value]))
          (Items IsLiteral (ValueCount expectedCount free (values.length + 1))
            (values ++ [value])) := by
        have hlen : (values ++ [value]).length = values.length + 1 := by
          rw [List.length_append, List.length_singleton]
        rw [← hlen]
        exact ih (values ++ [value])
      have hone : ValueCount expectedCount (free + 1) values.length 1 := by
        refine ⟨Nat.succ_le_succ (Nat.zero_le _), fun m hm ↦ Nat.lt_of_not_le fun hle ↦ ?_⟩
        rw [Option.any_eq_true] at hroom
        exact hroom ⟨m, hm, decide_eq_true hle⟩
      apply parses_items parses_parseLiteral hmore hone
      intro n _
      simp only [ValueCount, Nat.succ_le_succ_iff, Nat.add_assoc, Nat.add_comm 1]

/-- A token and what follows it. -/
theorem Parses.one_bind {x : Exec ParserState α} {f : α → Exec ParserState β}
    {item : Token → α → Prop} {Q : α → Phrase β} (hx : Parses x (Phrase.one item))
    (hf : ∀ a, Parses (f a) (Q a)) :
    Parses (x >>= f) fun read b next ↦
      ∃ token rest a, read = token :: rest ∧ item token a ∧ Q a rest b next := by
  apply (hx.bind hf).congr
  intro read b next
  constructor
  · rintro ⟨_, rest, a, rfl, ⟨token, rfl, hitem⟩, hQ⟩
    exact ⟨token, rest, a, rfl, hitem, hQ⟩
  · rintro ⟨token, rest, a, rfl, hitem, hQ⟩
    exact ⟨[token], rest, a, rfl, ⟨token, rfl, hitem⟩, hQ⟩

theorem parses_parseValueList (expectedCount : Option Nat) :
    Parses (parseValueList expectedCount) fun read values next ↦
      Separated IsLiteral read values ∧ values.length ≤ maxColumns ∧
        (∀ m ∈ expectedCount, values.length = m) ∧ next.type ≠ .comma := by
  have hcheck (values : List LiteralValue) : Parses
      (if expectedCount.any (values.length ≠ ·) then do
          let token ← previousToken
          failAt token "컬럼 수와 값 수가 일치하지 않습니다."
        else pure values)
      fun read result _ ↦ (∀ m ∈ expectedCount, values.length = m) ∧ read = [] ∧
        result = values := by
    have hany : expectedCount.any (values.length ≠ ·) = true ↔
        ¬ ∀ m ∈ expectedCount, values.length = m := by
      simp [Option.any_eq_true]
    split
    · next hne =>
      exact (parses_of_error fun state ↦ ⟨_, rfl⟩).congr fun _ _ _ ↦
        ⟨False.elim, fun h ↦ hany.mp hne h.1⟩
    · next heq =>
      rw [hany, not_not] at heq
      exact (parses_pure values).congr fun _ _ _ ↦ ⟨fun h ↦ ⟨heq, h⟩, fun h ↦ h.2⟩
  refine ((parses_parseValues expectedCount maxColumns []).bind hcheck).congr
    fun read values next ↦ ?_
  constructor
  · rintro ⟨first, second, values', rfl, ⟨new, rfl, hs, hc, hn⟩, hm, rfl, rfl⟩
    rw [List.append_nil]
    exact ⟨hs, hc.1, hm, hn⟩
  · rintro ⟨hs, hc, hm, hn⟩
    refine ⟨read, [], values, (List.append_nil read).symm, ⟨values, rfl, hs, ⟨hc, ?_⟩, hn⟩, hm,
      rfl, rfl⟩
    intro m hmem
    rw [List.length_nil, Nat.zero_add]
    exact Nat.le_of_eq (hm m hmem)

/-- No parenthesis follows when there is no column list. -/
theorem parses_parseColumnList :
    Parses parseColumnList fun read columns next ↦
      IsColumnList read columns ∧ (columns = none → next.type ≠ .lparen) := by
  have hlparen : TokenType.lparen ≠ .eof := by decide
  have hrparen : TokenType.rparen ≠ .eof := by decide
  refine (parses_ifMatches hlparen ((parses_parseColumns maxColumns []).bind fun columns ↦
    (parses_consumeToken hrparen _).one_bind fun _ ↦ parses_pure (some columns))
    (parses_pure none)).congr fun read columns next ↦ ?_
  constructor
  · rintro (⟨lparen, _, rfl, hl, names, _, columns, rfl, ⟨_, rfl, hs, hc, -⟩, rparen, _, _, rfl,
      hr, rfl, rfl⟩ | ⟨hn, rfl, rfl⟩)
    · exact ⟨.list hl hr hs hc, nofun⟩
    · exact ⟨.absent, fun _ ↦ hn⟩
  · rintro ⟨h, hn⟩
    cases h with
    | absent => exact Or.inr ⟨hn rfl, rfl, rfl⟩
    | list hl hr hs hc =>
      rename_i lparen rparen names columns
      refine Or.inl ⟨lparen, names ++ [rparen], rfl, hl, names, [rparen], columns, rfl,
        ⟨columns, rfl, hs, hc, ?_⟩, rparen, [], (), rfl, hr, rfl, rfl⟩
      rw [firstToken_cons, hr]
      exact nofun

/-- No comma follows names. -/
theorem parses_parseSelected :
    Parses parseSelected fun read columns next ↦
      IsSelected read columns ∧ (columns.isSome → next.type ≠ .comma) := by
  have hstar : TokenType.star ≠ .eof := by decide
  refine (parses_ifMatches hstar (parses_pure none) ((parses_parseColumns maxColumns []).bind
    fun columns ↦ parses_pure (some columns))).congr fun read columns next ↦ ?_
  constructor
  · rintro (⟨star, _, rfl, h, rfl, rfl⟩ | ⟨-, names, _, columns, rfl, ⟨_, rfl, hs, hc, hn⟩, rfl,
      rfl⟩)
    · exact ⟨.all h, nofun⟩
    · rw [List.append_nil]
      exact ⟨.columns hs hc, fun _ ↦ hn⟩
  · rintro ⟨h, hn⟩
    cases h with
    | all h => exact Or.inl ⟨_, [], rfl, h, rfl, rfl⟩
    | columns hs hc =>
      refine Or.inr ⟨?_, read, [], _, (List.append_nil read).symm, ⟨_, rfl, hs, hc, hn rfl⟩, rfl,
        rfl⟩
      rw [hs.firstToken_type]
      exact nofun

/-- No WHERE follows when there is no condition. -/
theorem parses_parseCondition :
    Parses parseCondition fun read condition next ↦
      IsCondition read condition ∧ (condition = none → next.type ≠ .keywordWhere) := by
  have hwhere : TokenType.keywordWhere ≠ .eof := by decide
  refine (parses_ifMatches hwhere (parses_parseIdentifier.one_bind fun column ↦
    parses_parseWhereOperator.one_bind fun operator ↦ parses_parseLiteral.one_bind fun value ↦
      parses_pure (some (column, operator, value))) (parses_pure none)).congr
    fun read condition next ↦ ?_
  constructor
  · rintro (⟨keyword, _, rfl, hk, name, _, column, rfl, hn, operator, _, comparison, rfl, ho,
      literal, _, value, rfl, hv, rfl, rfl⟩ | ⟨hn, rfl, rfl⟩)
    · exact ⟨.compare hk hn ho hv, nofun⟩
    · exact ⟨.absent, fun _ ↦ hn⟩
  · rintro ⟨h, hn⟩
    cases h with
    | absent => exact Or.inr ⟨hn rfl, rfl, rfl⟩
    | compare hk hname ho hv =>
      exact Or.inl ⟨_, _, rfl, hk, _, _, _, rfl, hname, _, _, _, rfl, ho, _, _, _, rfl, hv, rfl,
        rfl⟩

/-! ### Statements and programs -/

/-- The statement is a SELECT that a condition could follow. -/
def Statement.LacksWhere : Statement → Prop
  | .insert _ _ => False
  | .select _ statement => statement.hasWhere = false

theorem parses_parseInsertStatement :
    Parses parseInsertStatement fun read statement _ ↦
      IsStatement read statement ∧ (firstToken read .zero).type = .keywordInsert := by
  have hinsert : TokenType.keywordInsert ≠ .eof := by decide
  have hinto : TokenType.keywordInto ≠ .eof := by decide
  have hvalues : TokenType.keywordValues ≠ .eof := by decide
  have hlparen : TokenType.lparen ≠ .eof := by decide
  have hrparen : TokenType.rparen ≠ .eof := by decide
  refine (Parses.currentToken fun start ↦ (parses_consumeToken hinsert _).one_bind fun _ ↦
    (parses_consumeToken hinto _).one_bind fun _ ↦ parses_parseIdentifier.one_bind fun table ↦
    parses_parseColumnList.bind fun columns ↦ (parses_consumeToken hvalues _).one_bind fun _ ↦
    (parses_consumeToken hlparen _).one_bind fun _ ↦
    (parses_parseValueList (columns.map List.length)).bind fun values ↦
    (parses_consumeToken hrparen _).one_bind fun _ ↦ parses_pure (Statement.insert start.location
      ⟨table.name, table.location, columns.isSome, columns.getD [], values⟩)).congr
    fun read statement next ↦ ?_
  constructor
  · rintro ⟨insert, _, _, rfl, hi, into, _, _, rfl, ho, name, _, table, rfl, hn, list, _, columns,
      rfl, ⟨hc, -⟩, keyword, _, _, rfl, hk, lparen, _, _, rfl, hl, literals, _, values, rfl,
      ⟨hv, hm, he, -⟩, rparen, _, _, rfl, hr, rfl, rfl⟩
    refine ⟨.insert hi ho hn hc hk hl hv hm (fun names hnames ↦ ?_) hr, hi⟩
    exact he _ (Option.map_eq_some_iff.mpr ⟨names, hnames, rfl⟩)
  · rintro ⟨h, hfirst⟩
    cases h with
    | select hs => exact absurd (hs.symm.trans hfirst) nofun
    | insert hi ho hn hc hk hl hv hm he hr =>
      refine ⟨_, _, (), rfl, hi, _, _, (), rfl, ho, _, _, _, rfl, hn, _, _, _, rfl, ⟨hc, ?_⟩,
        _, _, (), rfl, hk, _, _, (), rfl, hl, _, _, _, rfl, ⟨hv, hm, ?_, ?_⟩, _, _, (), rfl, hr,
        rfl, rfl⟩
      · rw [firstToken_cons, hk]
        exact fun _ ↦ nofun
      · intro m hmem
        obtain ⟨names, hnames, rfl⟩ := Option.map_eq_some_iff.mp hmem
        exact he names hnames
      · rw [firstToken_cons, hr]
        exact nofun

theorem parses_parseSelectStatement :
    Parses parseSelectStatement fun read statement next ↦
      IsStatement read statement ∧ (firstToken read .zero).type = .keywordSelect ∧
        (statement.LacksWhere → next.type ≠ .keywordWhere) := by
  have hselect : TokenType.keywordSelect ≠ .eof := by decide
  have hfrom : TokenType.keywordFrom ≠ .eof := by decide
  refine (Parses.currentToken fun start ↦ (parses_consumeToken hselect _).one_bind fun _ ↦
    parses_parseSelected.bind fun columns ↦ (parses_consumeToken hfrom _).one_bind fun _ ↦
    parses_parseIdentifier.one_bind fun table ↦ parses_parseCondition.bind fun condition ↦
    parses_pure (Statement.select start.location (selectStatement table.name columns
      condition))).congr fun read statement next ↦ ?_
  constructor
  · rintro ⟨select, _, _, rfl, hs, names, _, columns, rfl, ⟨hc, -⟩, source, _, _, rfl, hf, name, _,
      table, rfl, hn, condition, _, comparison, rfl, ⟨hw, hnext⟩, rfl, rfl⟩
    rw [List.append_nil]
    refine ⟨.select hs hc hf hn hw, hs, fun hlacks ↦ hnext ?_⟩
    cases comparison with
    | none => rfl
    | some comparison => cases hlacks
  · rintro ⟨h, hfirst, hnext⟩
    cases h with
    | insert hi => exact absurd (hi.symm.trans hfirst) nofun
    | select hs hc hf hn hw =>
      refine ⟨_, _, (), rfl, hs, _, _, _, rfl, ⟨hc, ?_⟩, _, _, (), rfl, hf, _, _, _, rfl, hn, _, [],
        _, (List.append_nil _).symm, ⟨hw, ?_⟩, rfl, rfl⟩
      · rw [firstToken_cons, hf]
        exact fun _ ↦ nofun
      · rintro rfl
        exact hnext rfl

/-- A statement starts with one of two keywords. -/
theorem IsStatement.exists_cons {tokens : List Token} {statement : Statement}
    (h : IsStatement tokens statement) : ∃ first rest, tokens = first :: rest ∧
      (first.type = .keywordInsert ∨ first.type = .keywordSelect) := by
  cases h with
  | insert hi => exact ⟨_, _, rfl, Or.inl hi⟩
  | select hs => exact ⟨_, _, rfl, Or.inr hs⟩

theorem parses_parseStatement :
    Parses parseStatement fun read statement next ↦
      IsStatement read statement ∧ (statement.LacksWhere → next.type ≠ .keywordWhere) := by
  let insertPhrase : Phrase Statement := fun read statement _ ↦
    IsStatement read statement ∧ (firstToken read .zero).type = .keywordInsert
  let selectPhrase : Phrase Statement := fun read statement next ↦
    IsStatement read statement ∧ (firstToken read .zero).type = .keywordSelect ∧
      (statement.LacksWhere → next.type ≠ .keywordWhere)
  let dispatch (token : Token) : Phrase Statement := fun read statement next ↦
    token.type = .keywordInsert ∧ insertPhrase read statement next ∨
      token.type = .keywordSelect ∧ selectPhrase read statement next
  refine (Parses.currentToken (P := dispatch) fun token ↦ ?_).congr fun read statement next ↦ ?_
  · split
    · next ht =>
      exact parses_parseInsertStatement.congr fun _ _ _ ↦ by simp [ht, dispatch, insertPhrase]
    · next ht =>
      exact parses_parseSelectStatement.congr fun _ _ _ ↦ by simp [ht, dispatch, selectPhrase]
    · next hi hs => exact (parses_failAt token _).congr fun _ _ _ ↦
        ⟨False.elim, fun h ↦ h.elim (fun h ↦ hi h.1) fun h ↦ hs h.1⟩
  constructor
  · rintro (⟨-, h, hfirst⟩ | ⟨-, h, -, hnext⟩)
    · refine ⟨h, ?_⟩
      cases h with
      | insert => exact False.elim
      | select hs => exact absurd (hs.symm.trans hfirst) (by decide)
    · exact ⟨h, hnext⟩
  · rintro ⟨h, hnext⟩
    obtain ⟨first, rest, rfl, hi | hs⟩ := h.exists_cons
    · exact Or.inl ⟨hi, h, hi⟩
    · exact Or.inr ⟨hs, h, hs, hnext⟩

/-- The statements that are added to those that are there, up to the EOF token. -/
def Statements (free : Nat) (before : SqlProgram) : Phrase SqlProgram :=
  fun read program next ↦ ∃ new, program = before ++ new ∧ IsProgram read new ∧
    new.length ≤ free ∧ next.type = .eof

theorem parses_parseStatements (free : Nat) (before : SqlProgram) :
    Parses (parseStatements free before) (Statements free before) := by
  have hsemicolon : TokenType.semicolon ≠ .eof := by decide
  induction free generalizing before with
  | zero =>
    rw [parseStatements]
    have hstep (token : Token) : Parses
        (if token.type = .eof then pure before
          else failAt token "문장 수가 최대 개수를 넘었습니다.")
        fun read program _ ↦ token.type = .eof ∧ read = [] ∧ program = before := by
      split
      · next ht => exact (parses_pure before).congr fun _ _ _ ↦ by simp [ht]
      · next ht => exact (parses_failAt token _).congr fun _ _ _ ↦ by simp [ht]
    apply (Parses.currentToken hstep).congr
    intro read program next
    constructor
    · rintro ⟨ht, rfl, rfl⟩
      exact ⟨[], (List.append_nil _).symm, .nil, Nat.le_refl 0, ht⟩
    · rintro ⟨new, rfl, h, hc, ht⟩
      obtain rfl := List.eq_nil_of_length_eq_zero (Nat.le_zero.mp hc)
      cases h
      exact ⟨ht, rfl, List.append_nil _⟩
  | succ free ih =>
    rw [parseStatements]
    have hstep (token : Token) : Parses
        (if token.type = .eof then pure before
          else do
            let statement ← parseStatement
            consumeToken .semicolon "문장 끝에는 세미콜론이 필요합니다."
            parseStatements free (before ++ [statement]))
        fun read program next ↦ token.type = .eof ∧ read = [] ∧ program = before ∨
          token.type ≠ .eof ∧ ∃ first semicolon rest statement,
            read = first ++ semicolon :: rest ∧ IsStatement first statement ∧
              semicolon.type = .semicolon ∧
              Statements free (before ++ [statement]) rest program next := by
      split
      · next ht => exact (parses_pure before).congr fun _ _ _ ↦ by simp [ht]
      · next ht =>
        refine (parses_parseStatement.bind fun statement ↦
          (parses_consumeToken hsemicolon _).one_bind fun _ ↦ ih (before ++ [statement])).congr
          fun read program next ↦ ?_
        constructor
        · rintro ⟨first, _, statement, rfl, ⟨h, -⟩, semicolon, rest, _, rfl, hc, hrest⟩
          exact Or.inr ⟨ht, first, semicolon, rest, statement, rfl, h, hc, hrest⟩
        · rintro (⟨he, -⟩ | ⟨-, first, semicolon, rest, statement, rfl, h, hc, hrest⟩)
          · exact absurd he ht
          · refine ⟨first, _, statement, rfl, ⟨h, fun _ ↦ ?_⟩, semicolon, rest, (), rfl, hc, hrest⟩
            rw [firstToken_cons, hc]
            decide
    apply (Parses.currentToken hstep).congr
    intro read program next
    constructor
    · rintro (⟨ht, rfl, rfl⟩ | ⟨-, first, semicolon, rest, statement, rfl, h, hc, new, rfl, hp, hl,
        ht⟩)
      · exact ⟨[], (List.append_nil _).symm, .nil, Nat.zero_le _, ht⟩
      · exact ⟨statement :: new, by rw [List.append_assoc]; rfl, .cons h hc hp,
          Nat.succ_le_succ hl, ht⟩
    · rintro ⟨new, rfl, h, hl, ht⟩
      cases h with
      | nil => exact Or.inl ⟨ht, rfl, List.append_nil _⟩
      | cons hs hc hp =>
        obtain ⟨token, tokens, rfl, hfirst⟩ := hs.exists_cons
        refine Or.inr ⟨?_, _, _, _, _, rfl, hs, hc, _, ?_, hp, Nat.le_of_succ_le_succ hl, ht⟩
        · rw [List.cons_append, firstToken_cons]
          rcases hfirst with hi | hs
          · rw [hi]
            decide
          · rw [hs]
            decide
        · rw [List.append_assoc]
          rfl

theorem parses_parseTokens :
    Parses parseTokens fun read program next ↦ program ≠ [] ∧ IsProgram read program ∧
      program.length ≤ maxStatements ∧ next.type = .eof := by
  have hstep (token : Token) : Parses
      (if token.type = .eof then failAt token "SQL 문장이 비어 있습니다."
        else parseStatements maxStatements [])
      fun read program next ↦ token.type ≠ .eof ∧
        Statements maxStatements [] read program next := by
    split
    · next ht => exact (parses_failAt token _).congr fun _ _ _ ↦ by simp [ht]
    · next ht => exact (parses_parseStatements maxStatements []).congr fun _ _ _ ↦ by simp [ht]
  apply (Parses.currentToken hstep).congr
  intro read program next
  constructor
  · rintro ⟨ht, new, rfl, hp, hl, hnext⟩
    refine ⟨?_, hp, hl, hnext⟩
    rintro rfl
    cases hp
    exact ht hnext
  · rintro ⟨hne, hp, hl, hnext⟩
    refine ⟨?_, program, rfl, hp, hl, hnext⟩
    cases hp with
    | nil => exact absurd rfl hne
    | cons hs hc hp =>
      obtain ⟨token, tokens, rfl, hfirst⟩ := hs.exists_cons
      rw [List.cons_append, firstToken_cons]
      rcases hfirst with hi | hs
      · rw [hi]
        decide
      · rw [hs]
        decide

/-! ### The tokens of a program -/

/-- The type of a token, and its text if it is a name or a literal. -/
def Token.symbol (token : Token) : TokenType × Bytes :=
  match token.type with
  | .identifier => (.identifier, token.text)
  | .number => (.number, token.text)
  | .string => (.string, token.text)
  | type => (type, [])

/-- The symbol of a name. -/
def ColumnName.symbol (column : ColumnName) : TokenType × Bytes := (.identifier, column.name)

/-- The symbol of a literal. -/
def LiteralValue.symbol (value : LiteralValue) : TokenType × Bytes :=
  match value.type with
  | .int => (.number, value.text)
  | .string => (.string, value.text)

/-- Symbols with commas between them. -/
def withCommas (symbols : List (TokenType × Bytes)) : List (TokenType × Bytes) :=
  symbols.intersperse (.comma, [])

/-- The symbols of a statement. -/
def Statement.symbols : Statement → List (TokenType × Bytes)
  | .insert _ statement =>
    [(.keywordInsert, []), (.keywordInto, []), (.identifier, statement.tableName)] ++
      ((if statement.hasColumnList then
          (.lparen, []) :: withCommas (statement.columns.map ColumnName.symbol) ++ [(.rparen, [])]
        else []) ++
        ([(.keywordValues, []), (.lparen, [])] ++
          (withCommas (statement.values.map LiteralValue.symbol) ++ [(.rparen, [])])))
  | .select _ statement =>
    [(.keywordSelect, [])] ++
      ((if statement.selectAll then [(.star, [])]
        else withCommas (statement.columns.map ColumnName.symbol)) ++
        ([(.keywordFrom, []), (.identifier, statement.tableName)] ++
          if statement.hasWhere then
            [(.keywordWhere, []), (.identifier, statement.whereColumn),
              (operatorType statement.whereOperator, []), statement.whereValue.symbol]
          else []))

/-- The symbols of a program, in which every statement ends with a semicolon. -/
def SqlProgram.symbols (program : SqlProgram) : List (TokenType × Bytes) :=
  program.flatMap fun statement ↦ statement.symbols ++ [(.semicolon, [])]

theorem symbol_of_type {token : Token} {type : TokenType} (h : token.type = type)
    (hn : type ≠ .identifier ∧ type ≠ .number ∧ type ≠ .string) : token.symbol = (type, []) := by
  subst h
  rw [Token.symbol]
  split
  · next h => exact absurd h hn.1
  · next h => exact absurd h hn.2.1
  · next h => exact absurd h hn.2.2
  · rfl

theorem IsName.symbol_eq {token : Token} {column : ColumnName} (h : IsName token column) :
    token.symbol = column.symbol := by
  obtain ⟨ht, rfl⟩ := h
  rw [Token.symbol, ht]
  rfl

theorem IsLiteral.symbol_eq {token : Token} {value : LiteralValue} (h : IsLiteral token value) :
    token.symbol = value.symbol := by
  obtain ⟨type, ht, rfl⟩ := h
  rw [Token.symbol]
  cases htype : token.type <;> rw [htype] at ht <;> cases ht <;> rfl

/-- Items with commas between them are rebuilt from their values. -/
theorem Separated.map_symbol {item : Token → α → Prop} {symbol : α → TokenType × Bytes}
    {tokens : List Token} {as : List α} (h : Separated item tokens as)
    (hi : ∀ token a, item token a → token.symbol = symbol a) :
    tokens.map Token.symbol = withCommas (as.map symbol) := by
  induction h with
  | one h => simp [withCommas, hi _ _ h]
  | more h hc hs ih =>
    rename_i token comma a tokens as
    rw [List.map_cons, List.map_cons, hi _ _ h, symbol_of_type hc (by decide), ih, withCommas,
      withCommas]
    cases as with
    | nil => cases hs
    | cons b as => rfl

theorem IsColumnList.map_symbol {tokens : List Token} {columns : Option (List ColumnName)}
    (h : IsColumnList tokens columns) : tokens.map Token.symbol =
      if columns.isSome then
        (.lparen, []) :: withCommas ((columns.getD []).map ColumnName.symbol) ++ [(.rparen, [])]
      else [] := by
  cases h with
  | absent => rfl
  | list hl hr hn hc =>
    rw [List.map_append, List.map_cons, List.map_singleton, symbol_of_type hl (by decide),
      symbol_of_type hr (by decide), hn.map_symbol (fun _ _ ↦ IsName.symbol_eq)]
    rfl

theorem IsSelected.map_symbol {tokens : List Token} {columns : Option (List ColumnName)}
    (h : IsSelected tokens columns) : tokens.map Token.symbol =
      if columns.isNone then [(.star, [])]
      else withCommas ((columns.getD []).map ColumnName.symbol) := by
  cases h with
  | all h => exact congrArg (fun symbol ↦ [symbol]) (symbol_of_type h (by decide))
  | columns hn hc => exact hn.map_symbol (fun _ _ ↦ IsName.symbol_eq)

theorem whereOperator_eq_some_iff {type : TokenType} {operator : WhereOperator} :
    whereOperator type = some operator ↔ type = operatorType operator := by
  cases operator <;> cases type <;> decide

theorem IsCondition.map_symbol {tokens : List Token}
    {condition : Option (ColumnName × WhereOperator × LiteralValue)}
    (h : IsCondition tokens condition) (table : Bytes) (columns : Option (List ColumnName)) :
    tokens.map Token.symbol =
      let statement := selectStatement table columns condition
      if statement.hasWhere then
        [(.keywordWhere, []), (.identifier, statement.whereColumn),
          (operatorType statement.whereOperator, []), statement.whereValue.symbol]
      else [] := by
  cases h with
  | absent => rfl
  | @compare _ _ operator _ _ comparison _ hk hn ho hv =>
    have hoperator : operator.symbol = (operatorType comparison, []) :=
      symbol_of_type (whereOperator_eq_some_iff.mp ho) (by cases comparison <;> decide)
    simp only [List.map_cons, List.map_nil, symbol_of_type hk (by decide), hn.symbol_eq,
      hoperator, hv.symbol_eq]
    rfl

theorem IsStatement.map_symbol {tokens : List Token} {statement : Statement}
    (h : IsStatement tokens statement) : tokens.map Token.symbol = statement.symbols := by
  cases h with
  | insert hi ho hn hc hk hl hv hm he hr =>
    simp only [List.map_cons, List.map_append, List.map_nil, symbol_of_type hi (by decide),
      symbol_of_type ho (by decide), hn.symbol_eq, hc.map_symbol, symbol_of_type hk (by decide),
      symbol_of_type hl (by decide), hv.map_symbol (fun _ _ ↦ IsLiteral.symbol_eq),
      symbol_of_type hr (by decide)]
    rfl
  | select hs hc hf hn hw =>
    rename_i table columns condition
    simp only [List.map_cons, List.map_append, symbol_of_type hs (by decide), hc.map_symbol,
      symbol_of_type hf (by decide), hn.symbol_eq, hw.map_symbol table.name columns]
    rfl

theorem IsProgram.map_symbol {tokens : List Token} {program : SqlProgram}
    (h : IsProgram tokens program) : tokens.map Token.symbol = program.symbols := by
  induction h with
  | nil => rfl
  | cons hs hc hp ih =>
    rw [List.map_append, List.map_cons, hs.map_symbol, symbol_of_type hc (by decide), ih,
      SqlProgram.symbols, SqlProgram.symbols, List.flatMap_cons, List.append_assoc,
      List.singleton_append]

/-! ### The whole input -/

theorem ended_append_eof {body : List Token} {eof : Token} (heof : eof.type = .eof)
    (hbody : ∀ token ∈ body, token.type ≠ .eof)
    (hfit : ∀ token ∈ body, token.text.length < maxValueLen) : Ended (body ++ [eof]) := by
  induction body with
  | nil => exact .eof heof
  | cons token body ih =>
    obtain ⟨ht, hbody⟩ := List.forall_mem_cons.mp hbody
    obtain ⟨hf, hfit⟩ := List.forall_mem_cons.mp hfit
    exact .cons ht hf (ih hbody hfit)

/-- Before the only EOF token stands the whole body. -/
theorem append_eof_inj {body read later : List Token} {eof next : Token}
    (hbody : ∀ token ∈ body, token.type ≠ .eof) (hnext : next.type = .eof)
    (h : body ++ [eof] = read ++ next :: later) : read = body ∧ next = eof ∧ later = [] := by
  induction body generalizing read with
  | nil =>
    cases read with
    | nil =>
      obtain ⟨rfl, rfl⟩ := List.cons.inj h
      exact ⟨rfl, rfl, rfl⟩
    | cons token read => exact absurd (List.cons.inj h).2 (by simp)
  | cons token body ih =>
    obtain ⟨ht, hbody⟩ := List.forall_mem_cons.mp hbody
    cases read with
    | nil => exact absurd ((List.cons.inj h).1 ▸ hnext) ht
    | cons token' read =>
      obtain ⟨rfl, hrest⟩ := List.cons.inj h
      obtain ⟨rfl, rfl, rfl⟩ := ih hbody hrest
      exact ⟨rfl, rfl, rfl⟩

/-- On tokens that end in the only EOF token the parser accepts exactly its grammar, with as
many statements as a program can hold, and returns the program that the tokens stand for. The
program determines all of them, and the parser stops at the EOF token. -/
theorem parseProgram_grammar {body : List Token} {eof : Token} (heof : eof.type = .eof)
    (hbody : ∀ token ∈ body, token.type ≠ .eof)
    (hfit : ∀ token ∈ body, token.text.length < maxValueLen) (program : SqlProgram) :
    (parseProgram (body ++ [eof]) = .ok program ↔
      IsProgram body program ∧ 1 ≤ program.length ∧ program.length ≤ maxStatements) ∧
    (parseProgram (body ++ [eof]) = .ok program →
      program.symbols = body.map Token.symbol ∧
        (parseTokens ⟨body ++ [eof], 0⟩).2 = ⟨body ++ [eof], body.length⟩) := by
  have hended := ended_append_eof heof hbody hfit
  have hiff : ∀ state, parseTokens ⟨body ++ [eof], 0⟩ = (.ok program, state) ↔
      (program ≠ [] ∧ IsProgram body program ∧ program.length ≤ maxStatements) ∧
        state = ⟨body ++ [eof], body.length⟩ := by
    intro state
    apply (parses_parseTokens [] _ hended program state).trans
    constructor
    · rintro ⟨read, next, later, hread, ⟨hne, hp, hl, hnext⟩, rfl⟩
      obtain ⟨rfl, rfl, rfl⟩ := append_eof_inj hbody hnext hread
      exact ⟨⟨hne, hp, hl⟩, rfl⟩
    · rintro ⟨⟨hne, hp, hl⟩, rfl⟩
      exact ⟨body, eof, [], rfl, ⟨hne, hp, hl, heof⟩, rfl⟩
  have hok : parseProgram (body ++ [eof]) = .ok program ↔
      program ≠ [] ∧ IsProgram body program ∧ program.length ≤ maxStatements := by
    unfold parseProgram
    constructor
    · intro h
      exact ((hiff _).mp (Exec.eq_ok_of_fst h)).1
    · intro h
      rw [(hiff _).mpr ⟨h, rfl⟩]
  refine ⟨hok.trans ?_, fun h ↦ ⟨(hok.mp h).2.1.map_symbol.symm, ?_⟩⟩
  · constructor
    · rintro ⟨hne, hp, hl⟩
      exact ⟨hp, List.length_pos_iff.mpr hne, hl⟩
    · rintro ⟨hp, hpos, hl⟩
      exact ⟨List.length_pos_iff.mp hpos, hp, hl⟩
  · rw [(hiff _).mpr ⟨hok.mp h, rfl⟩]

/-- `SELECT name FROM t;`, all in one column. -/
def sampleTokens : List Token :=
  [⟨.keywordSelect, text "select", 1, 1⟩, ⟨.identifier, text "name", 1, 1⟩,
    ⟨.keywordFrom, text "from", 1, 1⟩, ⟨.identifier, text "t", 1, 1⟩, ⟨.semicolon, text ";", 1, 1⟩]

theorem parseProgram_grammar_sample :
    let program : SqlProgram := [.select ⟨1, 1⟩
      (selectStatement (text "t") (some [⟨text "name", ⟨1, 1⟩⟩]) none)]
    IsProgram sampleTokens program ∧ program.symbols = sampleTokens.map Token.symbol := by
  intro program
  have heof : (⟨.eof, [], 1, 20⟩ : Token).type = .eof := rfl
  have hbody : ∀ token ∈ sampleTokens, token.type ≠ .eof := by decide
  obtain ⟨hiff, hsymbols⟩ := parseProgram_grammar heof hbody (by decide) program
  have hok : parseProgram (sampleTokens ++ [⟨.eof, [], 1, 20⟩]) = .ok program := by
    decide +kernel
  exact ⟨(hiff.mp hok).1, (hsymbols hok).1⟩

end SqlProc.Front
