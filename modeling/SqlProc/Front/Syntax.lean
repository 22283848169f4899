import SqlProc.Front.Parser

/-!
# Programs and their spellings

Library `Front`. The language that the front end is for, stated without the code: programs
within the limits, the lexemes of a program, and every text that spells them. What a program
means is the statement structure that the executor is given.
-/

namespace SqlProc.Front

open Base

/-! ### Programs -/

/-- A word of letters, digits and underscores that does not start with a digit. -/
structure IsIdentifier (name : Bytes) : Prop where
  startsWord : startsWord name = true
  word : ∀ c ∈ name, isWordByte c = true
  length_lt : name.length < maxNameLen
  notKeyword : keywordType (name.map tolower) = .identifier

instance (name : Bytes) : Decidable (IsIdentifier name) :=
  decidable_of_iff (startsWord name = true ∧ (∀ c ∈ name, isWordByte c = true) ∧
      name.length < maxNameLen ∧ keywordType (name.map tolower) = .identifier)
    ⟨fun h ↦ ⟨h.1, h.2.1, h.2.2.1, h.2.2.2⟩, fun h ↦ ⟨h.1, h.2, h.3, h.4⟩⟩

/-- An identifier, in any case. -/
structure Identifier where
  name : Bytes
  valid : IsIdentifier name

/-- The identifier as the program stores it. -/
def Identifier.lower (identifier : Identifier) : Bytes := identifier.name.map tolower

/-- Digits, after an optional minus sign. -/
structure IsInteger (value : Bytes) : Prop where
  startsNumber : startsNumber value = true
  digits : ∀ c ∈ value.tail, isdigit c = true
  length_lt : value.length < maxValueLen

instance (value : Bytes) : Decidable (IsInteger value) :=
  decidable_of_iff (startsNumber value = true ∧ (∀ c ∈ value.tail, isdigit c = true) ∧
      value.length < maxValueLen)
    ⟨fun h ↦ ⟨h.1, h.2.1, h.2.2⟩, fun h ↦ ⟨h.1, h.2, h.3⟩⟩

/-- A text without a quote that fits a cell. -/
structure IsString (value : Bytes) : Prop where
  validCell : ValidCell value
  squote_notMem : squote ∉ value

instance (value : Bytes) : Decidable (IsString value) :=
  decidable_of_iff (ValidCell value ∧ squote ∉ value)
    ⟨fun h ↦ ⟨h.1, h.2⟩, fun h ↦ ⟨h.1, h.2⟩⟩

/-- A literal. -/
inductive Literal where
  | int (value : Bytes) (valid : IsInteger value)
  | string (value : Bytes) (valid : IsString value)

/-- `INSERT INTO table (columns) VALUES (values)`. -/
structure InsertCommand where
  table : Identifier
  columns : Option (List Identifier)
  values : List Literal
  values_ne_nil : values ≠ []
  length_values_le : values.length ≤ maxColumns
  length_columns : ∀ names ∈ columns, names.length = values.length

/-- `column operator value`. -/
structure Condition where
  column : Identifier
  operator : WhereOperator
  value : Literal

/-- `SELECT columns FROM table WHERE condition`; no columns stand for `*`. -/
structure SelectCommand where
  table : Identifier
  columns : Option (List Identifier)
  condition : Option Condition
  columns_ne_nil : ∀ names ∈ columns, names ≠ []
  length_columns_le : ∀ names ∈ columns, names.length ≤ maxColumns

/-- A statement of the language. -/
inductive Command where
  | insert (command : InsertCommand)
  | select (command : SelectCommand)

/-! ### Meaning -/

/-- A column without its place in the text. -/
def Identifier.columnName (identifier : Identifier) : ColumnName := ⟨identifier.lower, noLocation⟩

/-- A literal without its place in the text. -/
def Literal.literalValue : Literal → LiteralValue
  | .int value _ => ⟨.int, value, noLocation⟩
  | .string value _ => ⟨.string, value, noLocation⟩

/-- The statement that the executor is given. -/
def Command.statement : Command → Statement
  | .insert command => .insert noLocation
    { tableName := command.table.lower
      tableLocation := noLocation
      hasColumnList := command.columns.isSome
      columns := (command.columns.getD []).map Identifier.columnName
      values := command.values.map Literal.literalValue }
  | .select command => .select noLocation
    (selectStatement command.table.lower (command.columns.map (·.map Identifier.columnName))
      (command.condition.map fun condition ↦
        (condition.column.columnName, condition.operator, condition.value.literalValue)))

/-- A column without its location. -/
def ColumnName.erase (column : ColumnName) : ColumnName := { column with location := noLocation }

/-- A literal without its location. -/
def LiteralValue.erase (value : LiteralValue) : LiteralValue :=
  { value with location := noLocation }

/-- A statement without its locations. -/
def Statement.erase : Statement → Statement
  | .insert _ statement => .insert noLocation
    { statement with
      tableLocation := noLocation
      columns := statement.columns.map ColumnName.erase
      values := statement.values.map LiteralValue.erase }
  | .select _ statement => .select noLocation
    { statement with
      columns := statement.columns.map ColumnName.erase
      whereColumnLocation := noLocation
      whereValue := statement.whereValue.erase }

/-! ### Lexemes -/

/-- A lexical unit of a program. -/
inductive Lexeme where
  | identifier (identifier : Identifier)
  | literal (literal : Literal)
  | keyword (type : TokenType)
  | symbol (type : TokenType)

/-- The type of the token of a lexeme. -/
def Lexeme.type : Lexeme → TokenType
  | .identifier _ => .identifier
  | .literal (.int ..) => .number
  | .literal (.string ..) => .string
  | .keyword type => type
  | .symbol type => type

/-- Lexemes with commas between them. -/
def separated : List Lexeme → List Lexeme
  | [] => []
  | [lexeme] => [lexeme]
  | lexeme :: lexemes => lexeme :: .symbol .comma :: separated lexemes

/-- The symbol of an operator. -/
def operatorType : WhereOperator → TokenType
  | .equal => .equal
  | .greater => .greater
  | .less => .less
  | .notEqual => .bangEqual

/-- The lexemes of the optional column list of an INSERT. -/
def columnListLexemes : Option (List Identifier) → List Lexeme
  | none => []
  | some names =>
    .symbol .lparen :: separated (names.map Lexeme.identifier) ++ [.symbol .rparen]

/-- The lexemes of what a SELECT selects. -/
def selectedLexemes : Option (List Identifier) → List Lexeme
  | none => [.symbol .star]
  | some names => separated (names.map Lexeme.identifier)

/-- The lexemes of an optional condition. -/
def conditionLexemes : Option Condition → List Lexeme
  | none => []
  | some condition =>
    [.keyword .keywordWhere, .identifier condition.column,
      .symbol (operatorType condition.operator), .literal condition.value]

/-- The lexemes of a statement. -/
def Command.lexemes : Command → List Lexeme
  | .insert command =>
    [.keyword .keywordInsert, .keyword .keywordInto, .identifier command.table] ++
      (columnListLexemes command.columns ++
        ([.keyword .keywordValues, .symbol .lparen] ++
          (separated (command.values.map Lexeme.literal) ++ [.symbol .rparen])))
  | .select command =>
    [.keyword .keywordSelect] ++
      (selectedLexemes command.columns ++
        ([.keyword .keywordFrom, .identifier command.table] ++
          conditionLexemes command.condition))

/-- The lexemes of a program, in which every statement ends with a semicolon. -/
def programLexemes (commands : List Command) : List Lexeme :=
  commands.flatMap fun command ↦ command.lexemes ++ [.symbol .semicolon]

/-- A program within the limits. -/
structure Program where
  commands : List Command
  commands_ne_nil : commands ≠ []
  length_commands_le : commands.length ≤ maxStatements
  length_lexemes_lt : (programLexemes commands).length < maxTokens

/-! ### Spellings -/

/-- The text of a keyword in lower case. -/
def keywordText : TokenType → Bytes
  | .keywordInsert => text "insert"
  | .keywordInto => text "into"
  | .keywordValues => text "values"
  | .keywordSelect => text "select"
  | .keywordFrom => text "from"
  | .keywordWhere => text "where"
  | _ => []

/-- The text of a symbol. -/
def symbolText : TokenType → Bytes
  | .comma => text ","
  | .semicolon => text ";"
  | .lparen => text "("
  | .rparen => text ")"
  | .star => text "*"
  | .equal => text "="
  | .greater => text ">"
  | .less => text "<"
  | .bangEqual => text "!="
  | _ => []

/-- The texts of a lexeme: words in any case, everything else as it is. -/
inductive Spells : Lexeme → Bytes → Prop
  | identifier (identifier : Identifier) (spelled : Bytes)
      (h : spelled.map tolower = identifier.lower) : Spells (.identifier identifier) spelled
  | int (value : Bytes) (valid : IsInteger value) : Spells (.literal (.int value valid)) value
  | string (value : Bytes) (valid : IsString value) :
    Spells (.literal (.string value valid)) (squote :: value ++ [squote])
  | keyword (type : TokenType) (spelled : Bytes) (h : spelled.map tolower = keywordText type)
      (hne : spelled ≠ []) : Spells (.keyword type) spelled
  | symbol (type : TokenType) (hne : symbolText type ≠ []) :
    Spells (.symbol type) (symbolText type)

/-- A blank, a tab, or a line end. -/
def isBlank (c : UInt8) : Bool := c = space || c = tab || c = cr || c = lf

/-- The lexeme is a word. -/
def Lexeme.isWord : Lexeme → Bool
  | .identifier _ => true
  | .keyword _ => true
  | _ => false

/-- The texts that spell lexemes one after the other, with any blanks around them and at least
one between words. -/
inductive Writes : List Lexeme → Bytes → Prop
  | nil (blanks : Bytes) (hb : ∀ c ∈ blanks, isBlank c = true) : Writes [] blanks
  | cons (blanks spelled rest : Bytes) (lexeme : Lexeme) (lexemes : List Lexeme)
      (hb : ∀ c ∈ blanks, isBlank c = true) (hs : Spells lexeme spelled)
      (hr : Writes lexemes rest)
      (hsep : lexeme.isWord = true → lexemes.head?.any Lexeme.isWord = true →
        rest.head?.any isBlank = true) :
    Writes (lexeme :: lexemes) (blanks ++ (spelled ++ rest))

end SqlProc.Front
