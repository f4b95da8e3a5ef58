/-!
Kinds of token. A kind says what a piece of source text is to the grammar; the text itself is kept
beside it (see `Lexeme`). Each kind has the name under which it appears in a parse table.
-/
namespace TypeDrift

/-- The reserved words. -/
inductive Keyword where
  | ifWord
  | elseWord
  | repeatWord
  | whileWord
  | functionWord
  | forWord
  | inWord
  | next
  | break
  | true
  | false
  | null
  | inf
  | nan
  | na
  | naInteger
  | naReal
  | naCharacter
deriving DecidableEq, Repr

namespace Keyword

/-- How a reserved word is written. -/
def spelling : Keyword → String
  | ifWord => "if"
  | elseWord => "else"
  | repeatWord => "repeat"
  | whileWord => "while"
  | functionWord => "function"
  | forWord => "for"
  | inWord => "in"
  | next => "next"
  | .break => "break"
  | .true => "TRUE"
  | .false => "FALSE"
  | null => "NULL"
  | inf => "Inf"
  | nan => "NaN"
  | na => "NA"
  | naInteger => "NA_integer_"
  | naReal => "NA_real_"
  | naCharacter => "NA_character_"

/-- All reserved words. -/
def all : List Keyword :=
  [ifWord, elseWord, repeatWord, whileWord, functionWord, forWord, inWord, next, .break, .true,
    .false, null, inf, nan, na, naInteger, naReal, naCharacter]

/-- The reserved word with this spelling. -/
def ofSpelling? (text : String) : Option Keyword :=
  all.find? fun keyword => keyword.spelling == text

/-- The name of a reserved word in a parse table: its own, or that of a constant. -/
def tableName : Keyword → String
  | ifWord => "IF"
  | elseWord => "ELSE"
  | repeatWord => "REPEAT"
  | whileWord => "WHILE"
  | functionWord => "FUNCTION"
  | forWord => "FOR"
  | inWord => "IN"
  | next => "NEXT"
  | .break => "BREAK"
  | null => "NULL_CONST"
  | .true | .false | inf | nan | na | naInteger | naReal | naCharacter => "NUM_CONST"

theorem mem_all (keyword : Keyword) : keyword ∈ all := by cases keyword <;> decide

theorem ofSpelling?_spelling (keyword : Keyword) :
    ofSpelling? keyword.spelling = some keyword := by cases keyword <;> decide

end Keyword

/-- What a token is to the grammar. A string carries its contents, with escapes resolved. -/
inductive Kind where
  | identifier
  /-- A numeral without point and exponent, or hexadecimal, or whole with the suffix `L`. -/
  | integer
  | float
  | complex
  | string (contents : String)
  | keyword (word : Keyword)
  | newline
  | leftParen
  | rightParen
  | leftBrace
  | rightBrace
  | leftBracket
  | doubleLeftBracket
  | rightBracket
  | comma
  | semicolon
  /-- The operator `<-`. -/
  | leftAssign
  /-- The operator `<<-`. -/
  | superAssign
  /-- The operator `->`. -/
  | rightAssign
  /-- The operator `->>`. -/
  | superRightAssign
  /-- The operator `=`. -/
  | equalAssign
  /-- The operator `:=`. -/
  | colonAssign
  | equal
  | notEqual
  | less
  | lessEqual
  | greater
  | greaterEqual
  | bang
  | ampersand
  | doubleAmpersand
  | bar
  | doubleBar
  /-- The operator `|>`. -/
  | pipe
  | tilde
  | question
  | plus
  | minus
  | star
  | slash
  | caret
  /-- An operator between percent signs, such as `%in%`. -/
  | special
  | colon
  | doubleColon
  | tripleColon
  | dollar
  | atSign
  | backslash
  | endOfInput
deriving DecidableEq, Repr, Inhabited

namespace Kind

/-- The name of a kind in a parse table. -/
def tableName : Kind → String
  | identifier => "SYMBOL"
  | integer | float | complex => "NUM_CONST"
  | string _ => "STR_CONST"
  | keyword word => word.tableName
  | newline => "NEWLINE"
  | leftParen => "'('"
  | rightParen => "')'"
  | leftBrace => "'\x7b'"
  | rightBrace => "'\x7d'"
  | leftBracket => "'['"
  | doubleLeftBracket => "LBB"
  | rightBracket => "']'"
  | comma => "','"
  | semicolon => "';'"
  | leftAssign | superAssign | colonAssign => "LEFT_ASSIGN"
  | rightAssign | superRightAssign => "RIGHT_ASSIGN"
  | equalAssign => "EQ_ASSIGN"
  | equal => "EQ"
  | notEqual => "NE"
  | less => "LT"
  | lessEqual => "LE"
  | greater => "GT"
  | greaterEqual => "GE"
  | bang => "'!'"
  | ampersand => "AND"
  | doubleAmpersand => "AND2"
  | bar => "OR"
  | doubleBar => "OR2"
  | pipe => "PIPE"
  | tilde => "'~'"
  | question => "'?'"
  | plus => "'+'"
  | minus => "'-'"
  | star => "'*'"
  | slash => "'/'"
  | caret => "'^'"
  | special => "SPECIAL"
  | colon => "':'"
  | doubleColon => "NS_GET"
  | tripleColon => "NS_GET_INT"
  | dollar => "'$'"
  | atSign => "'@'"
  | backslash => "'\\\\'"
  | endOfInput => "END_OF_INPUT"

/-- The operators that may bind a name. -/
def isAssignment : Kind → Bool
  | leftAssign | superAssign | rightAssign | superRightAssign | equalAssign | colonAssign => true
  | _ => false

/-- Line breaks and the end of input: tokens that carry no text of their own. -/
def isTrivia : Kind → Bool
  | newline | endOfInput => true
  | _ => false

end Kind
end TypeDrift
