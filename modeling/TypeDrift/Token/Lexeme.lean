import TypeDrift.Text.Position
import TypeDrift.Token.Kind

/-!
Lexemes, tokens and faults. A `Lexeme` is what the grammar looks at: a kind and the text it was
written with. A `Token` is a lexeme at its place. A `Fault` says why a text is no script and where;
the reason is a `Cause`, and what is printed for it is decided by `Cause.message` alone.
-/
namespace TypeDrift

/-- A kind of token with the text it was written with. A line break is always written as one line
feed here, and the end of input as the empty text. -/
structure Lexeme where
  kind : Kind
  text : String
deriving DecidableEq, Repr, Inhabited

/-- A lexeme and where it stands. -/
structure Token extends Lexeme where
  span : Span
deriving DecidableEq, Repr, Inhabited

namespace Lexeme

/-- The end of a text. -/
def endOfInput : Lexeme := ⟨.endOfInput, ""⟩

/-- A text without the backticks around it, if it has one at either end. -/
def unquoted (text : String) : String :=
  match text.toList with
  | '`' :: rest => if rest.getLast? = some '`' then String.ofList rest.dropLast else text
  | _ => text

/-- The name that a lexeme writes. -/
def name (lexeme : Lexeme) : String := unquoted lexeme.text

/-- A lexeme in the words of an error message. -/
def described (lexeme : Lexeme) : String :=
  match lexeme.kind with
  | .endOfInput => "end of input"
  | .identifier => "symbol"
  | .integer | .float | .complex => "numeric constant"
  | .string _ => "string constant"
  | .newline => "newline"
  | kind => if kind.isAssignment then "assignment" else "'" ++ lexeme.text ++ "'"

/-- Line breaks and the end of input. -/
def isTrivia (lexeme : Lexeme) : Bool := lexeme.kind.isTrivia

end Lexeme

/-- Why a text is no script. -/
inductive Cause where
  | unterminatedEscape
  | unterminatedString
  | malformedRawString
  | unterminatedRawString
  | unterminatedName
  | malformedHexadecimal
  | malformedExponent
  | unterminatedOperator
  | strayCharacter (c : Char)
  /-- A token that nothing can go on with. -/
  | unexpected (found : Lexeme)
deriving DecidableEq, Repr

/-- What is printed for a cause. -/
def Cause.message : Cause → String
  | unterminatedEscape => "unterminated escape sequence in string literal"
  | unterminatedString => "unterminated string literal"
  | malformedRawString => "malformed raw string literal"
  | unterminatedRawString => "unterminated raw string literal"
  | unterminatedName => "unterminated backtick-quoted name"
  | malformedHexadecimal => "malformed hexadecimal constant"
  | malformedExponent => "malformed exponent in numeric constant"
  | unterminatedOperator => "unterminated %-operator"
  | strayCharacter c => "unexpected character '" ++ c.toString ++ "'"
  | unexpected found => "unexpected " ++ found.described

/-- A cause at a place. -/
structure Fault where
  cause : Cause
  place : Position
deriving DecidableEq, Repr

namespace Fault

/-- The bare message of a fault. -/
def message (fault : Fault) : String := fault.cause.message

/-- A fault on one line: its message and its place. -/
def text (fault : Fault) : String :=
  fault.message ++ " at line " ++ toString fault.place.line ++ ", column " ++
    toString fault.place.column

end Fault
end TypeDrift
