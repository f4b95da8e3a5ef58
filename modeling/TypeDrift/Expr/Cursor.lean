import TypeDrift.Expr.Basic
import TypeDrift.Token.Lexeme

/-!
Cursors. A cursor is a place in a row of lexemes: what is still to come, the index of the next lexeme
and of the one taken last, and the brackets that are open. Whether a line break ends an expression
is decided by the innermost of these alone: inside round and square brackets it does not, and
`Cursor.settle` passes over it there.
-/
namespace TypeDrift

/-- An open bracket: one inside which line breaks mean nothing (the parentheses and square brackets
of every kind), or a brace, inside which they separate expressions. -/
inductive Bracket where
  | round
  | brace
deriving DecidableEq, Repr

/-- A place in a row of lexemes. -/
structure Cursor where
  /-- The index of the next lexeme. -/
  index : Nat
  /-- The lexemes from the next one on. -/
  rest : List Lexeme
  /-- The index of the lexeme taken last. -/
  last : Nat
  /-- The open brackets, the innermost one first. -/
  brackets : List Bracket
deriving Repr

/-- A lexeme that nothing can go on with, and its index. -/
structure Refusal where
  index : Nat
  found : Lexeme
deriving DecidableEq, Repr

namespace Cursor

/-- The place before the first lexeme. -/
def ofLexemes (lexemes : List Lexeme) : Cursor := ⟨0, lexemes, 0, []⟩

/-- The next lexeme. -/
def head (c : Cursor) : Lexeme := c.rest.headD .endOfInput

/-- The place behind the lexemes at the front for which `p` holds. None of them counts as taken. -/
def skipWhile (c : Cursor) (p : Lexeme → Bool) : Cursor :=
  { c with
    index := c.index + (c.rest.takeWhile p).length
    rest := c.rest.dropWhile p }

/-- The place behind the line breaks at the front. -/
def skipNewlines (c : Cursor) : Cursor := c.skipWhile fun lexeme => lexeme.kind == .newline

/-- The place behind the line breaks and semicolons at the front. -/
def skipSeparators (c : Cursor) : Cursor :=
  c.skipWhile fun lexeme => lexeme.kind == .newline || lexeme.kind == .semicolon

/-- A line break here ends an expression. -/
def endsAtNewline (c : Cursor) : Bool := c.brackets.head? != some .round

/-- The place behind the line breaks at the front, where these mean nothing. -/
def settle (c : Cursor) : Cursor := if c.endsAtNewline then c else c.skipNewlines

/-- The place behind the next lexeme, which is taken. The end of input is never passed. -/
def advance (c : Cursor) : Cursor :=
  match c.rest with
  | [] => c
  | lexeme :: rest =>
    if lexeme.kind = .endOfInput then c
    else { c with index := c.index + 1, rest := rest, last := c.index }

/-- The same place inside one more bracket. -/
def enter (c : Cursor) (bracket : Bracket) : Cursor :=
  { c with brackets := bracket :: c.brackets }

/-- The same place outside the innermost bracket. -/
def leave (c : Cursor) : Cursor := { c with brackets := c.brackets.tail }

/-- The next lexeme, refused. -/
def refusal (c : Cursor) : Refusal := ⟨c.index, c.head⟩

/-- The place behind a lexeme of the kind that has to come next. -/
def expect (c : Cursor) (kind : Kind) : Except Refusal Cursor :=
  let c := c.settle
  if c.head.kind = kind then .ok c.advance else .error c.refusal

/-- The expression of a form that was read from the lexeme with the index `start` to the one taken
last. -/
def close (c : Cursor) (start : Nat) (form : Form Expr) : Expr := .node ⟨start, c.last + 1⟩ form

/-- The kind of the first lexeme behind the next one that is no line break. -/
def secondKind? (c : Cursor) : Option Kind :=
  (c.rest.tail.find? fun lexeme => lexeme.kind != .newline).map Lexeme.kind

end Cursor
end TypeDrift
