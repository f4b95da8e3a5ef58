/-!
Places in a text. Lines and columns count from one. A line ends at a line feed, at a carriage
return, or at a carriage return followed by a line feed, which is one break and not two; a column is
one code point wide, a tab included.

Both rules are stated once. `Text.steps` cuts a text into the steps by which a reader moves over it,
and `Position.step` moves a place over one step. `Position.after` and `Position.last` are folds of
the one over the other.
-/
namespace TypeDrift

/-- A line feed or a carriage return. -/
def Text.isBreak (c : Char) : Bool := c == '\n' || c == '\r'

/-- The steps of a text: its characters, a carriage return and the line feed after it taken as one
step and seen as the carriage return. -/
def Text.steps : List Char → List Char
  | '\r' :: '\n' :: rest => '\r' :: steps rest
  | c :: rest => c :: steps rest
  | [] => []

/-- A line and a column, both counted from one. -/
structure Position where
  line : Nat
  column : Nat
deriving DecidableEq, Repr, Inhabited

namespace Position

/-- Where every text begins. -/
def start : Position := ⟨1, 1⟩

/-- The place behind one step. -/
def step (place : Position) (c : Char) : Position :=
  if Text.isBreak c then ⟨place.line + 1, 1⟩ else ⟨place.line, place.column + 1⟩

/-- The place just behind a text that begins here. -/
def after (place : Position) (text : List Char) : Position :=
  (Text.steps text).foldl step place

/-- The place of the last step of a text that begins here. -/
def last (place : Position) (text : List Char) : Position :=
  (Text.steps text).dropLast.foldl step place

/-- Reading order: by line, then by column. -/
def le (p q : Position) : Bool :=
  p.line < q.line || (p.line == q.line && p.column ≤ q.column)

end Position

/-- The first and the last place of a piece of text. -/
structure Span where
  start : Position
  stop : Position
deriving DecidableEq, Repr, Inhabited

end TypeDrift
