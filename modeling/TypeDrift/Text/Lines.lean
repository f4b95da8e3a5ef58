/-!
Lines of a text, as an editor shows them. A line ends at a line feed, and a carriage return right
before that belongs to the end; any other carriage return belongs to the line. Behind the last line
feed there is one more line only if anything stands there.
-/
namespace TypeDrift.Text

/-- The lines of a text, without their ends. -/
def lines : List Char → List (List Char)
  | [] => []
  | '\n' :: rest => [] :: lines rest
  | '\r' :: '\n' :: rest => [] :: lines rest
  | c :: rest =>
    match lines rest with
    | [] => [[c]]
    | line :: more => (c :: line) :: more

/-- The line with a number, counted from one. -/
def line? (text : String) : Nat → Option String
  | 0 => none
  | number + 1 => ((lines text.toList)[number]?).map String.ofList

example : [0, 1, 2, 3].map (line? "a\r\r\nb\r") = [none, some "a\r", some "b\r", none] := by
  decide +kernel

end TypeDrift.Text
