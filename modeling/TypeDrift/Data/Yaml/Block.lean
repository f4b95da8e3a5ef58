import TypeDrift.Data.Basic
import TypeDrift.Data.Yaml.Scalar

/-!
YAML in block form. An item of a list stands behind a dash, and a field behind its key and a colon.
What does not fit on that line follows on the next ones, set in by two blanks; only the items of a
list are not set in below a key. What is empty is written in brackets.

A document is built from lines. `hang` puts lines behind a mark: the mark stands before the first
one, and the others are set in.
-/
namespace TypeDrift.Data

namespace Yaml

/-- A line set in by two blanks. Empty lines stay empty. -/
def setIn (line : String) : String :=
  if (line.toList.head?.map isBreak).getD true then line else "  " ++ line

/-- Lines behind a mark. -/
def hang (mark : String) : List String → List String
  | [] => []
  | first :: rest => (mark ++ first) :: rest.map setIn

/-- The keys that can stand before a colon: they are short and on one line. -/
def isSimpleKey (key : String) : Bool := key.utf8ByteSize ≤ 128 && !key.toList.any isBreak

/-- The lines of a field, from those of its value. Other than before a colon, a key stands behind a
question mark, and its value behind a colon on a line of its own. -/
def fieldLines (key : String) (value : Data) (lines : List String) : List String :=
  if isSimpleKey key then
    let mark := String.ofList ((textLines key).flatMap fun line => line.toList.dropLast) ++ ":"
    match value with
    | .list (_ :: _) => (mark ++ "\n") :: lines
    | .record (_ :: _) => (mark ++ "\n") :: lines.map setIn
    | _ => hang (mark ++ " ") lines
  else hang "? " (textLines key) ++ hang ": " lines

mutual

/-- The lines of data. -/
def lines : Data → List String
  | .null => ["null\n"]
  | .bool value => [if value then "true\n" else "false\n"]
  | .int value => [toString value ++ "\n"]
  | .text value => textLines value
  | .list items => if items.isEmpty then ["[]\n"] else itemLines items
  | .record fields => if fields.isEmpty then ["\x7b\x7d\n"] else recordLines fields

/-- The lines of the items of a list. -/
def itemLines : List Data → List String
  | [] => []
  | item :: items => hang "- " (lines item) ++ itemLines items

/-- The lines of the fields of a record. -/
def recordLines : List (String × Data) → List String
  | [] => []
  | (key, value) :: fields => fieldLines key value (lines value) ++ recordLines fields

end

end Yaml

/-- Data as a YAML document. -/
def yaml (data : Data) : String := String.join (Yaml.lines data)

example : (record [("a", list [text "x: y", record [("1", bool true), ("b\n", null)]])]).yaml =
    "a:\n- 'x: y'\n- '1': true\n  ? |\n    b\n  : null\n" := by
  decide +kernel

example : (list [text "a\n\n b\n\n", text "-", text "--", text "a\tb", text "007"]).yaml =
    "- |+\n  a\n\n   b\n\n- '-'\n- --\n- \"a\\tb\"\n- '007'\n" := by
  decide +kernel

end TypeDrift.Data
