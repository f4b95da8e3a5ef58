import TypeDrift.Data.Basic
import TypeDrift.Text.Hex
import TypeDrift.Text.Layout

/-!
JSON. Data are written with one item or field on a line and two blanks for each level; what is empty
is written on one line.
-/
namespace TypeDrift.Data

namespace Json

/-- A character as it stands between quotes. Quotes and backslashes are escaped, and control
characters, some of which have short forms; all others stand for themselves. -/
def escaped (c : Char) : List Char :=
  match c with
  | '"' => ['\\', '"']
  | '\\' => ['\\', '\\']
  | '\n' => ['\\', 'n']
  | '\r' => ['\\', 'r']
  | '\t' => ['\\', 't']
  | '\x08' => ['\\', 'b']
  | '\x0c' => ['\\', 'f']
  | c =>
    if c.toNat < 0x20 then '\\' :: 'u' :: Text.hexDigits 'a' 4 c.toNat else [c]

/-- A text between quotes. -/
def quoted (text : String) : String :=
  String.ofList ('"' :: (text.toList.flatMap escaped ++ ['"']))

/-- Parts between brackets, each on a line of its own. -/
def enclosed (opening closing : String) (depth : Nat) (parts : List String) : String :=
  if parts.isEmpty then opening ++ closing
  else
    let indent := Text.blanks (2 * (depth + 1))
    opening ++ "\n" ++ String.intercalate ",\n" (parts.map fun part => indent ++ part) ++ "\n" ++
      Text.blanks (2 * depth) ++ closing

mutual

/-- Data at a depth. -/
def write (depth : Nat) : Data → String
  | .null => "null"
  | .bool value => if value then "true" else "false"
  | .int value => toString value
  | .text value => quoted value
  | .list items => enclosed "[" "]" depth (writeItems (depth + 1) items)
  | .record fields => enclosed "\x7b" "\x7d" depth (writeFields (depth + 1) fields)

/-- The items of a list. -/
def writeItems (depth : Nat) : List Data → List String
  | [] => []
  | item :: items => write depth item :: writeItems depth items

/-- The fields of a record. -/
def writeFields (depth : Nat) : List (String × Data) → List String
  | [] => []
  | (key, value) :: fields =>
    (quoted key ++ ": " ++ write depth value) :: writeFields depth fields

end

end Json

/-- Data as a JSON document. -/
def json (data : Data) : String := Json.write 0 data

example : (list [int (-1), text "a\"\x01", record []]).json =
    "[\n  -1,\n  \"a\\\"\\u0001\",\n  \x7b\x7d\n]" := by
  decide +kernel

end TypeDrift.Data
