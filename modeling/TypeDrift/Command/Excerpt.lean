import TypeDrift.Check.Finding
import TypeDrift.Files.Source
import TypeDrift.Text.Layout

/-!
Excerpts: the line that a finding stands on, and a caret below its place. Tabs are shown as four
blanks, both in the line and left of the caret.
-/
namespace TypeDrift.Command.Excerpt

/-- The mark before a finding. -/
def mark : Gravity → String
  | .error => "  -"
  | .warning => "  ~"
  | .info => "  *"

/-- The width of a character. -/
def width (c : Char) : Nat := if c = '\t' then 4 else 1

/-- A line as it is shown. -/
def expanded (line : List Char) : List Char :=
  line.flatMap fun c => if c = '\t' then List.replicate 4 ' ' else [c]

/-- The caret below a column, behind as many blanks as what stands left of it is wide. -/
def caret (line : List Char) (column : Nat) : List Char :=
  (line.take (column - 1)).flatMap (fun c => List.replicate (width c) ' ') ++ ['^']

/-- A line with the caret below it. -/
def lines (line : String) (column : Nat) : String :=
  let indent := Text.blanks 6
  indent ++ String.ofList (expanded line.toList) ++ "\n" ++
    indent ++ String.ofList (caret line.toList column) ++ "\n"

/-- A finding in a file that is printed under a name, with the text of the file if it could be
read. -/
def render (shown : String) (source : Option SourceFile) (finding : Finding) : String :=
  mark finding.gravity ++ " " ++ finding.gravity.label ++ ": " ++ finding.message ++ "\n" ++
    "     --> " ++ shown ++
    if finding.isPlaced then
      ":" ++ toString finding.place.line ++ ":" ++ toString finding.place.column ++ "\n" ++
        (((source.bind fun source => source.line? finding.place.line).map fun line =>
          lines line finding.place.column).getD "")
    else "\n"

end TypeDrift.Command.Excerpt
