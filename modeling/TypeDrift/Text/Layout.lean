/-!
Columns of text: a text is brought to a width by blanks at its left or at its right. A text that is
wider stays as it is. Widths count characters.
-/
namespace TypeDrift.Text

/-- Blanks. -/
def blanks (count : Nat) : String := String.ofList (List.replicate count ' ')

/-- A text at the right end of a column. -/
def alignRight (width : Nat) (text : String) : String := blanks (width - text.length) ++ text

/-- A text at the left end of a column. -/
def alignLeft (width : Nat) (text : String) : String := text ++ blanks (width - text.length)

end TypeDrift.Text
