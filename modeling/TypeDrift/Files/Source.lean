import TypeDrift.Files.Tree
import TypeDrift.Text.Lines

/-!
Source files. A file that is read as text has to be UTF-8 throughout. A byte-order mark at its
beginning is dropped, so that the first token stands in the first column.
-/
namespace TypeDrift

/-- A text that has been read from a file. -/
structure SourceFile where
  path : Path
  contents : String
deriving Repr

namespace SourceFile

/-- A text without the byte-order mark at its beginning. -/
def dropMark (text : String) : String :=
  match text.toList with
  | '\ufeff' :: rest => String.ofList rest
  | _ => text

/-- The text that the bytes of a file are. -/
def decode (bytes : ByteArray) : Except ReadError String :=
  match String.fromUTF8? bytes with
  | some text => .ok (dropMark text)
  | none => .error .notText

/-- The text of the file at a path. -/
def read (tree : FileTree) (path : Path) : Except ReadError SourceFile :=
  (tree.readBytes path).bind fun bytes => (decode bytes).map fun contents => ⟨path, contents⟩

/-- The line with a number, counted from one. -/
def line? (source : SourceFile) (number : Nat) : Option String :=
  Text.line? source.contents number

/-- What is printed of a file that cannot be read, before the reason. -/
def readFailure (path : Path) : String := "failed to read R script " ++ path.text

/-- The same with the reason. -/
def unreadable (path : Path) (error : ReadError) : String :=
  readFailure path ++ ": " ++ error.message

end SourceFile
end TypeDrift
