import TypeDrift.Check.Checker
import TypeDrift.Files.Source

/-!
Checking files. A file that cannot be read is one error, like a text that is no script.
-/
namespace TypeDrift.Checker

/-- The outcome of checking the file at a path. -/
def checkFile (checker : Checker) (tree : FileTree) (path : Path) : Outcome :=
  match SourceFile.read tree path with
  | .ok source => checker.check source.contents
  | .error error => .failed (SourceFile.unreadable path error)

/-- What is logged while the file at a path is checked. -/
def fileLog (checker : Checker) (tree : FileTree) (path : Path) : List Log.Entry :=
  match SourceFile.read tree path with
  | .ok source => checker.log source.contents
  | .error error => [⟨.debug, .checker, SourceFile.unreadable path error⟩]

end TypeDrift.Checker
