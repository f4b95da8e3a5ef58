import TypeDrift.Files.Path

/-!
Trees of files. A tree is what a run can see of a disk: directories with named entries, files with
their bytes, and a working directory from which paths are followed that do not begin at the root.

A path is followed segment by segment. Every segment but the first one needs a directory to be taken
in, an empty segment too: a path with a slash at its end leads to a directory or nowhere.
-/
namespace TypeDrift

/-- A file or a directory. -/
inductive Node where
  | file (content : ByteArray)
  | directory (entries : List (String × Node))

/-- Why a file cannot be read. -/
inductive ReadError where
  | notFound
  | notDirectory
  | isDirectory
  | notText
deriving DecidableEq, Repr

/-- What is printed for a file that cannot be read. -/
def ReadError.message : ReadError → String
  | notFound => "No such file or directory (os error 2)"
  | notDirectory => "Not a directory (os error 20)"
  | isDirectory => "Is a directory (os error 21)"
  | notText => "stream did not contain valid UTF-8"

namespace Node

/-- A directory without entries. -/
def empty : Node := directory []

/-- The entries of a directory. A file has none. -/
def entries : Node → List (String × Node)
  | file _ => []
  | directory entries => entries

/-- Entries with one put in: in the place of one with its name, or behind all others. -/
def putEntry (name : String) (node : Node) : List (String × Node) → List (String × Node)
  | [] => [(name, node)]
  | entry :: entries =>
    if entry.1 = name then (name, node) :: entries else entry :: putEntry name node entries

/-- A node with a file, or with a directory if no content is given, below the directories with these
names. Directories on the way are made where they are missing; a directory that is there keeps its
entries. -/
def place (content : Option ByteArray) : List String → Node → Node
  | [], node => content.elim (directory node.entries) file
  | name :: names, node =>
    let below := (node.entries.lookup name).getD empty
    directory (putEntry name (place content names below) node.entries)

mutual

/-- The paths of the files below a node which has a path itself. -/
def files (path : Path) : Node → List Path
  | file _ => [path]
  | directory entries => entryFiles path entries

/-- The paths of the files below some entries of a directory. -/
def entryFiles (path : Path) : List (String × Node) → List Path
  | [] => []
  | (name, node) :: entries => files (path.join name) node ++ entryFiles path entries

end

end Node

/-- A node together with the directories around it, the innermost one first. -/
structure Location where
  node : Node
  above : List Node

/-- Where one more segment leads. There is nothing above the root but the root. -/
def Location.enter (place : Location) (segment : String) : Except ReadError Location :=
  match place.node with
  | .file _ => .error .notDirectory
  | .directory entries =>
    if segment = "" ∨ segment = "." then .ok place
    else if segment = ".." then
      match place.above with
      | [] => .ok place
      | outer :: above => .ok ⟨outer, above⟩
    else
      match entries.lookup segment with
      | some node => .ok ⟨node, place.node :: place.above⟩
      | none => .error .notFound

/-- What a run can see of a disk. -/
structure FileTree where
  root : Node
  workingDirectory : Path

namespace FileTree

/-- A tree with nothing in it. -/
def empty (workingDirectory : Path) : FileTree := ⟨.empty, workingDirectory⟩

/-- The tree with a file, or with a directory if no content is given, at a path. -/
def place (tree : FileTree) (path : Path) (content : Option ByteArray) : FileTree :=
  { tree with root := tree.root.place content (Path.namesFrom tree.workingDirectory path) }

/-- Where a path leads. -/
def follow (tree : FileTree) (path : Path) : Except ReadError Location :=
  if path.text.isEmpty then .error .notFound
  else
    let before := if path.isAbsolute then [] else tree.workingDirectory.segments
    (before ++ path.segments).foldlM Location.enter ⟨tree.root, []⟩

/-- Whether a path leads to a file. -/
def isFile (tree : FileTree) (path : Path) : Bool :=
  match tree.follow path with
  | .ok ⟨.file _, _⟩ => true
  | _ => false

/-- The bytes of the file at a path. -/
def readBytes (tree : FileTree) (path : Path) : Except ReadError ByteArray :=
  match tree.follow path with
  | .ok ⟨.file content, _⟩ => .ok content
  | .ok ⟨.directory _, _⟩ => .error .isDirectory
  | .error error => .error error

/-- The paths of the files at and below a path. -/
def filesBelow (tree : FileTree) (path : Path) : Except ReadError (List Path) :=
  (tree.follow path).map fun place => place.node.files path

/-- A path as it is printed. -/
def shown (tree : FileTree) (path : Path) : String := Path.shown tree.workingDirectory path

end FileTree
end TypeDrift
