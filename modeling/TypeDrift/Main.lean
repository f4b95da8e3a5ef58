import TypeDrift.Command.Run

/-!
The command line. What a command line may look at is taken from the disk into a tree of files, and
all the rest is the run over that tree.
-/
namespace TypeDrift

/-- The tree with what there is at a path, but nothing that is below it. -/
def loadAt (tree : FileTree) (path : Path) : IO FileTree := do
  let disk := (← IO.currentDir) / path.text
  if ← disk.isDir then return tree.place path none
  else if ← disk.pathExists then return tree.place path (some (← IO.FS.readBinFile disk))
  else return tree

/-- The tree with what there is at a path and below it. -/
partial def loadBelow (tree : FileTree) (path : Path) : IO FileTree := do
  let disk := (← IO.currentDir) / path.text
  let mut tree ← loadAt tree path
  if ← disk.isDir then
    for entry in ← disk.readDir do
      tree ← loadBelow tree (path.join entry.fileName)
  return tree

/-- What an invocation may look at. -/
def load (invocation : Command.Invocation) : IO FileTree := do
  let here : Path := ⟨(← IO.currentDir).toString⟩
  let mut tree := (FileTree.empty here).place here none
  for path in invocation.request.paths do
    tree ← loadBelow (← path.beginnings.foldlM loadAt tree) path
  return tree

/-- What a command line leaves behind. -/
def perform (arguments : List String) : IO Command.Transcript := do
  match Command.read arguments with
  | .ok invocation => return Command.run (← load invocation) invocation
  | .error stop => return stop.transcript

end TypeDrift

/-- Runs a command line, prints what it leaves behind, and gives its exit status. -/
def main (arguments : List String) : IO UInt32 := do
  let transcript ← TypeDrift.perform arguments
  (← IO.getStdout).putStr transcript.output
  (← IO.getStderr).putStr transcript.errors
  return transcript.exit.toUInt32
