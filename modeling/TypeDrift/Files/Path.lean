/-!
Paths. A path is kept as it is spelled, and understood by its components. Slashes separate them,
several slashes in a row are as good as one, and a dot is a component only where the path begins
with it. Two spellings with the same components name the same path, but are printed differently.
-/
namespace TypeDrift

/-- A path as it is spelled. -/
structure Path where
  text : String
deriving DecidableEq, Repr

namespace Path

/-- What stands between slashes, from the front. It may be empty. -/
def split : List Char → List (List Char)
  | [] => [[]]
  | c :: rest =>
    if c == '/' then [] :: split rest
    else
      match split rest with
      | [] => [[c]]
      | segment :: segments => (c :: segment) :: segments

/-- What stands between the slashes of a path. -/
def segments (path : Path) : List String := (split path.text.toList).map String.ofList

/-- A path from the root on. -/
def isAbsolute (path : Path) : Bool := path.text.toList.head? == some '/'

/-- A part of a path. -/
inductive Component where
  | root
  | current
  | parent
  | name (text : String)
deriving DecidableEq, Repr

namespace Component

/-- The rank of a component among components of all kinds. -/
def rank : Component → Nat
  | root => 0
  | current => 1
  | parent => 2
  | name _ => 3

/-- How a component is spelled, but for the root, which is spelled by the slash behind it. -/
def text : Component → String
  | root => ""
  | current => "."
  | parent => ".."
  | name text => text

/-- The order of components: by kind, then by spelling. -/
def compare : Component → Component → Ordering :=
  compareLex (compareOn rank) (compareOn text)

/-- The component that a segment behind the first one is, if it is any. -/
def ofSegment? (segment : String) : Option Component :=
  if segment = "" ∨ segment = "." then none
  else if segment = ".." then some parent
  else some (name segment)

end Component

/-- The components of a path. -/
def components (path : Path) : List Component :=
  let rest := path.segments.filterMap Component.ofSegment?
  if path.isAbsolute then .root :: rest
  else if path.segments.head? = some "." then .current :: rest
  else rest

/-- The order of paths: component by component. -/
def compare (a b : Path) : Ordering :=
  List.compareLex Component.compare a.components b.components

/-- Sorted paths with one more. If a path with the same components is there, it stays. -/
def insert (path : Path) : List Path → List Path
  | [] => [path]
  | other :: others =>
    match path.compare other with
    | .lt => path :: other :: others
    | .eq => other :: others
    | .gt => other :: insert path others

/-- Components put together again. -/
def ofComponents : List Component → Path
  | .root :: rest => ⟨"/" ++ String.intercalate "/" (rest.map Component.text)⟩
  | components => ⟨String.intercalate "/" (components.map Component.text)⟩

/-- The path of an entry of a directory. -/
def join (path : Path) (name : String) : Path :=
  if path.text.toList.getLast? == some '/' then ⟨path.text ++ name⟩
  else ⟨path.text ++ "/" ++ name⟩

/-- What follows the last dot of a name, if anything comes before that dot. -/
def suffix? (name : String) : Option String :=
  match name.toList.reverse.span (· != '.') with
  | (tail, _ :: _ :: _) => some (String.ofList tail.reverse)
  | _ => none

/-- What follows the last dot of the last component of a path. -/
def extension? (path : Path) : Option String :=
  match path.components.getLast? with
  | some (.name name) => suffix? name
  | _ => none

/-- Two lists without what they have in common at their beginnings. -/
def withoutCommon {α : Type} [DecidableEq α] : List α → List α → List α × List α
  | a :: as, b :: bs => if a = b then withoutCommon as bs else (a :: as, b :: bs)
  | as, bs => (as, bs)

/-- The components that lead from one list of components to another: up from what the first one has
of its own, and down what the second one has of its own. -/
def between (source target : List Component) : List Component :=
  let (left, right) := withoutCommon source target
  left.map (fun _ => .parent) ++ right

/-- A path as it is printed. One from the root on is printed as seen from the working directory,
unless it is that directory itself; any other path is printed as it is spelled. -/
def shown (workingDirectory path : Path) : String :=
  if path.isAbsolute then
    match between workingDirectory.components path.components with
    | [] => path.text
    | components => (ofComponents components).text
  else path.text

/-- Names with one more component. A parent takes back the name before it. -/
def descend (names : List String) : Component → List String
  | .name name => names ++ [name]
  | .parent => names.dropLast
  | _ => names

/-- The names that lead from the root to a path. -/
def namesFrom (workingDirectory path : Path) : List String :=
  let before := if path.isAbsolute then [] else workingDirectory.components
  (before ++ path.components).foldl descend []

/-- The paths that are passed on the way to a path, and the path itself. -/
def beginnings (path : Path) : List Path :=
  (List.range path.components.length).map fun count =>
    ofComponents (path.components.take (count + 1))

example : (Path.mk "./a//b/./c.d/").components =
    [.current, .name "a", .name "b", .name "c.d"] := by
  decide +kernel

example : (Path.mk "/x/.R").extension? = none ∧ (Path.mk "x/.a.R").extension? = some "R" := by
  decide +kernel

example : namesFrom ⟨"/a/b"⟩ ⟨"./../c/d"⟩ = ["a", "c", "d"] := by decide +kernel

example : shown ⟨"/a/b"⟩ ⟨"/a/c/../d"⟩ = "../c/../d" ∧ shown ⟨"/a/b"⟩ ⟨"/a/b/"⟩ = "/a/b/" := by
  decide +kernel

end Path
end TypeDrift
