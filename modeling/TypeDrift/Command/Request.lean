import TypeDrift.Check.Log
import TypeDrift.Files.Path

/-!
Requests: what a run can be asked to do.
-/
namespace TypeDrift.Command

/-- The forms in which the outcomes of checks are given. -/
inductive Format where
  | text
  | annotated
  | json
  | yaml
deriving DecidableEq, Repr

namespace Format

/-- All forms. -/
def all : List Format := [text, annotated, json, yaml]

/-- The word for a form. -/
def word : Format → String
  | text => "text"
  | annotated => "annotated"
  | json => "json"
  | yaml => "yaml"

/-- The form that a word stands for. -/
def ofWord? (word : String) : Option Format := all.find? fun format => format.word == word

end Format

/-- Files to be checked. -/
structure CheckRequest where
  /-- Files, and directories of files. -/
  paths : List Path
  format : Format
  strict : Bool
  /-- Whether warnings make the run fail. -/
  denyWarnings : Bool
  /-- Whether the parse table of each file is printed. -/
  dumpTokens : Bool
  customTypes : List String
deriving Repr

/-- An expression to be typed. -/
structure InferRequest where
  expression : String
  /-- Whether the descriptor is printed in full. -/
  json : Bool
  customTypes : List String
deriving Repr

/-- A name to be looked up in what a file binds. -/
structure RevealRequest where
  path : Path
  name : String
  customTypes : List String
deriving Repr

/-- What a run is asked to do. -/
inductive Request where
  | check (request : CheckRequest)
  | infer (request : InferRequest)
  | reveal (request : RevealRequest)
  | builtins
deriving Repr

/-- The paths that a request names. -/
def Request.paths : Request → List Path
  | check request => request.paths
  | reveal request => [request.path]
  | _ => []

/-- A request, and how much is logged. -/
structure Invocation where
  level : Log.Level
  request : Request
deriving Repr

end TypeDrift.Command
