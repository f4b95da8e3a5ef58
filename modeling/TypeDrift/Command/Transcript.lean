/-!
Transcripts: what a run leaves behind on its two outputs, and its exit status. A run that fails says
why in the end: what it could not do, and what that was caused by, the nearest cause first.
-/
namespace TypeDrift.Command

/-- Why a run fails. -/
structure Failure where
  message : String
  causes : List String
deriving DecidableEq, Repr

namespace Failure

/-- A text with its lines but the first one set in. -/
def continued (indent text : String) : String :=
  String.join (text.toList.map fun c => if c = '\n' then "\n" ++ indent else c.toString)

/-- The causes of a failure, one below the other. Several causes are numbered. -/
def causeLines : List String → List String
  | [cause] => ["    " ++ continued "    " cause]
  | causes =>
    causes.zipIdx.map fun (cause, index) =>
      "    " ++ toString index ++ ": " ++ continued "       " cause

/-- A failure as it is printed. -/
def text (failure : Failure) : String :=
  "Error: " ++ failure.message ++ "\n" ++
    if failure.causes.isEmpty then ""
    else
      "\nCaused by:\n" ++ String.join ((causeLines failure.causes).map fun line => line ++ "\n")

end Failure

/-- What a run leaves behind. -/
structure Transcript where
  exit : Nat
  output : String
  errors : String
deriving DecidableEq, Repr

namespace Transcript

/-- A run that ends with some output and, if there is a failure, with that. -/
def ending (output errors : String) : Option Failure → Transcript
  | none => ⟨0, output, errors⟩
  | some failure => ⟨1, output, errors ++ failure.text⟩

/-- A run that fails without any output. -/
def failing (failure : Failure) : Transcript := ending "" "" (some failure)

end Transcript
end TypeDrift.Command
