import TypeDrift.Check.Finding
import TypeDrift.Typing.Bindings

/-!
Outcomes: the findings of a check, by gravity, and the bindings it ended with; and the report of an
outcome on paper.
-/
namespace TypeDrift

/-- What a check has found, and what the checked names stand for in the end. -/
structure Outcome where
  errors : List Finding
  warnings : List Finding
  infos : List Finding
  bindings : Bindings
deriving Repr

namespace Outcome

/-- A check that could not be made. -/
def failed (message : String) : Outcome := ⟨[.error message], [], [], .empty⟩

def hasErrors (outcome : Outcome) : Bool := !outcome.errors.isEmpty

def hasWarnings (outcome : Outcome) : Bool := !outcome.warnings.isEmpty

/-- All findings, the graver ones first. -/
def findings (outcome : Outcome) : List Finding :=
  outcome.errors ++ outcome.warnings ++ outcome.infos

/-- So many infos are reported; more of them are left out altogether. -/
def mostInfos : Nat := 5

/-- A title, and a line for each finding. -/
def titled (title : String) (findings : List Finding) : String :=
  title ++ ":\n" ++ String.join (findings.map fun finding => "  " ++ finding.text ++ "\n")

/-- The report of an outcome. -/
def report (outcome : Outcome) : String :=
  "Type Check Results\n==================\n\n" ++
    (if outcome.errors.isEmpty then "No errors found\n" else titled "Errors" outcome.errors) ++
    (if outcome.warnings.isEmpty then ""
      else "\n" ++ titled "Warnings" outcome.warnings) ++
    (if 1 ≤ outcome.infos.length ∧ outcome.infos.length ≤ mostInfos then
      "\n" ++ titled "Info" outcome.infos
      else "")

/-- The fields of an outcome as a record, in their order. -/
def fields (outcome : Outcome) : List (String × Data) :=
  [("errors", .list (outcome.errors.map Finding.toData)),
    ("warnings", .list (outcome.warnings.map Finding.toData)),
    ("info", .list (outcome.infos.map Finding.toData)),
    ("final_context",
      .record (outcome.bindings.entries.map fun entry => (entry.1, entry.2.toData)))]

end Outcome
end TypeDrift
