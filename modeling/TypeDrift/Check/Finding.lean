import TypeDrift.Data.Basic
import TypeDrift.Text.Position

/-!
Findings: what a check has to say, how grave it is, and where. A finding without a usable place
stands at line and column zero.
-/
namespace TypeDrift

/-- How grave a finding is. -/
inductive Gravity where
  | error
  | warning
  | info
deriving DecidableEq, Repr

/-- How a gravity is written. -/
def Gravity.label : Gravity → String
  | error => "error"
  | warning => "warning"
  | info => "info"

/-- Something that a check has found. -/
structure Finding where
  gravity : Gravity
  message : String
  place : Position
  /-- The name that the finding is about. -/
  name : Option String
deriving DecidableEq, Repr

namespace Finding

/-- No usable place. -/
def nowhere : Position := ⟨0, 0⟩

/-- An error without a place. -/
def error (message : String) : Finding := ⟨.error, message, nowhere, none⟩

/-- Whether a finding has a usable place. -/
def isPlaced (finding : Finding) : Bool := 0 < finding.place.line

/-- A finding on one line. -/
def text (finding : Finding) : String :=
  toString finding.place.line ++ ":" ++ toString finding.place.column ++ " - " ++ finding.message

/-- A finding as a record. -/
def toData (finding : Finding) : Data :=
  .record
    ([("level", .text finding.gravity.label), ("message", .text finding.message),
      ("line", .int finding.place.line), ("col", .int finding.place.column)] ++
      finding.name.toList.map fun name => ("variable", .text name))

end Finding
end TypeDrift
