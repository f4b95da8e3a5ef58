import TypeDrift.Check.History
import TypeDrift.Check.Log
import TypeDrift.Check.Outcome
import TypeDrift.Script.CallSite

/-!
Checking. A script drifts where a name is bound again to a value of another type: two types that are
both known and whose base types differ. Besides, each call of a function that is made for a
certain type of argument is noted. A text that is no script is one error.
-/
namespace TypeDrift

/-- Checks texts. It keeps nothing from one text to the next. -/
structure Checker where
  registry : Registry
  /-- Reserved: it changes nothing. -/
  strict : Bool
deriving Repr

namespace Checker

/-- The checker that treats some classes as types of their own. -/
def ofTags (tags : List String) (strict : Bool) : Except RegistryError Checker :=
  (Registry.ofTags tags).map fun registry => ⟨registry, strict⟩

/-- The same, leaving out the tags that cannot be registered. -/
def ofTagsLenient (tags : List String) (strict : Bool) : Checker :=
  ⟨Registry.ofTagsLenient tags, strict⟩

end Checker

namespace Finding

/-- A name is bound to another type than before. -/
def drifted (assignment : Assignment) (previous current : BaseType) : Finding :=
  { gravity := .warning
    message :=
      "variable reassigned with different type: was " ++ previous.tag ++ ", now " ++ current.tag
    place := assignment.place
    name := some assignment.name }

/-- The finding of a step, if its name drifts there. -/
def ofStep? (step : Step) : Option Finding :=
  match step.previous with
  | none => none
  | some previous =>
    if !previous.isUnknown && !step.current.isUnknown && !previous.sameType step.current then
      some (drifted step.assignment previous.base step.current.base)
    else none

/-- The finding of a call, if the function is made for a certain type of argument. -/
def ofCall? (site : CallSite) : Option Finding :=
  ((Signature.find? site.callee).bind Signature.expects).map fun expected =>
    { gravity := .info
      message := site.callee ++ "() expects " ++ expected.tag ++ " input"
      place := site.place
      name := none }

end Finding

namespace Checker

/-- The history of a script's assignments. -/
def history (checker : Checker) (script : Script) : List Step :=
  Bindings.empty.history checker.registry script.assignments

/-- The outcome of checking a script. -/
def checkScript (checker : Checker) (script : Script) : Outcome :=
  let history := checker.history script
  { errors := []
    warnings := history.filterMap Finding.ofStep?
    infos := script.callSites.filterMap Finding.ofCall?
    bindings := Bindings.empty.after history }

/-- The outcome of checking a text. -/
def check (checker : Checker) (source : String) : Outcome :=
  match Script.read source with
  | .ok script => checker.checkScript script
  | .error fault => .failed fault.text

/-- What is known of a name after a text has been checked. -/
def reveal (checker : Checker) (source name : String) : Option Descriptor :=
  (checker.check source).bindings.lookup? name

/-- What is logged of an assignment that binds no name. -/
def skippedEntry (place : Position) : Log.Entry :=
  ⟨.debug, .extraction,
    "skipping assignment at " ++ toString place.line ++ ":" ++ toString place.column ++
      " with a non-symbol target"⟩

/-- What is logged of a step. -/
def stepEntry (step : Step) : Log.Entry :=
  ⟨.trace, .bindings,
    toString step.assignment.place.line ++ ":" ++ toString step.assignment.place.column ++ " " ++
      step.assignment.name ++ " " ++ step.assignment.operator.symbol ++ " " ++
      step.current.describe⟩

/-- What is logged while a text is checked. -/
def log (checker : Checker) (source : String) : List Log.Entry :=
  match Script.read source with
  | .error fault => [⟨.debug, .checker, "parse failed: " ++ fault.text⟩]
  | .ok script =>
    let history := checker.history script
    script.skippedAssignments.map skippedEntry ++
      [⟨.debug, .checker,
        toString script.tokens.size ++ " tokens, " ++ toString history.length ++
          " assignments"⟩] ++
      history.map stepEntry

end Checker
end TypeDrift
