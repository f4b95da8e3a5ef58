import TypeDrift.Script.Basic

/-!
Assignments. An assignment of a script binds a bare name to a value, wherever in the script it
stands. `Script.assignments` lists them by the places of their operators; an assignment to anything
but a bare name (`x[1] <- 2`, `names(x) <- y`) is no binding of a name and is left out.
-/
namespace TypeDrift

/-- The binding of a name to a value, at the place of its operator. -/
structure Assignment where
  name : String
  place : Position
  operator : AssignOperator
  /-- The value on one line, for display. -/
  text : String
  value : Expr
deriving Repr

namespace AssignOperator

/-- The side of an operator that is bound. -/
def target {α : Type} (operator : AssignOperator) (left right : α) : α :=
  if operator.isRightward then right else left

/-- The side of an operator that it is bound to. -/
def value {α : Type} (operator : AssignOperator) (left right : α) : α :=
  if operator.isRightward then left else right

end AssignOperator

namespace Expr

/-- The name that an expression consists of. -/
def identifier? (e : Expr) : Option String :=
  match e.form with
  | .identifier name => some name
  | _ => none

end Expr

namespace Script

/-- The assignment that an expression is, if it is one of a bare name. -/
def assignment? (script : Script) (e : Expr) : Option Assignment :=
  match e.form with
  | .assign operator index left right =>
    (operator.target left right).identifier?.map fun name =>
      let value := operator.value left right
      { name := name
        place := (spanAt script.tokens index).start
        operator := operator
        text := script.text value
        value := value }
  | _ => none

/-- The assignments of a script, in the order of their places. -/
def assignments (script : Script) : List Assignment :=
  (script.nodes.filterMap script.assignment?).mergeSort fun a b => a.place.le b.place

/-- The place of the operator of an assignment to anything but a bare name. -/
def skippedAssignment? (script : Script) (e : Expr) : Option Position :=
  match e.form with
  | .assign operator index left right =>
    match (operator.target left right).identifier? with
    | some _ => none
    | none => some (spanAt script.tokens index).start
  | _ => none

/-- The places of the assignments that bind no name, each before those in its parts. -/
def skippedAssignments (script : Script) : List Position :=
  script.nodes.filterMap script.skippedAssignment?

end Script
end TypeDrift
