import TypeDrift.Script.Basic

/-!
Call sites: the calls in a script whose function is named, by a bare name or by a name of a package.
-/
namespace TypeDrift

/-- A call of a named function, at the place of its name. -/
structure CallSite where
  callee : String
  place : Position
  /-- How many arguments are given, empty ones among them. -/
  arguments : Nat
deriving DecidableEq, Repr

namespace Script

/-- The call site that an expression is, if it calls a named function. -/
def callSite? (script : Script) (e : Expr) : Option CallSite :=
  match e.form with
  | .call callee arguments =>
    match callee.form with
    | .identifier name | .namespaced _ name _ =>
      some ⟨name, (script.span callee).start, arguments.length⟩
    | _ => none
  | _ => none

/-- The call sites of a script, in the order of their places. -/
def callSites (script : Script) : List CallSite :=
  (script.nodes.filterMap script.callSite?).mergeSort fun a b => a.place.le b.place

end Script
end TypeDrift
