import TypeDrift.Typing.Inference

/-!
Histories. Assignments are followed in order, and the value of each is typed with what the ones before
it have bound. A history is the list of these steps: each holds the assignment, what was known of
its name until then, and what is known of it from then on. The final bindings are read off the
history.
-/
namespace TypeDrift

/-- An assignment that has been followed. -/
structure Step where
  assignment : Assignment
  /-- What was known of the name before, if it was bound. -/
  previous : Option Descriptor
  current : Descriptor

namespace Bindings

/-- The history of some assignments, from given bindings on. -/
def history (registry : Registry) : Bindings → List Assignment → List Step
  | _, [] => []
  | bindings, assignment :: assignments =>
    let current := assignment.value.infer registry bindings
    ⟨assignment, bindings.lookup? assignment.name, current⟩ ::
      history registry (bindings.bind assignment.name current) assignments

/-- The bindings after a history. -/
def after (bindings : Bindings) (history : List Step) : Bindings :=
  history.foldl (fun bindings step => bindings.bind step.assignment.name step.current) bindings

/-- What some assignments bind, from nothing on. -/
def ofAssignments (registry : Registry) (assignments : List Assignment) : Bindings :=
  empty.after (empty.history registry assignments)

theorem after_append (bindings : Bindings) (first second : List Step) :
    bindings.after (first ++ second) = (bindings.after first).after second :=
  List.foldl_append

/-- A history can be cut anywhere: what follows goes on from the bindings reached there. -/
theorem history_append (registry : Registry) (bindings : Bindings)
    (first second : List Assignment) :
    bindings.history registry (first ++ second) =
      bindings.history registry first ++
        (bindings.after (bindings.history registry first)).history registry second := by
  induction first generalizing bindings with
  | nil => rfl
  | cons assignment assignments ih => simp [history, after, ih]

end Bindings
end TypeDrift
