import TypeDrift.Proofs.Check.Drift
import TypeDrift.Proofs.Script.Assignments
import TypeDrift.Proofs.Typing.Related

/-! # Assignments that commute

Two assignments are independent if they bind different names and neither value mentions the name that
the other binds.  The type of a value depends on the names in it alone (`Expr.infer_congr`), so of two
independent assignments neither notices whether the other has been followed already: each gives the
same step in either order (`Bindings.step_bind`).

What is bound after both is the same name by name, though two new names may come in another order.
From there on both histories make the same steps, for none of them asks in which order names were
bound (`Bindings.Agree.history_eq`).  So the two histories have the same steps throughout, with two
neighbours in another order, and drift at the same assignments from and to the same types
(`history_swap`).
-/
namespace TypeDrift

open BaseType

/-- Two assignments of different names, neither of which is mentioned in what the other is bound to. -/
structure Assignment.Independent (first second : Assignment) : Prop where
  names_ne : first.name ≠ second.name
  not_mentions : ¬ first.value.Mentions second.name
  not_mentioned : ¬ second.value.Mentions first.name

theorem Assignment.Independent.symm {first second : Assignment} (h : first.Independent second) :
    second.Independent first :=
  ⟨h.names_ne.symm, h.not_mentioned, h.not_mentions⟩

namespace Bindings

/-- The step of an assignment that is followed next. -/
def step (registry : Registry) (bindings : Bindings) (assignment : Assignment) : Step :=
  ⟨assignment, bindings.lookup? assignment.name, assignment.value.infer registry bindings⟩

/-- The bindings after a step. -/
def follow (registry : Registry) (bindings : Bindings) (assignment : Assignment) : Bindings :=
  bindings.bind assignment.name (assignment.value.infer registry bindings)

variable {registry : Registry} {bindings bindings' : Bindings} {first second : Assignment}

theorem history_cons (records : List Assignment) :
    bindings.history registry (first :: records) =
      bindings.step registry first :: (bindings.follow registry first).history registry records := rfl

/-- An independent assignment does not notice that another one has been followed. -/
theorem step_bind (h : first.Independent second) (descriptor : Descriptor) :
    (bindings.bind first.name descriptor).step registry second = bindings.step registry second := by
  have hlookup : (bindings.bind first.name descriptor).lookup? second.name =
      bindings.lookup? second.name :=
    lookup?_bind_of_ne h.names_ne.symm bindings descriptor
  have hinfer : second.value.infer registry (bindings.bind first.name descriptor) =
      second.value.infer registry bindings := by
    apply Expr.infer_congr
    intro name hname
    apply lookup?_bind_of_ne
    rintro rfl
    exact h.not_mentioned hname
  rw [step, hlookup, hinfer, step]

theorem follow_bind (h : first.Independent second) (descriptor : Descriptor) :
    (bindings.bind first.name descriptor).follow registry second =
      (bindings.bind first.name descriptor).bind second.name
        (second.value.infer registry bindings) :=
  congrArg (bind _ second.name) (congrArg Step.current (step_bind h descriptor))

/-- Names that are bound to the same, whatever their order. -/
theorem agree_eq_iff :
    bindings.Agree Eq bindings' ↔ ∀ name, bindings.lookup? name = bindings'.lookup? name := by
  constructor
  · intro h name
    have hlookup := h name
    generalize bindings.lookup? name = found, bindings'.lookup? name = found' at hlookup ⊢
    cases hlookup with
    | none => rfl
    | some heq => rw [heq]
  · intro h name
    rw [h name]
    cases bindings'.lookup? name with
    | none => exact .none
    | some descriptor => exact .some rfl

/-- Two names may be bound in either order. -/
theorem bind_comm_agree {name other : String} (hne : name ≠ other)
    (descriptor descriptor' : Descriptor) :
    ((bindings.bind name descriptor).bind other descriptor').Agree Eq
      ((bindings.bind other descriptor').bind name descriptor) := by
  rw [agree_eq_iff]
  intro asked
  by_cases hname : asked = name
  · subst hname
    rw [lookup?_bind_of_ne hne, lookup?_bind_self, lookup?_bind_self]
  · by_cases hother : asked = other
    · subst hother
      rw [lookup?_bind_self, lookup?_bind_of_ne hname, lookup?_bind_self]
    · rw [lookup?_bind_of_ne hother, lookup?_bind_of_ne hname, lookup?_bind_of_ne hname,
        lookup?_bind_of_ne hother]

theorem mem_names_bind {name other : String} {descriptor : Descriptor} :
    other ∈ (bindings.bind name descriptor).names ↔ other = name ∨ other ∈ bindings.names := by
  rw [names_bind]
  split
  · next hmem =>
    constructor
    · exact Or.inr
    · rintro (rfl | h)
      · exact hmem
      · exact h
  · rw [List.mem_append, List.mem_singleton, or_comm]

theorem names_bind_perm (h : bindings.names.Perm bindings'.names) (name : String)
    {descriptor descriptor' : Descriptor} :
    (bindings.bind name descriptor).names.Perm (bindings'.bind name descriptor').names := by
  rw [names_bind, names_bind]
  by_cases hmem : name ∈ bindings.names
  · rw [if_pos hmem, if_pos (h.mem_iff.mp hmem)]
    exact h
  · rw [if_neg hmem, if_neg fun hmem' => hmem (h.mem_iff.mpr hmem')]
    exact h.append_right [name]

/-- Two new names come in the order in which they are bound. -/
theorem bind_comm_names {name other : String} (hne : name ≠ other)
    (descriptor descriptor' : Descriptor) :
    ((bindings.bind name descriptor).bind other descriptor').names.Perm
      ((bindings.bind other descriptor').bind name descriptor).names := by
  rw [names_bind (bindings.bind name descriptor), names_bind (bindings.bind other descriptor')]
  simp only [mem_names_bind, hne, Ne.symm hne, false_or]
  rw [names_bind, names_bind]
  by_cases hname : name ∈ bindings.names
  · by_cases hother : other ∈ bindings.names
    · simp [hname, hother]
    · simp [hname, hother]
  · by_cases hother : other ∈ bindings.names
    · simp [hname, hother]
    · simp only [hname, hother, if_false, List.append_assoc]
      exact (List.Perm.swap other name []).append_left bindings.names

/-- The same steps follow, in whatever order the names were bound. -/
theorem Agree.history_eq (h : bindings.Agree Eq bindings') (records : List Assignment) :
    bindings.history registry records = bindings'.history registry records := by
  have hsteps := (Simulation.eq registry).history_of_agree h records
  rw [← List.forall₂_eq_eq_eq]
  refine hsteps.imp ?_
  rintro ⟨assignment, previous, current⟩ ⟨assignment', previous', current'⟩ hstep
  obtain ⟨rfl, hprevious, rfl⟩ := hstep
  cases hprevious with
  | none => rfl
  | some heq => rw [heq]

theorem after_names_perm (h : bindings.names.Perm bindings'.names) (steps : List Step) :
    (bindings.after steps).names.Perm (bindings'.after steps).names := by
  induction steps generalizing bindings bindings' with
  | nil => exact h
  | cons step steps ih => exact ih (names_bind_perm h step.assignment.name)

/-- **Independent assignments commute.**  Swapping two neighbours that are independent gives the same
steps, leaves every name bound to the same, and finds the same drifts: the same assignments drift from
and to the same types, and the same warnings are given.  Only the order in which names were bound first
may differ. -/
theorem history_swap (registry : Registry) (bindings : Bindings) (earlier later : List Assignment)
    {first second : Assignment} (h : first.Independent second) :
    let steps := bindings.history registry (earlier ++ first :: second :: later)
    let swapped := bindings.history registry (earlier ++ second :: first :: later)
    (∀ name, (bindings.after steps).lookup? name = (bindings.after swapped).lookup? name) ∧
    (bindings.after steps).names.Perm (bindings.after swapped).names ∧
    steps.Perm swapped ∧ (driftsOf steps).Perm (driftsOf swapped) ∧
    (steps.filterMap Finding.ofStep?).Perm (swapped.filterMap Finding.ofStep?) := by
  intro steps swapped
  let before := bindings.after (bindings.history registry earlier)
  let current := first.value.infer registry before
  let current' := second.value.infer registry before
  let both := (before.bind first.name current).bind second.name current'
  let both' := (before.bind second.name current').bind first.name current
  have hagree : both.Agree Eq both' := bind_comm_agree h.names_ne current current'
  have hlater : both.history registry later = both'.history registry later :=
    hagree.history_eq later
  have hsteps : steps = bindings.history registry earlier ++
      before.step registry first :: before.step registry second :: both.history registry later := by
    show bindings.history registry (earlier ++ first :: second :: later) = _
    rw [history_append, history_cons, history_cons, follow, step_bind h, follow_bind h]
  have hswapped : swapped = bindings.history registry earlier ++
      before.step registry second :: before.step registry first :: both'.history registry later := by
    show bindings.history registry (earlier ++ second :: first :: later) = _
    rw [history_append, history_cons, history_cons, follow, step_bind h.symm, follow_bind h.symm]
  have hafter : bindings.after steps = both.after (both.history registry later) := by
    rw [hsteps, after_append]
    rfl
  have hafter' : bindings.after swapped = both'.after (both.history registry later) := by
    rw [hswapped, after_append, ← hlater]
    rfl
  have hperm : steps.Perm swapped := by
    rw [hsteps, hswapped, ← hlater]
    exact (List.Perm.swap _ _ _).append_left _
  refine ⟨?_, ?_, hperm, hperm.filterMap _, hperm.filterMap _⟩
  · rw [hafter, hafter', ← agree_eq_iff]
    apply hagree.after
    rw [List.forall₂_same]
    intro step _
    refine ⟨rfl, ?_, rfl⟩
    cases step.previous with
    | none => exact .none
    | some previous => exact .some rfl
  · rw [hafter, hafter']
    exact after_names_perm (bind_comm_names h.names_ne current current') _

end Bindings

instance (e : Expr) (name : String) : Decidable (e.Mentions name) :=
  decidable_of_iff (∃ node ∈ e.preorder, node.identifier? = some name) <| by
    refine exists_congr fun node => and_congr_right fun _ => ?_
    rw [Expr.identifier?]
    cases node.form <;> simp

instance (first second : Assignment) : Decidable (first.Independent second) :=
  decidable_of_iff (first.name ≠ second.name ∧ ¬ first.value.Mentions second.name ∧
      ¬ second.value.Mentions first.name)
    ⟨fun h => ⟨h.1, h.2.1, h.2.2⟩, fun h => ⟨h.names_ne, h.not_mentions, h.not_mentioned⟩⟩

/-- Two neighbours that both depend on a name before them, and are both mentioned behind them. -/
theorem history_swap_between :
    ∃ script, ∃ earlier later : List Assignment, ∃ first second : Assignment,
      Script.read "n <- 1L\nx <- c(n, 2)\ny <- data.frame(k = n)\nn <- y\ny <- x" = .ok script ∧
      script.assignments = earlier ++ first :: second :: later ∧ first.Independent second ∧
      let steps := Bindings.empty.history .empty (earlier ++ first :: second :: later)
      let swapped := Bindings.empty.history .empty (earlier ++ second :: first :: later)
      (∀ name, (Bindings.empty.after steps).lookup? name =
        (Bindings.empty.after swapped).lookup? name) ∧
      (Bindings.driftsOf steps).Perm (Bindings.driftsOf swapped) := by
  obtain ⟨script, hread, htest⟩ := Script.exists_read_of_test
    (show ((Script.read "n <- 1L\nx <- c(n, 2)\ny <- data.frame(k = n)\nn <- y\ny <- x").toOption.any
      fun script =>
        let records := script.inOrder.filterMap script.assignment?
        records[1]?.any fun first => records[2]?.any fun second =>
          decide (first.Independent second)) = true by decide +kernel)
  simp only [← Script.assignments_eq hread, Option.any_eq_true, decide_eq_true_iff] at htest
  obtain ⟨first, hfirst, second, hsecond, hindependent⟩ := htest
  obtain ⟨hone, rfl⟩ := List.getElem?_eq_some_iff.mp hfirst
  obtain ⟨htwo, rfl⟩ := List.getElem?_eq_some_iff.mp hsecond
  have hsplit : script.assignments = script.assignments.take 1 ++
      script.assignments[1] :: script.assignments[2] :: script.assignments.drop 3 := by
    rw [List.getElem_cons_drop, List.getElem_cons_drop, List.take_append_drop]
  obtain ⟨hlookup, -, -, hdrifts, -⟩ := Bindings.history_swap .empty .empty
    (script.assignments.take 1) (script.assignments.drop 3) hindependent
  exact ⟨script, _, _, _, _, hread, hsplit, hindependent, hlookup, hdrifts⟩

end TypeDrift
