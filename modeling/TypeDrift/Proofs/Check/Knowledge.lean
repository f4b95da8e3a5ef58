import TypeDrift.Proofs.Check.Drift
import TypeDrift.Proofs.Script.Assignments
import TypeDrift.Proofs.Typing.Sources

/-! # More knowledge

One descriptor is below another if it says the same or less: nothing at all, or the same base type and
of each column the same or that its type is unknown (`Descriptor.Below`).  What is unknown may hide in
a column, and comes to light where the column is read; that is why the order looks into columns.

No rule of inference turns more knowledge into other knowledge (`belowSimulation`).  The rules that
hand a type on keep the order; a table is made of the tags of its columns, and a column whose type is
unknown is recorded with the tag that says so; a column that is read is unknown, or known on both
sides.  So a check that starts with more knowledge binds every name to more, and whatever drifts with
less knowledge drifts with more, from and to the same types (`infer_and_history_below`).
-/
namespace TypeDrift

open BaseType

namespace Descriptor

/-- A descriptor says what another one says, or less. -/
def Below (descriptor descriptor' : Descriptor) : Prop :=
  descriptor.base = .unknown ∨
    descriptor.base = descriptor'.base ∧ ∀ column tag, descriptor.columnTag? column = some tag →
      tag = BaseType.unknown.tag ∨ descriptor'.columnTag? column = some tag

variable {descriptor descriptor' : Descriptor}

theorem Below.refl (descriptor : Descriptor) : descriptor.Below descriptor :=
  .inr ⟨rfl, fun _ _ => .inr⟩

theorem below_of_unknown (h : descriptor.base = .unknown) : descriptor.Below descriptor' := .inl h

/-- Where nothing is recorded of columns, base types decide. -/
theorem below_of_base (hbase : descriptor.base = descriptor'.base)
    (hcolumns : ∀ column, descriptor.columnTag? column = none) : descriptor.Below descriptor' := by
  refine .inr ⟨hbase, ?_⟩
  intro column tag htag
  rw [hcolumns] at htag
  cases htag

theorem Below.base_eq (h : descriptor.Below descriptor') (hknown : descriptor.base ≠ .unknown) :
    descriptor'.base = descriptor.base := by
  rcases h with hunknown | ⟨hbase, -⟩
  · exact absurd hunknown hknown
  · exact hbase.symm

theorem Below.of_resembles {other other' : Descriptor} (h : descriptor.Below descriptor')
    (hother : other.Resembles descriptor) (hother' : other'.Resembles descriptor') :
    other.Below other' := by
  unfold Below
  rw [hother.base, hother'.base, hother.columns, hother'.columns]
  exact h

theorem columnTag?_instanceOf (descriptor : Descriptor) (column : String) :
    descriptor.instanceOf.columnTag? column = none := by
  unfold instanceOf
  split
  · split
    · rw [columnTag?_withAttribute (by decide)]
      rfl
    · rfl
  · rfl

/-! ## Columns -/

/-- The tags of two types as data, the one type unknown or the same. -/
def TextBelow (value value' : Data) : Prop :=
  ∃ tag tag' : String, (tag = BaseType.unknown.tag ∨ tag' = tag) ∧ value = .text tag ∧
    value' = .text tag'

/-- A column is recorded by its tag, whatever else is known of it. -/
theorem Below.textBelow (h : descriptor.Below descriptor') :
    TextBelow (.text descriptor.base.tag) (.text descriptor'.base.tag) := by
  refine ⟨_, _, ?_, rfl, rfl⟩
  by_cases hunknown : descriptor.base = .unknown
  · exact .inl (congrArg BaseType.tag hunknown)
  · exact .inr (congrArg BaseType.tag (h.base_eq hunknown))

theorem columnTag?_of_textBelow {value value' : Option Data} (h : Option.Rel TextBelow value value')
    {tag : String} (htag : value.bind Data.text? = some tag) :
    tag = BaseType.unknown.tag ∨ value'.bind Data.text? = some tag := by
  cases h with
  | none => cases htag
  | some htext =>
    obtain ⟨first, second, hsame, rfl, rfl⟩ := htext
    cases htag
    rcases hsame with hunknown | rfl
    · exact .inl hunknown
    · exact .inr rfl

theorem below_ofColumns (base : BaseType) {columns columns' : List (String × Descriptor)}
    (h : List.Forall₂ (Named Below) columns columns') :
    (ofColumns base (columns.map recorded)).Below (ofColumns base (columns'.map recorded)) := by
  have hsorted : List.Forall₂ (Named TextBelow)
      (Fields.sorted ((columns.map recorded).map fun tag => (tag.1, Data.text tag.2)))
      (Fields.sorted ((columns'.map recorded).map fun tag => (tag.1, Data.text tag.2))) := by
    apply Fields.related_sorted
    rw [List.map_map, List.map_map, List.forall₂_map_left_iff, List.forall₂_map_right_iff]
    exact h.imp fun column column' hcolumn => ⟨hcolumn.1, hcolumn.2.textBelow⟩
  refine .inr ⟨rfl, ?_⟩
  intro column tag htag
  rw [columnTag?_ofColumns] at htag ⊢
  exact columnTag?_of_textBelow (Fields.related_get? hsorted column) htag

/-- What a tag means has no columns, so that an unknown type is the least. -/
theorem below_ofMember (registry : Registry) (h : descriptor.Below descriptor') (column : String) :
    (ofMember registry descriptor column).Below (ofMember registry descriptor' column) := by
  by_cases htabular : descriptor.base.isTabular = true
  · rcases h with hunknown | ⟨hbase, hcolumns⟩
    · rw [hunknown] at htabular
      cases htabular
    · rw [ofMember_eq_meant htabular, ofMember_eq_meant (hbase ▸ htabular)]
      cases htag : descriptor.columnTag? column with
      | none => exact below_of_unknown rfl
      | some tag =>
        rcases hcolumns column tag htag with rfl | hsame
        · apply below_of_unknown
          show (meant registry BaseType.unknown.tag).base = .unknown
          rw [meant, Registry.resolve?_of_mem_builtins registry (by decide)]
          rfl
        · rw [hsame]
          exact .refl _
  · rw [ofMember_eq_unknown fun htrue => absurd htrue htabular]
    exact below_of_unknown rfl

end Descriptor

/-- **No rule of inference turns more knowledge into other knowledge.** -/
theorem belowSimulation (registry : Registry) : Simulation Descriptor.Below registry registry where
  base _ _ := .refl _
  null := .refl _
  arguments _ := .refl _
  generator := .refl _
  generatorOf _ := .refl _
  classType _ _ _ := .refl _
  length h _ :=
    h.of_resembles (Descriptor.resembles_withLength _ _) (Descriptor.resembles_withLength _ _)
  columns base _ _ _ h := Descriptor.below_ofColumns base h
  member h column := Descriptor.below_ofMember registry h column
  instanceOf _ := by
    apply Descriptor.below_of_base
    · rw [Descriptor.base_instanceOf, Descriptor.base_instanceOf]
    · exact Descriptor.columnTag?_instanceOf _

/-! ## Drifts -/

/-- What drifts with less knowledge drifts with more: a drift is between known types. -/
theorem Step.Related.drift?_eq {step step' : Step} (h : Step.Related Descriptor.Below step step')
    {drift : Drift} (hdrift : step.drift? = some drift) : step'.drift? = some drift := by
  obtain ⟨known, hknown, hfirst, hsecond, hne, rfl⟩ := drift?_eq_some_iff.mp hdrift
  have hprevious := h.previous
  rw [hknown] at hprevious
  generalize hknown' : step'.previous = previous' at hprevious
  cases hprevious with
  | @some _ known' hbelow =>
    have hbefore := hbelow.base_eq hfirst
    have hnow := h.current.base_eq hsecond
    rw [← hbefore, ← hnow] at hne
    refine drift?_eq_some_iff.mpr ⟨known', hknown', hbefore ▸ hfirst, hnow ▸ hsecond, hne, ?_⟩
    rw [h.assignment, hbefore, hnow]

theorem Bindings.driftsOf_sublist {steps steps' : List Step}
    (h : List.Forall₂ (Step.Related Descriptor.Below) steps steps') :
    (driftsOf steps).Sublist (driftsOf steps') := by
  unfold driftsOf
  induction h with
  | nil => exact .slnil
  | @cons step step' steps steps' hstep _ ih =>
    cases hdrift : step.drift? with
    | none =>
      rw [List.filterMap_cons_none hdrift]
      cases hdrift' : step'.drift? with
      | none =>
        rw [List.filterMap_cons_none hdrift']
        exact ih
      | some drift =>
        rw [List.filterMap_cons_some hdrift']
        exact ih.cons drift
    | some drift =>
      rw [List.filterMap_cons_some hdrift, List.filterMap_cons_some (hstep.drift?_eq hdrift)]
      exact ih.cons_cons drift

/-- **Inference is monotone in what is known.**  In bindings that say more of the same names, what is
inferred of an expression says more.  Whatever assignments are followed from there, they leave every
name bound to more; and every drift is a drift still, of the same assignment from and to the same
types, and is warned of. -/
theorem infer_and_history_below (registry : Registry) {bindings bindings' : Bindings}
    (h : bindings.Agree Descriptor.Below bindings') :
    (∀ e : Expr, (e.infer registry bindings).Below (e.infer registry bindings')) ∧
    ∀ records : List Assignment,
      let steps := bindings.history registry records
      let steps' := bindings'.history registry records
      (bindings.after steps).Agree Descriptor.Below (bindings'.after steps') ∧
      (Bindings.driftsOf steps).Sublist (Bindings.driftsOf steps') ∧
      (steps.filterMap Finding.ofStep?).Sublist (steps'.filterMap Finding.ofStep?) := by
  have sim := belowSimulation registry
  refine ⟨fun e => sim.infer h e, ?_⟩
  intro records steps steps'
  have hsteps : List.Forall₂ (Step.Related Descriptor.Below) steps steps' :=
    sim.history_of_agree h records
  have hdrifts := Bindings.driftsOf_sublist hsteps
  refine ⟨h.after hsteps, hdrifts, ?_⟩
  rw [Bindings.warnings_eq, Bindings.warnings_eq]
  exact hdrifts.map Drift.finding

/-- A table of which little is known, and the same table with a column more and a type for the other:
then the name that is bound to that column drifts as well. -/
theorem infer_and_history_below_table :
    ∃ script, Script.read "x <- t$a\nx <- 'c'\ny <- 1L\ny <- 'c'" = .ok script ∧
      let bindings := Bindings.empty.bind "t" (.ofColumns .dataFrame [("a", "unknown")])
      let bindings' := Bindings.empty.bind "t"
        (.ofColumns .dataFrame [("a", "integer"), ("b", "logical")])
      bindings.Agree Descriptor.Below bindings' ∧
      (∀ e : Expr, (e.infer .empty bindings).Below (e.infer .empty bindings')) ∧
      let drifts := Bindings.driftsOf (bindings.history .empty script.assignments)
      let drifts' := Bindings.driftsOf (bindings'.history .empty script.assignments)
      drifts.Sublist drifts' ∧ drifts.length = 1 ∧ drifts'.length = 2 := by
  obtain ⟨script, hread, htest⟩ := Script.exists_read_of_test
    (show ((Script.read "x <- t$a\nx <- 'c'\ny <- 1L\ny <- 'c'").toOption.any fun script =>
      let records := script.inOrder.filterMap script.assignment?
      let drifts := fun columns => Bindings.driftsOf ((Bindings.empty.bind "t"
        (.ofColumns .dataFrame columns)).history .empty records)
      (drifts [("a", "unknown")]).length == 1 &&
        (drifts [("a", "integer"), ("b", "logical")]).length == 2) = true by decide +kernel)
  simp only [← Script.assignments_eq hread, Bool.and_eq_true, beq_iff_eq] at htest
  have htable : (Descriptor.ofColumns .dataFrame [("a", "unknown")]).Below
      (.ofColumns .dataFrame [("a", "integer"), ("b", "logical")]) := by
    refine .inr ⟨rfl, ?_⟩
    intro column tag htag
    rw [Descriptor.columnTag?_ofColumns] at htag
    obtain ⟨value, hvalue, htext⟩ := Option.bind_eq_some_iff.mp htag
    obtain ⟨entry, hentry, rfl⟩ := Option.map_eq_some_iff.mp hvalue
    cases List.mem_singleton.mp (List.mem_of_find?_eq_some hentry)
    cases htext
    exact .inl rfl
  have hagree : Bindings.empty.Agree Descriptor.Below .empty := fun _ => .none
  obtain ⟨hinfer, hhistory⟩ := infer_and_history_below .empty (hagree.bind "t" htable)
  exact ⟨script, hread, hagree.bind "t" htable, hinfer, (hhistory script.assignments).2.1,
    htest.1, htest.2⟩

end TypeDrift
