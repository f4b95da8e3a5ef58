import TypeDrift.Proofs.Check.Drift
import TypeDrift.Proofs.Script.Assignments
import TypeDrift.Proofs.Typing.Related

/-! # The mark for null

Null is the one type that may be null, and the type of null is meant to say so: a descriptor is marked
as nullable exactly if its base type is null (`Descriptor.NullMarked`).  Values, constants, calls of
functions, empty blocks and `c()` all make the type of null with its mark, and everything that hands a
type on hands the mark on with it.

A column is the exception.  It is recorded by the tag of its type, and the type that is read off the
tag has no mark; so a column of nulls is of base type null and not nullable (`nullMarked_column`).
That is the only way to lose the mark: it stands on everything that is inferred, and on everything
that is bound in the course of a check, as long as no such column is read (`nullMarked_inferred`).
Nothing but null is ever marked, columns or not.
-/
namespace TypeDrift

open BaseType

namespace Descriptor

/-- A descriptor is marked as nullable if its base type is null, and only then. -/
def NullMarked (descriptor : Descriptor) : Prop :=
  descriptor.nullable = true ↔ descriptor.base = .null

instance : DecidablePred NullMarked := fun descriptor =>
  inferInstanceAs (Decidable (descriptor.nullable = true ↔ descriptor.base = .null))

/-- Only null is marked as nullable. -/
def MarksNull (descriptor : Descriptor) : Prop :=
  descriptor.nullable = true → descriptor.base = .null

variable {descriptor : Descriptor}

theorem nullMarked_of_ne (hmark : descriptor.nullable = false) (hbase : descriptor.base ≠ .null) :
    descriptor.NullMarked := by
  constructor
  · intro h
    rw [hmark] at h
    cases h
  · intro h
    exact absurd h hbase

theorem marksNull_of_not_nullable (hmark : descriptor.nullable = false) : descriptor.MarksNull := by
  intro h
  rw [hmark] at h
  cases h

theorem nullable_classType (registry : Registry) (className : String) (general : BaseType) :
    (registry.classType className general).nullable = false := by
  unfold Registry.classType
  split <;> rfl

theorem base_classType_ne_null {general : BaseType} (h : general ≠ .null) (registry : Registry)
    (className : String) : (registry.classType className general).base ≠ .null := by
  unfold Registry.classType
  split
  · exact nofun
  · exact h

theorem nullable_instanceOf (descriptor : Descriptor) : descriptor.instanceOf.nullable = false := by
  unfold instanceOf
  split
  · split <;> rfl
  · rfl

theorem base_instanceOf_ne_null (descriptor : Descriptor) : descriptor.instanceOf.base ≠ .null := by
  intro hnull
  unfold instanceOf at hnull
  split at hnull
  · split at hnull <;> cases hnull
  · cases hnull

/-- The type of a column has no mark. -/
theorem nullable_ofMember (registry : Registry) (descriptor : Descriptor) (column : String) :
    (ofMember registry descriptor column).nullable = false := by
  unfold ofMember
  split
  · split <;> rfl
  · rfl

/-- The type of a value is marked exactly if the value is null. -/
theorem nullMarked_ofValue (registry : Registry) (value : Value) :
    (ofValue registry value).NullMarked := by
  have hclassType (className : String) {general : BaseType} (h : general ≠ .null) :
      (registry.classType className general).NullMarked :=
    nullMarked_of_ne (nullable_classType _ _ _) (base_classType_ne_null h _ _)
  cases value with
  | null => exact iff_of_true rfl rfl
  | table flavour columns =>
    refine nullMarked_of_ne rfl ?_
    cases flavour <;> exact nofun
  | s3 classes data =>
    cases classes with
    | nil => exact nullMarked_of_ne rfl nofun
    | cons first rest => exact hclassType first (show BaseType.s3 ≠ .null from nofun)
  | s4 className => exact hclassType className (show BaseType.s4 ≠ .null from nofun)
  | _ => exact nullMarked_of_ne rfl nofun

end Descriptor

/-! ## Expressions -/

theorem isTabular_ne_null {base : BaseType} (h : base.isTabular = true) : base ≠ .null := by
  rintro rfl
  cases h

/-- All rules keep the mark, but for the one that reads a column. -/
theorem keepsNullMarked (registry : Registry) :
    Keeps (fun descriptor _ => descriptor.NullMarked) registry registry where
  base _ hbase := Descriptor.nullMarked_of_ne rfl hbase.2
  null := iff_of_true rfl rfl
  arguments _ := Descriptor.nullMarked_of_ne rfl nofun
  generator := Descriptor.nullMarked_of_ne rfl nofun
  generatorOf _ := Descriptor.nullMarked_of_ne rfl nofun
  classType _ general hgeneral := by
    refine Descriptor.nullMarked_of_ne (Descriptor.nullable_classType _ _ _)
      (Descriptor.base_classType_ne_null ?_ _ _)
    rcases hgeneral with rfl | rfl <;> exact nofun
  length h _ := h
  columns _ hbase _ _ _ := Descriptor.nullMarked_of_ne rfl (isTabular_ne_null hbase)
  instanceOf {descriptor _} _ := Descriptor.nullMarked_of_ne (Descriptor.nullable_instanceOf descriptor)
    (Descriptor.base_instanceOf_ne_null descriptor)

/-- **All rules keep that only null is marked**, for those which make a type of their own mark nothing
but null. -/
theorem marksNullSimulation (registry : Registry) :
    Simulation (fun descriptor _ => descriptor.MarksNull) registry registry where
  base _ _ := Descriptor.marksNull_of_not_nullable rfl
  null := fun _ => rfl
  arguments _ := Descriptor.marksNull_of_not_nullable rfl
  generator := Descriptor.marksNull_of_not_nullable rfl
  generatorOf _ := Descriptor.marksNull_of_not_nullable rfl
  classType _ _ _ := Descriptor.marksNull_of_not_nullable (Descriptor.nullable_classType _ _ _)
  length h _ := h
  columns _ _ _ _ _ := Descriptor.marksNull_of_not_nullable rfl
  member _ _ := Descriptor.marksNull_of_not_nullable (Descriptor.nullable_ofMember _ _ _)
  instanceOf {descriptor _} _ :=
    Descriptor.marksNull_of_not_nullable (Descriptor.nullable_instanceOf descriptor)

/-- Somewhere an expression reads a column whose type is null. -/
def Expr.ReadsNullColumn (registry : Registry) (bindings : Bindings) (e : Expr) : Prop :=
  ∃ access ∈ e.preorder, (∃ table column, access.form = .member table column false) ∧
    (access.infer registry bindings).base = .null

instance (access : Expr) : Decidable (∃ table column, access.form = .member table column false) :=
  match access.form with
  | .member table column false => .isTrue ⟨table, column, rfl⟩
  | .member _ _ true | .literal _ | .identifier _ | .namespaced .. | .call .. | .index .. | .unary ..
  | .binary .. | .assign .. | .formula .. | .function .. | .conditional .. | .forLoop ..
  | .whileLoop .. | .repeatLoop _ | .breakLoop | .nextLoop | .block _ | .paren _ => .isFalse nofun

instance (registry : Registry) (bindings : Bindings) :
    DecidablePred (Expr.ReadsNullColumn registry bindings) :=
  fun _ => inferInstanceAs (Decidable (∃ access ∈ _, _))

/-- A property of every descriptor that a name is bound to. -/
def Bindings.Forall (P : Descriptor → Prop) (bindings : Bindings) : Prop :=
  ∀ name descriptor, bindings.lookup? name = some descriptor → P descriptor

namespace Bindings

variable {P : Descriptor → Prop} {bindings : Bindings}

theorem forall_empty : empty.Forall P := nofun

theorem Forall.agree (h : bindings.Forall P) :
    bindings.Agree (fun descriptor _ => P descriptor) bindings := by
  intro name
  cases hlookup : bindings.lookup? name with
  | none => exact .none
  | some descriptor => exact .some (h name descriptor hlookup)

theorem Forall.bind (h : bindings.Forall P) (name : String) {descriptor : Descriptor}
    (hdescriptor : P descriptor) : (bindings.bind name descriptor).Forall P := by
  intro other found hfound
  by_cases hother : other = name
  · rw [hother, lookup?_bind_self] at hfound
    cases hfound
    exact hdescriptor
  · rw [lookup?_bind_of_ne hother] at hfound
    exact h other found hfound

end Bindings

namespace Expr

variable {registry : Registry} {bindings : Bindings}

theorem infer_nullMarked (hbindings : bindings.Forall Descriptor.NullMarked) {e : Expr}
    (he : ¬ e.ReadsNullColumn registry bindings) : (e.infer registry bindings).NullMarked := by
  have keeps := keepsNullMarked registry
  have hcolumns : e.KeepsColumns (fun descriptor _ => descriptor.NullMarked) registry registry
      bindings bindings := by
    intro access haccess table column hform _
    refine Descriptor.nullMarked_of_ne (Descriptor.nullable_ofMember _ _ _) fun hnull => he ?_
    rw [← infer_access hform] at hnull
    exact ⟨access, haccess, ⟨table, column, hform⟩, hnull⟩
  exact keeps.infer e (fun name _ => keeps.ofName hbindings.agree name) hcolumns

/-- A column of nulls has lost the mark. -/
theorem not_nullMarked_of_column {access table : Expr} {column : String}
    (hform : access.form = .member table column false)
    (hnull : (access.infer registry bindings).base = .null) :
    ¬ (access.infer registry bindings).NullMarked := by
  intro h
  have hmark := h.mpr hnull
  rw [infer_access hform, Descriptor.nullable_ofMember] at hmark
  cases hmark

/-- **The mark is lost at columns of nulls, and nowhere else**: it stands on everything in an
expression exactly if no column of nulls is read in it. -/
theorem forall_nullMarked_iff (hbindings : bindings.Forall Descriptor.NullMarked) {e : Expr} :
    (∀ part ∈ e.preorder, (part.infer registry bindings).NullMarked) ↔
      ¬ e.ReadsNullColumn registry bindings := by
  constructor
  · rintro h ⟨access, haccess, ⟨table, column, hform⟩, hnull⟩
    exact not_nullMarked_of_column hform hnull (h access haccess)
  · intro he part hpart
    apply infer_nullMarked hbindings
    rintro ⟨access, haccess, hcolumn⟩
    exact he ⟨access, mem_preorder_trans haccess hpart, hcolumn⟩

theorem infer_marksNull (hbindings : bindings.Forall Descriptor.MarksNull) (e : Expr) :
    (e.infer registry bindings).MarksNull :=
  (marksNullSimulation registry).infer hbindings.agree e

end Expr

/-! ## Checks -/

namespace Bindings

variable {registry : Registry} {P : Descriptor → Prop}

/-- What is inferred at every record that has been followed is what the names are bound to. -/
theorem forall_reached {records : List Assignment} {bindings : Bindings}
    (hbindings : bindings.Forall P)
    (h : ∀ earlier record later, records = earlier ++ record :: later →
      (bindings.reached registry earlier).Forall P →
        P (record.value.infer registry (bindings.reached registry earlier))) :
    (bindings.reached registry records).Forall P := by
  induction records using List.reverseRecOn with
  | nil => exact hbindings
  | append_singleton records record ih =>
    have hbefore : (bindings.reached registry records).Forall P := by
      apply ih
      intro earlier other later hrecords
      exact h earlier other (later ++ [record]) (by rw [hrecords, List.append_assoc]; rfl)
    rw [reached_snoc]
    exact hbefore.bind record.name (h records record [] rfl hbefore)

end Bindings

/-- **The mark for null.**  The type of a value is marked as nullable exactly if it is null.  So is the
type of everything in an expression, in bindings of which this holds, exactly if no column of nulls is
read in the expression.  And so is everything that is bound at any point of a check, if no record
before that point reads such a column.  Even where one is read, nothing but null is marked. -/
theorem nullMarked_inferred (registry : Registry) :
    (∀ value, (Descriptor.ofValue registry value).NullMarked) ∧
    (∀ bindings : Bindings, bindings.Forall Descriptor.NullMarked → ∀ e : Expr,
      (e.infer registry bindings).MarksNull ∧
      ((∀ part ∈ e.preorder, (part.infer registry bindings).NullMarked) ↔
        ¬ e.ReadsNullColumn registry bindings)) ∧
    ∀ (strict : Bool) (source : String) (script : Script), Script.read source = .ok script →
      ∀ before behind, script.assignments = before ++ behind →
        let bindings := Bindings.empty.after (Bindings.empty.history registry before)
        (behind = [] → ((⟨registry, strict⟩ : Checker).check source).bindings = bindings) ∧
        bindings.Forall Descriptor.MarksNull ∧
        ((∀ earlier record later, before = earlier ++ record :: later →
          ¬ record.value.ReadsNullColumn registry
            (Bindings.empty.after (Bindings.empty.history registry earlier))) →
          bindings.Forall Descriptor.NullMarked) := by
  refine ⟨Descriptor.nullMarked_ofValue registry, fun bindings hbindings e => ?_, ?_⟩
  · have hmarks : bindings.Forall Descriptor.MarksNull :=
      fun name descriptor hlookup => (hbindings name descriptor hlookup).mp
    exact ⟨Expr.infer_marksNull hmarks e, Expr.forall_nullMarked_iff hbindings⟩
  · intro strict source script hread before behind hsplit bindings
    refine ⟨?_, ?_, ?_⟩
    · rintro rfl
      rw [List.append_nil] at hsplit
      simp only [Checker.check, hread, Checker.checkScript, Checker.history, hsplit, bindings]
    · simp only [bindings, Bindings.after_history]
      exact Bindings.forall_reached Bindings.forall_empty
        fun earlier record later _ hearlier => Expr.infer_marksNull hearlier record.value
    · simp only [bindings, Bindings.after_history]
      intro hreads
      exact Bindings.forall_reached Bindings.forall_empty
        fun earlier record later hrecords hearlier =>
          Expr.infer_nullMarked hearlier (hreads earlier record later hrecords)

/-- A table with a column of nulls, of which another column is read. -/
theorem nullMarked_inferred_beside :
    ∃ script,
      Script.read "t <- data.frame(a = 1L, b = NULL)\nx <- t$a\ny <- c(NULL)" = .ok script ∧
      ((⟨.empty, false⟩ : Checker).check
        "t <- data.frame(a = 1L, b = NULL)\nx <- t$a\ny <- c(NULL)").bindings.Forall
          Descriptor.NullMarked := by
  obtain ⟨script, hread, htest⟩ := Script.exists_read_of_test
    (show ((Script.read "t <- data.frame(a = 1L, b = NULL)\nx <- t$a\ny <- c(NULL)").toOption.any
      fun script =>
        let records := script.inOrder.filterMap script.assignment?
        (List.range records.length).all fun i => records[i]?.all fun record =>
          !decide (record.value.ReadsNullColumn .empty
            (Bindings.empty.reached .empty (records.take i)))) = true by decide +kernel)
  have hchecked := (nullMarked_inferred .empty).2.2 false _ script hread script.assignments []
    (List.append_nil _).symm
  refine ⟨script, hread, hchecked.1 rfl ▸ hchecked.2.2 fun earlier record later hsplit => ?_⟩
  simp only [← Script.assignments_eq hread, hsplit, List.all_eq_true] at htest
  have hrecord := htest earlier.length (by simp)
  simpa [Bindings.after_history] using hrecord

/-- A column of nulls is of base type null and is not marked, whether it is bound or not. -/
theorem nullMarked_column :
    ∃ script, Script.read "x <- data.frame(a = NULL)$a" = .ok script ∧
      (script.infer .empty .empty).base = .null ∧
      (script.infer .empty .empty).nullable = false ∧
      ¬ (script.infer .empty .empty).NullMarked ∧
      ¬ ((⟨.empty, false⟩ : Checker).check "x <- data.frame(a = NULL)$a").bindings.Forall
        Descriptor.NullMarked := by
  obtain ⟨script, hread, htest⟩ := Script.exists_read_of_test
    (show ((Script.read "x <- data.frame(a = NULL)$a").toOption.any fun script =>
      let records := script.inOrder.filterMap script.assignment?
      let bound := (Bindings.empty.reached .empty records).lookup? "x"
      (script.infer .empty .empty).base == .null && !(script.infer .empty .empty).nullable &&
        bound.any fun descriptor => !decide descriptor.NullMarked) = true by decide +kernel)
  simp only [Bool.and_eq_true, beq_iff_eq, Bool.not_eq_true', Option.any_eq_true,
    decide_eq_false_iff_not] at htest
  obtain ⟨⟨hbase, hmark⟩, descriptor, hlookup, hbound⟩ := htest
  refine ⟨script, hread, hbase, hmark, fun h => ?_, fun h => hbound (h "x" descriptor ?_)⟩
  · rw [h.mpr hbase] at hmark
    cases hmark
  · rw [← Script.assignments_eq hread, ← Bindings.after_history] at hlookup
    simp only [Checker.check, hread, Checker.checkScript, Checker.history]
    exact hlookup

end TypeDrift
