import TypeDrift.Check.Checker
import TypeDrift.Proofs.Typing.Registry
import TypeDrift.Proofs.Typing.Related

/-! # One more class

When a class is registered, its objects get a type of their own, which was one of the two general
types of objects before.  This module follows a check with the smaller registry and one with the
larger side by side.  A type is the same in both, unless it is the new one in the second
(`Descriptor.RefinesTo`); that is also so for the columns of tables, whose types are kept as tags and
looked up in the one registry and in the other.

All rules of inference keep this relation (`refiningSimulation`), because none of them asks whether a
type is one of the general ones.  So the new type takes the place of general ones and makes no
difference otherwise (`check_register`).
-/
namespace TypeDrift

open BaseType Registry

/-- The same type, which is not the new one; or the new one in the place of a general one. -/
def BaseType.RefinesTo (tag : String) (base base' : BaseType) : Prop :=
  (base = base' ∧ base.tag ≠ tag) ∨ ((base = .s3 ∨ base = .s4) ∧ base' = .custom tag)

/-- The same of two types that are told by their tags. -/
def TagRefinesTo (tag : String) (name name' : String) : Prop :=
  ∃ base base' : BaseType, base.RefinesTo tag base' ∧ name = base.tag ∧ name' = base'.tag

/-- The same of the data that these tags are kept as. -/
def TextRefinesTo (tag : String) (value value' : Data) : Prop :=
  ∃ name name', TagRefinesTo tag name name' ∧ value = .text name ∧ value' = .text name'

theorem TextRefinesTo.rel_text? {tag : String} {value value' : Option Data}
    (h : Option.Rel (TextRefinesTo tag) value value') :
    Option.Rel (TagRefinesTo tag) (value.bind Data.text?) (value'.bind Data.text?) := by
  cases h with
  | none => exact .none
  | some h =>
    obtain ⟨name, name', hname, rfl, rfl⟩ := h
    exact .some hname

/-- The base types are the same but for the new one, and so are the types of the columns. -/
structure Descriptor.RefinesTo (tag : String) (descriptor descriptor' : Descriptor) : Prop where
  base : descriptor.base.RefinesTo tag descriptor'.base
  columns : ∀ column, Option.Rel (TagRefinesTo tag) (descriptor.columnTag? column)
    (descriptor'.columnTag? column)
  className : descriptor.base = .objectRef → descriptor.className? = descriptor'.className?

namespace BaseType.RefinesTo

variable {tag : String} {base base' : BaseType} (h : base.RefinesTo tag base')
include h

/-- Of the base types other than the general ones none is refined. -/
theorem eq_iff (other : BaseType) (hother : other ≠ .s3 ∧ other ≠ .s4 ∧ other ≠ .custom tag) :
    base = other ↔ base' = other := by
  obtain ⟨hs3, hs4, hcustom⟩ := hother
  rcases h with ⟨rfl, -⟩ | ⟨rfl | rfl, rfl⟩
  · exact Iff.rfl
  · exact iff_of_false hs3.symm hcustom.symm
  · exact iff_of_false hs4.symm hcustom.symm

theorem isTabular_eq : base.isTabular = base'.isTabular := by
  rcases h with ⟨rfl, -⟩ | ⟨rfl | rfl, rfl⟩ <;> rfl

end BaseType.RefinesTo

namespace Descriptor

theorem className?_withAttribute {key : String} (h : "class" ≠ key) (descriptor : Descriptor)
    (value : Data) : (descriptor.withAttribute key value).className? = descriptor.className? := by
  simp only [className?, attribute?_withAttribute_of_ne h]

namespace RefinesTo

variable {tag : String} {descriptor descriptor' : Descriptor}

/-- What has no columns, and no tag that is new, stays as it is. -/
theorem refl (hbase : descriptor.base.tag ≠ tag)
    (hcolumns : ∀ column, descriptor.columnTag? column = none) : descriptor.RefinesTo tag descriptor :=
  ⟨.inl ⟨rfl, hbase⟩, fun column => by rw [hcolumns]; exact .none, fun _ => rfl⟩

/-- An object of a general type on the one side has the new one on the other. -/
theorem of_general {general : BaseType} (hgeneral : general = .s3 ∨ general = .s4)
    (hbase : descriptor.base = general) (hcolumns : ∀ column, descriptor.columnTag? column = none) :
    descriptor.RefinesTo tag (ofBase (.custom tag)) := by
  refine ⟨.inr ⟨hbase ▸ hgeneral, rfl⟩, fun column => ?_, fun hreference => ?_⟩
  · rw [hcolumns]
    exact .none
  · rw [hbase] at hreference
    subst hreference
    rcases hgeneral with h | h <;> cases h

theorem withLength (h : descriptor.RefinesTo tag descriptor') (value : Data) :
    (descriptor.withAttribute "length" value).RefinesTo tag
      (descriptor'.withAttribute "length" value) := by
  constructor
  · exact h.base
  · rw [columnTag?_withAttribute (by decide), columnTag?_withAttribute (by decide)]
    exact h.columns
  · rw [className?_withAttribute (by decide), className?_withAttribute (by decide)]
    exact h.className

end RefinesTo

theorem instanceOf_of_ne {descriptor : Descriptor} (h : descriptor.base ≠ .objectRef) :
    descriptor.instanceOf = ofBase .objectRef := by
  unfold instanceOf
  split
  · exact if_neg h
  · rfl

end Descriptor

section Register
variable {registry larger : Registry} {tag : String} (h : registry.register tag = .ok larger)
include h

namespace Descriptor.RefinesTo

theorem of_mem_builtins {base : BaseType} (hbase : base ∈ builtins) :
    (ofBase base).RefinesTo tag (ofBase base) :=
  .refl (tag_ne_of_mem_builtins h hbase) fun _ => rfl

theorem of_withAttribute {base : BaseType} (hbase : base ∈ builtins) {key : String}
    (hkey : "columns" ≠ key) (value : Data) :
    ((ofBase base).withAttribute key value).RefinesTo tag
      ((ofBase base).withAttribute key value) := by
  refine .refl (tag_ne_of_mem_builtins h hbase) fun column => ?_
  rw [columnTag?_withAttribute hkey]
  rfl

theorem of_classType (hnew : registry.isRegistered tag = false) (className : String)
    {general : BaseType} (hgeneral : general = .s3 ∨ general = .s4) :
    (registry.classType className general).RefinesTo tag (larger.classType className general) := by
  have hbuiltin : general ∈ builtins := by rcases hgeneral with rfl | rfl <;> decide
  by_cases htag : className = tag
  · subst htag
    have hregistered : larger.isRegistered className = true := (isRegistered_iff h).mpr (.inl rfl)
    simp only [classType, hnew, hregistered, Bool.false_eq_true, if_true, if_false]
    refine .of_general hgeneral rfl fun column => ?_
    rw [columnTag?_withAttribute (by decide)]
    rfl
  · simp only [classType, isRegistered_of_ne h htag]
    split
    · exact .refl htag fun _ => rfl
    · exact of_withAttribute h hbuiltin (by decide) _

theorem of_columns {base : BaseType} (hbase : base.isTabular = true)
    {columns columns' : List (String × Descriptor)}
    (hcolumns : List.Forall₂ (Named (RefinesTo tag)) columns columns') :
    (ofColumns base (columns.map recorded)).RefinesTo tag
      (ofColumns base (columns'.map recorded)) := by
  refine ⟨.inl ⟨rfl, tag_ne_of_mem_builtins h (mem_builtins_of_isTabular hbase)⟩, fun column => ?_,
    fun hreference => ?_⟩
  · have hsorted : List.Forall₂ (Named (TextRefinesTo tag))
        (Fields.sorted ((columns.map recorded).map fun tag => (tag.1, Data.text tag.2)))
        (Fields.sorted ((columns'.map recorded).map fun tag => (tag.1, Data.text tag.2))) := by
      refine Fields.related_sorted ?_
      rw [List.map_map, List.map_map, List.forall₂_map_left_iff, List.forall₂_map_right_iff]
      exact hcolumns.imp fun column column' hcolumn =>
        ⟨hcolumn.1, _, _, ⟨_, _, hcolumn.2.base, rfl, rfl⟩, rfl, rfl⟩
    rw [columnTag?_ofColumns, columnTag?_ofColumns]
    exact TextRefinesTo.rel_text? (Fields.related_get? hsorted column)
  · replace hreference : base = .objectRef := hreference
    subst hreference
    cases hbase

theorem ofMember {descriptor descriptor' : Descriptor}
    (hrefines : descriptor.RefinesTo tag descriptor') (name : String) :
    (Descriptor.ofMember registry descriptor name).RefinesTo tag
      (Descriptor.ofMember larger descriptor' name) := by
  have hunknown : Descriptor.unknown.RefinesTo tag .unknown := of_mem_builtins h (by decide)
  have hcolumn := hrefines.columns name
  simp only [Descriptor.ofMember, ← hrefines.base.isTabular_eq]
  split
  · generalize descriptor.columnTag? name = column, descriptor'.columnTag? name = column' at hcolumn ⊢
    cases hcolumn with
    | none => exact hunknown
    | some hname =>
      -- A tag means the same in both registries, or a general type here and the new one there.
      obtain ⟨base, base', hbase, rfl, rfl⟩ := hname
      rcases hbase with ⟨rfl, hne⟩ | ⟨hgeneral, rfl⟩
      · rw [Option.bind_some, Option.bind_some, resolve?_of_ne h hne]
        cases hresolve : registry.resolve? base.tag with
        | none => exact hunknown
        | some found =>
          rcases mem_builtins_or_of_resolve? hresolve with hbuiltin | ⟨rfl, -⟩
          · exact of_mem_builtins h hbuiltin
          · exact .refl hne fun _ => rfl
      · have hbuiltin : base ∈ builtins := by rcases hgeneral with rfl | rfl <;> decide
        have hlarger : larger.resolve? (BaseType.custom tag).tag = some (.custom tag) :=
          resolve?_self h
        rw [Option.bind_some, Option.bind_some, resolve?_of_mem_builtins registry hbuiltin, hlarger]
        exact .of_general hgeneral rfl fun _ => rfl
  · exact hunknown

theorem instanceOf {descriptor descriptor' : Descriptor}
    (hrefines : descriptor.RefinesTo tag descriptor') :
    descriptor.instanceOf.RefinesTo tag descriptor'.instanceOf := by
  have hreference := hrefines.base.eq_iff .objectRef ⟨nofun, nofun, nofun⟩
  by_cases hbase : descriptor.base = .objectRef
  · simp only [Descriptor.instanceOf, ← hrefines.className hbase, hbase, hreference.mp hbase, if_true]
    split
    · exact of_withAttribute h (by decide) (by decide) _
    · exact of_mem_builtins h (by decide)
  · rw [instanceOf_of_ne hbase, instanceOf_of_ne fun hbase' => hbase (hreference.mpr hbase')]
    exact of_mem_builtins h (by decide)

end Descriptor.RefinesTo

/-- **The rules of inference keep that types are the same but for the new one.** -/
theorem refiningSimulation (hnew : registry.isRegistered tag = false) :
    Simulation (Descriptor.RefinesTo tag) registry larger where
  base base hbase := .of_mem_builtins h hbase.1
  null := .refl (tag_ne_of_mem_builtins h (by decide)) fun _ => rfl
  arguments names := .of_withAttribute h (by decide) (by decide) _
  generator := .of_withAttribute h (by decide) (by decide) _
  generatorOf className := by
    have hbase : BaseType.objectRef ∈ builtins := by decide
    refine .refl (tag_ne_of_mem_builtins h hbase) fun column => ?_
    rw [Descriptor.columnTag?_withAttribute (by decide), Descriptor.generator,
      Descriptor.columnTag?_withAttribute (by decide)]
    rfl
  classType className general hgeneral := .of_classType h hnew className hgeneral
  length hrefines length := hrefines.withLength _
  columns base hbase columns columns' hcolumns := .of_columns h hbase hcolumns
  member hrefines name := hrefines.ofMember h name
  instanceOf hrefines := hrefines.instanceOf h

end Register

/-! ## Both checks -/

/-- One of the two types that are compared at a step. -/
def Step.Compares (step : Step) (base : BaseType) : Prop :=
  step.current.base = base ∨ ∃ previous ∈ step.previous, previous.base = base

theorem BaseType.RefinesTo.eq_of_ne {tag : String} {base base' : BaseType}
    (h : base.RefinesTo tag base') (hne : base' ≠ .custom tag) : base = base' := by
  rcases h with ⟨rfl, -⟩ | ⟨-, rfl⟩
  · rfl
  · exact absurd rfl hne

/-- Where neither type is the new one, both steps are found to be the same. -/
theorem Step.Related.ofStep?_eq {tag : String} {step step' : Step}
    (h : Step.Related (Descriptor.RefinesTo tag) step step')
    (hnew : ¬step'.Compares (.custom tag)) : Finding.ofStep? step = Finding.ofStep? step' := by
  obtain ⟨assignment, previous, current⟩ := step
  obtain ⟨assignment', previous', current'⟩ := step'
  obtain ⟨rfl, hprevious, hcurrent⟩ := h
  cases hprevious with
  | none => rfl
  | @some previous previous' hprevious =>
    have hbefore : previous.base = previous'.base :=
      hprevious.base.eq_of_ne fun hbase => hnew (.inr ⟨previous', rfl, hbase⟩)
    have hafter : current.base = current'.base :=
      hcurrent.base.eq_of_ne fun hbase => hnew (.inl hbase)
    -- Nothing but the base types is looked at.
    calc Finding.ofStep? ⟨assignment, some previous, current⟩
        = Finding.ofStep? ⟨assignment, some (.ofBase previous.base), .ofBase current.base⟩ := rfl
      _ = Finding.ofStep? ⟨assignment, some (.ofBase previous'.base), .ofBase current'.base⟩ := by
        rw [hbefore, hafter]
      _ = Finding.ofStep? ⟨assignment, some previous', current'⟩ := rfl

/-- **One more class is a conservative extension.**  Let a tag be registered that a registry does not
hold.  Then every text has the same errors and infos in both checks, and binds the same names in the
same order.  Each name has the same base type, but for the new one in the place of a general one.  A
step that is found to be a drift in one check and not in the other compares the new type with
another. -/
theorem check_register {registry larger : Registry} {tag : String}
    (hregister : registry.register tag = .ok larger) (hnew : registry.isRegistered tag = false)
    (strict : Bool) (source : String) :
    let outcome := (Checker.mk registry strict).check source
    let outcome' := (Checker.mk larger strict).check source
    outcome.errors = outcome'.errors ∧ outcome.infos = outcome'.infos ∧
    outcome.bindings.names = outcome'.bindings.names ∧
    (∀ name descriptor descriptor', outcome.bindings.lookup? name = some descriptor →
      outcome'.bindings.lookup? name = some descriptor' →
      descriptor'.base = descriptor.base ∨ descriptor'.base = .custom tag ∧
        (descriptor.base = .s3 ∨ descriptor.base = .s4)) ∧
    ∀ script, Script.read source = .ok script →
      let steps := (Checker.mk registry strict).history script
      let steps' := (Checker.mk larger strict).history script
      outcome.warnings = steps.filterMap Finding.ofStep? ∧
      outcome'.warnings = steps'.filterMap Finding.ofStep? ∧
      List.Forall₂ (fun step step' => step.assignment = step'.assignment ∧
        (Finding.ofStep? step = Finding.ofStep? step' ∨ step'.Compares (.custom tag)))
        steps steps' := by
  have sim := refiningSimulation hregister hnew
  have hempty : Bindings.empty.Related (Descriptor.RefinesTo tag) .empty := .nil
  intro outcome outcome'
  cases hread : Script.read source with
  | error fault =>
    have hfailed : outcome = .failed fault.text := by simp only [outcome, Checker.check, hread]
    have hfailed' : outcome' = .failed fault.text := by simp only [outcome', Checker.check, hread]
    rw [hfailed, hfailed']
    refine ⟨rfl, rfl, rfl, fun name descriptor descriptor' hlookup _ => ?_, nofun⟩
    replace hlookup : Bindings.empty.lookup? name = some descriptor := hlookup
    cases hlookup
  | ok script =>
    have hchecked : outcome = (Checker.mk registry strict).checkScript script := by
      simp only [outcome, Checker.check, hread]
    have hchecked' : outcome' = (Checker.mk larger strict).checkScript script := by
      simp only [outcome', Checker.check, hread]
    have hhistory := sim.history hempty script.assignments
    have hbindings : outcome.bindings.Related (Descriptor.RefinesTo tag) outcome'.bindings := by
      rw [hchecked, hchecked']
      exact hempty.after hhistory
    refine ⟨by rw [hchecked, hchecked']; rfl, by rw [hchecked, hchecked']; rfl,
      hbindings.names_eq, ?_, ?_⟩
    · intro name descriptor descriptor' hlookup hlookup'
      have hrelated := hbindings.lookup? name
      rw [hlookup, hlookup'] at hrelated
      cases hrelated with
      | some hrefines =>
        rcases hrefines.base with ⟨hsame, -⟩ | ⟨hgeneral, hcustom⟩
        · exact .inl hsame.symm
        · exact .inr ⟨hcustom, hgeneral⟩
    · rintro _ ⟨⟩
      refine ⟨by rw [hchecked]; rfl, by rw [hchecked']; rfl, hhistory.imp fun step step' hstep => ?_⟩
      refine ⟨hstep.assignment, ?_⟩
      by_cases hcompares : step'.Compares (.custom tag)
      · exact .inr hcompares
      · exact .inl (hstep.ofStep?_eq hcompares)

/-- An instance of a class that is registered, and a table of such instances. -/
theorem check_register_person :
    Registry.empty.register "person" = .ok ⟨["person"]⟩ ∧
      Registry.empty.isRegistered "person" = false ∧
      let source := "x <- new('person')\ny <- data.frame(a = x, b = 1L)\nx <- y$a\nx <- y$b"
      ((Checker.mk .empty false).check source).infos =
          ((Checker.mk ⟨["person"]⟩ false).check source).infos ∧
        ((Checker.mk .empty false).check source).bindings.names =
          ((Checker.mk ⟨["person"]⟩ false).check source).bindings.names := by
  have hregister : Registry.empty.register "person" = .ok ⟨["person"]⟩ := by decide +kernel
  have hnew : Registry.empty.isRegistered "person" = false := by decide
  refine ⟨hregister, hnew, ?_⟩
  intro source
  obtain ⟨-, hinfos, hnames, -⟩ := check_register hregister hnew false source
  exact ⟨hinfos, hnames⟩

end TypeDrift
