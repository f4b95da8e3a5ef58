import Mathlib.Data.List.Basic
import TypeDrift.Proofs.Check.Drift
import TypeDrift.Proofs.Typing.Registry
import TypeDrift.Proofs.Typing.Related

/-! # Tags identify types

Types are printed by their tags, and the types of columns are kept as tags and looked up again when a
column is read.  That is safe as long as the tag of every type that occurs in a check means that very
type (`Descriptor.Resolved`), and this is what the rules of inference keep, whatever registry was
built by registering tags (`resolvedSimulation`).

A drift is reported with two tags.  The types differ, so the tags do; and as no tag has a comma in it,
the two can be read off the message (`Finding.drifted_message_ne`).
-/
namespace TypeDrift

open BaseType Registry

/-- The types in a descriptor are told by their tags: its base type, and those of its columns. -/
structure Descriptor.Resolved (registry : Registry) (descriptor : Descriptor) : Prop where
  base : registry.resolve? descriptor.base.tag = some descriptor.base
  columns : ∀ value ∈ descriptor.attribute? "columns", ∃ columns, value = .record columns ∧
    ∀ column ∈ columns, ∃ tag base, column.2 = .text tag ∧ registry.resolve? tag = some base

namespace Fields

variable {α : Type}

theorem mem_insert {key : String} {value : α} {fields : Fields α} {entry : String × α}
    (h : entry ∈ insert key value fields) : entry = (key, value) ∨ entry ∈ fields := by
  induction fields with
  | nil => exact .inl (List.mem_singleton.mp h)
  | cons first fields ih =>
    unfold insert at h
    split at h
    · exact List.mem_cons.mp h
    · split at h
      · exact (List.mem_cons.mp h).imp_right (List.mem_cons_of_mem first)
      · rcases List.mem_cons.mp h with rfl | hrest
        · exact .inr List.mem_cons_self
        · exact (ih hrest).imp_right (List.mem_cons_of_mem first)

/-- Sorting brings in no entries. -/
theorem mem_sorted {entries : List (String × α)} {entry : String × α} (h : entry ∈ sorted entries) :
    entry ∈ entries := by
  suffices ∀ fields : Fields α,
      entry ∈ entries.foldl (fun fields entry => fields.insert entry.1 entry.2) fields →
        entry ∈ fields ∨ entry ∈ entries from (this [] h).resolve_left List.not_mem_nil
  clear h
  induction entries with
  | nil => exact fun fields h => .inl h
  | cons first entries ih =>
    intro fields h
    rcases ih _ h with hfields | hentries
    · rcases mem_insert hfields with rfl | hfields
      · exact .inr List.mem_cons_self
      · exact .inl hfields
    · exact .inr (List.mem_cons_of_mem first hentries)

end Fields

namespace Descriptor

namespace Resolved

variable {registry : Registry} {descriptor : Descriptor}

theorem of_resolve? {base : BaseType} (h : registry.resolve? base.tag = some base) :
    (ofBase base).Resolved registry := ⟨h, nofun⟩

theorem of_mem_builtins {base : BaseType} (h : base ∈ builtins) : (ofBase base).Resolved registry :=
  of_resolve? (resolve?_of_mem_builtins registry h)

theorem withAttribute (h : descriptor.Resolved registry) {key : String} (hkey : "columns" ≠ key)
    (value : Data) : (descriptor.withAttribute key value).Resolved registry := by
  refine ⟨h.base, ?_⟩
  rw [attribute?_withAttribute_of_ne hkey]
  exact h.columns

theorem ofColumns {base : BaseType} (hbase : base ∈ builtins) {columns : List (String × Descriptor)}
    (h : ∀ column ∈ columns, column.2.Resolved registry) :
    (Descriptor.ofColumns base (columns.map recorded)).Resolved registry := by
  refine ⟨resolve?_of_mem_builtins registry hbase, ?_⟩
  rw [Descriptor.ofColumns, attribute?_withAttribute_self]
  rintro value ⟨⟩
  refine ⟨_, rfl, fun entry hentry => ?_⟩
  have hmem := Fields.mem_sorted hentry
  rw [List.map_map] at hmem
  obtain ⟨column, hcolumn, rfl⟩ := List.mem_map.mp hmem
  exact ⟨column.2.base.tag, column.2.base, rfl, (h column hcolumn).base⟩

end Resolved
end Descriptor

/-- **The rules of inference keep that types are told by their tags.** -/
theorem resolvedSimulation {registry : Registry} (hbuilt : registry.Built) :
    Simulation (fun descriptor descriptor' => descriptor = descriptor' ∧
      descriptor.Resolved registry) registry registry where
  base base hbase := ⟨rfl, .of_mem_builtins hbase.1⟩
  null := ⟨rfl, resolve?_of_mem_builtins registry (by decide), nofun⟩
  arguments names := ⟨rfl, .withAttribute (.of_mem_builtins (by decide)) (by decide) _⟩
  generator := ⟨rfl, .withAttribute (.of_mem_builtins (by decide)) (by decide) _⟩
  generatorOf className := by
    refine ⟨rfl, .withAttribute (.withAttribute ?_ (by decide) _) (by decide) _⟩
    exact .of_mem_builtins (by decide)
  classType className general hgeneral := by
    refine ⟨rfl, ?_⟩
    unfold classType
    split
    · next hregistered => exact .of_resolve? (hbuilt.resolve?_eq hregistered)
    · refine .withAttribute (.of_mem_builtins ?_) (by decide) _
      rcases hgeneral with rfl | rfl <;> decide
  length h length := ⟨congrArg (Descriptor.withAttribute · "length" _) h.1,
    h.2.withAttribute (by decide) _⟩
  columns base hbase columns columns' h := by
    have heq : columns = columns' := by
      rw [← List.forall₂_eq_eq_eq]
      exact h.imp fun column column' hcolumn => Prod.ext hcolumn.1 hcolumn.2.1
    subst heq
    refine ⟨rfl, .ofColumns (mem_builtins_of_isTabular hbase) fun column hcolumn => ?_⟩
    exact (List.forall₂_same.mp h column hcolumn).2.2
  member h name := by
    obtain ⟨rfl, h⟩ := h
    refine ⟨rfl, ?_⟩
    unfold Descriptor.ofMember
    split
    · split
      · next base hbase =>
        obtain ⟨tag, -, hresolve⟩ := Option.bind_eq_some_iff.mp hbase
        exact .of_resolve? (Registry.resolve?_tag hresolve)
      · exact .of_mem_builtins (by decide)
    · exact .of_mem_builtins (by decide)
  instanceOf h := by
    obtain ⟨rfl, -⟩ := h
    refine ⟨rfl, ?_⟩
    unfold Descriptor.instanceOf
    split
    · split
      · exact .withAttribute (.of_mem_builtins (by decide)) (by decide) _
      · exact .of_mem_builtins (by decide)
    · exact .of_mem_builtins (by decide)

/-! ## Tags in messages -/

theorem Registry.comma_not_mem_of_isValidTag {tag : String} (h : isValidTag tag = true) :
    ',' ∉ tag.toList := by
  unfold isValidTag at h
  split at h
  · next first rest htag =>
    rw [Bool.and_eq_true, List.all_eq_true] at h
    rw [htag, List.mem_cons]
    rintro (rfl | hrest)
    · exact absurd h.1 (by decide)
    · exact absurd (h.2 ',' hrest) (by decide)
  · cases h

theorem Registry.Built.comma_not_mem {registry : Registry} (hbuilt : registry.Built)
    {base : BaseType} (h : registry.resolve? base.tag = some base) : ',' ∉ base.tag.toList := by
  rcases mem_builtins_or_of_resolve? h with hbuiltin | ⟨-, hregistered⟩
  · have hall : ∀ builtin ∈ builtins, ',' ∉ builtin.tag.toList := by decide +kernel
    exact hall base hbuiltin
  · exact comma_not_mem_of_isValidTag (hbuilt.isValidTag_eq_true hregistered)

namespace Finding

/-- The message about a drift from one tag to another. -/
def driftMessage (previous current : String) : String :=
  "variable reassigned with different type: was " ++ previous ++ ", now " ++ current

/-- A message about two different tags never reads as one about the same tag. -/
theorem driftMessage_ne {previous current : String} (hprevious : ',' ∉ previous.toList)
    (hcurrent : ',' ∉ current.toList) (hne : previous ≠ current) (tag : String) :
    driftMessage previous current ≠ driftMessage tag tag := by
  intro h
  have hnow : ", now ".toList = ',' :: " now ".toList := by decide +kernel
  have hblank : ',' ∉ " now ".toList := by decide +kernel
  unfold driftMessage at h
  generalize "variable reassigned with different type: was " = opening at h
  generalize ", now " = now, " now ".toList = blank at h hnow hblank
  have hbehind : ',' ∉ blank ++ current.toList := by simp [hblank, hcurrent]
  have hchars := congrArg String.toList h
  simp only [String.toList_append, List.append_assoc, List.append_cancel_left_eq, hnow,
    List.cons_append] at hchars
  -- The one comma of the message stands between the two tags.
  rw [List.append_cons_inj_of_notMem hprevious hbehind, List.append_cancel_left_eq,
    String.toList_inj, String.toList_inj] at hchars
  exact hne (hchars.1.trans hchars.2.2.symm)

end Finding

/-! ## A check -/

/-- What a step drifts from and to, as the message has it. -/
theorem exists_drift_of_ofStep? {step : Step} {finding : Finding}
    (h : Finding.ofStep? step = some finding) :
    ∃ previous, step.previous = some previous ∧ previous.base ≠ step.current.base ∧
      finding = .drifted step.assignment previous.base step.current.base := by
  obtain ⟨previous, hprevious, -, -, hne, hfinding⟩ := Finding.ofStep?_eq_some_iff.mp h
  exact ⟨previous, hprevious, hne, hfinding⟩

/-- **Tags identify types throughout a check.**  Whatever registry was built by registering tags: at
any point of a check, the tag of every type that a name is bound to means that type, and so does the
tag of each of its columns mean some type.  A warning therefore names two different tags, and no
warning reads as one about the same tag twice. -/
theorem check_tags_identify_types (checker : Checker) (hbuilt : checker.registry.Built)
    {source : String} {script : Script} (h : Script.read source = .ok script) :
    (∀ steps, steps <+: checker.history script →
      ∀ entry ∈ (Bindings.empty.after steps).entries, entry.2.Resolved checker.registry) ∧
    ∀ warning ∈ (checker.check source).warnings,
      (∃ previous current : BaseType,
        warning.message = Finding.driftMessage previous.tag current.tag ∧
        previous.tag ≠ current.tag) ∧
      ∀ tag, warning.message ≠ Finding.driftMessage tag tag := by
  have hempty : Bindings.empty.Related
      (fun descriptor descriptor' => descriptor = descriptor' ∧
        descriptor.Resolved checker.registry) .empty := .nil
  have hhistory := (resolvedSimulation hbuilt).history hempty script.assignments
  refine ⟨fun steps hsteps entry hentry => ?_, fun warning hwarning => ?_⟩
  · have hprefix := List.forall₂_take steps.length hhistory
    have hsame : List.take steps.length (Bindings.empty.history checker.registry
        script.assignments) = steps := (List.prefix_iff_eq_take.mp hsteps).symm
    rw [hsame] at hprefix
    exact (List.forall₂_same.mp (hempty.after hprefix) entry hentry).2.2
  · simp only [Checker.check, h, Checker.checkScript] at hwarning
    obtain ⟨step, hstep, hwarning⟩ := List.mem_filterMap.mp hwarning
    obtain ⟨previous, hprevious, hne, rfl⟩ := exists_drift_of_ofStep? hwarning
    have hrelated := List.forall₂_same.mp hhistory step hstep
    have hcurrent := hrelated.current.2.base
    have hbefore : checker.registry.resolve? previous.base.tag = some previous.base := by
      have hrel := hrelated.previous
      rw [hprevious] at hrel
      cases hrel with
      | some hrel => exact hrel.2.base
    have htag : previous.base.tag ≠ step.current.base.tag := by
      intro heq
      rw [heq, hcurrent] at hbefore
      exact hne (Option.some.inj hbefore).symm
    exact ⟨⟨previous.base, step.current.base, rfl, htag⟩, Finding.driftMessage_ne
      (hbuilt.comma_not_mem hbefore) (hbuilt.comma_not_mem hcurrent) htag⟩

/-- A class of its own, which drifts to a table with a column of that class. -/
theorem check_tags_identify_types_widget :
    let checker := Checker.ofTagsLenient ["widget"] false
    ∃ script, Script.read "x <- structure(1, class = 'widget')\nx <- data.frame(a = x)\ny <- x$a" =
        .ok script ∧
      (∀ entry ∈ (Bindings.empty.after (checker.history script)).entries,
        entry.2.Resolved checker.registry) ∧
      ∀ warning ∈ (checker.check
          "x <- structure(1, class = 'widget')\nx <- data.frame(a = x)\ny <- x$a").warnings,
        ∀ tag, warning.message ≠ Finding.driftMessage tag tag := by
  intro checker
  obtain ⟨script, hread⟩ := Script.exists_read_of_isOk
    (show (Script.read "x <- structure(1, class = 'widget')\nx <- data.frame(a = x)\ny <- x$a").isOk =
      true by decide +kernel)
  obtain ⟨hresolved, hwarnings⟩ :=
    check_tags_identify_types checker (built_ofTagsLenient ["widget"]) hread
  exact ⟨script, hread, hresolved _ (List.prefix_refl _), fun warning h => (hwarnings warning h).2⟩

end TypeDrift
