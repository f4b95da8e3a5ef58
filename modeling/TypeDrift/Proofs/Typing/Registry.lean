import TypeDrift.Typing.Registry

/-! # Registering tags

A registry takes a tag that does not mean a type already and is written like a name.  What the tag
means from then on is a type of its own; what any other tag means stays as it was
(`Registry.resolve?_of_ne`).  So a registry that was built by registering tags holds no tag of the
language (`Registry.Built.builtin?_eq_none`), and a type can be told from its tag.
-/
namespace TypeDrift

open BaseType

theorem BaseType.mem_builtins_of_builtin? {tag : String} {base : BaseType}
    (h : builtin? tag = some base) : base ∈ builtins := by
  have haliases : ∀ entry ∈ aliases, entry.2 ∈ builtins := by decide
  unfold builtin? at h
  split at h
  · next entry hfind =>
    cases h
    exact haliases entry (List.mem_of_find?_eq_some hfind)
  · exact List.mem_of_find?_eq_some h

theorem BaseType.mem_builtins_of_isTabular {base : BaseType} (h : base.isTabular = true) :
    base ∈ builtins := by
  cases base with
  | dataFrame | dataTable | tibble => decide
  | _ => cases h

namespace Registry

theorem mem_insertTag {tag other : String} {tags : List String} :
    other ∈ insertTag tag tags ↔ other = tag ∨ other ∈ tags := by
  induction tags with
  | nil => simp [insertTag]
  | cons first tags ih =>
    unfold insertTag
    split
    · exact List.mem_cons
    · split
      · next heq => simp [heq]
      · rw [List.mem_cons, ih, List.mem_cons]
        exact or_left_comm

theorem register_eq_ok_iff {registry larger : Registry} {tag : String} :
    registry.register tag = .ok larger ↔
      builtin? tag = none ∧ isValidTag tag = true ∧ larger = ⟨insertTag tag registry.tags⟩ := by
  unfold register
  cases hbuiltin : builtin? tag with
  | some base => simp
  | none =>
    cases hvalid : isValidTag tag with
    | false => simp
    | true => simp [eq_comm]

section Register
variable {registry larger : Registry} {tag : String} (h : registry.register tag = .ok larger)
include h

theorem isRegistered_iff {other : String} :
    larger.isRegistered other = true ↔ other = tag ∨ registry.isRegistered other = true := by
  obtain ⟨-, -, rfl⟩ := register_eq_ok_iff.mp h
  simp only [isRegistered, List.contains_iff_mem]
  exact mem_insertTag

/-- A tag that has been registered means a type of its own. -/
theorem resolve?_self : larger.resolve? tag = some (.custom tag) := by
  obtain ⟨hbuiltin, -, -⟩ := register_eq_ok_iff.mp h
  simp only [resolve?, hbuiltin, if_pos ((isRegistered_iff h).mpr (.inl rfl))]

theorem isRegistered_of_ne {other : String} (hne : other ≠ tag) :
    larger.isRegistered other = registry.isRegistered other := by
  rw [Bool.eq_iff_iff, isRegistered_iff h]
  exact or_iff_right hne

/-- What another tag means stays as it was. -/
theorem resolve?_of_ne {other : String} (hne : other ≠ tag) :
    larger.resolve? other = registry.resolve? other := by
  simp only [resolve?, isRegistered_of_ne h hne]

/-- No base type of the language has a tag that can be registered. -/
theorem tag_ne_of_mem_builtins {base : BaseType} (hbase : base ∈ builtins) : base.tag ≠ tag := by
  rintro rfl
  obtain ⟨hbuiltin, -, -⟩ := register_eq_ok_iff.mp h
  rw [builtin?_tag hbase] at hbuiltin
  cases hbuiltin

end Register

/-- What a tag means is a base type of the language, or the tag itself as a type. -/
theorem mem_builtins_or_of_resolve? {registry : Registry} {tag : String} {base : BaseType}
    (h : registry.resolve? tag = some base) :
    base ∈ builtins ∨ base = .custom tag ∧ registry.isRegistered tag = true := by
  unfold resolve? at h
  split at h
  · next hbuiltin =>
    cases h
    exact .inl (mem_builtins_of_builtin? hbuiltin)
  · split at h
    · next hregistered =>
      cases h
      exact .inr ⟨rfl, hregistered⟩
    · cases h

theorem resolve?_of_mem_builtins (registry : Registry) {base : BaseType} (h : base ∈ builtins) :
    registry.resolve? base.tag = some base := by
  rw [resolve?, builtin?_tag h]

/-- **What a tag means has that tag**, or an alias of it. -/
theorem resolve?_tag {registry : Registry} {tag : String} {base : BaseType}
    (h : registry.resolve? tag = some base) : registry.resolve? base.tag = some base := by
  rcases mem_builtins_or_of_resolve? h with hbuiltin | ⟨rfl, -⟩
  · exact resolve?_of_mem_builtins registry hbuiltin
  · exact h

/-- The registries that are built by registering one tag after the other. -/
inductive Built : Registry → Prop where
  | empty : Built .empty
  | register {registry larger : Registry} {tag : String} (hbuilt : Built registry)
      (h : registry.register tag = .ok larger) : Built larger

/-- Tags that cannot be registered are left out, and the others are registered. -/
theorem built_ofTagsLenient (tags : List String) : (ofTagsLenient tags).Built := by
  suffices ∀ registry : Registry, registry.Built →
      (tags.foldl (fun registry tag => (registry.register tag).toOption.getD registry)
        registry).Built from this .empty .empty
  induction tags with
  | nil => exact fun registry h => h
  | cons tag tags ih =>
    intro registry h
    have hnext : ((registry.register tag).toOption.getD registry).Built := by
      cases hregister : registry.register tag with
      | error error => exact h
      | ok larger => exact h.register hregister
    exact ih _ hnext

theorem built_of_ofTags {tags : List String} {registry : Registry}
    (h : ofTags tags = .ok registry) : registry.Built := by
  suffices ∀ start : Registry, start.Built → tags.foldlM register start = .ok registry →
      registry.Built from this .empty .empty h
  clear h
  induction tags with
  | nil =>
    intro start hstart h
    cases h
    exact hstart
  | cons tag tags ih =>
    intro start hstart h
    rw [List.foldlM_cons] at h
    cases hregister : start.register tag with
    | error error =>
      rw [hregister] at h
      cases h
    | ok larger =>
      rw [hregister] at h
      exact ih larger (hstart.register hregister) h

namespace Built

variable {registry : Registry} (h : registry.Built) {tag : String}
  (htag : registry.isRegistered tag = true)
include h htag

theorem builtin?_eq_none : builtin? tag = none := by
  induction h with
  | empty => cases htag
  | register _ hregister ih =>
    rcases (isRegistered_iff hregister).mp htag with rfl | hother
    · exact (register_eq_ok_iff.mp hregister).1
    · exact ih hother

theorem isValidTag_eq_true : isValidTag tag = true := by
  induction h with
  | empty => cases htag
  | register _ hregister ih =>
    rcases (isRegistered_iff hregister).mp htag with rfl | hother
    · exact (register_eq_ok_iff.mp hregister).2.1
    · exact ih hother

theorem resolve?_eq : registry.resolve? tag = some (.custom tag) := by
  rw [resolve?, h.builtin?_eq_none htag]
  exact if_pos htag

end Built
end Registry
end TypeDrift
