import Mathlib.Data.List.Sort
import Mathlib.Data.String.Basic
import TypeDrift.Check.Checker
import TypeDrift.Proofs.Typing.Registry

/-! # Calls to register

Which tags can be registered is a matter of the tag alone (`Registry.Registrable`): it has to be
written like a name, and must neither be the tag of a type of the language nor another name of one.
So what a call to register answers does not depend on the calls before it, and the registry after any
number of calls holds the registrable tags among them, whatever their order and however often each
was called for.

A checker can be made of a list of tags in two ways.  Both come down to the same calls: one refuses
the whole list at its first tag that is not registrable, the other leaves such tags out.
-/
namespace TypeDrift

open BaseType

namespace Registry

/-! ## Registrable tags -/

/-- The letters from A to Z, small or capital. -/
def IsLetter (c : Char) : Prop := 'A' ≤ c ∧ c ≤ 'Z' ∨ 'a' ≤ c ∧ c ≤ 'z'

/-- The digits from 0 to 9. -/
def IsDigit (c : Char) : Prop := '0' ≤ c ∧ c ≤ '9'

/-- Written like a name: a letter or a dot, and then letters, digits, dots and underscores. -/
def NameLike (text : List Char) : Prop :=
  ∃ first rest, text = first :: rest ∧ (IsLetter first ∨ first = '.') ∧
    ∀ c ∈ rest, IsLetter c ∨ IsDigit c ∨ c = '.' ∨ c = '_'

/-- A tag that means a type already: the tag of a type of the language, or another name of one. -/
def Taken (tag : String) : Prop := tag ∈ builtins.map BaseType.tag ∨ tag ∈ aliases.map Prod.fst

/-- A tag that can be registered. -/
structure Registrable (tag : String) : Prop where
  nameLike : NameLike tag.toList
  free : ¬Taken tag

instance : DecidablePred Taken := fun tag =>
  inferInstanceAs (Decidable (tag ∈ builtins.map BaseType.tag ∨ tag ∈ aliases.map Prod.fst))

/-- Why a tag is refused that cannot be registered. -/
def refusal (tag : String) : RegistryError := if Taken tag then .builtin tag else .invalidTag tag

theorem builtin?_eq_none_iff {tag : String} : builtin? tag = none ↔ ¬Taken tag := by
  unfold builtin? Taken
  split
  · next entry hfind =>
    have hname : entry.1 = tag := by simpa using List.find?_some hfind
    have hmem := List.mem_map_of_mem (f := Prod.fst) (List.mem_of_find?_eq_some hfind)
    rw [hname] at hmem
    exact iff_of_false nofun fun hfree => hfree (.inr hmem)
  · next hfind =>
    have halias : tag ∉ aliases.map Prod.fst := fun hmem => by
      obtain ⟨entry, hentry, rfl⟩ := List.mem_map.mp hmem
      exact List.find?_eq_none.mp hfind entry hentry (beq_self_eq_true _)
    simp [halias]

theorem isLetter_iff {c : Char} : c.isAlpha = true ↔ IsLetter c := by
  have halpha : c.isAlpha =
      (decide ('A' ≤ c ∧ c ≤ 'Z') || (decide ('a' ≤ c) && decide (c ≤ 'z'))) := rfl
  simp only [halpha, IsLetter, Bool.or_eq_true, Bool.and_eq_true, decide_eq_true_eq]

theorem isDigit_iff {c : Char} : c.isDigit = true ↔ IsDigit c := by
  have hdigit : c.isDigit = (decide ('0' ≤ c) && decide (c ≤ '9')) := rfl
  simp only [hdigit, IsDigit, Bool.and_eq_true, decide_eq_true_eq]

theorem isTagStart_iff {c : Char} : isTagStart c = true ↔ IsLetter c ∨ c = '.' := by
  rw [isTagStart, Bool.or_eq_true, isLetter_iff, beq_iff_eq]

theorem isTagCharacter_iff {c : Char} :
    isTagCharacter c = true ↔ IsLetter c ∨ IsDigit c ∨ c = '.' ∨ c = '_' := by
  have halphanum : c.isAlphanum = (c.isAlpha || c.isDigit) := rfl
  simp only [isTagCharacter, halphanum, Bool.or_eq_true, isLetter_iff, isDigit_iff, beq_iff_eq,
    or_assoc]

theorem isValidTag_iff {tag : String} : isValidTag tag = true ↔ NameLike tag.toList := by
  unfold isValidTag NameLike
  split
  · next first rest htag =>
    simp only [htag, Bool.and_eq_true, isTagStart_iff, List.all_eq_true, isTagCharacter_iff]
    constructor
    · rintro ⟨hfirst, hrest⟩
      exact ⟨first, rest, rfl, hfirst, hrest⟩
    · rintro ⟨_, _, heq, hfirst, hrest⟩
      obtain ⟨rfl, rfl⟩ := List.cons.inj heq
      exact ⟨hfirst, hrest⟩
  · next htag => simp [htag]

theorem registrable_iff {tag : String} :
    Registrable tag ↔ builtin? tag = none ∧ isValidTag tag = true := by
  rw [builtin?_eq_none_iff, isValidTag_iff]
  exact ⟨fun h => ⟨h.free, h.nameLike⟩, fun h => ⟨h.2, h.1⟩⟩

instance : DecidablePred Registrable := fun _ => decidable_of_iff _ registrable_iff.symm

/-- **What a call to register does** is decided by its tag. -/
theorem register_eq (registry : Registry) (tag : String) :
    registry.register tag =
      if Registrable tag then .ok ⟨insertTag tag registry.tags⟩ else .error (refusal tag) := by
  unfold register refusal
  by_cases htaken : Taken tag
  · obtain ⟨base, hbase⟩ :=
      Option.ne_none_iff_exists'.mp fun hnone => builtin?_eq_none_iff.mp hnone htaken
    have hrefused : ¬Registrable tag := fun h => h.free htaken
    rw [hbase, if_neg hrefused, if_pos htaken]
    rfl
  · have hnone := builtin?_eq_none_iff.mpr htaken
    have hiff : Registrable tag ↔ isValidTag tag = true :=
      registrable_iff.trans (and_iff_right hnone)
    simp only [hnone, hiff, if_neg htaken]
    cases isValidTag tag <;> rfl

/-! ## Sorted tags -/

theorem pairwise_insertTag {tag : String} {tags : List String} (h : tags.Pairwise (· < ·)) :
    (insertTag tag tags).Pairwise (· < ·) := by
  induction tags with
  | nil => exact List.pairwise_singleton _ _
  | cons other others ih =>
    obtain ⟨hfirst, hothers⟩ := List.pairwise_cons.mp h
    unfold insertTag
    split
    · next hlt =>
      refine List.pairwise_cons.mpr ⟨fun later hmem => ?_, h⟩
      rcases List.mem_cons.mp hmem with rfl | hmem
      · exact hlt
      · exact hlt.trans (hfirst later hmem)
    · next hnot =>
      split
      · exact h
      · next hne =>
        have hlt : other < tag := lt_of_le_of_ne (not_lt.mp hnot) (Ne.symm hne)
        refine List.pairwise_cons.mpr ⟨fun later hmem => ?_, ih hothers⟩
        rcases mem_insertTag.mp hmem with rfl | hmem
        · exact hlt
        · exact hfirst later hmem

/-! ## One call after the other -/

/-- A call to register a tag: what is answered, and the registry behind it. One that is refused
leaves the registry as it is. -/
def call (registry : Registry) (tag : String) : Except RegistryError BaseType × Registry :=
  match registry.register tag with
  | .ok larger => (.ok (.custom tag), larger)
  | .error error => (.error error, registry)

/-- The calls for some tags: what is answered to each, and the registry behind them. -/
def callAll (registry : Registry) : List String → List (Except RegistryError BaseType) × Registry
  | [] => ([], registry)
  | tag :: tags =>
    let (answer, next) := registry.call tag
    let (answers, last) := next.callAll tags
    (answer :: answers, last)

theorem call_of_registrable {tag : String} (registry : Registry) (h : Registrable tag) :
    registry.call tag = (.ok (.custom tag), ⟨insertTag tag registry.tags⟩) := by
  rw [call, register_eq, if_pos h]

theorem call_of_not_registrable {tag : String} (registry : Registry) (h : ¬Registrable tag) :
    registry.call tag = (.error (refusal tag), registry) := by
  rw [call, register_eq, if_neg h]

theorem callAll_cons_snd (registry : Registry) (tag : String) (tags : List String) :
    (registry.callAll (tag :: tags)).2 = ((registry.call tag).2.callAll tags).2 := rfl

theorem callAll_append_snd (registry : Registry) (first second : List String) :
    (registry.callAll (first ++ second)).2 = ((registry.callAll first).2.callAll second).2 := by
  induction first generalizing registry with
  | nil => rfl
  | cons tag tags ih => exact ih _

/-- What is answered to a call does not depend on the calls before it. -/
theorem callAll_fst (registry : Registry) (tags : List String) :
    (registry.callAll tags).1 =
      tags.map fun tag => if Registrable tag then .ok (.custom tag) else .error (refusal tag) := by
  induction tags generalizing registry with
  | nil => rfl
  | cons tag tags ih =>
    rw [List.map_cons, ← ih (registry.call tag).2]
    by_cases h : Registrable tag
    · rw [if_pos h, callAll, call_of_registrable registry h]
    · rw [if_neg h, callAll, call_of_not_registrable registry h]

theorem pairwise_callAll {registry : Registry} (h : registry.tags.Pairwise (· < ·))
    (tags : List String) : (registry.callAll tags).2.tags.Pairwise (· < ·) := by
  induction tags generalizing registry with
  | nil => exact h
  | cons tag tags ih =>
    rw [callAll_cons_snd]
    refine ih ?_
    by_cases htag : Registrable tag
    · rw [call_of_registrable registry htag]
      exact pairwise_insertTag h
    · rwa [call_of_not_registrable registry htag]

theorem mem_callAll {registry : Registry} {tags : List String} {tag : String} :
    tag ∈ (registry.callAll tags).2.tags ↔
      tag ∈ registry.tags ∨ tag ∈ tags ∧ Registrable tag := by
  induction tags generalizing registry with
  | nil => simp [callAll]
  | cons first tags ih =>
    rw [callAll_cons_snd, ih]
    by_cases h : Registrable first
    · rw [call_of_registrable registry h, mem_insertTag, List.mem_cons]
      constructor
      · rintro ((rfl | hold) | hlater)
        · exact .inr ⟨.inl rfl, h⟩
        · exact .inl hold
        · exact .inr ⟨.inr hlater.1, hlater.2⟩
      · rintro (hold | ⟨rfl | hlater, htag⟩)
        · exact .inl (.inr hold)
        · exact .inl (.inl rfl)
        · exact .inr ⟨hlater, htag⟩
    · rw [call_of_not_registrable registry h, List.mem_cons]
      refine or_congr_right (and_congr_left fun htag => (or_iff_right ?_).symm)
      rintro rfl
      exact h htag

/-- Calls that end with the same tags end with the same registry. -/
theorem callAll_eq_of_mem_iff {calls others : List String}
    (h : ∀ tag, Registrable tag → (tag ∈ calls ↔ tag ∈ others)) :
    (empty.callAll calls).2 = (empty.callAll others).2 := by
  have hsorted : ∀ tags, (empty.callAll tags).2.tags.Pairwise (· < ·) := pairwise_callAll .nil
  have htags := (hsorted calls).eq_of_mem_iff (hsorted others) fun tag => by
    rw [mem_callAll, mem_callAll]
    exact or_congr_right (and_congr_left (h tag))
  exact congrArg Registry.mk htags

/-! ## Registries of lists of tags -/

theorem ofTagsLenient_eq (tags : List String) : ofTagsLenient tags = (empty.callAll tags).2 := by
  suffices ∀ registry : Registry,
      tags.foldl (fun registry tag => (registry.register tag).toOption.getD registry) registry =
        (registry.callAll tags).2 from this .empty
  induction tags with
  | nil => exact fun _ => rfl
  | cons tag tags ih =>
    intro registry
    have hcall : (registry.register tag).toOption.getD registry = (registry.call tag).2 := by
      unfold call
      cases registry.register tag <;> rfl
    rw [List.foldl_cons, hcall, ih, callAll_cons_snd]

theorem ofTags_eq (tags : List String) :
    ofTags tags =
      match tags.find? fun tag => !decide (Registrable tag) with
      | some tag => .error (refusal tag)
      | none => .ok (empty.callAll tags).2 := by
  suffices ∀ registry : Registry,
      tags.foldlM register registry =
        match tags.find? fun tag => !decide (Registrable tag) with
        | some tag => .error (refusal tag)
        | none => .ok (registry.callAll tags).2 from this .empty
  induction tags with
  | nil => exact fun _ => rfl
  | cons tag tags ih =>
    intro registry
    rw [List.foldlM_cons, register_eq]
    by_cases h : Registrable tag
    · rw [if_pos h, List.find?_cons_of_neg (by simpa using h), callAll_cons_snd,
        call_of_registrable registry h]
      exact ih _
    · rw [if_neg h, List.find?_cons_of_pos (by simpa using h)]
      rfl

/-- The tags that are left out make no difference. -/
theorem callAll_filter (tags : List String) :
    (empty.callAll (tags.filter Registrable)).2 = (empty.callAll tags).2 :=
  callAll_eq_of_mem_iff fun tag htag => by simp [htag]

theorem ofTags_eq_error_iff {tags : List String} {error : RegistryError} :
    ofTags tags = .error error ↔
      ∃ earlier tag later, tags = earlier ++ tag :: later ∧ (∀ other ∈ earlier, Registrable other) ∧
        ¬Registrable tag ∧ error = refusal tag := by
  rw [ofTags_eq]
  constructor
  · intro h
    split at h
    · next tag hfind =>
      obtain ⟨htag, earlier, later, htags, hearlier⟩ := List.find?_eq_some_iff_append.mp hfind
      exact ⟨earlier, tag, later, htags, by simpa using hearlier, by simpa using htag,
        (Except.error.inj h).symm⟩
    · cases h
  · rintro ⟨earlier, tag, later, rfl, hearlier, htag, rfl⟩
    have hfind : (earlier ++ tag :: later).find? (fun tag => !decide (Registrable tag)) =
        some tag :=
      List.find?_eq_some_iff_append.mpr
        ⟨by simpa using htag, earlier, later, rfl, by simpa using hearlier⟩
    rw [hfind]

theorem ofTags_of_forall {tags : List String} (h : ∀ tag ∈ tags, Registrable tag) :
    ofTags tags = .ok (empty.callAll tags).2 := by
  have hfind : tags.find? (fun tag => !decide (Registrable tag)) = none :=
    List.find?_eq_none.mpr (by simpa using h)
  rw [ofTags_eq, hfind]

end Registry

namespace Checker

open Registry

/-- **Registering by calls.**  After any calls on no tags at all:

* each call was answered by its tag alone, with the type of the tag exactly if the tag is registrable,
  and a refused call leaves the registry as it is;
* the registered tags are the registrable ones among the calls, sorted, each once; and so other calls
  for the same registrable tags, in any order and any number, end with the same registry;
* a tag means the type of the language that it stands for, if there is one; a registered tag means
  the type of its own; and no other tag means anything.

For any list of tags, making a checker of it fails exactly if one of them is not registrable, with
the reason why the first such tag is refused, and else it has the registry after the calls for them.
The checker that leaves out tags is the one made of the registrable ones. -/
theorem registers_by_calls (calls : List String) (strict : Bool) :
    (empty.callAll calls).1 =
        calls.map (fun tag =>
          if Registrable tag then .ok (.custom tag) else .error (refusal tag)) ∧
      (∀ tag, ¬Registrable tag →
        (empty.callAll (calls ++ [tag])).2 = (empty.callAll calls).2) ∧
      (empty.callAll calls).2.tags.Pairwise (· < ·) ∧
      (∀ tag, tag ∈ (empty.callAll calls).2.tags ↔ tag ∈ calls ∧ Registrable tag) ∧
      (∀ others, (∀ tag, Registrable tag → (tag ∈ calls ↔ tag ∈ others)) →
        (empty.callAll others).2 = (empty.callAll calls).2) ∧
      (∀ tag,
        (∀ base, builtin? tag = some base → (empty.callAll calls).2.resolve? tag = some base) ∧
        (tag ∈ (empty.callAll calls).2.tags →
          (empty.callAll calls).2.resolve? tag = some (.custom tag)) ∧
        (builtin? tag = none → tag ∉ (empty.callAll calls).2.tags →
          (empty.callAll calls).2.resolve? tag = none)) ∧
      (∀ error, Checker.ofTags calls strict = .error error ↔
        ∃ earlier tag later, calls = earlier ++ tag :: later ∧
          (∀ other ∈ earlier, Registrable other) ∧ ¬Registrable tag ∧ error = refusal tag) ∧
      ((∀ tag ∈ calls, Registrable tag) →
        Checker.ofTags calls strict = .ok ⟨(empty.callAll calls).2, strict⟩) ∧
      Checker.ofTags (calls.filter Registrable) strict =
        .ok (Checker.ofTagsLenient calls strict) := by
  have hmem : ∀ tag, tag ∈ (empty.callAll calls).2.tags ↔ tag ∈ calls ∧ Registrable tag :=
    fun tag => mem_callAll.trans (or_iff_right List.not_mem_nil)
  refine ⟨callAll_fst _ _, fun tag htag => ?_, pairwise_callAll .nil calls, hmem,
    fun others h => (callAll_eq_of_mem_iff h).symm, fun tag => ⟨fun base hbase => ?_, ?_, ?_⟩,
    fun error => ?_, fun h => ?_, ?_⟩
  · rw [callAll_append_snd, callAll_cons_snd, call_of_not_registrable _ htag]
    rfl
  · rw [resolve?, hbase]
  · intro htag
    have hnone := builtin?_eq_none_iff.mpr ((hmem tag).mp htag).2.free
    rw [resolve?, hnone]
    exact if_pos (List.contains_iff_mem.mpr htag)
  · intro hnone htag
    rw [resolve?, hnone]
    exact if_neg fun h => htag (List.contains_iff_mem.mp h)
  · rw [← ofTags_eq_error_iff, Checker.ofTags]
    cases Registry.ofTags calls <;> simp [Except.map]
  · rw [Checker.ofTags, ofTags_of_forall h]
    rfl
  · rw [Checker.ofTags, ofTags_of_forall (by simp), callAll_filter, Checker.ofTagsLenient,
      ofTagsLenient_eq]
    rfl

/-- A tag that is called for twice, another name of a type, and a tag that is not written like a
name. -/
example :
    empty.callAll ["money", "R6", "_x", ".a1", "money"] =
      ([.ok (.custom "money"), .error (.builtin "R6"), .error (.invalidTag "_x"),
        .ok (.custom ".a1"), .ok (.custom "money")], ⟨[".a1", "money"]⟩) := by
  rfl

end Checker
end TypeDrift
