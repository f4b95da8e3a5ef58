import TypeDrift.Proofs.Typing.Columns
import TypeDrift.Proofs.Typing.Registration

/-! # Types accept the values they come from

What a value is inferred to be and which values a type accepts are two tables, written apart from one
another.  They agree: the base type of a value accepts it (`Descriptor.accepts_ofBase_ofValue`), be it
one of the language or a class of its own, and whatever else is recorded of the value takes nothing
away from that (`Descriptor.accepts_of_ofBase`).

For a table this goes on with its columns.  They are recorded by name, of two with one name the later,
and each by the tag of its type.  That tag means the type again (`Descriptor.told_ofValue`), and so a
type that accepts the column.
-/
namespace TypeDrift

open BaseType

namespace Fields

variable {α : Type}

theorem mem_keys_insert {key other : String} {value : α} {fields : Fields α} :
    other ∈ (insert key value fields).map Prod.fst ↔ other = key ∨ other ∈ fields.map Prod.fst := by
  induction fields with
  | nil => simp [insert]
  | cons entry fields ih =>
    unfold insert
    split
    · exact List.mem_cons
    · split
      · next heq => simp [heq]
      · rw [List.map_cons, List.mem_cons, ih, List.map_cons, List.mem_cons]
        exact or_left_comm

/-- Sorting keeps the keys. -/
theorem mem_keys_sorted {entries : List (String × α)} {key : String} :
    key ∈ (sorted entries).map Prod.fst ↔ key ∈ entries.map Prod.fst := by
  induction entries using List.reverseRecOn with
  | nil => exact Iff.rfl
  | append_singleton entries entry ih =>
    have hsorted : sorted (entries ++ [entry]) = (sorted entries).insert entry.1 entry.2 :=
      List.foldl_concat ..
    rw [hsorted, mem_keys_insert, ih, List.map_append, List.mem_append, List.map_singleton,
      List.mem_singleton]
    exact or_comm

theorem keys_insert_increase {key : String} {value : α} {fields : Fields α}
    (h : (fields.map Prod.fst).Pairwise (· < ·)) :
    ((insert key value fields).map Prod.fst).Pairwise (· < ·) := by
  induction fields with
  | nil => exact List.pairwise_singleton _ _
  | cons entry fields ih =>
    obtain ⟨hfirst, hothers⟩ := List.pairwise_cons.mp h
    unfold insert
    split
    · next hlt =>
      refine List.pairwise_cons.mpr ⟨fun later hmem => ?_, h⟩
      rcases List.mem_cons.mp hmem with rfl | hmem
      · exact hlt
      · exact hlt.trans (hfirst later hmem)
    · next hnot =>
      split
      · next heq => exact heq ▸ h
      · next hne =>
        have hlt : entry.1 < key := lt_of_le_of_ne (not_lt.mp hnot) (Ne.symm hne)
        refine List.pairwise_cons.mpr ⟨fun later hmem => ?_, ih hothers⟩
        rcases mem_keys_insert.mp hmem with rfl | hmem
        · exact hlt
        · exact hfirst later hmem

/-- Sorted entries have increasing keys. -/
theorem keys_sorted_increase (entries : List (String × α)) :
    ((sorted entries).map Prod.fst).Pairwise (· < ·) := by
  induction entries using List.reverseRecOn with
  | nil => exact .nil
  | append_singleton entries entry ih =>
    have hsorted : sorted (entries ++ [entry]) = (sorted entries).insert entry.1 entry.2 :=
      List.foldl_concat ..
    rw [hsorted]
    exact keys_insert_increase ih

end Fields

namespace Descriptor

variable {registry : Registry}

/-- What more is known of a type than its base takes no value away. -/
theorem accepts_of_ofBase {descriptor : Descriptor} {value : Value}
    (h : (ofBase descriptor.base).accepts value = true) : descriptor.accepts value = true := by
  obtain ⟨base, nullable, attributes⟩ := descriptor
  cases base <;> cases value <;> simp_all [accepts, ofBase]

/-! ## The two tables -/

/-- An object of a class is of the type of its class, or of the general one. -/
theorem base_classType (registry : Registry) (className : String) (general : BaseType) :
    registry.isRegistered className = true ∧
        (registry.classType className general).base = .custom className ∨
      (registry.classType className general).base = general := by
  unfold Registry.classType
  split
  · next hregistered => exact .inl ⟨hregistered, rfl⟩
  · exact .inr rfl

theorem base_ofValue_s3 (registry : Registry) (classes : List String) (data : Value) :
    (∃ className, className ∈ classes ∧ registry.isRegistered className = true ∧
        (ofValue registry (.s3 classes data)).base = .custom className) ∨
      (ofValue registry (.s3 classes data)).base = .s3 := by
  cases classes with
  | nil => exact .inr (by rw [ofValue]; rfl)
  | cons className classes =>
    rw [ofValue]
    refine (base_classType registry className .s3).imp_left fun ⟨hregistered, hbase⟩ => ?_
    exact ⟨className, List.mem_cons_self, hregistered, hbase⟩

theorem accepts_custom {className : String} {value : Value} (hnull : value ≠ .null)
    (hclass : className ∈ value.classes) :
    (ofBase (.custom className)).accepts value = true := by
  have hclass' : value.classes.contains className = true := List.contains_iff_mem.mpr hclass
  cases value with
  | null => exact absurd rfl hnull
  | _ => exact hclass'

/-- **The base type of a value accepts it.** -/
theorem accepts_ofBase_ofValue (registry : Registry) (value : Value) :
    (ofBase (ofValue registry value).base).accepts value = true := by
  cases value with
  | table flavour columns => cases flavour <;> rw [ofValue] <;> rfl
  | s3 classes data =>
    rcases base_ofValue_s3 registry classes data with ⟨className, hmem, -, hbase⟩ | hbase
    · rw [hbase]
      exact accepts_custom nofun hmem
    · rw [hbase]
      rfl
  | s4 className =>
    rw [ofValue]
    rcases base_classType registry className .s4 with ⟨-, hbase⟩ | hbase
    · rw [hbase]
      exact accepts_custom nofun (List.mem_singleton.mpr rfl)
    · rw [hbase]
      rfl
  | _ =>
    rw [ofValue]
    rfl

/-- **The type of a value is told by its tag.** -/
theorem told_ofValue (hbuilt : registry.Built) (value : Value) :
    (ofValue registry value).Told registry := by
  have hcustom {descriptor : Descriptor} {className : String}
      (hregistered : registry.isRegistered className = true)
      (hbase : descriptor.base = .custom className) : descriptor.Told registry := by
    rw [Told, hbase]
    exact hbuilt.resolve?_eq hregistered
  cases value with
  | table flavour columns =>
    have hbase : flavour.base ∈ builtins := by cases flavour <;> decide
    exact told_of_base (by rw [ofValue]; rfl) hbase
  | s3 classes data =>
    rcases base_ofValue_s3 registry classes data with ⟨_, -, hregistered, hbase⟩ | hbase
    · exact hcustom hregistered hbase
    · exact told_of_base hbase (by decide)
  | s4 className =>
    rw [ofValue]
    rcases base_classType registry className .s4 with ⟨hregistered, hbase⟩ | hbase
    · exact hcustom hregistered hbase
    · exact told_of_base hbase (by decide)
  | _ =>
    rw [ofValue]
    refine told_of_base rfl ?_
    simp [builtins, sized, ofArguments, withAttribute, ofBase, null]

/-! ## The columns of a table -/

theorem columnTags_eq (registry : Registry) (columns : List (String × Value)) :
    columnTags registry columns =
      columns.map fun column => (column.1, (ofValue registry column.2).base.tag) := by
  induction columns with
  | nil => rw [columnTags, List.map_nil]
  | cons column columns ih => rw [columnTags, ih, List.map_cons]

/-- What is recorded of the columns of a table. -/
theorem columns?_ofColumns (base : BaseType) (tags : List (String × String)) :
    (ofColumns base tags).columns? =
      some (Fields.sorted (tags.map fun tag => (tag.1, Data.text tag.2))) := by
  rw [columns?, ofColumns, attribute?_withAttribute_self]
  rfl

/-- The last of the columns with a name is the one whose tag is recorded. -/
theorem columnTag?_ofValue_table (registry : Registry) (flavour : TableFlavour) {name : String}
    {column : Value} {before behind : List (String × Value)}
    (hlast : ∀ other ∈ behind, other.1 ≠ name) :
    (ofValue registry (.table flavour (before ++ (name, column) :: behind))).columnTag? name =
      some (ofValue registry column).base.tag := by
  rw [ofValue, columnTags_eq, columnTag?_ofColumns]
  simp only [List.map_map, List.map_append, List.map_cons]
  rw [Fields.get?_sorted_last]
  · rfl
  · intro entry hentry
    obtain ⟨other, hother, rfl⟩ := List.mem_map.mp hentry
    exact hlast other hother

/-- **The type of a value accepts it**, whatever classes are registered.  Of a table, the names of its
columns are recorded, each of them once, and under each name the tag of a type that accepts the last
column with that name. -/
theorem accepts_ofValue (hbuilt : registry.Built) (value : Value) :
    (ofValue registry value).accepts value = true ∧
      ∀ flavour columns, value = .table flavour columns →
        (∃ fields, (ofValue registry value).columns? = some fields ∧
          (fields.map Prod.fst).Nodup ∧
          ∀ name, name ∈ fields.map Prod.fst ↔ name ∈ columns.map Prod.fst) ∧
        ∀ before name column behind, columns = before ++ (name, column) :: behind →
          (∀ other ∈ behind, other.1 ≠ name) →
            ∃ tag base, (ofValue registry value).columnTag? name = some tag ∧
              registry.resolve? tag = some base ∧ (ofBase base).accepts column = true := by
  refine ⟨accepts_of_ofBase (accepts_ofBase_ofValue registry value), ?_⟩
  rintro flavour columns rfl
  refine ⟨?_, ?_⟩
  · rw [ofValue, columns?_ofColumns, columnTags_eq]
    refine ⟨_, rfl, (Fields.keys_sorted_increase _).imp ne_of_lt, fun name => ?_⟩
    rw [Fields.mem_keys_sorted, List.map_map, List.map_map]
    rfl
  · rintro before name column behind rfl hlast
    exact ⟨_, _, columnTag?_ofValue_table registry flavour hlast, told_ofValue hbuilt column,
      accepts_ofBase_ofValue registry column⟩

/-- A table with two columns of one name, the first of them null and the last of a registered class,
and with a table and an object of no registered class for columns. -/
theorem accepts_ofValue_nested :
    let registry := Registry.ofTagsLenient ["widget"]
    let widget : Value := .s3 ["widget", "list"] (.list [])
    let inner : Value := .table .tibble [("x", .null)]
    let columns := [("a", .null), ("b", inner), ("a", widget), ("c", .s3 [] .null)]
    let value : Value := .table .dataTable columns
    registry.Built ∧ (ofValue registry value).accepts value = true ∧
      columns = [("a", .null), ("b", inner)] ++ ("a", widget) :: [("c", .s3 [] .null)] ∧
      (∀ other ∈ [("c", Value.s3 [] .null)], other.1 ≠ "a") ∧
      ∃ tag base, (ofValue registry value).columnTag? "a" = some tag ∧
        registry.resolve? tag = some base ∧ (ofBase base).accepts widget = true := by
  intro registry widget inner columns value
  have hbuilt : registry.Built := Registry.built_ofTagsLenient ["widget"]
  obtain ⟨haccepts, htable⟩ := accepts_ofValue hbuilt value
  have hlast : ∀ other ∈ [("c", Value.s3 [] .null)], other.1 ≠ "a" := by simp
  exact ⟨hbuilt, haccepts, rfl, hlast,
    (htable .dataTable columns rfl).2 [("a", .null), ("b", inner)] "a" widget _ rfl hlast⟩

end Descriptor
end TypeDrift
