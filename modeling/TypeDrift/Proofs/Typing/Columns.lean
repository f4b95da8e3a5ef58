import TypeDrift.Proofs.Check.Nullable
import TypeDrift.Proofs.Typing.Calls

/-! # Columns that are written and read

A call that makes a table records the type of each column by its tag, under its name, and reading the
column looks the tag up.  Between the two stand a sorted list in which a later entry takes the place of
an earlier one (`Fields.get?_sorted_last`), the names that are options and no columns, and the
registry.  The tag comes back as the type it was made from because every type that is inferred is told
by its tag, as long as this is so of what the names in scope are bound to (`Expr.resolve?_infer`).  So a
column has the base type of what it was made from, and a name that no column has is unknown
(`Expr.infer_column`).
-/
namespace TypeDrift

open BaseType

namespace Fields

variable {α : Type} {key : String}

theorem get?_foldl_insert_of_ne {entries : List (String × α)}
    (h : ∀ entry ∈ entries, entry.1 ≠ key) (fields : Fields α) :
    get? (entries.foldl (fun fields entry => fields.insert entry.1 entry.2) fields) key =
      get? fields key := by
  induction entries generalizing fields with
  | nil => rfl
  | cons entry entries ih =>
    obtain ⟨hentry, hentries⟩ := List.forall_mem_cons.mp h
    rw [List.foldl_cons, ih hentries, get?_insert_of_ne hentry.symm]

/-- Of the entries with one key the last one stays. -/
theorem get?_sorted_last {value : α} {before behind : List (String × α)}
    (h : ∀ entry ∈ behind, entry.1 ≠ key) :
    get? (sorted (before ++ (key, value) :: behind)) key = some value := by
  rw [sorted, List.foldl_append, List.foldl_cons, get?_foldl_insert_of_ne h, get?_insert_self]

end Fields

/-! ## Types that are told by their tags -/

theorem BaseType.mem_builtins_or_custom (base : BaseType) :
    base ∈ builtins ∨ ∃ tag, base = .custom tag := by
  cases base with
  | custom tag => exact .inr ⟨tag, rfl⟩
  | _ => exact .inl (by decide)

/-- What the tag of a type means is that type. -/
def Descriptor.Told (registry : Registry) (descriptor : Descriptor) : Prop :=
  registry.resolve? descriptor.base.tag = some descriptor.base

theorem Descriptor.told_of_base {registry : Registry} {descriptor : Descriptor} {base : BaseType}
    (h : descriptor.base = base) (hbase : base ∈ builtins) : descriptor.Told registry := by
  rw [Told, h]
  exact Registry.resolve?_of_mem_builtins registry hbase

/-- The rules of inference make types that are told by their tags, even where anything may be recorded
of a table: what is read there is looked up. -/
theorem toldSimulation {registry : Registry} (hbuilt : registry.Built) :
    Simulation (fun descriptor _ => descriptor.Told registry) registry registry where
  base _ hbase := Descriptor.told_of_base rfl hbase.1
  null := Descriptor.told_of_base rfl (by decide)
  arguments _ := Descriptor.told_of_base rfl (show BaseType.function ∈ builtins by decide)
  generator := Descriptor.told_of_base rfl (by decide)
  generatorOf _ := Descriptor.told_of_base rfl (show BaseType.objectRef ∈ builtins by decide)
  classType className general hgeneral := by
    unfold Registry.classType
    split
    · next hregistered => exact hbuilt.resolve?_eq hregistered
    · have hbuiltin : general ∈ builtins := by rcases hgeneral with rfl | rfl <;> decide
      exact Descriptor.told_of_base rfl hbuiltin
  length h _ := h
  columns _ htabular _ _ _ := Descriptor.told_of_base rfl (mem_builtins_of_isTabular htabular)
  member {descriptor _} _ name := Descriptor.resolve?_ofMember registry descriptor name
  instanceOf {descriptor _} _ :=
    Descriptor.told_of_base (Descriptor.base_instanceOf descriptor) (by decide)

/-- Every class that a name is bound to as a type of its own has been registered. -/
def Bindings.Registered (registry : Registry) (bindings : Bindings) : Prop :=
  bindings.Forall fun descriptor =>
    ∀ tag, descriptor.base = .custom tag → registry.isRegistered tag = true

/-- **Every type that is inferred is told by its tag.** -/
theorem Expr.resolve?_infer {registry : Registry} (hbuilt : registry.Built) {bindings : Bindings}
    (hbindings : bindings.Registered registry) (e : Expr) :
    (e.infer registry bindings).Told registry := by
  have htold : bindings.Forall (Descriptor.Told registry) := by
    intro name descriptor hlookup
    rcases mem_builtins_or_custom descriptor.base with hbase | ⟨tag, hbase⟩
    · exact Descriptor.told_of_base rfl hbase
    · have hregistered := hbindings name descriptor hlookup tag hbase
      rw [Descriptor.Told, hbase]
      exact hbuilt.resolve?_eq hregistered
  exact (toldSimulation hbuilt).infer htold.agree e

/-! ## The columns of a call -/

/-- A column is made of the last argument that has its name and a value.  The name must not be that of
an option. -/
def Argument.MakesColumn {ε : Type} (arguments : List (Argument ε)) (name : String) (value : ε) :
    Prop :=
  name ∉ Rule.tableOptions ∧ ∃ before behind, arguments = before ++ ⟨some name, some value⟩ :: behind ∧
    ∀ argument ∈ behind, argument.name = some name → argument.value = none

/-- Of the arguments with a name and a value there is a last one. -/
theorem Argument.exists_makesColumn {ε : Type} {arguments : List (Argument ε)} {name : String}
    {value : ε} (hoption : name ∉ Rule.tableOptions) (h : ⟨some name, some value⟩ ∈ arguments) :
    ∃ last, MakesColumn arguments name last := by
  induction arguments generalizing value with
  | nil => cases h
  | cons first arguments ih =>
    by_cases hlater : ∃ later, ⟨some name, some later⟩ ∈ arguments
    · obtain ⟨later, hlater⟩ := hlater
      obtain ⟨last, -, before, behind, rfl, hbehind⟩ := ih hlater
      exact ⟨last, hoption, first :: before, behind, rfl, hbehind⟩
    · obtain rfl := (List.mem_cons.mp h).resolve_right fun hmem => hlater ⟨value, hmem⟩
      refine ⟨value, hoption, [], arguments, rfl, ?_⟩
      rintro ⟨_, _ | later⟩ hmem rfl
      · rfl
      · exact absurd ⟨later, hmem⟩ hlater

namespace Expr

variable (registry : Registry) (bindings : Bindings) {arguments : List (Argument Expr)} {name : String}

/-- The columns that a call records: their names, and the tags of their types. -/
def columns (arguments : List (Argument Expr)) : List (String × String) :=
  (arguments.map (Argument.map (typedIn registry bindings))).filterMap Rule.column?

variable {registry bindings} in
/-- A column that is recorded is made of an argument. -/
theorem exists_argument_of_mem_columns {column : String × String}
    (h : column ∈ columns registry bindings arguments) :
    column.1 ∉ Rule.tableOptions ∧ ∃ value : Expr, ⟨some column.1, some value⟩ ∈ arguments := by
  rw [columns, List.filterMap_map] at h
  obtain ⟨⟨_ | other, _ | value⟩, hmem, hcolumn⟩ := List.mem_filterMap.mp h
  · cases hcolumn
  · cases hcolumn
  · cases hcolumn
  · simp only [Function.comp_apply, Argument.map, Option.map_some, Rule.column?] at hcolumn
    split at hcolumn
    · cases hcolumn
    · next hoption =>
      cases hcolumn
      exact ⟨hoption, value, hmem⟩

/-- The tag of the last argument with the name is what stays under it. -/
theorem columnTag?_of_makesColumn {value : Expr} (h : Argument.MakesColumn arguments name value)
    (base : BaseType) :
    (Descriptor.ofColumns base (columns registry bindings arguments)).columnTag? name =
      some (value.infer registry bindings).base.tag := by
  obtain ⟨hoption, before, behind, rfl, hbehind⟩ := h
  have hcolumn : Rule.column? ⟨some name, some (value.typedIn registry bindings)⟩ =
      some (name, (value.infer registry bindings).base.tag) := if_neg hoption
  have hcolumns : columns registry bindings (before ++ ⟨some name, some value⟩ :: behind) =
      columns registry bindings before ++ (name, (value.infer registry bindings).base.tag) ::
        columns registry bindings behind := by
    simp only [columns, List.map_append, List.map_cons, List.filterMap_append, Argument.map,
      Option.map_some, List.filterMap_cons_some hcolumn]
  rw [Descriptor.columnTag?_ofColumns, hcolumns, List.map_append, List.map_cons,
    Fields.get?_sorted_last]
  · rfl
  · intro entry hentry heq
    obtain ⟨column, hmem, rfl⟩ := List.mem_map.mp hentry
    obtain ⟨-, later, hlater⟩ := exists_argument_of_mem_columns hmem
    cases hbehind _ hlater (congrArg some heq)

/-- Under a name that no argument makes a column of nothing is recorded. -/
theorem columnTag?_eq_none (h : ∀ value, ¬ Argument.MakesColumn arguments name value)
    (base : BaseType) :
    (Descriptor.ofColumns base (columns registry bindings arguments)).columnTag? name = none := by
  rw [Descriptor.columnTag?_ofColumns, Fields.sorted, Fields.get?_foldl_insert_of_ne]
  · rfl
  · rintro entry hentry rfl
    obtain ⟨column, hmem, rfl⟩ := List.mem_map.mp hentry
    obtain ⟨hoption, value, hvalue⟩ := exists_argument_of_mem_columns hmem
    obtain ⟨last, hlast⟩ := Argument.exists_makesColumn hoption hvalue
    exact h last hlast

/-- The functions that make tables of their arguments. -/
def tableFunctions : List String := ["data.frame", "data.table", "tibble"]

/-- A call of one of them is a table with the columns that its arguments make. -/
theorem infer_table {callee : Expr} {function : String} (hcallee : callee.functionName? = some function)
    (hfunction : function ∈ tableFunctions) (range : TokenRange) (arguments : List (Argument Expr)) :
    ∃ base : BaseType, base.isTabular = true ∧
      (node range (.call callee arguments)).infer registry bindings =
        .ofColumns base (columns registry bindings arguments) := by
  have hrule : ∀ name ∈ tableFunctions, ∃ signature base, Signature.find? name = some signature ∧
      signature.rule = .table base ∧ base.isTabular = true := by
    simp only [tableFunctions, List.forall_mem_cons]
    refine ⟨⟨.ruled "data.frame" (.table .dataFrame), .dataFrame, by decide +kernel, rfl, rfl⟩,
      ⟨.ruled "data.table" (.table .dataTable), .dataTable, by decide +kernel, rfl, rfl⟩,
      ⟨.ruled "tibble" (.table .tibble), .tibble, by decide +kernel, rfl, rfl⟩, nofun⟩
  obtain ⟨signature, base, hfind, hsignature, htabular⟩ := hrule function hfunction
  refine ⟨base, htabular, ?_⟩
  rw [infer_call hcallee, Descriptor.ofCall, Option.bind_some, hfind]
  simp only [Signature.result, hsignature]
  rfl

section Reading
variable {registry bindings} {base : BaseType} (htabular : base.isTabular = true) {later : Bindings}
  {target : Expr}
  (htarget : target.infer registry later = .ofColumns base (columns registry bindings arguments))
include htabular htarget

/-- What is read of a table is what the tag of the column means. -/
theorem infer_member_table (place : TokenRange) (name : String) :
    (node place (.member target name false)).infer registry later =
      ((Descriptor.ofColumns base (columns registry bindings arguments)).columnTag? name).elim
        .unknown (Descriptor.meant registry) := by
  rw [← Descriptor.ofMember_eq_meant htabular, ← htarget]
  rfl

theorem base_infer_member_table (hbuilt : registry.Built) (hbindings : bindings.Registered registry)
    {value : Expr} (h : Argument.MakesColumn arguments name value) (place : TokenRange) :
    ((node place (.member target name false)).infer registry later).base =
      (value.infer registry bindings).base := by
  rw [infer_member_table htabular htarget, columnTag?_of_makesColumn registry bindings h,
    Option.elim_some, Descriptor.meant, resolve?_infer hbuilt hbindings value]
  rfl

theorem infer_member_table_eq_unknown (h : ∀ value, ¬ Argument.MakesColumn arguments name value)
    (place : TokenRange) :
    (node place (.member target name false)).infer registry later = .unknown := by
  rw [infer_member_table htabular htarget, columnTag?_eq_none registry bindings h, Option.elim_none]

end Reading

/-- **Reading a column gives back the base type that it was made from**, of the call itself or of a
name that is bound to it, in any bindings.  A name that no column has is unknown in both. -/
theorem infer_column {registry : Registry} (hbuilt : registry.Built) {bindings : Bindings}
    (hbindings : bindings.Registered registry) {callee : Expr} {function : String}
    (hcallee : callee.functionName? = some function) (hfunction : function ∈ tableFunctions)
    (range : TokenRange) (arguments : List (Argument Expr)) :
    let call := node range (.call callee arguments)
    ∀ name place,
      (∀ value, Argument.MakesColumn arguments name value →
        ((node place (.member call name false)).infer registry bindings).base =
          (value.infer registry bindings).base ∧
        ∀ (later : Bindings) table site,
          later.lookup? table = some (call.infer registry bindings) →
            ((node place (.member (node site (.identifier table)) name false)).infer
              registry later).base = (value.infer registry bindings).base) ∧
      ((∀ value, ¬ Argument.MakesColumn arguments name value) →
        (node place (.member call name false)).infer registry bindings = .unknown ∧
        ∀ (later : Bindings) table site,
          later.lookup? table = some (call.infer registry bindings) →
            (node place (.member (node site (.identifier table)) name false)).infer
              registry later = .unknown) := by
  intro call name place
  obtain ⟨base, htabular, hcall⟩ :=
    infer_table registry bindings hcallee hfunction range arguments
  have hname {later : Bindings} {table : String}
      (hlookup : later.lookup? table = some (call.infer registry bindings)) (site : TokenRange) :
      (node site (.identifier table)).infer registry later =
        .ofColumns base (columns registry bindings arguments) := by
    rw [infer, inferForm, Descriptor.ofName, hlookup]
    exact hcall
  refine ⟨fun value h => ⟨?_, fun later table site hlookup => ?_⟩,
    fun h => ⟨?_, fun later table site hlookup => ?_⟩⟩
  · exact base_infer_member_table htabular hcall hbuilt hbindings h place
  · exact base_infer_member_table htabular (hname hlookup site) hbuilt hbindings h place
  · exact infer_member_table_eq_unknown htabular hcall h place
  · exact infer_member_table_eq_unknown htabular (hname hlookup site) h place

/-- A column that is given three times, the last time without a value, and one that is an option. -/
theorem infer_column_widget :
    let registry := Registry.ofTagsLenient ["widget"]
    let bindings := Bindings.empty.bind "x" (.ofBase (.custom "widget"))
    let callee : Expr := node ⟨0, 1⟩ (.identifier "tibble")
    let one : Expr := node ⟨4, 5⟩ (.literal (.integer "1"))
    let x : Expr := node ⟨8, 9⟩ (.identifier "x")
    let arguments : List (Argument Expr) :=
      [⟨some "a", some one⟩, ⟨some "a", some x⟩, ⟨some "key", some one⟩, ⟨some "a", none⟩]
    let call : Expr := node ⟨0, 17⟩ (.call callee arguments)
    registry.Built ∧ bindings.Registered registry ∧ callee.functionName? = some "tibble" ∧
    "tibble" ∈ tableFunctions ∧ Argument.MakesColumn arguments "a" x ∧
    ((node ⟨0, 19⟩ (.member call "a" false)).infer registry bindings).base = .custom "widget" ∧
    (node ⟨0, 19⟩ (.member call "key" false)).infer registry bindings = .unknown := by
  intro registry bindings callee one x arguments call
  have hbuilt : registry.Built := Registry.built_ofTagsLenient ["widget"]
  have hbindings : bindings.Registered registry := by
    refine Bindings.forall_empty.bind "x" ?_
    rintro tag ⟨⟩
    decide +kernel
  have hcallee : callee.functionName? = some "tibble" := rfl
  have hfunction : "tibble" ∈ tableFunctions := by decide
  have hcolumn : Argument.MakesColumn arguments "a" x :=
    ⟨by decide, [⟨some "a", some one⟩], [⟨some "key", some one⟩, ⟨some "a", none⟩], rfl, by simp⟩
  have hread := infer_column hbuilt hbindings hcallee hfunction ⟨0, 17⟩ arguments
  refine ⟨hbuilt, hbindings, hcallee, hfunction, hcolumn, ?_, ?_⟩
  · exact ((hread "a" ⟨0, 19⟩).1 x hcolumn).1.trans (by decide +kernel)
  · exact ((hread "key" ⟨0, 19⟩).2 fun value h => h.1 (by decide)).1

end Expr
end TypeDrift
