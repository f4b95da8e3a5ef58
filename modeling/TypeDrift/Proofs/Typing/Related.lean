import Mathlib.Data.List.Forall2
import TypeDrift.Check.History

/-! # Inference side by side

A type is inferred from a registry and from bindings.  This module compares what is inferred from two
registries and two bindings, for any way of relating descriptors that the rules of inference keep: one
condition for every rule that makes a descriptor or reads one (`Keeps`), and one for the rule that
reads a column of a table (`Simulation`).

Then whatever is inferred of an expression is related as soon as what is known of the names in it is
(`Simulation.infer_of_mentions`), and so are the histories of the same assignments from related
bindings, step by step (`Simulation.history`).  A relation that the columns of tables break can still
hold of an expression, as long as the columns that it reads are related (`Keeps.infer`).  A property of
all descriptors of one run is a relation of the run with itself; and equality is a relation too, so
that names which an expression does not mention have no part in its type (`Expr.infer_congr`).
-/
namespace TypeDrift

open BaseType

variable {R : Descriptor → Descriptor → Prop}

/-- The same name, with related things under it. -/
def Named {α β : Type} (P : α → β → Prop) (entry : String × α) (entry' : String × β) : Prop :=
  entry.1 = entry'.1 ∧ P entry.2 entry'.2

/-! ## Fields and attributes -/

namespace Fields

variable {α β : Type} {P : α → β → Prop} {fields : Fields α} {fields' : Fields β}

theorem related_get? (h : List.Forall₂ (Named P) fields fields') (key : String) :
    Option.Rel P (get? fields key) (get? fields' key) := by
  unfold get?
  induction h with
  | nil => exact .none
  | @cons entry entry' fields fields' hentry _ ih =>
    obtain ⟨hname, hvalue⟩ := hentry
    rw [List.find?_cons, List.find?_cons, ← hname]
    cases entry.1 == key with
    | true => exact .some hvalue
    | false => exact ih

theorem related_insert (h : List.Forall₂ (Named P) fields fields') (key : String) {value : α}
    {value' : β} (hvalue : P value value') :
    List.Forall₂ (Named P) (fields.insert key value) (fields'.insert key value') := by
  induction h with
  | nil => exact .cons ⟨rfl, hvalue⟩ .nil
  | @cons entry entry' fields fields' hentry hfields ih =>
    simp only [insert, ← hentry.1]
    split
    · exact .cons ⟨rfl, hvalue⟩ (.cons hentry hfields)
    · split
      · exact .cons ⟨rfl, hvalue⟩ hfields
      · exact .cons hentry ih

theorem related_sorted {entries : List (String × α)} {entries' : List (String × β)}
    (h : List.Forall₂ (Named P) entries entries') :
    List.Forall₂ (Named P) (sorted entries) (sorted entries') := by
  refine List.rel_foldl ?_ .nil h
  intro fields fields' hfields entry entry' hentry
  show List.Forall₂ (Named P) (fields.insert entry.1 entry.2) (fields'.insert entry'.1 entry'.2)
  rw [← hentry.1]
  exact related_insert hfields entry.1 hentry.2

end Fields

namespace Descriptor

theorem attribute?_withAttribute_self (descriptor : Descriptor) (key : String) (value : Data) :
    (descriptor.withAttribute key value).attribute? key = some value :=
  Fields.get?_insert_self key value descriptor.attributes

theorem attribute?_withAttribute_of_ne {key other : String} (h : other ≠ key)
    (descriptor : Descriptor) (value : Data) :
    (descriptor.withAttribute key value).attribute? other = descriptor.attribute? other :=
  Fields.get?_insert_of_ne h value descriptor.attributes

theorem columnTag?_withAttribute {key : String} (h : "columns" ≠ key) (descriptor : Descriptor)
    (value : Data) :
    (descriptor.withAttribute key value).columnTag? = descriptor.columnTag? := by
  funext column
  simp only [columnTag?, columns?, attribute?_withAttribute_of_ne h]

/-- The tag of a column of a table. -/
theorem columnTag?_ofColumns (base : BaseType) (tags : List (String × String)) (column : String) :
    (ofColumns base tags).columnTag? column =
      (Fields.get? (Fields.sorted (tags.map fun tag => (tag.1, Data.text tag.2))) column).bind
        Data.text? := by
  simp only [columnTag?, columns?, ofColumns, attribute?_withAttribute_self]
  rfl

end Descriptor

/-! ## Bindings -/

namespace Bindings

/-- The same names in the same order, with related descriptors. -/
def Related (R : Descriptor → Descriptor → Prop) (bindings bindings' : Bindings) : Prop :=
  List.Forall₂ (Named R) bindings.entries bindings'.entries

variable {bindings bindings' : Bindings}

theorem Related.names_eq (h : bindings.Related R bindings') : bindings.names = bindings'.names := by
  rw [names, names, ← List.forall₂_eq_eq_eq, List.forall₂_map_left_iff, List.forall₂_map_right_iff]
  exact h.imp fun entry entry' hentry => hentry.1

theorem Related.lookup? (h : bindings.Related R bindings') (name : String) :
    Option.Rel R (bindings.lookup? name) (bindings'.lookup? name) := Fields.related_get? h name

theorem Related.bind (h : bindings.Related R bindings') (name : String)
    {descriptor descriptor' : Descriptor} (hdescriptor : R descriptor descriptor') :
    (bindings.bind name descriptor).Related R (bindings'.bind name descriptor') := by
  obtain ⟨entries⟩ := bindings
  obtain ⟨entries'⟩ := bindings'
  simp only [Related, Bindings.bind] at h ⊢
  induction h with
  | nil => exact .cons ⟨rfl, hdescriptor⟩ .nil
  | @cons entry entry' entries entries' hentry hentries ih =>
    simp only [bindEntry, ← hentry.1]
    split
    · exact .cons ⟨rfl, hdescriptor⟩ hentries
    · exact .cons hentry ih

/-- Related descriptors under every name that is bound, and the same names bound, in any order. -/
def Agree (R : Descriptor → Descriptor → Prop) (bindings bindings' : Bindings) : Prop :=
  ∀ name, Option.Rel R (bindings.lookup? name) (bindings'.lookup? name)

theorem Related.agree (h : bindings.Related R bindings') : bindings.Agree R bindings' := h.lookup?

theorem Agree.bind (h : bindings.Agree R bindings') (name : String)
    {descriptor descriptor' : Descriptor} (hdescriptor : R descriptor descriptor') :
    (bindings.bind name descriptor).Agree R (bindings'.bind name descriptor') := by
  intro other
  by_cases hother : other = name
  · rw [hother, lookup?_bind_self, lookup?_bind_self]
    exact .some hdescriptor
  · rw [lookup?_bind_of_ne hother, lookup?_bind_of_ne hother]
    exact h other

end Bindings

/-- The same assignment, with related descriptors before and after it. -/
structure Step.Related (R : Descriptor → Descriptor → Prop) (step step' : Step) : Prop where
  assignment : step.assignment = step'.assignment
  previous : Option.Rel R step.previous step'.previous
  current : R step.current step'.current

/-! ## Rules -/

/-- A generator of objects whose class is not known. -/
def Descriptor.generator : Descriptor := (ofBase .objectRef).withAttribute "generator" (.bool true)

/-- A column as it is recorded: by its name and the tag of its type. -/
def Descriptor.recorded (column : String × Descriptor) : String × String :=
  (column.1, column.2.base.tag)

/-- A relation between descriptors that the rules of inference keep, from one registry to another: all
of them but the one that reads a column of a table. -/
structure Keeps (R : Descriptor → Descriptor → Prop) (registry registry' : Registry) : Prop where
  /-- Null is made with a mark of its own. -/
  base : ∀ base, base ∈ builtins ∧ base ≠ .null → R (.ofBase base) (.ofBase base)
  null : R .null .null
  arguments : ∀ names, R (.ofArguments names) (.ofArguments names)
  generator : R .generator .generator
  generatorOf : ∀ className, R (Descriptor.generator.withAttribute "class" (.text className))
    (Descriptor.generator.withAttribute "class" (.text className))
  classType : ∀ className general, general = .s3 ∨ general = .s4 →
    R (registry.classType className general) (registry'.classType className general)
  length : ∀ {descriptor descriptor'}, R descriptor descriptor' → ∀ length : Int,
    R (descriptor.withAttribute "length" (.int length))
      (descriptor'.withAttribute "length" (.int length))
  columns : ∀ base : BaseType, base.isTabular = true → ∀ columns columns',
    List.Forall₂ (Named R) columns columns' →
      R (.ofColumns base (columns.map Descriptor.recorded))
        (.ofColumns base (columns'.map Descriptor.recorded))
  instanceOf : ∀ {descriptor descriptor'}, R descriptor descriptor' →
    R (.instanceOf descriptor) (.instanceOf descriptor')

/-- A relation between descriptors that inference keeps, from one registry to another. -/
structure Simulation (R : Descriptor → Descriptor → Prop) (registry registry' : Registry) : Prop
    extends Keeps R registry registry' where
  member : ∀ {descriptor descriptor'}, R descriptor descriptor' → ∀ name,
    R (.ofMember registry descriptor name) (.ofMember registry' descriptor' name)

/-- The base types that a rule names are among those of the language, and not null; and only tables
have columns. -/
def Rule.Known : Rule → Prop
  | returns base => base ∈ builtins ∧ base ≠ .null
  | table base => base.isTabular = true
  | _ => True

instance : DecidablePred Rule.Known := fun rule =>
  match rule with
  | .returns base => inferInstanceAs (Decidable (base ∈ builtins ∧ base ≠ .null))
  | .table base => inferInstanceAs (Decidable (base.isTabular = true))
  | .firstArgument | .classed _ | .structured | .instanceOf | .generator =>
    inferInstanceAs (Decidable True)

theorem Signature.rule_known : ∀ signature ∈ all, signature.rule.Known := by decide +kernel

theorem Signature.constant_known :
    ∀ constant ∈ constants, constant.2 ∈ builtins ∧ constant.2 ≠ .null := by decide

/-- The same expression, with related types. -/
structure Typed.Related (R : Descriptor → Descriptor → Prop) (typed typed' : Typed) : Prop where
  expression : typed.expression = typed'.expression
  type : R typed.type typed'.type

theorem Typed.related_or {first first' second second' : Option Typed}
    (h : Option.Rel (Typed.Related R) first first')
    (h' : Option.Rel (Typed.Related R) second second') :
    Option.Rel (Typed.Related R) (first.or second) (first'.or second') := by
  cases h with
  | none => exact h'
  | some h => exact .some h

/-- Related expressions are the same string. -/
theorem Typed.firstString?_eq {argument argument' : Option Typed}
    (h : Option.Rel (Typed.Related R) argument argument') :
    (argument.bind fun argument => argument.expression.firstString?) =
      argument'.bind fun argument => argument.expression.firstString? := by
  cases h with
  | none => rfl
  | some h => exact congrArg Expr.firstString? h.expression

/-- Arguments of one name with related values. -/
structure Argument.Related (R : Descriptor → Descriptor → Prop)
    (argument argument' : Argument Typed) : Prop where
  name : argument.name = argument'.name
  value : Option.Rel (Typed.Related R) argument.value argument'.value

/-- The name and the type of the column that an argument gives. -/
def Rule.typedColumn? (argument : Argument Typed) : Option (String × Descriptor) :=
  match argument.name, argument.value with
  | some name, some value => if name ∈ tableOptions then none else some (name, value.type)
  | _, _ => none

theorem Rule.column?_eq (argument : Argument Typed) :
    column? argument = (typedColumn? argument).map Descriptor.recorded := by
  obtain ⟨_ | name, _ | value⟩ := argument
  · rfl
  · rfl
  · rfl
  · simp only [column?, typedColumn?, apply_ite (Option.map Descriptor.recorded)]
    rfl

section Arguments
variable {given given' : List (Argument Typed)}
  (h : List.Forall₂ (Argument.Related R) given given')
include h

/-- Arguments that are chosen by their names are related. -/
theorem Argument.related_find? (p : Option String → Bool) :
    Option.Rel (Typed.Related R) ((given.find? fun argument => p argument.name).bind Argument.value)
      ((given'.find? fun argument => p argument.name).bind Argument.value) := by
  induction h with
  | nil => exact .none
  | @cons argument argument' given given' hargument _ ih =>
    rw [List.find?_cons, List.find?_cons, ← hargument.name]
    cases p argument.name with
    | true => exact hargument.value
    | false => exact ih

theorem Argument.related_firstUnnamed? :
    Option.Rel (Typed.Related R) (firstUnnamed? given) (firstUnnamed? given') :=
  related_find? h Option.isNone

theorem Argument.related_named? (name : String) :
    Option.Rel (Typed.Related R) (named? given name) (named? given' name) :=
  related_find? h (· == some name)

omit h in
theorem Rule.related_typedColumn? {argument argument' : Argument Typed}
    (h : Argument.Related R argument argument') :
    Option.Rel (Named R) (typedColumn? argument) (typedColumn? argument') := by
  obtain ⟨name, value⟩ := argument
  obtain ⟨name', value'⟩ := argument'
  obtain ⟨rfl, hvalue⟩ := h
  cases name with
  | none => exact .none
  | some name =>
    cases hvalue with
    | none => exact .none
    | some hvalue =>
      simp only [typedColumn?]
      split
      · exact .none
      · exact .some ⟨rfl, hvalue.type⟩

theorem Keeps.ofColumns {registry registry' : Registry} (keeps : Keeps R registry registry')
    {base : BaseType} (hbase : base.isTabular = true) :
    R (.ofColumns base (given.filterMap Rule.column?))
      (.ofColumns base (given'.filterMap Rule.column?)) := by
  have hcolumns (given : List (Argument Typed)) : given.filterMap Rule.column? =
      (given.filterMap Rule.typedColumn?).map Descriptor.recorded := by
    rw [List.map_filterMap]
    exact List.filterMap_congr fun argument _ => Rule.column?_eq argument
  rw [hcolumns, hcolumns]
  exact keeps.columns base hbase _ _ (List.rel_filterMap (fun _ _ h => Rule.related_typedColumn? h) h)

end Arguments

/-! ## Calls -/

section Calls
variable {registry registry' : Registry} (keeps : Keeps R registry registry')
include keeps

theorem Keeps.unknown : R .unknown .unknown := keeps.base .unknown (by decide)

theorem Keeps.ofLiteral (value : Literal) : R (.ofLiteral value) (.ofLiteral value) := by
  cases value with
  | null => exact keeps.null
  | _ => exact keeps.base _ (by decide)

theorem Keeps.ofOperator (operator : BinaryOperator) :
    R (.ofOperator operator) (.ofOperator operator) := by
  cases operator with
  | special text =>
    simp only [Descriptor.ofOperator]
    split
    · exact keeps.base _ (by decide)
    · split
      · exact keeps.base _ (by decide)
      · exact keeps.unknown
  | pipe | help => exact keeps.unknown
  | _ => exact keeps.base _ (by decide)

theorem Keeps.ofName {bindings bindings' : Bindings} (hbindings : bindings.Agree R bindings')
    (name : String) : R (.ofName bindings name) (.ofName bindings' name) := by
  have hlookup := hbindings name
  simp only [Descriptor.ofName]
  generalize bindings.lookup? name = found, bindings'.lookup? name = found' at hlookup ⊢
  cases hlookup with
  | some h => exact h
  | none =>
    cases hconstant : Signature.constant? name with
    | none => exact keeps.unknown
    | some base =>
      obtain ⟨constant, hfind, rfl⟩ := Option.map_eq_some_iff.mp hconstant
      exact keeps.base _ (Signature.constant_known constant (List.mem_of_find?_eq_some hfind))

variable {given given' : List (Argument Typed)}
  (h : List.Forall₂ (Argument.Related R) given given')
include h

/-- The class that an argument names is the same on both sides. -/
theorem Keeps.result {signature : Signature} (hknown : signature.rule.Known) :
    R (signature.result registry none given) (signature.result registry' none given') := by
  obtain ⟨name, rule, expects⟩ := signature
  have hfirst := Argument.related_firstUnnamed? h
  cases rule with
  | returns base => exact keeps.base base hknown
  | firstArgument =>
    generalize hleft : Argument.firstUnnamed? given = first at hfirst
    generalize hright : Argument.firstUnnamed? given' = first' at hfirst
    by_cases hcombine : name = Signature.combine
    · simp only [Signature.result, ← h.length_eq, hleft, hright, if_pos hcombine, Option.none_or]
      cases hfirst with
      | none => exact keeps.null
      | some hargument => exact keeps.length hargument.type _
    · simp only [Signature.result, hleft, hright, if_neg hcombine, Option.none_or]
      cases hfirst with
      | none => exact keeps.unknown
      | some hargument => exact hargument.type
  | table base => exact keeps.ofColumns h hknown
  | classed className => exact keeps.classType className .s3 (.inl rfl)
  | structured =>
    have hclass := Typed.firstString?_eq (Argument.related_named? h "class")
    simp only [Signature.result, hclass, Option.none_or]
    split
    · exact keeps.classType _ .s3 (.inl rfl)
    · generalize Argument.firstUnnamed? given = first, Argument.firstUnnamed? given' = first'
        at hfirst ⊢
      cases hfirst with
      | none => exact keeps.unknown
      | some hargument => exact hargument.type
  | instanceOf =>
    simp only [Signature.result, Typed.firstString?_eq hfirst, Option.none_or]
    split
    · exact keeps.classType _ .s4 (.inr rfl)
    · exact keeps.base .s4 (by decide)
  | generator =>
    have hnamed := Typed.related_or (Typed.related_or hfirst (Argument.related_named? h "Class"))
      (Argument.related_named? h "classname")
    simp only [Signature.result, Typed.firstString?_eq hnamed, Option.none_or]
    split
    · exact keeps.generatorOf _
    · exact keeps.generator

theorem Keeps.ofCall (name : Option String) :
    R (.ofCall registry name none given) (.ofCall registry' name none given') := by
  simp only [Descriptor.ofCall]
  cases hfind : name.bind Signature.find? with
  | none => exact keeps.unknown
  | some signature =>
    obtain ⟨name, -, hfind⟩ := Option.bind_eq_some_iff.mp hfind
    exact keeps.result h (Signature.rule_known signature (List.mem_of_find?_eq_some hfind))

end Calls

/-! ## Expressions -/

namespace Expr

/-- A name is written somewhere in an expression. -/
def Mentions (e : Expr) (name : String) : Prop := ∃ node ∈ e.preorder, node.form = .identifier name

theorem Mentions.of_child {e child : Expr} {name : String} (hchild : child ∈ e.children)
    (h : child.Mentions name) : e.Mentions name := by
  obtain ⟨node, hnode, hform⟩ := h
  refine ⟨node, ?_, hform⟩
  rw [preorder_eq]
  exact List.mem_cons_of_mem _ (List.mem_flatMap.mpr ⟨child, hchild, hnode⟩)

theorem mentions_of_form {e : Expr} {name : String} (h : e.form = .identifier name) :
    e.Mentions name := ⟨e, preorder_eq e ▸ List.mem_cons_self, h⟩

/-- What is inferred of a part of an expression is related. -/
structure InferredRelated (R : Descriptor → Descriptor → Prop) (registry registry' : Registry)
    (bindings bindings' : Bindings) (e : Expr) : Prop where
  infer : R (e.infer registry bindings) (e.infer registry' bindings')
  memberCall : Option.Rel R (memberCall? registry bindings e) (memberCall? registry' bindings' e)
  piped : ∀ left left', Typed.Related R left left' →
    R (inferPiped registry bindings left e) (inferPiped registry' bindings' left' e)

variable {registry registry' : Registry} {bindings bindings' : Bindings}

theorem infer_access {access table : Expr} {column : String}
    (h : access.form = .member table column false) :
    access.infer registry bindings =
      .ofMember registry (table.infer registry bindings) column := by
  obtain ⟨range, form⟩ := access
  cases h
  rfl

/-- A relation is kept wherever an expression reads a column of a table. -/
def KeepsColumns (R : Descriptor → Descriptor → Prop) (registry registry' : Registry)
    (bindings bindings' : Bindings) (e : Expr) : Prop :=
  ∀ access ∈ e.preorder, ∀ table column, access.form = .member table column false →
    R (table.infer registry bindings) (table.infer registry' bindings') →
      R (.ofMember registry (table.infer registry bindings) column)
        (.ofMember registry' (table.infer registry' bindings') column)

theorem KeepsColumns.of_child {e child : Expr} (hchild : child ∈ e.children)
    (h : e.KeepsColumns R registry registry' bindings bindings') :
    child.KeepsColumns R registry registry' bindings bindings' :=
  fun access haccess => h access
    (preorder_eq e ▸ List.mem_cons_of_mem _ (List.mem_flatMap.mpr ⟨child, hchild, haccess⟩))

theorem related_typed {arguments : List (Argument Expr)}
    (h : ∀ value ∈ arguments.filterMap Argument.value,
      InferredRelated R registry registry' bindings bindings' value) :
    List.Forall₂ (Argument.Related R) (typed registry bindings arguments)
      (typed registry' bindings' arguments) := by
  induction arguments with
  | nil => exact .nil
  | cons argument arguments ih =>
    obtain ⟨name, _ | value⟩ := argument
    · exact .cons ⟨rfl, .none⟩ (ih h)
    · obtain ⟨hvalue, hothers⟩ := List.forall_mem_cons.mp h
      exact .cons ⟨rfl, .some ⟨rfl, hvalue.infer⟩⟩ (ih hothers)

section
variable (keeps : Keeps R registry registry')
include keeps

theorem related_inferLast {es : List Expr}
    (h : ∀ e ∈ es, InferredRelated R registry registry' bindings bindings' e) :
    R (inferLast registry bindings es) (inferLast registry' bindings' es) := by
  induction es with
  | nil => exact keeps.null
  | cons e es ih =>
    obtain ⟨he, hes⟩ := List.forall_mem_cons.mp h
    cases es with
    | nil => exact he.infer
    | cons e' es => exact ih hes

/-- A call of a member stands for itself; any other goes by the signature of its function. -/
theorem related_call {callee : Expr}
    (hcallee : InferredRelated R registry registry' bindings bindings' callee)
    {given given' : List (Argument Typed)} (h : List.Forall₂ (Argument.Related R) given given') :
    R (match memberCall? registry bindings callee with
        | some type => type
        | none => .ofCall registry callee.functionName? none given)
      (match memberCall? registry' bindings' callee with
        | some type => type
        | none => .ofCall registry' callee.functionName? none given') := by
  have hmember := hcallee.memberCall
  generalize memberCall? registry bindings callee = type,
    memberCall? registry' bindings' callee = type' at hmember ⊢
  cases hmember with
  | none => exact keeps.ofCall h _
  | some h => exact h

theorem related_inferForm {form : Form Expr}
    (hname : ∀ name, form = .identifier name → R (.ofName bindings name) (.ofName bindings' name))
    (hcolumn : ∀ table column, form = .member table column false →
      R (table.infer registry bindings) (table.infer registry' bindings') →
        R (.ofMember registry (table.infer registry bindings) column)
          (.ofMember registry' (table.infer registry' bindings') column))
    (h : ∀ e ∈ form.children, InferredRelated R registry registry' bindings bindings' e) :
    R (inferForm registry bindings form) (inferForm registry' bindings' form) := by
  cases form with
  | literal value => exact keeps.ofLiteral value
  | identifier name => exact hname name rfl
  | call callee arguments =>
    obtain ⟨hcallee, harguments⟩ := List.forall_mem_cons.mp h
    simp only [inferForm]
    exact related_call keeps hcallee (related_typed harguments)
  | member target name slot =>
    cases slot with
    | true => exact keeps.unknown
    | false => exact hcolumn target name rfl (h target List.mem_cons_self).infer
  | unary operator operand =>
    have hoperand := (h operand List.mem_cons_self).infer
    cases operator with
    | negate | plus => exact hoperand
    | not => exact keeps.base .logical (by decide)
    | help => exact keeps.unknown
  | binary operator left right =>
    obtain ⟨hleft, hright⟩ := List.forall_mem_cons.mp h
    simp only [inferForm]
    split
    · exact (hright right List.mem_cons_self).piped _ _ ⟨rfl, hleft.infer⟩
    · exact keeps.ofOperator operator
  | assign operator place left right =>
    obtain ⟨hleft, hright⟩ := List.forall_mem_cons.mp h
    simp only [inferForm]
    split
    · exact hleft.infer
    · exact (hright right List.mem_cons_self).infer
  | formula left right => exact keeps.base .formula (by decide)
  | function parameters body => exact keeps.arguments _
  | block body => exact related_inferLast keeps h
  | paren inner => exact (h inner List.mem_cons_self).infer
  | _ => exact keeps.unknown

theorem inferredRelated (e : Expr)
    (hnames : ∀ name, e.Mentions name → R (.ofName bindings name) (.ofName bindings' name))
    (hcolumns : e.KeepsColumns R registry registry' bindings bindings') :
    InferredRelated R registry registry' bindings bindings' e := by
  -- One induction for all three: a call looks for a member in its callee, a pipe at its right side.
  induction e using induction_children with
  | step e ih =>
    replace ih : ∀ child ∈ e.children,
        InferredRelated R registry registry' bindings bindings' child := fun child hchild =>
      ih child hchild (fun name hname => hnames name (hname.of_child hchild))
        (hcolumns.of_child hchild)
    obtain ⟨range, form⟩ := e
    constructor
    · exact related_inferForm keeps (fun name hform => hnames name (mentions_of_form hform))
        (hcolumns (node range form) (preorder_eq _ ▸ List.mem_cons_self)) ih
    · cases form with
      | member target name slot =>
        simp only [memberCall?]
        split
        · exact .some (keeps.instanceOf (ih target List.mem_cons_self).infer)
        · exact .some keeps.unknown
      | _ => exact .none
    · intro left left' hleft
      cases form with
      | call callee arguments =>
        obtain ⟨hcallee, harguments⟩ := List.forall_mem_cons.mp ih
        have hgiven : List.Forall₂ (Argument.Related R)
            (⟨none, some left⟩ :: typed registry bindings arguments)
            (⟨none, some left'⟩ :: typed registry' bindings' arguments) :=
          .cons ⟨rfl, .some hleft⟩ (related_typed harguments)
        simp only [inferPiped, Descriptor.ofCall_some]
        exact related_call keeps hcallee hgiven
      | _ => exact keeps.unknown

end

end Expr

section Runs
variable {registry registry' : Registry} {bindings bindings' : Bindings}

/-- What is inferred of an expression is related, if what is known of the names in it is, and if the
relation is kept wherever the expression reads a column. -/
theorem Keeps.infer (keeps : Keeps R registry registry') (e : Expr)
    (hnames : ∀ name, e.Mentions name → R (.ofName bindings name) (.ofName bindings' name))
    (hcolumns : e.KeepsColumns R registry registry' bindings bindings') :
    R (e.infer registry bindings) (e.infer registry' bindings') :=
  (Expr.inferredRelated keeps e hnames hcolumns).infer

variable (sim : Simulation R registry registry')
include sim

/-- **The names in an expression decide on its type**: where what is known of them is related, the
types are. -/
theorem Simulation.infer_of_mentions (e : Expr)
    (hnames : ∀ name, e.Mentions name → R (.ofName bindings name) (.ofName bindings' name)) :
    R (e.infer registry bindings) (e.infer registry' bindings') :=
  sim.toKeeps.infer e hnames fun _ _ _ column _ htable => sim.member htable column

/-- **Bindings that agree give types that agree.** -/
theorem Simulation.infer (hbindings : bindings.Agree R bindings') (e : Expr) :
    R (e.infer registry bindings) (e.infer registry' bindings') :=
  sim.infer_of_mentions e fun name _ => sim.ofName hbindings name

/-- **Histories of the same assignments are related**, step by step. -/
theorem Simulation.history_of_agree (hbindings : bindings.Agree R bindings')
    (records : List Assignment) :
    List.Forall₂ (Step.Related R) (bindings.history registry records)
      (bindings'.history registry' records) := by
  induction records generalizing bindings bindings' with
  | nil => exact .nil
  | cons record records ih =>
    have hcurrent := sim.infer hbindings record.value
    exact .cons ⟨rfl, hbindings record.name, hcurrent⟩ (ih (hbindings.bind _ hcurrent))

theorem Simulation.history (hbindings : bindings.Related R bindings') (records : List Assignment) :
    List.Forall₂ (Step.Related R) (bindings.history registry records)
      (bindings'.history registry' records) :=
  sim.history_of_agree hbindings.agree records

omit sim

/-- What binding the same names to related descriptors keeps, a history keeps. -/
theorem Bindings.after_induction {P : Bindings → Bindings → Prop}
    (hbind : ∀ {bindings bindings'} name {descriptor descriptor'}, P bindings bindings' →
      R descriptor descriptor' → P (bindings.bind name descriptor) (bindings'.bind name descriptor'))
    (hbindings : P bindings bindings') {steps steps' : List Step}
    (h : List.Forall₂ (Step.Related R) steps steps') :
    P (bindings.after steps) (bindings'.after steps') := by
  induction h generalizing bindings bindings' with
  | nil => exact hbindings
  | @cons step step' steps steps' hstep _ ih =>
    show P ((bindings.bind step.assignment.name step.current).after steps)
      ((bindings'.bind step'.assignment.name step'.current).after steps')
    rw [← hstep.assignment]
    exact ih (hbind _ hbindings hstep.current)

theorem Bindings.Related.after (hbindings : bindings.Related R bindings') {steps steps' : List Step}
    (h : List.Forall₂ (Step.Related R) steps steps') :
    (bindings.after steps).Related R (bindings'.after steps') :=
  after_induction (fun name _ _ h hdescriptor => h.bind name hdescriptor) hbindings h

theorem Bindings.Agree.after (hbindings : bindings.Agree R bindings') {steps steps' : List Step}
    (h : List.Forall₂ (Step.Related R) steps steps') :
    (bindings.after steps).Agree R (bindings'.after steps') :=
  after_induction (fun name _ _ h hdescriptor => h.bind name hdescriptor) hbindings h

end Runs

/-! ## Names that are not mentioned -/

/-- Inference is a function: it keeps equality. -/
theorem Simulation.eq (registry : Registry) : Simulation Eq registry registry where
  base _ _ := rfl
  null := rfl
  arguments _ := rfl
  generator := rfl
  generatorOf _ := rfl
  classType _ _ _ := rfl
  length h _ := congrArg (Descriptor.withAttribute · "length" _) h
  columns base _ columns columns' h := by
    have heq : columns = columns' := by
      rw [← List.forall₂_eq_eq_eq]
      exact h.imp fun column column' hcolumn => Prod.ext hcolumn.1 hcolumn.2
    rw [heq]
  member h name := congrArg (Descriptor.ofMember registry · name) h
  instanceOf h := congrArg Descriptor.instanceOf h

/-- What is known of names that an expression does not mention has no part in its type. -/
theorem Expr.infer_congr {registry : Registry} {bindings bindings' : Bindings} {e : Expr}
    (h : ∀ name, e.Mentions name → bindings.lookup? name = bindings'.lookup? name) :
    e.infer registry bindings = e.infer registry bindings' :=
  (Simulation.eq registry).infer_of_mentions e fun name hname => by
    rw [Descriptor.ofName, h name hname, Descriptor.ofName]

end TypeDrift
