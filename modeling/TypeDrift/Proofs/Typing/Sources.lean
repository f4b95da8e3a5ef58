import TypeDrift.Proofs.Typing.Registry
import TypeDrift.Proofs.Typing.Related
import TypeDrift.Proofs.Typing.Renumber

/-! # Where a type comes from

The rules of inference leave few ways for the base type of an expression to depend on what is known
of names.  Either it does not, or it is the base type of one name, or it is read off a column of a
table (`Expr.origin`).  Parentheses, signs, blocks, pipes and the functions that answer with their
first argument hand a type on; all else makes its own.

Columns are what makes a difference when a name is bound to a type that was read off one: the name
may have been the table, and what it is bound to has no columns.  What is inferred from then on may
then be the same as before, or the type of that column, or nothing (`fadingSimulation`).
-/
namespace TypeDrift

open BaseType

/-! ## Base types and columns handed on -/

/-- The same base type and the same columns; other attributes may differ. -/
structure Descriptor.Resembles (descriptor descriptor' : Descriptor) : Prop where
  base : descriptor.base = descriptor'.base
  columns : descriptor.columnTag? = descriptor'.columnTag?

theorem Descriptor.Resembles.refl (descriptor : Descriptor) : descriptor.Resembles descriptor :=
  ⟨rfl, rfl⟩

theorem Descriptor.resembles_withLength (descriptor : Descriptor) (value : Data) :
    (descriptor.withAttribute "length" value).Resembles descriptor :=
  ⟨rfl, columnTag?_withAttribute (by decide) descriptor value⟩

namespace Descriptor

theorem columnTag?_ofMember {registry : Registry} (descriptor : Descriptor) (column other : String) :
    (ofMember registry descriptor column).columnTag? other = none := by
  unfold ofMember
  split
  · split <;> rfl
  · rfl

theorem base_instanceOf (descriptor : Descriptor) : descriptor.instanceOf.base = .objectRef := by
  unfold instanceOf
  split
  · split <;> rfl
  · rfl

end Descriptor

namespace Expr

/-- An expression with its type. -/
def typedIn (registry : Registry) (bindings : Bindings) (e : Expr) : Typed :=
  ⟨e, e.infer registry bindings⟩

theorem typed_eq_map (registry : Registry) (bindings : Bindings) (arguments : List (Argument Expr)) :
    typed registry bindings arguments =
      arguments.map (Argument.map (typedIn registry bindings)) := by
  induction arguments with
  | nil => rfl
  | cons argument arguments ih =>
    obtain ⟨name, _ | value⟩ := argument
    · exact congrArg (List.cons _) ih
    · exact congrArg (List.cons _) ih

/-- In some arguments, the string that the chosen one is does not depend on what is known of names. -/
theorem firstString?_typedIn (registry : Registry) (bindings : Bindings) (argument : Option Expr) :
    ((argument.map (typedIn registry bindings)).bind fun argument =>
      argument.expression.firstString?) = argument.bind firstString? := by
  cases argument <;> rfl

theorem mem_children_of_firstUnnamed? {arguments : List (Argument Expr)} {first : Expr}
    (h : Argument.firstUnnamed? arguments = some first) :
    first ∈ arguments.filterMap Argument.value := by
  obtain ⟨argument, hfind, hvalue⟩ := Option.bind_eq_some_iff.mp h
  exact List.mem_filterMap.mpr ⟨argument, List.mem_of_find?_eq_some hfind, hvalue⟩

end Expr

/-- **A call of a known function** has one base type whatever is known of names, or hands on the type
of its first argument. -/
theorem Signature.result_origin (registry : Registry) (signature : Signature)
    (arguments : List (Argument Expr)) :
    (∃ base, ∀ bindings, (signature.result registry none
      (arguments.map (Argument.map (Expr.typedIn registry bindings)))).base = base) ∨
    ∃ first, Argument.firstUnnamed? arguments = some first ∧ ∀ bindings,
      (signature.result registry none
        (arguments.map (Argument.map (Expr.typedIn registry bindings)))).Resembles
        (first.infer registry bindings) := by
  obtain ⟨name, rule, expects⟩ := signature
  cases rule with
  | returns base => exact .inl ⟨base, fun bindings => rfl⟩
  | table base => exact .inl ⟨base, fun bindings => rfl⟩
  | classed className => exact .inl ⟨(registry.classType className .s3).base, fun bindings => rfl⟩
  | firstArgument =>
    simp only [result, Argument.firstUnnamed?_map, Option.none_or]
    cases hfirst : Argument.firstUnnamed? arguments with
    | none =>
      exact .inl ⟨(if name = combine then Descriptor.null else .unknown).base, fun bindings => rfl⟩
    | some first =>
      refine .inr ⟨first, rfl, fun bindings => ?_⟩
      simp only [Option.map_some]
      split
      · exact Descriptor.resembles_withLength _ _
      · exact .refl _
  | structured =>
    simp only [result, Argument.firstUnnamed?_map, Argument.named?_map, Expr.firstString?_typedIn,
      Option.none_or]
    cases (Argument.named? arguments "class").bind Expr.firstString? with
    | some className => exact .inl ⟨(registry.classType className .s3).base, fun bindings => rfl⟩
    | none =>
      cases hfirst : Argument.firstUnnamed? arguments with
      | none => exact .inl ⟨_, fun bindings => rfl⟩
      | some first => exact .inr ⟨first, rfl, fun bindings => .refl _⟩
  | instanceOf =>
    simp only [result, Argument.firstUnnamed?_map, Expr.firstString?_typedIn, Option.none_or]
    exact .inl ⟨_, fun bindings => rfl⟩
  | generator =>
    refine .inl ⟨.objectRef, fun bindings => ?_⟩
    simp only [result]
    split <;> rfl

theorem Descriptor.ofCall_origin (registry : Registry) (name : Option String)
    (arguments : List (Argument Expr)) :
    (∃ base, ∀ bindings, (ofCall registry name none
      (arguments.map (Argument.map (Expr.typedIn registry bindings)))).base = base) ∨
    ∃ first, Argument.firstUnnamed? arguments = some first ∧ ∀ bindings,
      (ofCall registry name none
        (arguments.map (Argument.map (Expr.typedIn registry bindings)))).Resembles
        (first.infer registry bindings) := by
  unfold ofCall
  cases name.bind Signature.find? with
  | none => exact .inl ⟨.unknown, fun bindings => rfl⟩
  | some signature => exact signature.result_origin registry arguments

namespace Expr

/-- Where the base type of an expression comes from. -/
inductive Origin (registry : Registry) (e : Expr) : Prop where
  /-- It is the same whatever is known of names. -/
  | fixed (base : BaseType) (hbase : ∀ bindings, (e.infer registry bindings).base = base)
  /-- It is that of a name. -/
  | name (name : String)
      (hbase : ∀ bindings, (e.infer registry bindings).base = (Descriptor.ofName bindings name).base)
  /-- It is that of a column, and nothing is known of columns of the expression itself. -/
  | column {access table : Expr} {column : String} (hmem : access ∈ e.preorder)
      (hform : access.form = .member table column false)
      (hbase : ∀ bindings,
        (e.infer registry bindings).base = (access.infer registry bindings).base)
      (hcolumns : ∀ bindings other, (e.infer registry bindings).columnTag? other = none)

variable {registry : Registry}

/-- An expression that hands on the type of one of its parts. -/
theorem Origin.of_resembles {e child : Expr} (hchild : child ∈ e.children)
    (h : ∀ bindings, (e.infer registry bindings).Resembles (child.infer registry bindings))
    (origin : child.Origin registry) : e.Origin registry := by
  cases origin with
  | fixed base hbase => exact .fixed base fun bindings => (h bindings).base.trans (hbase bindings)
  | name name hbase => exact .name name fun bindings => (h bindings).base.trans (hbase bindings)
  | @column access table column hmem hform hbase hcolumns =>
    refine .column ?_ hform (fun bindings => (h bindings).base.trans (hbase bindings))
      fun bindings other => ?_
    · rw [preorder_eq]
      exact List.mem_cons_of_mem _ (List.mem_flatMap.mpr ⟨child, hchild, hmem⟩)
    · rw [(h bindings).columns]
      exact hcolumns bindings other

theorem inferLast_eq (registry : Registry) (bindings : Bindings) (es : List Expr) :
    inferLast registry bindings es =
      (es.getLast?.map fun e => e.infer registry bindings).getD .null := by
  induction es with
  | nil => rfl
  | cons e es ih =>
    cases es with
    | nil => rfl
    | cons e' es =>
      rw [List.getLast?_cons_cons]
      exact ih

/-- A call of a member has one base type whatever is known of names. -/
theorem memberCall?_fixed (registry : Registry) (callee : Expr) :
    (∃ base, ∀ bindings, ∃ type, memberCall? registry bindings callee = some type ∧
      type.base = base) ∨
    ∀ bindings, memberCall? registry bindings callee = none := by
  obtain ⟨range, form⟩ := callee
  cases form with
  | member target name slot =>
    simp only [memberCall?]
    split
    · exact .inl ⟨.objectRef, fun bindings => ⟨_, rfl, Descriptor.base_instanceOf _⟩⟩
    · exact .inl ⟨.unknown, fun bindings => ⟨_, rfl, rfl⟩⟩
  | _ => exact .inr fun bindings => rfl

/-- A call, as it is written or as a pipe makes it. -/
theorem Origin.of_call {e : Expr} (callee : Expr) (arguments : List (Argument Expr))
    (hinfer : ∀ bindings, e.infer registry bindings =
      match memberCall? registry bindings callee with
      | some type => type
      | none => .ofCall registry callee.functionName? none
          (arguments.map (Argument.map (typedIn registry bindings))))
    (hfirst : ∀ first, Argument.firstUnnamed? arguments = some first → first ∈ e.children)
    (h : ∀ child ∈ e.children, child.Origin registry) : e.Origin registry := by
  rcases memberCall?_fixed registry callee with ⟨base, hmember⟩ | hmember
  · refine .fixed base fun bindings => ?_
    obtain ⟨type, htype, hbase⟩ := hmember bindings
    rw [hinfer, htype]
    exact hbase
  · have hcall (bindings : Bindings) : e.infer registry bindings =
        .ofCall registry callee.functionName? none
          (arguments.map (Argument.map (typedIn registry bindings))) := by
      rw [hinfer, hmember]
    rcases Descriptor.ofCall_origin registry callee.functionName? arguments with
      ⟨base, hbase⟩ | ⟨first, hchosen, hresembles⟩
    · exact .fixed base fun bindings => by rw [hcall, hbase]
    · have hchild := hfirst first hchosen
      exact .of_resembles hchild (fun bindings => hcall bindings ▸ hresembles bindings)
        (h first hchild)

/-- **Where a base type comes from**: it does not depend on names, or it is that of a name, or that of
a column. -/
theorem origin (registry : Registry) (e : Expr) : e.Origin registry := by
  induction e using induction_children with
  | step e ih =>
    obtain ⟨range, form⟩ := e
    have hresembles {child : Expr} (hchild : child ∈ form.children)
        (h : ∀ bindings, (node range form).infer registry bindings = child.infer registry bindings) :
        (node range form).Origin registry :=
      .of_resembles hchild (fun bindings => h bindings ▸ .refl _) (ih child hchild)
    cases form with
    | literal value => exact .fixed (Descriptor.ofLiteral value).base fun bindings => rfl
    | identifier name => exact .name name fun bindings => rfl
    | call callee arguments =>
      refine .of_call callee arguments (fun bindings => ?_) (fun first hfirst => ?_) ih
      · rw [← typed_eq_map]
        rfl
      · exact List.mem_cons_of_mem _ (mem_children_of_firstUnnamed? hfirst)
    | member table column slot =>
      cases slot with
      | true => exact .fixed .unknown fun bindings => rfl
      | false =>
        refine .column (preorder_eq _ ▸ List.mem_cons_self) rfl (fun bindings => rfl)
          fun bindings other => ?_
        exact Descriptor.columnTag?_ofMember (table.infer registry bindings) column other
    | unary operator operand =>
      cases operator with
      | negate | plus => exact hresembles List.mem_cons_self fun bindings => rfl
      | not => exact .fixed .logical fun bindings => rfl
      | help => exact .fixed .unknown fun bindings => rfl
    | binary operator left right =>
      cases hpipe : operator.isPipe with
      | false =>
        refine .fixed (Descriptor.ofOperator operator).base fun bindings => ?_
        simp only [infer, inferForm, hpipe]
        rfl
      | true =>
        obtain ⟨range', form'⟩ := right
        cases form' with
        | call callee arguments =>
          refine .of_call callee (⟨none, some left⟩ :: arguments) (fun bindings => ?_)
            (fun first hfirst => ?_) ih
          · simp only [infer, inferForm, hpipe, if_true, inferPiped, List.map_cons, typed_eq_map,
              Descriptor.ofCall_some]
            rfl
          · cases hfirst
            exact List.mem_cons_self
        | _ =>
          refine .fixed .unknown fun bindings => ?_
          simp only [infer, inferForm, hpipe, if_true, inferPiped]
          rfl
    | assign operator place left right =>
      cases hside : operator.isRightward with
      | false =>
        refine hresembles (List.mem_cons_of_mem _ List.mem_cons_self) fun bindings => ?_
        simp only [infer, inferForm, hside]
        rfl
      | true =>
        refine hresembles List.mem_cons_self fun bindings => ?_
        simp only [infer, inferForm, hside]
        rfl
    | formula left right => exact .fixed .formula fun bindings => rfl
    | function parameters body => exact .fixed .function fun bindings => rfl
    | block body =>
      have hinfer (bindings : Bindings) := inferLast_eq registry bindings body
      cases hlast : body.getLast? with
      | none => exact .fixed .null fun bindings => by rw [infer, inferForm, hinfer, hlast]; rfl
      | some last =>
        refine hresembles (List.mem_of_getLast? hlast) fun bindings => ?_
        rw [infer, inferForm, hinfer, hlast]
        rfl
    | paren inner => exact hresembles List.mem_cons_self fun bindings => rfl
    | _ => exact .fixed .unknown fun bindings => rfl

end Expr
/-! ## Types that fade -/

/-- A base type that stays as it is, becomes `kept`, or gets lost. -/
def BaseType.FadesTo (kept first second : BaseType) : Prop :=
  second = first ∨ second = kept ∨ second = .unknown

theorem BaseType.FadesTo.refl (kept first : BaseType) : kept.FadesTo first first := .inl rfl

/-- The base type fades, and so do the base types of the columns. -/
structure Descriptor.FadesTo (registry : Registry) (kept : BaseType)
    (descriptor descriptor' : Descriptor) : Prop where
  base : kept.FadesTo descriptor.base descriptor'.base
  member : ∀ column, kept.FadesTo (ofMember registry descriptor column).base
    (ofMember registry descriptor' column).base

namespace Descriptor

variable {registry : Registry} {kept : BaseType}

theorem FadesTo.refl (descriptor : Descriptor) : descriptor.FadesTo registry kept descriptor :=
  ⟨.refl _ _, fun _ => .refl _ _⟩

/-- Of what has no columns no column is known. -/
theorem ofMember_eq_unknown {descriptor : Descriptor} {column : String}
    (h : descriptor.base.isTabular = true → descriptor.columnTag? column = none) :
    ofMember registry descriptor column = .unknown := by
  unfold ofMember
  split
  · next htabular => rw [h htabular, Option.bind_none]
  · rfl

theorem Resembles.ofMember_eq {descriptor descriptor' : Descriptor}
    (h : descriptor.Resembles descriptor') (column : String) :
    ofMember registry descriptor column = ofMember registry descriptor' column := by
  simp only [ofMember, h.base, h.columns]

/-- What has no columns fades in whatever stands in its place. -/
theorem FadesTo.of_columns {descriptor descriptor' : Descriptor}
    (hbase : kept.FadesTo descriptor.base descriptor'.base)
    (hcolumns : ∀ column, descriptor'.base.isTabular = true → descriptor'.columnTag? column = none) :
    descriptor.FadesTo registry kept descriptor' :=
  ⟨hbase, fun column => .inr (.inr (by rw [ofMember_eq_unknown (hcolumns column)]; rfl))⟩

theorem FadesTo.ofMember {descriptor descriptor' : Descriptor}
    (h : descriptor.FadesTo registry kept descriptor') (column : String) :
    (Descriptor.ofMember registry descriptor column).FadesTo registry kept
      (Descriptor.ofMember registry descriptor' column) :=
  .of_columns (h.member column) fun other _ => columnTag?_ofMember descriptor' column other

/-- What a tag means. -/
def meant (registry : Registry) (tag : String) : Descriptor :=
  match registry.resolve? tag with
  | some base => ofBase base
  | none => .unknown

/-- With a type its tag fades, for it means the type still, or `kept`, or nothing. -/
theorem fadesTo_meant (hkept : registry.resolve? kept.tag = some kept) {first second : BaseType}
    (h : kept.FadesTo first second) :
    kept.FadesTo (meant registry first.tag).base (meant registry second.tag).base := by
  rcases h with rfl | rfl | rfl
  · exact .refl _ _
  · refine .inr (.inl ?_)
    rw [meant, hkept]
    rfl
  · refine .inr (.inr ?_)
    rw [meant, Registry.resolve?_of_mem_builtins registry (show BaseType.unknown ∈ builtins by decide)]
    rfl

/-- The tags of two types as data, the one fading to the other. -/
def TextFadesTo (kept : BaseType) (value value' : Data) : Prop :=
  ∃ first second : BaseType, kept.FadesTo first second ∧ value = .text first.tag ∧
    value' = .text second.tag

/-- What is recorded of a column fades. -/
theorem fadesTo_recorded (hkept : registry.resolve? kept.tag = some kept)
    {value value' : Option Data} (h : Option.Rel (TextFadesTo kept) value value') :
    kept.FadesTo ((value.bind Data.text?).elim unknown (meant registry)).base
      ((value'.bind Data.text?).elim unknown (meant registry)).base := by
  cases h with
  | none => exact .refl _ _
  | some htext =>
    obtain ⟨first, second, hfades, rfl, rfl⟩ := htext
    exact fadesTo_meant hkept hfades

theorem ofMember_eq_meant {descriptor : Descriptor} (h : descriptor.base.isTabular = true)
    (column : String) : ofMember registry descriptor column =
      (descriptor.columnTag? column).elim unknown (meant registry) := by
  unfold ofMember
  rw [if_pos h]
  cases descriptor.columnTag? column <;> rfl

theorem FadesTo.of_columnTags (hkept : registry.resolve? kept.tag = some kept) {table : BaseType}
    (htabular : table.isTabular = true) {columns columns' : List (String × Descriptor)}
    (h : List.Forall₂ (Named (FadesTo registry kept)) columns columns') :
    (ofColumns table (columns.map recorded)).FadesTo registry kept
      (ofColumns table (columns'.map recorded)) := by
  refine ⟨.refl _ _, fun column => ?_⟩
  -- The columns are kept as tags, and these are sorted alike.
  have hsorted : List.Forall₂ (Named (TextFadesTo kept))
      (Fields.sorted ((columns.map recorded).map fun tag => (tag.1, Data.text tag.2)))
      (Fields.sorted ((columns'.map recorded).map fun tag => (tag.1, Data.text tag.2))) := by
    refine Fields.related_sorted ?_
    rw [List.map_map, List.map_map, List.forall₂_map_left_iff, List.forall₂_map_right_iff]
    exact h.imp fun column column' hcolumn => ⟨hcolumn.1, _, _, hcolumn.2.base, rfl, rfl⟩
  rw [ofMember_eq_meant htabular, ofMember_eq_meant htabular, columnTag?_ofColumns,
    columnTag?_ofColumns]
  exact fadesTo_recorded hkept (Fields.related_get? hsorted column)

end Descriptor

/-- The type of a column is one that a tag means. -/
theorem Descriptor.resolve?_ofMember (registry : Registry) (descriptor : Descriptor)
    (column : String) :
    registry.resolve? (ofMember registry descriptor column).base.tag =
      some (ofMember registry descriptor column).base := by
  have hunknown : registry.resolve? BaseType.unknown.tag = some .unknown :=
    Registry.resolve?_of_mem_builtins registry (by decide)
  unfold ofMember
  split
  · split
    · next base hbase =>
      obtain ⟨tag, -, hresolve⟩ := Option.bind_eq_some_iff.mp hbase
      exact Registry.resolve?_tag hresolve
    · exact hunknown
  · exact hunknown

/-- **The rules of inference keep that types fade.** -/
theorem fadingSimulation {registry : Registry} {kept : BaseType}
    (hkept : registry.resolve? kept.tag = some kept) :
    Simulation (Descriptor.FadesTo registry kept) registry registry where
  base _ _ := .refl _
  null := .refl _
  arguments _ := .refl _
  generator := .refl _
  generatorOf _ := .refl _
  classType _ _ _ := .refl _
  length h length := by
    have hlength (descriptor : Descriptor) := descriptor.resembles_withLength (.int length)
    refine ⟨h.base, fun column => ?_⟩
    rw [(hlength _).ofMember_eq, (hlength _).ofMember_eq]
    exact h.member column
  columns _ htabular _ _ h := .of_columnTags hkept htabular h
  member h column := h.ofMember column
  instanceOf {descriptor descriptor'} h := by
    refine .of_columns (.inl ?_) fun column htabular => ?_
    · rw [Descriptor.base_instanceOf, Descriptor.base_instanceOf]
    · rw [Descriptor.base_instanceOf] at htabular
      cases htabular

end TypeDrift
