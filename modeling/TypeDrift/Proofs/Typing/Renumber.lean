import TypeDrift.Proofs.Expr.Renumber
import TypeDrift.Typing.Inference

/-! # Types do not depend on places

What is inferred of an expression is read off its form and the names in it.  The indices of its
tokens do not enter: the same expression with other indices has the same type (`infer_renumber`).
-/
namespace TypeDrift

theorem Argument.firstUnnamed?_map {ε δ : Type} (f : ε → δ) (arguments : List (Argument ε)) :
    firstUnnamed? (arguments.map (Argument.map f)) = (firstUnnamed? arguments).map f := by
  rw [firstUnnamed?, List.find?_map, Option.bind_map, firstUnnamed?, Option.map_bind]
  rfl

theorem Argument.named?_map {ε δ : Type} (f : ε → δ) (arguments : List (Argument ε))
    (name : String) :
    named? (arguments.map (Argument.map f)) name = (named? arguments name).map f := by
  rw [named?, List.find?_map, Option.bind_map, named?, Option.map_bind]
  rfl

/-- An expression with other indices has the same type. -/
def Typed.renumber (numbering : Renumbering) (typed : Typed) : Typed :=
  ⟨typed.expression.renumber numbering, typed.type⟩

namespace Expr

variable (numbering : Renumbering)

theorem functionName?_renumber (e : Expr) :
    (e.renumber numbering).functionName? = e.functionName? := by
  rw [functionName?, form_renumber, functionName?]
  cases e.form with
  | literal value => rfl
  | _ => rfl

theorem identifier?_renumber (e : Expr) : (e.renumber numbering).identifier? = e.identifier? := by
  rw [identifier?, form_renumber, identifier?]
  cases e.form <;> rfl

theorem firstArgumentString?_map {arguments : List (Argument Expr)}
    (h : ∀ value ∈ arguments.filterMap Argument.value,
      (value.renumber numbering).firstString? = value.firstString?) :
    firstArgumentString? (arguments.map (Argument.map (renumber numbering))) =
      firstArgumentString? arguments := by
  induction arguments with
  | nil => rfl
  | cons argument arguments ih =>
    obtain ⟨_ | name, _ | value⟩ := argument
    · rfl
    · exact h value (by simp)
    · exact ih h
    · exact ih fun other hmem => h other (by simp_all)

theorem firstString?_renumber (e : Expr) :
    (e.renumber numbering).firstString? = e.firstString? := by
  induction e using induction_children with
  | step e ih =>
    obtain ⟨range, form⟩ := e
    rw [renumber_node]
    cases form with
    | literal value => cases value <;> rfl
    | call callee arguments =>
      have harguments := firstArgumentString?_map numbering fun value hmem =>
        ih value (List.mem_cons_of_mem callee hmem)
      simp only [Form.map, firstString?, functionName?_renumber, harguments]
    | _ => rfl

end Expr

variable (numbering : Renumbering)

theorem Rule.column?_map (argument : Argument Typed) :
    column? (argument.map (Typed.renumber numbering)) = column? argument := by
  obtain ⟨_ | name, _ | value⟩ := argument <;> rfl

theorem firstString?_bind (argument : Option Typed) :
    ((argument.map (Typed.renumber numbering)).bind fun argument =>
        argument.expression.firstString?) =
      argument.bind fun argument => argument.expression.firstString? := by
  cases argument with
  | none => rfl
  | some argument => exact Expr.firstString?_renumber numbering argument.expression

/-- What a call yields does not depend on the indices in what it is given. -/
theorem Signature.result_map (registry : Registry) (signature : Signature)
    (given : List (Argument Typed)) :
    signature.result registry none (given.map (Argument.map (Typed.renumber numbering))) =
      signature.result registry none given := by
  have hcolumns : (given.map (Argument.map (Typed.renumber numbering))).filterMap Rule.column? =
      given.filterMap Rule.column? := by
    rw [List.filterMap_map]
    exact congrArg (List.filterMap · given) (funext (Rule.column?_map numbering))
  have hor (a b c : Option Typed) : ((a.map (Typed.renumber numbering)).or
      (b.map (Typed.renumber numbering))).or (c.map (Typed.renumber numbering)) =
        ((a.or b).or c).map (Typed.renumber numbering) := by
    cases a <;> cases b <;> rfl
  simp only [result, Argument.firstUnnamed?_map, Argument.named?_map, List.length_map, hcolumns,
    hor, firstString?_bind, Option.none_or]
  cases signature.rule with
  | firstArgument => cases Argument.firstUnnamed? given <;> rfl
  | structured => cases Argument.firstUnnamed? given <;> rfl
  | _ => rfl

theorem Descriptor.ofCall_map (registry : Registry) (name : Option String)
    (given : List (Argument Typed)) :
    ofCall registry name none (given.map (Argument.map (Typed.renumber numbering))) =
      ofCall registry name none given := by
  unfold ofCall
  split
  · exact Signature.result_map numbering registry _ given
  · rfl

namespace Expr

variable (registry : Registry) (bindings : Bindings)

/-- What is inferred of a part of an expression does not depend on its indices. -/
structure InferredAlike (e : Expr) : Prop where
  infer : (e.renumber numbering).infer registry bindings = e.infer registry bindings
  memberCall : memberCall? registry bindings (e.renumber numbering) =
    memberCall? registry bindings e
  piped : ∀ left : Typed, inferPiped registry bindings (left.renumber numbering)
    (e.renumber numbering) = inferPiped registry bindings left e

variable {registry bindings}

theorem typed_map {arguments : List (Argument Expr)}
    (h : ∀ value ∈ arguments.filterMap Argument.value,
      InferredAlike numbering registry bindings value) :
    typed registry bindings (arguments.map (Argument.map (renumber numbering))) =
      (typed registry bindings arguments).map (Argument.map (Typed.renumber numbering)) := by
  induction arguments with
  | nil => rfl
  | cons argument arguments ih =>
    obtain ⟨name, _ | value⟩ := argument
    · exact congrArg (List.cons _) (ih h)
    · have hvalue := (h value (by simp)).infer
      have hothers := ih fun other hmem => h other (by simp_all)
      simp only [List.map_cons, Argument.map, Option.map_some, typed, hvalue, hothers,
        Typed.renumber]

theorem inferLast_map {es : List Expr} (h : ∀ e ∈ es, InferredAlike numbering registry bindings e) :
    inferLast registry bindings (es.map (renumber numbering)) = inferLast registry bindings es := by
  induction es with
  | nil => rfl
  | cons e es ih =>
    cases es with
    | nil => exact (h e List.mem_cons_self).infer
    | cons e' es => exact ih fun other hmem => h other (List.mem_cons_of_mem e hmem)

theorem inferForm_map {form : Form Expr}
    (h : ∀ e ∈ form.children, InferredAlike numbering registry bindings e) :
    inferForm registry bindings (form.map (renumber numbering) numbering.token) =
      inferForm registry bindings form := by
  cases form with
  | call callee arguments =>
    obtain ⟨hcallee, harguments⟩ := List.forall_mem_cons.mp h
    simp only [Form.map, inferForm, hcallee.memberCall, typed_map numbering harguments,
      functionName?_renumber, Descriptor.ofCall_map]
  | member target name slot =>
    have htarget := (h target List.mem_cons_self).infer
    simp only [Form.map, inferForm, htarget]
  | unary operator operand =>
    have hoperand := (h operand List.mem_cons_self).infer
    cases operator <;> simp only [Form.map, inferForm, hoperand]
  | binary operator left right =>
    obtain ⟨hleft, hright⟩ := List.forall_mem_cons.mp h
    have hpiped := (hright right List.mem_cons_self).piped ⟨left, left.infer registry bindings⟩
    simp only [Typed.renumber] at hpiped
    simp only [Form.map, inferForm, hleft.infer, hpiped]
  | assign operator place left right =>
    obtain ⟨hleft, hright⟩ := List.forall_mem_cons.mp h
    simp only [Form.map, inferForm, hleft.infer, (hright right List.mem_cons_self).infer]
  | function parameters body =>
    have hnames : (parameters.map (Parameter.map (renumber numbering))).map Parameter.name =
        parameters.map Parameter.name := by
      rw [List.map_map]
      rfl
    simp only [Form.map, inferForm, hnames]
  | block body => exact inferLast_map numbering h
  | paren inner => exact (h inner List.mem_cons_self).infer
  | _ => rfl

theorem inferredAlike (e : Expr) : InferredAlike numbering registry bindings e := by
  -- One induction for all three: a call looks for a member in its callee, a pipe at its right side.
  induction e using induction_children with
  | step e ih =>
    obtain ⟨range, form⟩ := e
    constructor
    · rw [renumber_node]
      exact inferForm_map numbering ih
    · rw [renumber_node]
      cases form with
      | member target name slot =>
        have htarget := (ih target List.mem_cons_self).infer
        simp only [Form.map, memberCall?, htarget]
      | _ => rfl
    · intro left
      rw [renumber_node]
      cases form with
      | call callee arguments =>
        obtain ⟨hcallee, harguments⟩ := List.forall_mem_cons.mp ih
        have hgiven := Descriptor.ofCall_map numbering registry callee.functionName?
          (⟨none, some left⟩ :: typed registry bindings arguments)
        simp only [List.map_cons, Argument.map, Option.map_some] at hgiven
        simp only [Form.map, inferPiped, hcallee.memberCall, typed_map numbering harguments,
          functionName?_renumber, Descriptor.ofCall_some, hgiven]
      | _ => rfl

/-- **Types do not depend on places.** -/
theorem infer_renumber (e : Expr) :
    (e.renumber numbering).infer registry bindings = e.infer registry bindings :=
  (inferredAlike numbering e).infer

end Expr
end TypeDrift
