import Mathlib.Data.List.Basic
import TypeDrift.Expr.Precedence
import TypeDrift.Expr.Tree

/-! # Renumbering tokens

An expression refers to its tokens by index.  When the same lexemes stand elsewhere among others,
what is read from them is the same expression with other indices.  A `Renumbering` says which:
`Expr.renumber` applies it everywhere in an expression and leaves its form as it is.
-/
namespace TypeDrift

variable {ε δ : Type}

/-- An argument with its value, if it has one, replaced. -/
def Argument.map (f : ε → δ) (argument : Argument ε) : Argument δ :=
  ⟨argument.name, argument.value.map f⟩

/-- A parameter with its fallback, if it has one, replaced. -/
def Parameter.map (f : ε → δ) (parameter : Parameter ε) : Parameter δ :=
  ⟨parameter.name, parameter.fallback.map f⟩

/-- A form with its parts and the index of its operator replaced. -/
def Form.map (f : ε → δ) (place : Nat → Nat) : Form ε → Form δ
  | literal value => .literal value
  | identifier name => .identifier name
  | namespaced package name hidden => .namespaced package name hidden
  | call callee arguments => .call (f callee) (arguments.map (Argument.map f))
  | index target arguments double => .index (f target) (arguments.map (Argument.map f)) double
  | member target name slot => .member (f target) name slot
  | unary operator operand => .unary operator (f operand)
  | binary operator left right => .binary operator (f left) (f right)
  | assign operator position left right => .assign operator (place position) (f left) (f right)
  | formula left right => .formula (left.map f) (f right)
  | function parameters body => .function (parameters.map (Parameter.map f)) (f body)
  | block body => .block (body.map f)
  | paren inner => .paren (f inner)
  | conditional condition consequent alternative =>
    .conditional (f condition) (f consequent) (alternative.map f)
  | forLoop counter sequence body => .forLoop counter (f sequence) (f body)
  | whileLoop condition body => .whileLoop (f condition) (f body)
  | repeatLoop body => .repeatLoop (f body)
  | breakLoop => .breakLoop
  | nextLoop => .nextLoop

theorem filterMap_value_map (f : ε → δ) (arguments : List (Argument ε)) :
    (arguments.map (Argument.map f)).filterMap Argument.value =
      (arguments.filterMap Argument.value).map f := by
  rw [List.filterMap_map, List.map_filterMap]
  rfl

theorem filterMap_fallback_map (f : ε → δ) (parameters : List (Parameter ε)) :
    (parameters.map (Parameter.map f)).filterMap Parameter.fallback =
      (parameters.filterMap Parameter.fallback).map f := by
  rw [List.filterMap_map, List.map_filterMap]
  rfl

/-- The parts of a form are replaced one by one. -/
theorem Form.children_map (f : ε → δ) (place : Nat → Nat) (form : Form ε) :
    (form.map f place).children = form.children.map f := by
  cases form with
  | call callee arguments => simp only [map, children, filterMap_value_map, List.map_cons]
  | index target arguments double =>
    simp only [map, children, filterMap_value_map, List.map_cons]
  | function parameters body =>
    simp only [map, children, filterMap_fallback_map, List.map_append, List.map_cons, List.map_nil]
  | formula left right => cases left <;> rfl
  | conditional condition consequent alternative => cases alternative <;> rfl
  | _ => rfl

theorem map_value_congr {f g : ε → δ} {arguments : List (Argument ε)}
    (h : ∀ e ∈ arguments.filterMap Argument.value, f e = g e) :
    arguments.map (Argument.map f) = arguments.map (Argument.map g) := by
  refine List.map_congr_left fun argument hmem => ?_
  have hvalue := Option.map_congr fun e he => h e (List.mem_filterMap.mpr ⟨argument, hmem, he⟩)
  exact congrArg (Argument.mk argument.name) hvalue

theorem map_fallback_congr {f g : ε → δ} {parameters : List (Parameter ε)}
    (h : ∀ e ∈ parameters.filterMap Parameter.fallback, f e = g e) :
    parameters.map (Parameter.map f) = parameters.map (Parameter.map g) := by
  refine List.map_congr_left fun parameter hmem => ?_
  have hvalue := Option.map_congr fun e he => h e (List.mem_filterMap.mpr ⟨parameter, hmem, he⟩)
  exact congrArg (Parameter.mk parameter.name) hvalue

/-- Replacements that agree on the parts of a form make the same of it. -/
theorem Form.map_congr {f g : ε → δ} (place : Nat → Nat) {form : Form ε}
    (h : ∀ e ∈ form.children, f e = g e) : form.map f place = form.map g place := by
  cases form with
  | call callee arguments =>
    simp only [children, List.forall_mem_cons] at h
    simp only [map, h.1, map_value_congr h.2]
  | index target arguments double =>
    simp only [children, List.forall_mem_cons] at h
    simp only [map, h.1, map_value_congr h.2]
  | function parameters body =>
    simp only [children, List.forall_mem_append, List.forall_mem_singleton] at h
    simp only [map, h.2, map_fallback_congr h.1]
  | block body => exact congrArg block (List.map_congr_left h)
  | formula left right =>
    simp only [children, List.forall_mem_append, List.forall_mem_singleton] at h
    simp only [map, h.2, Option.map_congr fun e he => h.1 e (Option.mem_toList.mpr he)]
  | conditional condition consequent alternative =>
    simp only [children, List.cons_append, List.nil_append, List.forall_mem_cons] at h
    obtain ⟨hcondition, hconsequent, halternative⟩ := h
    simp only [map, hcondition, hconsequent,
      Option.map_congr fun e he => halternative e (Option.mem_toList.mpr he)]
  | _ => simp_all [map, children]

theorem argument_map_id : Argument.map (id : ε → ε) = id := by
  funext ⟨name, value⟩
  cases value <;> rfl

theorem parameter_map_id : Parameter.map (id : ε → ε) = id := by
  funext ⟨name, fallback⟩
  cases fallback <;> rfl

theorem Form.map_id (form : Form ε) : form.map id id = form := by
  cases form <;>
    simp only [map, argument_map_id, parameter_map_id, List.map_id_fun, Option.map_id_fun, id_eq]

/-- A replacement that changes none of the parts of a form leaves it as it is. -/
theorem Form.map_eq_self {f : ε → ε} {form : Form ε} (h : ∀ e ∈ form.children, f e = e) :
    form.map f id = form :=
  (map_congr id h).trans form.map_id

/-- A form that a single lexeme is has no parts, and no operator. -/
theorem Opening.map_leaf {lexeme : Lexeme} {form : Form Expr} (f : Expr → Expr) (place : Nat → Nat)
    (h : ofLexeme? lexeme = some (.leaf form)) : form.map f place = form := by
  obtain ⟨kind, text⟩ := lexeme
  cases kind with
  | keyword word => cases word <;> cases h <;> rfl
  | _ => first | (cases h; rfl) | cases h

theorem Form.map_between (f : ε → δ) (place : Nat → Nat) (operator : Lexeme)
    (position : Nat) (left right : ε) :
    (Form.between operator position left right).map f place =
      .between operator (place position) (f left) (f right) := by
  unfold between
  split
  · rfl
  · split <;> rfl

/-- New indices: those of tokens, and those of the ends of ranges. -/
structure Renumbering where
  token : Nat → Nat
  /-- The new index behind the last token of a range. -/
  past : Nat → Nat

namespace Renumbering

/-- Every token comes so much later. -/
def shift (distance : Nat) : Renumbering := ⟨(· + distance), (· + distance)⟩

/-- The tokens of a range, renumbered. -/
def range (numbering : Renumbering) (range : TokenRange) : TokenRange :=
  ⟨numbering.token range.start, numbering.past range.stop⟩

end Renumbering

namespace Expr

mutual

/-- An expression with other indices. -/
def renumber (numbering : Renumbering) : Expr → Expr
  | .node range form => .node (numbering.range range) (renumberForm numbering form)

/-- A form with other indices in it. -/
def renumberForm (numbering : Renumbering) : Form Expr → Form Expr
  | .literal value => .literal value
  | .identifier name => .identifier name
  | .namespaced package name hidden => .namespaced package name hidden
  | .call callee arguments =>
    .call (renumber numbering callee) (renumberArguments numbering arguments)
  | .index target arguments double =>
    .index (renumber numbering target) (renumberArguments numbering arguments) double
  | .member target name slot => .member (renumber numbering target) name slot
  | .unary operator operand => .unary operator (renumber numbering operand)
  | .binary operator left right =>
    .binary operator (renumber numbering left) (renumber numbering right)
  | .assign operator position left right =>
    .assign operator (numbering.token position) (renumber numbering left) (renumber numbering right)
  | .formula left right => .formula (renumberOption numbering left) (renumber numbering right)
  | .function parameters body =>
    .function (renumberParameters numbering parameters) (renumber numbering body)
  | .block body => .block (renumberAll numbering body)
  | .paren inner => .paren (renumber numbering inner)
  | .conditional condition consequent alternative =>
    .conditional (renumber numbering condition) (renumber numbering consequent)
      (renumberOption numbering alternative)
  | .forLoop counter sequence body =>
    .forLoop counter (renumber numbering sequence) (renumber numbering body)
  | .whileLoop condition body =>
    .whileLoop (renumber numbering condition) (renumber numbering body)
  | .repeatLoop body => .repeatLoop (renumber numbering body)
  | .breakLoop => .breakLoop
  | .nextLoop => .nextLoop

/-- Arguments with other indices in their values. -/
def renumberArguments (numbering : Renumbering) : List (Argument Expr) → List (Argument Expr)
  | [] => []
  | ⟨name, value⟩ :: arguments =>
    ⟨name, renumberOption numbering value⟩ :: renumberArguments numbering arguments

/-- Parameters with other indices in their fallbacks. -/
def renumberParameters (numbering : Renumbering) : List (Parameter Expr) → List (Parameter Expr)
  | [] => []
  | ⟨name, fallback⟩ :: parameters =>
    ⟨name, renumberOption numbering fallback⟩ :: renumberParameters numbering parameters

/-- Some expressions with other indices. -/
def renumberAll (numbering : Renumbering) : List Expr → List Expr
  | [] => []
  | e :: es => renumber numbering e :: renumberAll numbering es

/-- An expression with other indices, if there is one. -/
def renumberOption (numbering : Renumbering) : Option Expr → Option Expr
  | none => none
  | some e => some (renumber numbering e)

end

variable (numbering : Renumbering)

theorem renumberOption_eq (e : Option Expr) :
    renumberOption numbering e = e.map (renumber numbering) := by
  cases e <;> simp only [renumberOption, Option.map]

theorem renumberAll_eq (es : List Expr) :
    renumberAll numbering es = es.map (renumber numbering) := by
  induction es with
  | nil => simp only [renumberAll, List.map]
  | cons e es ih => simp only [renumberAll, ih, List.map]

theorem renumberArguments_eq (arguments : List (Argument Expr)) :
    renumberArguments numbering arguments = arguments.map (Argument.map (renumber numbering)) := by
  induction arguments with
  | nil => simp only [renumberArguments, List.map]
  | cons argument arguments ih =>
    simp only [renumberArguments, renumberOption_eq, ih, List.map, Argument.map]

theorem renumberParameters_eq (parameters : List (Parameter Expr)) :
    renumberParameters numbering parameters =
      parameters.map (Parameter.map (renumber numbering)) := by
  induction parameters with
  | nil => simp only [renumberParameters, List.map]
  | cons parameter parameters ih =>
    simp only [renumberParameters, renumberOption_eq, ih, List.map, Parameter.map]

/-- What renumbering does, without the recursion: the range, the form, and the parts of the form. -/
theorem renumber_node (range : TokenRange) (form : Form Expr) :
    renumber numbering (.node range form) =
      .node (numbering.range range) (form.map (renumber numbering) numbering.token) := by
  rw [renumber]
  cases form <;>
    simp only [renumberForm, Form.map, renumberOption_eq, renumberAll_eq, renumberArguments_eq,
      renumberParameters_eq]

theorem form_renumber (e : Expr) :
    (e.renumber numbering).form = e.form.map (renumber numbering) numbering.token := by
  obtain ⟨range, form⟩ := e
  rw [renumber_node]
  rfl

theorem range_renumber (e : Expr) : (e.renumber numbering).range = numbering.range e.range := by
  obtain ⟨range, form⟩ := e
  rw [renumber_node]
  rfl

theorem children_renumber (e : Expr) :
    (e.renumber numbering).children = e.children.map (renumber numbering) := by
  rw [children, form_renumber, Form.children_map]
  rfl

/-- Everything in an expression is renumbered, in the same order. -/
theorem preorder_renumber (e : Expr) :
    (e.renumber numbering).preorder = e.preorder.map (renumber numbering) := by
  induction e using induction_children with
  | step e ih =>
    rw [preorder_eq, preorder_eq, children_renumber, List.map_cons, preorderAll, preorderAll,
      List.flatMap_map, List.map_flatMap]
    exact congrArg (List.cons _) (List.flatMap_congr ih)

/-- Renumbering that changes no index changes nothing. -/
theorem renumber_shift_zero (e : Expr) : e.renumber (.shift 0) = e := by
  induction e using induction_children with
  | step e ih =>
    obtain ⟨range, form⟩ := e
    rw [renumber_node]
    exact congrArg (node range) (Form.map_eq_self ih)

end Expr
end TypeDrift
