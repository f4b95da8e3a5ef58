import TypeDrift.Proofs.Expr.Reading
import TypeDrift.Proofs.Expr.Renumber

/-! # Relabelling

A reader decides by the kinds of lexemes.  Their texts it only carries along: as names, as numerals,
as the contents of strings.  So when the texts are replaced, what is read is the same expression with
its texts replaced, in the same range (`Expr.relabel`).

The one thing that a reader does with a text is to take off the backticks around a name.  A
`Relabelling` is a replacement for which it does not matter whether that is done before or after it.
-/
namespace TypeDrift

/-- A replacement of texts, the same with the backticks around a text and without them. -/
structure Relabelling where
  text : String → String
  unquoted_text : ∀ written, Lexeme.unquoted (text written) = text (Lexeme.unquoted written)

namespace Relabelling

/-- All texts stay as they are. -/
def none : Relabelling := ⟨id, fun _ => rfl⟩

end Relabelling

variable {ε : Type} (labels : Relabelling)

/-! ## Lexemes -/

/-- Strings, which are the kinds that hold a text. -/
def Kind.isString : Kind → Bool
  | string _ => true
  | _ => false

/-- A kind with its text replaced. -/
def Kind.relabel : Kind → Kind
  | string contents => .string (labels.text contents)
  | kind => kind

/-- A lexeme with its texts replaced. -/
def Lexeme.relabel (lexeme : Lexeme) : Lexeme :=
  ⟨lexeme.kind.relabel labels, labels.text lexeme.text⟩

theorem Kind.relabel_eq_iff {kind kind' : Kind} (h : kind'.isString = false) :
    kind.relabel labels = kind' ↔ kind = kind' := by
  cases kind with
  | string contents =>
    have hne (contents : String) : Kind.string contents ≠ kind' := by
      rintro rfl
      cases h
    exact ⟨fun heq => absurd heq (hne _), fun heq => absurd heq (hne _)⟩
  | _ => exact .rfl

theorem Kind.relabel_none (kind : Kind) : kind.relabel .none = kind := by cases kind <;> rfl

namespace Lexeme

variable {labels}

theorem kind_relabel_iff {lexeme : Lexeme} {kind : Kind} (h : kind.isString = false) :
    (lexeme.relabel labels).kind = kind ↔ lexeme.kind = kind := Kind.relabel_eq_iff labels h

theorem relabel_none (lexeme : Lexeme) : lexeme.relabel .none = lexeme :=
  congrArg (Lexeme.mk · lexeme.text) lexeme.kind.relabel_none

theorem map_relabel_none (row : List Lexeme) : row.map (relabel .none) = row := by
  rw [funext relabel_none, List.map_id']

variable (labels)

theorem name_relabel (lexeme : Lexeme) : (lexeme.relabel labels).name = labels.text lexeme.name :=
  labels.unquoted_text lexeme.text

end Lexeme

/-! ## Forms -/

/-- A constant with its text replaced. -/
def Literal.relabel : Literal → Literal
  | integer text => .integer (labels.text text)
  | float text => .float (labels.text text)
  | complex text => .complex (labels.text text)
  | string contents => .string (labels.text contents)
  | value => value

/-- An operator with its text replaced. -/
def BinaryOperator.relabel : BinaryOperator → BinaryOperator
  | special text => .special (labels.text text)
  | operator => operator

/-- An argument with its name replaced. -/
def Argument.relabel (argument : Argument ε) : Argument ε :=
  ⟨argument.name.map labels.text, argument.value⟩

/-- A parameter with its name replaced. -/
def Parameter.relabel (parameter : Parameter ε) : Parameter ε :=
  ⟨labels.text parameter.name, parameter.fallback⟩

/-- A form with the texts in it replaced, but not those in its parts. -/
def Form.relabel : Form ε → Form ε
  | literal value => .literal (value.relabel labels)
  | identifier name => .identifier (labels.text name)
  | namespaced package name hidden => .namespaced (labels.text package) (labels.text name) hidden
  | call callee arguments => .call callee (arguments.map (Argument.relabel labels))
  | index target arguments double =>
    .index target (arguments.map (Argument.relabel labels)) double
  | member target name slot => .member target (labels.text name) slot
  | binary operator left right => .binary (operator.relabel labels) left right
  | function parameters body => .function (parameters.map (Parameter.relabel labels)) body
  | forLoop counter sequence body => .forLoop (labels.text counter) sequence body
  | form => form

theorem Form.children_relabel (form : Form ε) : (form.relabel labels).children = form.children := by
  have hvalues (arguments : List (Argument ε)) :
      (arguments.map (Argument.relabel labels)).filterMap Argument.value =
        arguments.filterMap Argument.value := List.filterMap_map
  have hfallbacks (parameters : List (Parameter ε)) :
      (parameters.map (Parameter.relabel labels)).filterMap Parameter.fallback =
        parameters.filterMap Parameter.fallback := List.filterMap_map
  cases form <;> simp only [relabel, children, hvalues, hfallbacks]

theorem Form.relabel_none (form : Form ε) : form.relabel .none = form := by
  have hargument : Argument.relabel (ε := ε) .none = id := by
    funext ⟨name, value⟩
    cases name <;> rfl
  have hparameter : Parameter.relabel (ε := ε) .none = id := rfl
  cases form with
  | literal value => cases value <;> rfl
  | binary operator => cases operator <;> rfl
  | _ => simp only [relabel, hargument, hparameter, List.map_id_fun, id_eq] <;> rfl

/-- What a lexeme begins, with its texts replaced. -/
def Opening.relabel : Opening → Opening
  | leaf form => .leaf (form.relabel labels)
  | opening => opening

theorem Opening.ofLexeme?_relabel (lexeme : Lexeme) :
    ofLexeme? (lexeme.relabel labels) = (ofLexeme? lexeme).map (relabel labels) := by
  obtain ⟨kind, text⟩ := lexeme
  cases kind with
  | keyword word => cases word <;> rfl
  | _ => rfl

theorem Continuation.ofKind?_relabel (kind : Kind) : ofKind? (kind.relabel labels) = ofKind? kind := by
  cases kind <;> rfl

theorem AssignOperator.ofKind?_relabel (kind : Kind) :
    ofKind? (kind.relabel labels) = ofKind? kind := by
  cases kind <;> rfl

theorem BinaryOperator.ofLexeme_relabel (lexeme : Lexeme) :
    ofLexeme (lexeme.relabel labels) = (ofLexeme lexeme).relabel labels := by
  obtain ⟨kind, text⟩ := lexeme
  cases kind <;> rfl

theorem Form.between_relabel (operator : Lexeme) (place : Nat) (left right : ε) :
    between (operator.relabel labels) place left right =
      (between operator place left right).relabel labels := by
  have hkind : (operator.relabel labels).kind = .tilde ↔ operator.kind = .tilde :=
    Lexeme.kind_relabel_iff rfl
  unfold between
  rw [BinaryOperator.ofLexeme_relabel]
  simp only [hkind]
  rw [show (operator.relabel labels).kind = operator.kind.relabel labels from rfl,
    AssignOperator.ofKind?_relabel]
  split
  · rfl
  · split <;> rfl

/-! ## Expressions -/

namespace Expr

theorem length_preorder_child_lt {e child : Expr} (h : child ∈ e.children) :
    child.preorder.length < e.preorder.length := by
  have hpart : child.preorder.Sublist (preorderAll e.children) :=
    List.sublist_flatten_of_mem (List.mem_map_of_mem h)
  rw [preorder_eq e, List.length_cons]
  exact Nat.lt_succ_of_le hpart.length_le

/-- An expression with its texts replaced.  A part has fewer expressions in it than the whole, which
is asked for only so that the recursion is seen to end. -/
def relabel (e : Expr) : Expr :=
  .node e.range ((e.form.map
    (fun child =>
      if child.preorder.length < e.preorder.length then relabel child else child) id).relabel labels)
termination_by e.preorder.length

/-- What relabelling does, without the recursion. -/
theorem relabel_node (range : TokenRange) (form : Form Expr) :
    (node range form).relabel labels = .node range ((form.map (relabel labels) id).relabel labels) := by
  rw [relabel]
  refine congrArg (fun form => node range (Form.relabel labels form)) ?_
  exact Form.map_congr id fun child hmem =>
    if_pos (length_preorder_child_lt (e := node range form) hmem)

theorem range_relabel (e : Expr) : (e.relabel labels).range = e.range := by
  rw [relabel]
  rfl

theorem start_relabel (e : Expr) : (e.relabel labels).range.start = e.range.start :=
  congrArg TokenRange.start (range_relabel labels e)

theorem form_relabel (e : Expr) :
    (e.relabel labels).form = (e.form.map (relabel labels) id).relabel labels := by
  obtain ⟨range, form⟩ := e
  rw [relabel_node]
  rfl

theorem children_relabel (e : Expr) :
    (e.relabel labels).children = e.children.map (relabel labels) := by
  rw [children, form_relabel, Form.children_relabel, Form.children_map]
  rfl

/-- Everything in an expression is relabelled, in the same order. -/
theorem preorder_relabel (e : Expr) :
    (e.relabel labels).preorder = e.preorder.map (relabel labels) := by
  induction e using induction_children with
  | step e ih =>
    rw [preorder_eq, preorder_eq, children_relabel, List.map_cons, preorderAll, preorderAll,
      List.flatMap_map, List.map_flatMap]
    exact congrArg (List.cons _) (List.flatMap_congr ih)

theorem relabel_none (e : Expr) : e.relabel .none = e := by
  induction e using induction_children with
  | step e ih =>
    obtain ⟨range, form⟩ := e
    rw [relabel_node, Form.relabel_none]
    exact congrArg (node range) (Form.map_eq_self ih)

theorem memberName?_relabel (lexeme : Lexeme) (keywords : Bool) :
    memberName? (lexeme.relabel labels) keywords =
      (memberName? lexeme keywords).map labels.text := by
  obtain ⟨kind, text⟩ := lexeme
  cases kind with
  | identifier => exact congrArg some (labels.unquoted_text text)
  | keyword word => cases keywords <;> rfl
  | _ => rfl

theorem argumentName?_relabel (lexeme : Lexeme) :
    argumentName? (lexeme.relabel labels) = (argumentName? lexeme).map labels.text := by
  obtain ⟨kind, text⟩ := lexeme
  cases kind with
  | identifier => exact congrArg some (labels.unquoted_text text)
  | keyword word => cases word <;> first | rfl | exact congrArg some (labels.unquoted_text text)
  | _ => rfl

/-! ## Calls of readers -/

theorem Closer.isString_kind (closer : Closer) : closer.kind.isString = false := by
  cases closer <;> rfl

namespace Task

/-- A call on an expression with its texts replaced. -/
def relabel : Task → Task
  | continuation power left => continuation power (left.relabel labels)
  | task => task

/-- What a call answers with, its texts replaced. -/
def relabelResult : (task : Task) → task.Result → (task.relabel labels).Result
  | expression _ | continuation .. | operand | header => Expr.relabel labels
  | alternative | argumentValue _ | fallback => Option.map (Expr.relabel labels)
  | statements _ => List.map (Expr.relabel labels)
  | arguments _ | argumentsFrom _ => fun given =>
    (given.map (Argument.map (Expr.relabel labels))).map (Argument.relabel labels)
  | argument _ => fun given => (given.map (Expr.relabel labels)).relabel labels
  | parameters | parametersFrom => fun given =>
    (given.map (Parameter.map (Expr.relabel labels))).map (Parameter.relabel labels)

end Task
end Expr
end TypeDrift
