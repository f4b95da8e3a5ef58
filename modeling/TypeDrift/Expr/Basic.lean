/-!
Expressions. The syntax of an expression is given in two steps. A `Form` says how an expression is
built from parts of some type, and knows nothing of what the parts are; an `Expr` is a form over
expressions, together with the range of tokens it was read from. An expression holds no places:
where it stands is found from its range, in the tokens of its script.
-/
namespace TypeDrift

/-- The tokens from the index `start` up to, and without, the index `stop`. -/
structure TokenRange where
  start : Nat
  stop : Nat
deriving DecidableEq, Repr, Inhabited

/-- The range holds the token with this index. -/
def TokenRange.contains (range : TokenRange) (index : Nat) : Bool :=
  range.start ≤ index && index < range.stop

/-- Constants. A numeral is kept as it was written, a string as its contents. -/
inductive Literal where
  | integer (text : String)
  | float (text : String)
  | complex (text : String)
  | string (contents : String)
  | logical (value : Bool)
  | null
  | na
  | naInteger
  | naReal
  | naCharacter
  | inf
  | nan
deriving DecidableEq, Repr

inductive UnaryOperator where
  | negate
  | plus
  | not
  | help
deriving DecidableEq, Repr

/-- The operators on two operands that bind no name. -/
inductive BinaryOperator where
  | add
  | subtract
  | multiply
  | divide
  | power
  | range
  /-- An operator between percent signs, with them; or `:=`. -/
  | special (text : String)
  | pipe
  | equal
  | notEqual
  | less
  | lessEqual
  | greater
  | greaterEqual
  | and
  | andAnd
  | or
  | orOr
  | help
deriving DecidableEq, Repr

/-- The operators that bind a name. -/
inductive AssignOperator where
  | left
  | superLeft
  | equal
  | right
  | superRight
deriving DecidableEq, Repr

namespace AssignOperator

/-- How an operator is written. -/
def symbol : AssignOperator → String
  | left => "<-"
  | superLeft => "<<-"
  | equal => "="
  | right => "->"
  | superRight => "->>"

/-- The operators that bind the name on their right. -/
def isRightward : AssignOperator → Bool
  | right | superRight => true
  | _ => false

end AssignOperator

/-- An argument of a call or of an index: named or not, and possibly empty, as the first one of
`x[, 1]` is. -/
structure Argument (ε : Type) where
  name : Option String
  value : Option ε
deriving Repr

/-- A parameter of a function, and what it stands for where it is not given. -/
structure Parameter (ε : Type) where
  name : String
  fallback : Option ε
deriving Repr

/-- How an expression is built from parts of the type `ε`. -/
inductive Form (ε : Type) where
  | literal (value : Literal)
  | identifier (name : String)
  /-- A name of a package, its exported names apart from the hidden ones. -/
  | namespaced (package name : String) (hidden : Bool)
  | call (callee : ε) (arguments : List (Argument ε))
  | index (target : ε) (arguments : List (Argument ε)) (double : Bool)
  /-- A component of a value, or one of its slots. -/
  | member (target : ε) (name : String) (slot : Bool)
  | unary (operator : UnaryOperator) (operand : ε)
  | binary (operator : BinaryOperator) (left right : ε)
  /-- An assignment in the order of its text; `place` is the index of the operator's token. -/
  | assign (operator : AssignOperator) (place : Nat) (left right : ε)
  | formula (left : Option ε) (right : ε)
  | function (parameters : List (Parameter ε)) (body : ε)
  | block (body : List ε)
  | paren (inner : ε)
  | conditional (condition consequent : ε) (alternative : Option ε)
  | forLoop (counter : String) (sequence body : ε)
  | whileLoop (condition body : ε)
  | repeatLoop (body : ε)
  | breakLoop
  | nextLoop
deriving Repr

/-- The parts of a form, in the order of its text. -/
def Form.children {ε : Type} : Form ε → List ε
  | literal _ | identifier _ | namespaced .. | breakLoop | nextLoop => []
  | call callee arguments => callee :: arguments.filterMap Argument.value
  | index target arguments _ => target :: arguments.filterMap Argument.value
  | member target _ _ => [target]
  | unary _ operand => [operand]
  | binary _ left right => [left, right]
  | assign _ _ left right => [left, right]
  | formula left right => left.toList ++ [right]
  | function parameters body => parameters.filterMap Parameter.fallback ++ [body]
  | block body => body
  | paren inner => [inner]
  | conditional condition consequent alternative =>
    [condition, consequent] ++ alternative.toList
  | forLoop _ sequence body => [sequence, body]
  | whileLoop condition body => [condition, body]
  | repeatLoop body => [body]

/-- An expression: the tokens it was read from, and its form. -/
inductive Expr where
  | node (range : TokenRange) (form : Form Expr)
deriving Repr

namespace Expr

def range : Expr → TokenRange
  | node range _ => range

def form : Expr → Form Expr
  | node _ form => form

/-- The name of the function that a call of this expression calls, where it is written as a name, as
a name of a package, or as a string. -/
def functionName? (e : Expr) : Option String :=
  match e.form with
  | .identifier name | .namespaced _ name _ | .literal (.string name) => some name
  | _ => none

/-- The expressions that an expression is built from, in the order of its text. -/
def children (e : Expr) : List Expr := e.form.children

theorem sizeOf_form_lt (e : Expr) : sizeOf e.form < sizeOf e := by
  cases e
  simp only [form, node.sizeOf_spec]
  omega

theorem sizeOf_value_lt {arguments : List (Argument Expr)} {e : Expr}
    (h : e ∈ arguments.filterMap Argument.value) : sizeOf e < sizeOf arguments := by
  obtain ⟨argument, hmem, hvalue⟩ := List.mem_filterMap.1 h
  have hlist := List.sizeOf_lt_of_mem hmem
  cases argument with
  | mk name value =>
    cases hvalue
    simp only [Argument.mk.sizeOf_spec, Option.some.sizeOf_spec] at hlist
    omega

theorem sizeOf_fallback_lt {parameters : List (Parameter Expr)} {e : Expr}
    (h : e ∈ parameters.filterMap Parameter.fallback) : sizeOf e < sizeOf parameters := by
  obtain ⟨parameter, hmem, hfallback⟩ := List.mem_filterMap.1 h
  have hlist := List.sizeOf_lt_of_mem hmem
  cases parameter with
  | mk name fallback =>
    cases hfallback
    simp only [Parameter.mk.sizeOf_spec, Option.some.sizeOf_spec] at hlist
    omega

theorem sizeOf_lt_of_mem_children {form : Form Expr} {e : Expr} (h : e ∈ form.children) :
    sizeOf e < sizeOf form := by
  cases form with
  | literal | identifier | namespaced | breakLoop | nextLoop => cases h
  | call callee arguments =>
    rcases List.mem_cons.1 h with rfl | h
    · simp only [Form.call.sizeOf_spec]; omega
    · have := sizeOf_value_lt h
      simp only [Form.call.sizeOf_spec]; omega
  | index target arguments double =>
    rcases List.mem_cons.1 h with rfl | h
    · simp only [Form.index.sizeOf_spec]; omega
    · have := sizeOf_value_lt h
      simp only [Form.index.sizeOf_spec]; omega
  | function parameters body =>
    rcases List.mem_append.1 h with h | h
    · have := sizeOf_fallback_lt h
      simp only [Form.function.sizeOf_spec]; omega
    · cases List.mem_singleton.1 h
      simp only [Form.function.sizeOf_spec]; omega
  | formula left right =>
    rcases List.mem_append.1 h with h | h
    · cases left with
      | none => cases h
      | some left =>
        cases List.mem_singleton.1 h
        simp only [Form.formula.sizeOf_spec, Option.some.sizeOf_spec]; omega
    · cases List.mem_singleton.1 h
      simp only [Form.formula.sizeOf_spec]; omega
  | conditional condition consequent alternative =>
    rcases List.mem_append.1 h with h | h
    · simp only [List.mem_cons, List.not_mem_nil, or_false] at h
      rcases h with rfl | rfl <;> simp only [Form.conditional.sizeOf_spec] <;> omega
    · cases alternative with
      | none => cases h
      | some alternative =>
        cases List.mem_singleton.1 h
        simp only [Form.conditional.sizeOf_spec, Option.some.sizeOf_spec]; omega
  | block body =>
    have := List.sizeOf_lt_of_mem (show e ∈ body from h)
    simp only [Form.block.sizeOf_spec]; omega
  | _ =>
    simp only [Form.children, List.mem_cons, List.not_mem_nil, or_false] at h
    rcases h with rfl | rfl <;> simp +arith

theorem sizeOf_child_lt {e child : Expr} (h : child ∈ e.children) : sizeOf child < sizeOf e :=
  Nat.lt_trans (sizeOf_lt_of_mem_children h) (sizeOf_form_lt e)

/-- Induction along the parts: what holds of an expression as soon as it holds of all its parts
holds of every expression. -/
theorem induction_children {motive : Expr → Prop}
    (step : ∀ e : Expr, (∀ child ∈ e.children, motive child) → motive e) (e : Expr) : motive e :=
  step e fun child _ => induction_children step child
termination_by sizeOf e
decreasing_by exact sizeOf_child_lt (by assumption)

end Expr
end TypeDrift
