import TypeDrift.Script.Assignment
import TypeDrift.Signature.Known
import TypeDrift.Typing.Bindings
import TypeDrift.Typing.ValueType

/-!
Inference. The type of an expression is found from its form, from the types of its parts, from what
is known of the names in it, and from the signatures of the functions it calls. It never fails: an
expression of which nothing is said has the unknown type.

A pipe is typed by the call on its right, for which the expression on its left is the first argument.
-/
namespace TypeDrift

/-- The value of the first argument without a name, if it has one. -/
def Argument.firstUnnamed? {ε : Type} (arguments : List (Argument ε)) : Option ε :=
  (arguments.find? fun argument => argument.name.isNone).bind Argument.value

/-- The value of the first argument with a name, if it has one. -/
def Argument.named? {ε : Type} (arguments : List (Argument ε)) (name : String) : Option ε :=
  (arguments.find? fun argument => argument.name == some name).bind Argument.value

namespace Expr

mutual

/-- The string that an expression is, or that it is the first of. -/
def firstString? : Expr → Option String
  | .node _ (.literal (.string contents)) => some contents
  | .node _ (.call callee arguments) =>
    if callee.functionName? = some "c" then firstArgumentString? arguments else none
  | _ => none

/-- The string that the first argument without a name is. -/
def firstArgumentString? : List (Argument Expr) → Option String
  | [] => none
  | ⟨some _, _⟩ :: arguments => firstArgumentString? arguments
  | ⟨none, some value⟩ :: _ => firstString? value
  | ⟨none, none⟩ :: _ => none

end

end Expr

/-- An expression and its type. -/
structure Typed where
  expression : Expr
  type : Descriptor

/-- Arguments of the functions that make tables which say how the table is made, and are no
columns. -/
def Rule.tableOptions : List String :=
  ["stringsAsFactors", "check.names", "check.rows", "row.names", "key", "keep.rownames",
    ".name_repair", ".rows"]

/-- The name and the tag of the column that an argument gives. -/
def Rule.column? (argument : Argument Typed) : Option (String × String) :=
  match argument.name, argument.value with
  | some name, some value =>
    if name ∈ tableOptions then none else some (name, value.type.base.tag)
  | _, _ => none

namespace Signature

/-- The one function that records how many arguments it was given. -/
def combine : String := "c"

/-- The type of a call of a known function, by the arguments it is written with. One that is piped
into the call comes before them. -/
def result (registry : Registry) (signature : Signature) (piped : Option Typed)
    (given : List (Argument Typed)) : Descriptor :=
  let first := piped.or (Argument.firstUnnamed? given)
  match signature.rule with
  | .returns base => .ofBase base
  | .firstArgument =>
    match first with
    | some argument =>
      if signature.name = combine then
        argument.type.withAttribute "length" (.int (given.length + piped.toList.length : Nat))
      else argument.type
    | none => if signature.name = combine then .null else .unknown
  | .table base => .ofColumns base (given.filterMap Rule.column?)
  | .classed className => registry.classType className .s3
  | .structured =>
    match (Argument.named? given "class").bind fun argument => argument.expression.firstString? with
    | some className => registry.classType className .s3
    | none => (first.map Typed.type).getD .unknown
  | .instanceOf =>
    match first.bind fun argument => argument.expression.firstString? with
    | some className => registry.classType className .s4
    | none => .ofBase .s4
  | .generator =>
    let generator := (Descriptor.ofBase .objectRef).withAttribute "generator" (.bool true)
    let named := (first.or (Argument.named? given "Class")).or (Argument.named? given "classname")
    match named.bind fun argument => argument.expression.firstString? with
    | some className => generator.withAttribute "class" (.text className)
    | none => generator

/-- An argument that is piped into a call is one without a name in front of those it is written
with. -/
theorem result_some (registry : Registry) (signature : Signature) (piped : Typed)
    (given : List (Argument Typed)) :
    signature.result registry (some piped) given =
      signature.result registry none (⟨none, some piped⟩ :: given) := by
  have hfirst : Argument.firstUnnamed? (⟨none, some piped⟩ :: given) = some piped := rfl
  have hnamed (name : String) : Argument.named? (⟨none, some piped⟩ :: given) name =
      Argument.named? given name := rfl
  have hcolumns : (⟨none, some piped⟩ :: given).filterMap Rule.column? =
      given.filterMap Rule.column? := rfl
  unfold result
  simp only [hfirst, hnamed, hcolumns, Option.some_or, Option.none_or]
  rfl

end Signature

namespace Descriptor

/-- The type of a constant. -/
def ofLiteral : Literal → Descriptor
  | .integer _ | .naInteger => ofBase .integer
  | .float _ | .inf | .nan | .naReal => ofBase .numeric
  | .complex _ => ofBase .complex
  | .string _ | .naCharacter => ofBase .character
  | .logical _ | .na => ofBase .logical
  | .null => null

/-- What is known of a name: what it was bound to, or what it stands for everywhere. -/
def ofName (bindings : Bindings) (name : String) : Descriptor :=
  match bindings.lookup? name with
  | some descriptor => descriptor
  | none =>
    match Signature.constant? name with
    | some base => ofBase base
    | none => unknown

/-- The type of an object that a generator makes. -/
def instanceOf (generator : Descriptor) : Descriptor :=
  match generator.className? with
  | some className =>
    if generator.base = .objectRef then
      (ofBase .objectRef).withAttribute "class" (.text className)
    else ofBase .objectRef
  | none => ofBase .objectRef

/-- The type of a member of a value: that of a column, if the value is a table that has it. -/
def ofMember (registry : Registry) (target : Descriptor) (name : String) : Descriptor :=
  if target.base.isTabular then
    match (target.columnTag? name).bind registry.resolve? with
    | some base => ofBase base
    | none => unknown
  else unknown

/-- The type of an operator's result, where it does not depend on the operands. -/
def ofOperator : BinaryOperator → Descriptor
  | .add | .subtract | .multiply | .divide | .power => ofBase .numeric
  | .range => ofBase .integer
  | .equal | .notEqual | .less | .lessEqual | .greater | .greaterEqual | .and | .andAnd | .or
  | .orOr => ofBase .logical
  | .special text =>
    if text = "%%" ∨ text = "%/%" then ofBase .numeric
    else if text = "%in%" then ofBase .logical
    else unknown
  | .pipe | .help => unknown

/-- The type of a call, unless it is that of a member: by the signature of the named function. -/
def ofCall (registry : Registry) (name : Option String) (piped : Option Typed)
    (given : List (Argument Typed)) : Descriptor :=
  match name.bind Signature.find? with
  | some signature => signature.result registry piped given
  | none => unknown

theorem ofCall_some (registry : Registry) (name : Option String) (piped : Typed)
    (given : List (Argument Typed)) :
    ofCall registry name (some piped) given =
      ofCall registry name none (⟨none, some piped⟩ :: given) := by
  unfold ofCall
  split
  · exact Signature.result_some ..
  · rfl

end Descriptor

/-- The operators that hand their left operand to the call on their right. -/
def BinaryOperator.isPipe : BinaryOperator → Bool
  | pipe => true
  | special text => text == "%>%"
  | _ => false

namespace Expr

mutual

/-- The type of an expression. -/
def infer (registry : Registry) (bindings : Bindings) : Expr → Descriptor
  | .node _ form => inferForm registry bindings form

/-- The type of an expression of some form. -/
def inferForm (registry : Registry) (bindings : Bindings) : Form Expr → Descriptor
  | .literal value => .ofLiteral value
  | .identifier name => .ofName bindings name
  | .call callee arguments =>
    match memberCall? registry bindings callee with
    | some type => type
    | none => .ofCall registry callee.functionName? none (typed registry bindings arguments)
  | .member target name slot =>
    if slot then .unknown else .ofMember registry (infer registry bindings target) name
  | .unary operator operand =>
    match operator with
    | .negate | .plus => infer registry bindings operand
    | .not => .ofBase .logical
    | .help => .unknown
  | .binary operator left right =>
    if operator.isPipe then
      inferPiped registry bindings ⟨left, infer registry bindings left⟩ right
    else .ofOperator operator
  | .assign operator _ left right =>
    if operator.isRightward then infer registry bindings left else infer registry bindings right
  | .formula _ _ => .ofBase .formula
  | .function parameters _ => .ofArguments (parameters.map Parameter.name)
  | .block body => inferLast registry bindings body
  | .paren inner => infer registry bindings inner
  | .namespaced .. | .index .. | .conditional .. | .forLoop .. | .whileLoop .. | .repeatLoop _
  | .breakLoop | .nextLoop => .unknown

/-- The type of a call of a member: an instance for `$new`, and unknown for all others. -/
def memberCall? (registry : Registry) (bindings : Bindings) : Expr → Option Descriptor
  | .node _ (.member target name slot) =>
    if name = "new" ∧ slot = false then some (.instanceOf (infer registry bindings target))
    else some .unknown
  | _ => none

/-- The type of a call that an argument is piped into. -/
def inferPiped (registry : Registry) (bindings : Bindings) (piped : Typed) : Expr → Descriptor
  | .node _ (.call callee arguments) =>
    match memberCall? registry bindings callee with
    | some type => type
    | none => .ofCall registry callee.functionName? (some piped) (typed registry bindings arguments)
  | _ => .unknown

/-- Arguments with the types of their values. -/
def typed (registry : Registry) (bindings : Bindings) :
    List (Argument Expr) → List (Argument Typed)
  | [] => []
  | ⟨name, some value⟩ :: arguments =>
    ⟨name, some ⟨value, infer registry bindings value⟩⟩ :: typed registry bindings arguments
  | ⟨name, none⟩ :: arguments => ⟨name, none⟩ :: typed registry bindings arguments

/-- The type of the last of some expressions; of none of them, that of null. -/
def inferLast (registry : Registry) (bindings : Bindings) : List Expr → Descriptor
  | [] => .null
  | [e] => infer registry bindings e
  | _ :: rest => inferLast registry bindings rest

end

end Expr

namespace Script

/-- The type of the last expression of a script; of an empty script it is unknown. -/
def infer (registry : Registry) (bindings : Bindings) (script : Script) : Descriptor :=
  match script.expressions.getLast? with
  | some e => e.infer registry bindings
  | none => .unknown

/-- The type of a text. That of a text which is no script is unknown. -/
def inferText (registry : Registry) (bindings : Bindings) (source : String) : Descriptor :=
  match Script.read source with
  | .ok script => infer registry bindings script
  | .error _ => .unknown

end Script
end TypeDrift
