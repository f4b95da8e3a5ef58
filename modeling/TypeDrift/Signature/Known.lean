import TypeDrift.Signature.Construction
import TypeDrift.Signature.Numeric
import TypeDrift.Signature.Text

/-!
The known functions and constants.
-/
namespace TypeDrift

/-- All families of signatures, in their order. -/
def Family.all : List Family :=
  [constructors, conversions, strings, numeric, statistics, predicates]

/-- All signatures, in the order of their families. -/
def Signature.all : List Signature := Family.all.flatMap Family.signatures

/-- The signature of the function with this name. -/
def Signature.find? (name : String) : Option Signature :=
  Signature.all.find? fun signature => signature.name == name

/-- The names that are bound in every script, with the types of what they stand for. -/
def Signature.constants : List (String × BaseType) :=
  [("T", .logical), ("F", .logical), ("pi", .numeric), ("LETTERS", .character),
    ("letters", .character), ("month.name", .character), ("month.abb", .character)]

/-- The type of the constant with this name. -/
def Signature.constant? (name : String) : Option BaseType :=
  (constants.find? fun constant => constant.1 == name).map Prod.snd

end TypeDrift
