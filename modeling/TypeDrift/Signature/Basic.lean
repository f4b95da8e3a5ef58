import TypeDrift.Typing.BaseType

/-!
Signatures. A signature says of a known function what a call of it yields, and what it expects to be
given. Signatures come in families, and a name means the first signature it has in the order of the
families.
-/
namespace TypeDrift

/-- What a call yields. -/
inductive Rule where
  /-- Always the same type. -/
  | returns (base : BaseType)
  /-- The type of the first unnamed argument. -/
  | firstArgument
  /-- A table, whose columns are the named arguments. -/
  | table (base : BaseType)
  /-- An object of a class. -/
  | classed (className : String)
  /-- The first argument, with the class that is given by name. -/
  | structured
  /-- An instance of the class that is named first. -/
  | instanceOf
  /-- A generator of objects of the class that is named first. -/
  | generator
deriving DecidableEq, Repr

/-- What is known of a function. -/
structure Signature where
  name : String
  rule : Rule
  /-- The type of argument that the function is made for. -/
  expects : Option BaseType
deriving DecidableEq, Repr

/-- Some signatures that belong together. -/
structure Family where
  name : String
  description : String
  signatures : List Signature
deriving Repr

namespace Signature

/-- A function that takes anything. -/
def ruled (name : String) (rule : Rule) : Signature := ⟨name, rule, none⟩

/-- Functions that take anything and yield one type. -/
def returning (base : BaseType) (names : List String) : List Signature :=
  names.map fun name => ruled name (.returns base)

/-- Functions that yield what they are given first. -/
def passing (names : List String) : List Signature :=
  names.map fun name => ruled name .firstArgument

end Signature
end TypeDrift
