/-!
Base types: the tags by which types are told apart. The tags of the language are fixed; a class that
has been registered is a type of its own and carries its tag.
-/
namespace TypeDrift

/-- The tag of a type. -/
inductive BaseType where
  | integer
  | numeric
  | double
  | character
  | logical
  | complex
  | raw
  | null
  | any
  | unknown
  | list
  | vector
  | dataFrame
  | dataTable
  | tibble
  | function
  | formula
  | s3
  | s4
  | objectRef
  | environment
  | custom (tag : String)
deriving DecidableEq, Repr, Inhabited

namespace BaseType

/-- How a base type is written. -/
def tag : BaseType → String
  | integer => "integer"
  | numeric => "numeric"
  | double => "double"
  | character => "character"
  | logical => "logical"
  | complex => "complex"
  | raw => "raw"
  | null => "null"
  | any => "any"
  | unknown => "unknown"
  | list => "list"
  | vector => "vector"
  | dataFrame => "data_frame"
  | dataTable => "data_table"
  | tibble => "tibble"
  | function => "function"
  | formula => "formula"
  | s3 => "s3"
  | s4 => "s4"
  | objectRef => "object_ref"
  | environment => "environment"
  | custom tag => tag

/-- The base types of the language. -/
def builtins : List BaseType :=
  [integer, numeric, double, character, logical, complex, raw, null, any, unknown, list, vector,
    dataFrame, dataTable, tibble, function, formula, s3, s4, objectRef, environment]

/-- The class names of the language under which some base types are known as well. -/
def aliases : List (String × BaseType) :=
  [("data.frame", dataFrame), ("data.table", dataTable), ("tbl_df", tibble), ("NULL", null),
    ("R6", objectRef), ("refObjectGenerator", objectRef)]

/-- The base type of the language that a tag or a class name stands for. -/
def builtin? (tag : String) : Option BaseType :=
  match aliases.find? fun entry => entry.1 == tag with
  | some entry => some entry.2
  | none => builtins.find? fun builtin => builtin.tag == tag

/-- The types with columns. -/
def isTabular : BaseType → Bool
  | dataFrame | dataTable | tibble => true
  | _ => false

/-- The types of vectors of one kind of element. -/
def isAtomic : BaseType → Bool
  | integer | numeric | double | character | logical | complex | raw => true
  | _ => false

theorem builtin?_tag {base : BaseType} (h : base ∈ builtins) :
    builtin? base.tag = some base := by
  revert base
  decide +kernel

end BaseType
end TypeDrift
