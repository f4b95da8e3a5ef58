import TypeDrift.Typing.Descriptor
import TypeDrift.Typing.Registry

/-!
Types of values. What a value at run time is, is read off the value; which classes are types of
their own is decided by a registry.
-/
namespace TypeDrift

/-- The type of an object of a class: a type of its own if the class is registered, and otherwise
the general one, with the class recorded. -/
def Registry.classType (registry : Registry) (className : String) (general : BaseType) :
    Descriptor :=
  if registry.isRegistered className then .ofBase (.custom className)
  else (Descriptor.ofBase general).withAttribute "class" (.text className)

/-- The base type of tables of a kind. -/
def TableFlavour.base : TableFlavour → BaseType
  | dataFrame => .dataFrame
  | dataTable => .dataTable
  | tibble => .tibble

namespace Descriptor

/-- The type of a function with these arguments. -/
def ofArguments (names : List String) : Descriptor :=
  (ofBase .function).withAttribute "args" (.list (names.map .text))

/-- The type of a vector with so many elements. -/
def sized (base : BaseType) (length : Nat) : Descriptor :=
  (ofBase base).withAttribute "length" (.int length)

/-- The type of a table whose columns have these tags; of two columns of one name the later counts. -/
def ofColumns (base : BaseType) (tags : List (String × String)) : Descriptor :=
  (ofBase base).withAttribute "columns"
    (.record (Fields.sorted (tags.map fun tag => (tag.1, .text tag.2))))

mutual

/-- The type of a value. -/
def ofValue (registry : Registry) : Value → Descriptor
  | .null => null
  | .logical elements => sized .logical elements.length
  | .integer elements => sized .integer elements.length
  | .double elements => sized .numeric elements.length
  | .complex elements => sized .complex elements.length
  | .character elements => sized .character elements.length
  | .raw elements => sized .raw elements.length
  | .list elements => sized .list elements.length
  | .table flavour columns => ofColumns flavour.base (columnTags registry columns)
  | .function arguments => ofArguments arguments
  | .formula _ => ofBase .formula
  | .environment => ofBase .environment
  | .s3 classes _ =>
    match classes with
    | first :: _ => registry.classType first .s3
    | [] => ofBase .s3
  | .s4 className => registry.classType className .s4
  | .reference className => (ofBase .objectRef).withAttribute "class" (.text className)

/-- The tags of columns, by name. -/
def columnTags (registry : Registry) : List (String × Value) → List (String × String)
  | [] => []
  | (name, column) :: columns =>
    (name, (ofValue registry column).base.tag) :: columnTags registry columns

end

end Descriptor
end TypeDrift
