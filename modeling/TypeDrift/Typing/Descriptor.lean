import TypeDrift.Data.Basic
import TypeDrift.Typing.BaseType
import TypeDrift.Typing.Value

/-!
Descriptors. A descriptor is what is known of the type of a value: its base type, whether it may be
null, and attributes such as the columns of a table. Types are compared by base type alone; the
attributes inform.
-/
namespace TypeDrift

/-- What is known of a type. -/
structure Descriptor where
  base : BaseType
  nullable : Bool
  /-- Further facts, sorted by name. -/
  attributes : Fields Data
deriving Repr, Inhabited

namespace Descriptor

/-- A base type of which nothing else is known. -/
def ofBase (base : BaseType) : Descriptor := ⟨base, false, []⟩

/-- Nothing is known. -/
def unknown : Descriptor := ofBase .unknown

/-- The type of null. It is the one type that may be null. -/
def null : Descriptor := ⟨.null, true, []⟩

/-- A descriptor with one more attribute. -/
def withAttribute (descriptor : Descriptor) (key : String) (value : Data) : Descriptor :=
  { descriptor with attributes := descriptor.attributes.insert key value }

/-- An attribute of a descriptor. -/
def attribute? (descriptor : Descriptor) (key : String) : Option Data :=
  Fields.get? descriptor.attributes key

def isUnknown (descriptor : Descriptor) : Bool := descriptor.base == .unknown

/-- Two descriptors of one type. -/
def sameType (a b : Descriptor) : Bool := a.base == b.base

/-- The columns that are recorded of a table. -/
def columns? (descriptor : Descriptor) : Option (Fields Data) :=
  (descriptor.attribute? "columns").bind Data.record?

/-- The tag that is recorded of a column. -/
def columnTag? (descriptor : Descriptor) (column : String) : Option String :=
  (descriptor.columns?.bind fun columns => Fields.get? columns column).bind Data.text?

/-- The class that is recorded of an object. -/
def className? (descriptor : Descriptor) : Option String :=
  (descriptor.attribute? "class").bind Data.text?

/-- The names that are recorded of a function's arguments. -/
def argumentNames (descriptor : Descriptor) : List String :=
  (((descriptor.attribute? "args").bind Data.list?).getD []).filterMap Data.text?

/-- A descriptor in words, without the mark for null. -/
def outline (descriptor : Descriptor) : String :=
  let tag := descriptor.base.tag
  match descriptor.base with
  | .dataFrame | .dataTable | .tibble =>
    match descriptor.columns?.getD [] with
    | [] => tag
    | columns =>
      let column := fun (entry : String × Data) =>
        entry.1 ++ ": " ++ (entry.2.text?.getD "unknown")
      tag ++ "\x7b" ++ String.intercalate ", " (columns.map column) ++ "\x7d"
  | .function => "function(" ++ String.intercalate ", " descriptor.argumentNames ++ ")"
  | .s3 | .s4 | .objectRef =>
    match descriptor.className? with
    | some name => tag ++ "<" ++ name ++ ">"
    | none => tag
  | _ => tag

/-- A descriptor in words. -/
def describe (descriptor : Descriptor) : String :=
  if descriptor.nullable && descriptor.base != .null then descriptor.outline ++ "?"
  else descriptor.outline

/-- Whether a value that is not null is an instance of a base type. -/
def baseAccepts : BaseType → Value → Bool
  | .integer, .integer _ => true
  | .numeric, .integer _ | .numeric, .double _ => true
  | .double, .double _ => true
  | .character, .character _ => true
  | .logical, .logical _ => true
  | .complex, .complex _ => true
  | .raw, .raw _ => true
  | .vector, .list _ => true
  | .vector, value => value.isAtomic
  | .list, .list _ | .list, .table .. => true
  | .dataFrame, .table .. => true
  | .dataTable, .table flavour _ => flavour == .dataTable
  | .tibble, .table flavour _ => flavour == .tibble
  | .function, .function _ => true
  | .formula, .formula _ => true
  | .environment, .environment | .environment, .reference _ => true
  | .s3, .s3 .. | .s3, .table .. => true
  | .s4, .s4 _ => true
  | .objectRef, .reference _ => true
  | .custom tag, value => value.classes.contains tag
  | _, _ => false

/-- Whether a value is an instance of the described type. Of an unknown type nothing is. -/
def accepts (descriptor : Descriptor) (value : Value) : Bool :=
  match descriptor.base, value with
  | .any, _ => true
  | .unknown, _ => false
  | base, .null => descriptor.nullable || base == .null
  | .null, _ => false
  | base, value => baseAccepts base value

/-- A descriptor as a record. Its attributes are left out if there are none. -/
def toData (descriptor : Descriptor) : Data :=
  .record
    ([("base_type", .text descriptor.base.tag), ("nullable", .bool descriptor.nullable)] ++
      if descriptor.attributes.isEmpty then [] else [("attributes", .record descriptor.attributes)])

end Descriptor
end TypeDrift
