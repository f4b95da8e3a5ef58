/-!
Values at run time, in outline: what kind of value it is, its elements and its classes. A missing
element is `none`.
-/
namespace TypeDrift

/-- The kinds of table. -/
inductive TableFlavour where
  | dataFrame
  | dataTable
  | tibble
deriving DecidableEq, Repr

/-- The classes of a table. -/
def TableFlavour.classes : TableFlavour → List String
  | dataFrame => ["data.frame"]
  | dataTable => ["data.table", "data.frame"]
  | tibble => ["tbl_df", "tbl", "data.frame"]

/-- A value at run time. -/
inductive Value where
  | null
  | logical (elements : List (Option Bool))
  | integer (elements : List (Option Int32))
  | double (elements : List Float)
  | complex (elements : List (Float × Float))
  | character (elements : List (Option String))
  | raw (elements : List UInt8)
  /-- A vector of values of any kind, named or not. -/
  | list (elements : List (Option String × Value))
  | table (flavour : TableFlavour) (columns : List (String × Value))
  /-- A function, by the names of its arguments. -/
  | function (arguments : List String)
  | formula (text : String)
  | environment
  /-- A value with classes around it. -/
  | s3 (classes : List String) (data : Value)
  | s4 (className : String)
  /-- An object that is shared and not copied. -/
  | reference (className : String)
deriving Inhabited

namespace Value

/-- The vectors of one kind of element. -/
def isAtomic : Value → Bool
  | logical _ | integer _ | double _ | complex _ | character _ | raw _ => true
  | _ => false

/-- How many elements a value has; a table has its columns. -/
def length : Value → Nat
  | null | environment | s4 _ | reference _ => 0
  | logical elements => elements.length
  | integer elements => elements.length
  | double elements => elements.length
  | complex elements => elements.length
  | character elements => elements.length
  | raw elements => elements.length
  | list elements => elements.length
  | table _ columns => columns.length
  | function _ | formula _ => 1
  | s3 _ data => data.length

/-- The classes of a value. -/
def classes : Value → List String
  | null => ["NULL"]
  | logical _ => ["logical"]
  | integer _ => ["integer"]
  | double _ => ["numeric"]
  | complex _ => ["complex"]
  | character _ => ["character"]
  | raw _ => ["raw"]
  | list _ => ["list"]
  | function _ => ["function"]
  | formula _ => ["formula"]
  | environment => ["environment"]
  | table flavour _ => flavour.classes
  | s3 classes _ => classes
  | s4 className | reference className => [className]

end Value
end TypeDrift
