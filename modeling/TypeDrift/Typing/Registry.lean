import TypeDrift.Typing.BaseType

/-!
Registries. A registry holds the tags of classes that count as types of their own. A tag can be
registered if it is written like a name and does not mean a type already; registering it again
changes nothing. Tags are kept sorted.
-/
namespace TypeDrift

/-- Why a tag cannot be registered. -/
inductive RegistryError where
  | builtin (tag : String)
  | invalidTag (tag : String)
deriving DecidableEq, Repr

/-- What is printed for a refused tag. -/
def RegistryError.message : RegistryError → String
  | builtin tag => "'" ++ tag ++ "' is already a builtin type tag"
  | invalidTag tag => "'" ++ tag ++ "' is not a valid type tag"

/-- The registered tags, sorted. -/
structure Registry where
  tags : List String
deriving DecidableEq, Repr

namespace Registry

/-- No tags. -/
def empty : Registry := ⟨[]⟩

/-- The characters that a tag can begin with. -/
def isTagStart (c : Char) : Bool := c.isAlpha || c == '.'

/-- The characters that a tag can go on with. -/
def isTagCharacter (c : Char) : Bool := c.isAlphanum || c == '.' || c == '_'

/-- A tag that is written like a name. -/
def isValidTag (tag : String) : Bool :=
  match tag.toList with
  | first :: rest => isTagStart first && rest.all isTagCharacter
  | [] => false

/-- Sorted tags with one more. -/
def insertTag (tag : String) : List String → List String
  | [] => [tag]
  | other :: others =>
    if tag < other then tag :: other :: others
    else if tag = other then other :: others
    else other :: insertTag tag others

/-- The registry with one more tag. -/
def register (registry : Registry) (tag : String) : Except RegistryError Registry :=
  if (BaseType.builtin? tag).isSome then .error (.builtin tag)
  else if !isValidTag tag then .error (.invalidTag tag)
  else .ok ⟨insertTag tag registry.tags⟩

/-- The registry of some tags, or why the first of them that cannot be registered cannot. -/
def ofTags (tags : List String) : Except RegistryError Registry := tags.foldlM register empty

/-- The registry of those of some tags that can be registered. -/
def ofTagsLenient (tags : List String) : Registry :=
  tags.foldl (fun registry tag => (registry.register tag).toOption.getD registry) empty

/-- Why those of some tags that cannot be registered cannot, in their order. -/
def refusals (tags : List String) : List RegistryError :=
  tags.filterMap fun tag =>
    match empty.register tag with
    | .error error => some error
    | .ok _ => none

/-- Whether a tag has been registered. -/
def isRegistered (registry : Registry) (tag : String) : Bool := registry.tags.contains tag

/-- The base type that a tag stands for: one of the language, or a registered one. -/
def resolve? (registry : Registry) (tag : String) : Option BaseType :=
  match BaseType.builtin? tag with
  | some base => some base
  | none => if registry.isRegistered tag then some (.custom tag) else none

end Registry
end TypeDrift
