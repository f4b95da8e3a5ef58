/-!
Data: the values that descriptions carry and that documents are made of. Fields come in two kinds of
order. Where they are kept sorted by key (`Fields.insert`), the order is that of code points, and of
two entries with one key the later one stays; where they are listed, they stay as listed.
-/
namespace TypeDrift

/-- Entries under keys. -/
abbrev Fields (α : Type) := List (String × α)

namespace Fields
variable {α : Type}

/-- Sorted entries with one more: before the first greater key, or in the place of an equal one. -/
def insert (key : String) (value : α) : Fields α → Fields α
  | [] => [(key, value)]
  | entry :: entries =>
    if key < entry.1 then (key, value) :: entry :: entries
    else if key = entry.1 then (key, value) :: entries
    else entry :: insert key value entries

/-- The entries of a list, sorted. -/
def sorted (entries : List (String × α)) : Fields α :=
  entries.foldl (fun fields entry => fields.insert entry.1 entry.2) []

/-- What stands under a key. -/
def get? (fields : Fields α) (key : String) : Option α :=
  (fields.find? fun entry => entry.1 == key).map Prod.snd

theorem get?_insert_self (key : String) (value : α) (fields : Fields α) :
    get? (insert key value fields) key = some value := by
  induction fields with
  | nil => simp [insert, get?]
  | cons entry entries ih =>
    unfold insert
    split
    · simp [get?]
    · split
      · simp [get?]
      · next hne =>
        have : (entry.1 == key) = false := by simpa using fun h => hne h.symm
        simpa [get?, this] using ih

theorem get?_insert_of_ne {key other : String} (h : other ≠ key) (value : α) (fields : Fields α) :
    get? (insert key value fields) other = get? fields other := by
  have hkey : (key == other) = false := by simpa using fun heq => h heq.symm
  induction fields with
  | nil => simp [insert, get?, hkey]
  | cons entry entries ih =>
    unfold insert
    split
    · simp [get?, hkey]
    · split
      · next heq =>
        have : (entry.1 == other) = false := heq ▸ hkey
        simp [get?, hkey, this]
      · cases hentry : entry.1 == other with
        | true => simp [get?, hentry]
        | false => simpa [get?, hentry] using ih

end Fields

/-- Null, truth values, whole numbers, texts, lists and records. -/
inductive Data where
  | null
  | bool (value : Bool)
  | int (value : Int)
  | text (value : String)
  | list (items : List Data)
  | record (fields : List (String × Data))
deriving Repr, Inhabited

namespace Data

/-- The text that a value is. -/
def text? : Data → Option String
  | text value => some value
  | _ => none

/-- The items of a list. -/
def list? : Data → Option (List Data)
  | list items => some items
  | _ => none

/-- The fields of a record. -/
def record? : Data → Option (Fields Data)
  | record fields => some fields
  | _ => none

end Data
end TypeDrift
