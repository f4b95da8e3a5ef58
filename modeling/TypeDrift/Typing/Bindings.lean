import TypeDrift.Typing.Descriptor

/-!
Bindings. The names that have been bound, each with what is known of its value, in the order in which
they were first bound. Binding a name again changes what is known of it and not its position.
-/
namespace TypeDrift

/-- Names with descriptors, in the order of their first binding. -/
structure Bindings where
  entries : List (String × Descriptor)
deriving Repr

namespace Bindings

/-- No names. -/
def empty : Bindings := ⟨[]⟩

/-- What is known of a name. -/
def lookup? (bindings : Bindings) (name : String) : Option Descriptor :=
  (bindings.entries.find? fun entry => entry.1 == name).map Prod.snd

/-- Entries with a name bound: in its position, or behind all others if it is new. -/
def bindEntry (name : String) (descriptor : Descriptor) :
    List (String × Descriptor) → List (String × Descriptor)
  | [] => [(name, descriptor)]
  | entry :: entries =>
    if entry.1 = name then (name, descriptor) :: entries
    else entry :: bindEntry name descriptor entries

/-- The bindings with a name bound. -/
def bind (bindings : Bindings) (name : String) (descriptor : Descriptor) : Bindings :=
  ⟨bindEntry name descriptor bindings.entries⟩

/-- The bound names, in order. -/
def names (bindings : Bindings) : List String := bindings.entries.map Prod.fst

/-- How many names are bound. -/
def size (bindings : Bindings) : Nat := bindings.entries.length

theorem lookup?_empty (name : String) : empty.lookup? name = none := rfl

theorem lookup?_bind_self (bindings : Bindings) (name : String) (descriptor : Descriptor) :
    (bindings.bind name descriptor).lookup? name = some descriptor := by
  obtain ⟨entries⟩ := bindings
  simp only [bind, lookup?]
  induction entries with
  | nil => simp [bindEntry]
  | cons entry entries ih =>
    unfold bindEntry
    split
    · simp
    · next hne =>
      have : (entry.1 == name) = false := by simpa using hne
      simpa [this] using ih

theorem lookup?_bind_of_ne {name other : String} (h : other ≠ name) (bindings : Bindings)
    (descriptor : Descriptor) :
    (bindings.bind name descriptor).lookup? other = bindings.lookup? other := by
  obtain ⟨entries⟩ := bindings
  have hname : (name == other) = false := by simpa using fun heq => h heq.symm
  simp only [bind, lookup?]
  induction entries with
  | nil => simp [bindEntry, hname]
  | cons entry entries ih =>
    unfold bindEntry
    split
    · next heq =>
      have : (entry.1 == other) = false := heq ▸ hname
      simp [hname, this]
    · cases hentry : entry.1 == other with
      | true => simp [hentry]
      | false => simpa [hentry] using ih

end Bindings
end TypeDrift
