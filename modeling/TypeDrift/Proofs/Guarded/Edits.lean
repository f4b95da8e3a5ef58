import Mathlib.Data.Finset.Card
import TypeDrift.Proofs.Guarded.Check

/-! # Edits of bindings

Bindings are edited by inserting a descriptor for a name, and by binding an assignment, which inserts
what its value is inferred to be in the bindings as they are.  The slots of names are changed by
either in the same way, so that one step is enough: the slots go on to keep the bindings
(`Slots.Keeps.edit_eq`).

What the bindings are after any number of edits is then read off the list of insertions alone.  A
name is listed where it is inserted first and stands for what is inserted last.
-/
namespace TypeDrift

/-- A change of bindings: a descriptor is inserted for a name, or an assignment is bound. -/
inductive Edit where
  | insert (name : String) (descriptor : Descriptor)
  | bind (assignment : Assignment)

/-- What an edit has done: the name, what it stands for from then on, and what it stood for before,
which is the answer of the edit. -/
structure Inserted where
  name : String
  current : Descriptor
  previous : Option Descriptor

namespace Edit

/-- The name that is inserted. -/
def name : Edit → String
  | insert name _ => name
  | bind assignment => assignment.name

/-- What the name stands for after the edit: a bound value is inferred in the bindings before it. -/
def descriptor (registry : Registry) (bindings : Bindings) : Edit → Descriptor
  | insert _ descriptor => descriptor
  | bind assignment => assignment.value.infer registry bindings

/-- What the edit does to bindings. -/
def insertion (registry : Registry) (bindings : Bindings) (edit : Edit) : Inserted :=
  ⟨edit.name, edit.descriptor registry bindings, bindings.lookup? edit.name⟩

end Edit

namespace Slots

variable {ε : Type}

/-- The names in the order of their slots. -/
def names (slots : Slots) : List String := slots.entries.map Prod.fst

/-- A descriptor is inserted for a name. -/
def insert (slots : Slots) (name : String) (descriptor : Descriptor) :
    Guarded ε (Inserted × Slots) := do
  let (previous, next) ← slots.bind name descriptor
  .ok (⟨name, descriptor, previous⟩, next)

/-- One edit. -/
def edit (registry : Registry) (slots : Slots) : Edit → Guarded ε (Inserted × Slots)
  | .insert name descriptor => slots.insert name descriptor
  | .bind assignment => do
    let bindings ← slots.known
    slots.insert assignment.name (assignment.value.infer registry bindings)

/-- One edit after others: its insertion is put behind theirs. -/
def editNext (registry : Registry) (reached : List Inserted × Slots) (edit : Edit) :
    Guarded ε (List Inserted × Slots) := do
  let (insertion, next) ← reached.2.edit registry edit
  .ok (reached.1 ++ [insertion], next)

/-- Some edits of no bindings at all: their insertions, and the slots after them. -/
def editAll (registry : Registry) (edits : List Edit) : Guarded ε (List Inserted × Slots) :=
  edits.foldlM (editNext registry) ([], empty)

end Slots

/-! ## The same without slots -/

namespace Bindings

/-- Some edits of no bindings at all: their insertions, and the bindings after them. -/
def editAll (registry : Registry) (edits : List Edit) : List Inserted × Bindings :=
  edits.foldl
    (fun reached edit =>
      (reached.1 ++ [edit.insertion registry reached.2],
        reached.2.bind edit.name (edit.descriptor registry reached.2)))
    ([], empty)

/-- The bindings after some edits of no bindings at all. -/
def edited (registry : Registry) (edits : List Edit) : Bindings := (editAll registry edits).2

/-- The insertions that some edits of no bindings at all make. -/
def insertions (registry : Registry) (edits : List Edit) : List Inserted :=
  (editAll registry edits).1

variable (registry : Registry) (edits : List Edit)

theorem edited_concat (edit : Edit) :
    edited registry (edits ++ [edit]) =
      (edited registry edits).bind edit.name (edit.descriptor registry (edited registry edits)) := by
  simp [edited, editAll, List.foldl_append]

theorem insertions_concat (edit : Edit) :
    insertions registry (edits ++ [edit]) =
      insertions registry edits ++ [edit.insertion registry (edited registry edits)] := by
  simp [insertions, edited, editAll, List.foldl_append]

/-- Binding assignments one after the other is one way of editing. -/
theorem edited_map_bind (records : List Assignment) :
    edited registry (records.map Edit.bind) = empty.reached registry records := by
  induction records using List.reverseRecOn with
  | nil => rfl
  | append_singleton records record ih =>
    rw [List.map_append, List.map_singleton, edited_concat, ih, reached_snoc]
    rfl

theorem map_name_insertions :
    (insertions registry edits).map Inserted.name = edits.map Edit.name := by
  induction edits using List.reverseRecOn with
  | nil => rfl
  | append_singleton edits edit ih =>
    rw [insertions_concat, List.map_append, ih, List.map_append]
    rfl

/-- Names keep the order in which they are inserted first. -/
theorem names_edited : (edited registry edits).names = (edits.map Edit.name).eraseDups := by
  induction edits using List.reverseRecOn with
  | nil => rfl
  | append_singleton edits edit ih =>
    rw [edited_concat, names_bind, ih, List.map_append, List.map_singleton, eraseDups_concat]
    simp only [List.mem_eraseDups]

/-- A name stands for what is inserted for it last. -/
theorem lookup?_edited (name : String) :
    (edited registry edits).lookup? name =
      ((insertions registry edits).reverse.find? (·.name == name)).map Inserted.current := by
  induction edits using List.reverseRecOn with
  | nil => rfl
  | append_singleton edits edit ih =>
    rw [edited_concat, insertions_concat, List.reverse_append, List.reverse_singleton,
      List.singleton_append]
    by_cases hname : edit.name = name
    · rw [← hname, lookup?_bind_self, List.find?_cons_of_pos (by simp [Edit.insertion])]
      rfl
    · rw [lookup?_bind_of_ne (Ne.symm hname), ih,
        List.find?_cons_of_neg (by simpa [Edit.insertion] using hname)]

end Bindings

/-! ## The slots keep the bindings -/

namespace Slots

open Guarded

variable {ε : Type} {slots : Slots} {bindings : Bindings}

theorem Keeps.edit_eq (h : slots.Keeps bindings) (registry : Registry) (edit : Edit) :
    ∃ next, (slots.edit registry edit : Guarded ε _) =
        .ok (edit.insertion registry bindings, next) ∧
      next.Keeps (bindings.bind edit.name (edit.descriptor registry bindings)) := by
  obtain ⟨next, hnext, hkeeps⟩ :=
    h.bind_eq (ε := ε) edit.name (edit.descriptor registry bindings)
  refine ⟨next, ?_, hkeeps⟩
  cases edit with
  | insert name descriptor =>
    simp only [Edit.name, Edit.descriptor] at hnext
    simp only [Slots.edit, Slots.insert, hnext, ok_bind]
    rfl
  | bind assignment =>
    simp only [Edit.name, Edit.descriptor] at hnext
    simp only [Slots.edit, Slots.insert, h.known_eq, hnext, ok_bind]
    rfl

theorem editAll_concat (registry : Registry) (edits : List Edit) (edit : Edit) :
    (editAll registry (edits ++ [edit]) : Guarded ε _) =
      (do
        let reached ← editAll registry edits
        editNext registry reached edit) := by
  simp only [editAll, List.foldlM_append, List.foldlM_cons, List.foldlM_nil, bind_pure]

/-- Edits of slots insert what the same edits of bindings do, and the slots keep the bindings. -/
theorem editAll_eq (registry : Registry) (edits : List Edit) :
    ∃ slots, (editAll registry edits : Guarded ε _) =
        .ok (Bindings.insertions registry edits, slots) ∧
      slots.Keeps (Bindings.edited registry edits) := by
  induction edits using List.reverseRecOn with
  | nil => exact ⟨.empty, rfl, .empty⟩
  | append_singleton edits edit ih =>
    obtain ⟨slots, hslots, hkeeps⟩ := ih
    obtain ⟨next, hnext, hkeeps'⟩ := hkeeps.edit_eq (ε := ε) registry edit
    refine ⟨next, ?_, by rwa [Bindings.edited_concat]⟩
    rw [editAll_concat, hslots, ok_bind, editNext, hnext, ok_bind, Bindings.insertions_concat]

/-- The slot of a name is where it is listed, and no other name has one. -/
theorem Keeps.slot?_eq_some_iff (h : slots.Keeps bindings) {name : String} {slot : Nat} :
    slots.slot? name = some slot ↔ slots.names[slot]? = some name := by
  have hnames : slots.names = bindings.names := by rw [names, h.entries, Bindings.names]
  rw [h.slot?, hnames, List.idxOf?]
  constructor
  · intro hslot
    obtain ⟨hlt, hname, -⟩ := List.findIdx?_eq_some_iff_getElem.mp hslot
    rw [List.getElem?_eq_getElem hlt, beq_iff_eq.mp hname]
  · intro hname
    obtain ⟨hlt, rfl⟩ := List.getElem?_eq_some_iff.mp hname
    refine List.findIdx?_eq_some_iff_getElem.mpr ⟨hlt, beq_self_eq_true _, fun earlier hearlier => ?_⟩
    -- An earlier name is another one, for each is listed once.
    simpa using fun heq => Nat.ne_of_lt hearlier ((h.nodup.getElem_inj_iff).mp heq)

/-- Binding a name leaves the slots of all others as they are. -/
theorem Keeps.slot?_bind_of_ne {next : Slots} {name other : String} {descriptor : Descriptor}
    (h : slots.Keeps bindings) (hnext : next.Keeps (bindings.bind name descriptor))
    (hother : other ≠ name) : next.slot? other = slots.slot? other := by
  rw [hnext.slot?, h.slot?, bindings.names_bind]
  split
  · rfl
  · next hnew => rw [idxOf?_concat hnew, if_neg hother]

/-- **Slots through any edits.**  Whatever is inserted and bound, from nothing on, every edit has an
answer.  The names are listed once each, in the order in which they are inserted first, and there
are as many as different names are inserted.  A name is looked up as what is inserted for it last.
The slot of a listed name is its own, and no other name has a slot.  The next edit, whichever it is,
answers with what its name is looked up as until then; and all other names keep what they stand for
and where. -/
theorem editAll_keeps (registry : Registry) (edits : List Edit) :
    ∃ insertions slots, (editAll registry edits : Guarded ε _) = .ok (insertions, slots) ∧
      insertions.map Inserted.name = edits.map Edit.name ∧
      slots.names.Nodup ∧
      slots.names = (edits.map Edit.name).eraseDups ∧
      slots.entries.length = (edits.map Edit.name).toFinset.card ∧
      (∀ name, (slots.lookup? name : Guarded ε _) =
        .ok ((insertions.reverse.find? (·.name == name)).map Inserted.current)) ∧
      (∀ name slot, slots.slot? name = some slot ↔ slots.names[slot]? = some name) ∧
      (slots.known : Guarded ε _) = .ok (Bindings.edited registry edits) ∧
      ∀ edit, ∃ insertion next,
        (slots.edit registry edit : Guarded ε _) = .ok (insertion, next) ∧
        (editAll registry (edits ++ [edit]) : Guarded ε _) =
          .ok (insertions ++ [insertion], next) ∧
        insertion.name = edit.name ∧
        insertion.current = edit.descriptor registry (Bindings.edited registry edits) ∧
        (slots.lookup? edit.name : Guarded ε _) = .ok insertion.previous ∧
        ∀ other, other ≠ edit.name →
          (next.lookup? other : Guarded ε _) = slots.lookup? other ∧
          next.slot? other = slots.slot? other := by
  obtain ⟨slots, hslots, hkeeps⟩ := editAll_eq (ε := ε) registry edits
  have hnames : slots.names = (edits.map Edit.name).eraseDups := by
    rw [names, hkeeps.entries]
    exact Bindings.names_edited registry edits
  have hnodup : slots.names.Nodup := by
    rw [names, hkeeps.entries]
    exact hkeeps.nodup
  -- Without repetitions, the names are as many as there are different ones.
  have hlength : slots.entries.length = (edits.map Edit.name).toFinset.card := by
    have hsame : slots.names.toFinset = (edits.map Edit.name).toFinset := by
      ext name
      rw [List.mem_toFinset, List.mem_toFinset, hnames, List.mem_eraseDups]
    rw [← hsame, List.toFinset_card_of_nodup hnodup, names, List.length_map]
  refine ⟨_, slots, hslots, Bindings.map_name_insertions registry edits, hnodup, hnames, hlength,
    fun name => ?_,
    fun name slot => hkeeps.slot?_eq_some_iff, hkeeps.known_eq, fun edit => ?_⟩
  · rw [hkeeps.lookup?_eq, Bindings.lookup?_edited]
  · obtain ⟨next, hnext, hkeeps'⟩ := hkeeps.edit_eq (ε := ε) registry edit
    refine ⟨_, next, hnext, ?_, rfl, rfl, hkeeps.lookup?_eq edit.name, fun other hother => ?_⟩
    · rw [editAll_concat, hslots, ok_bind, editNext, hnext, ok_bind]
    · rw [hkeeps'.lookup?_eq, hkeeps.lookup?_eq, Bindings.lookup?_bind_of_ne hother]
      exact ⟨rfl, hkeeps.slot?_bind_of_ne hkeeps' hother⟩

end Slots
end TypeDrift
