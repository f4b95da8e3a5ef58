import TypeDrift.Proofs.Check.Drift
import TypeDrift.Proofs.Guarded.Script

/-! # Guarded checks

A check keeps its bindings in a row of entries, and beside the row the slot of every name.  A name is
looked up, and bound again, in its slot.  That there is an entry in the slot, and the right one, is
one invariant of the two (`Slots.Keeps`): the slot of a name is its position among the bound names.

`Guarded.runs_complete` puts together what this directory shows.
-/
namespace TypeDrift

/-- Bindings as a row of entries and the slot of each name. -/
structure Slots where
  entries : List (String × Descriptor)
  slot? : String → Option Nat

namespace Slots

open Guarded

variable {ε : Type}

/-- No names. -/
def empty : Slots := ⟨[], fun _ => none⟩

/-- What is known of a name, looked up in its slot. -/
def lookup? (slots : Slots) (name : String) : Guarded ε (Option Descriptor) :=
  match slots.slot? name with
  | some slot => do
    let entry ← found slots.entries[slot]?
    .ok (some entry.2)
  | none => .ok none

/-- What is known of all the names, each looked up in its slot. -/
def known (slots : Slots) : Guarded ε Bindings := do
  let entries ← slots.entries.mapM fun entry => do
    let descriptor ← slots.lookup? entry.1
    let descriptor ← found descriptor
    .ok (entry.1, descriptor)
  .ok ⟨entries⟩

/-- A name is bound: what was known of it before, and the slots from then on. -/
def bind (slots : Slots) (name : String) (descriptor : Descriptor) :
    Guarded ε (Option Descriptor × Slots) :=
  match slots.slot? name with
  | some slot => do
    let entry ← found slots.entries[slot]?
    .ok (some entry.2, { slots with entries := slots.entries.set slot (entry.1, descriptor) })
  | none =>
    .ok (none,
      { entries := slots.entries ++ [(name, descriptor)]
        slot? := fun other =>
          if other = name then some slots.entries.length else slots.slot? other })

/-- Slots keep bindings: the slot of a name is its position among the bound names, each of which is
bound once. -/
structure Keeps (slots : Slots) (bindings : Bindings) : Prop where
  entries : slots.entries = bindings.entries
  slot? : ∀ name, slots.slot? name = bindings.names.idxOf? name
  nodup : bindings.names.Nodup

end Slots

/-- A new name has the position behind all others. -/
theorem idxOf?_concat {names : List String} {name : String} (h : name ∉ names) (other : String) :
    (names ++ [name]).idxOf? other =
      if other = name then some names.length else names.idxOf? other := by
  rw [List.idxOf?, List.findIdx?_append]
  by_cases hother : other = name
  · subst hother
    have hnone : names.findIdx? (· == other) = none := List.idxOf?_eq_none_iff.mpr h
    rw [if_pos rfl, hnone]
    simp
  · have hnone : [name].findIdx? (· == other) = none := by simpa using Ne.symm hother
    rw [if_neg hother, hnone, Option.map_none, Option.or_none]

namespace Bindings

variable {name : String} {descriptor : Descriptor} {entries : List (String × Descriptor)}

theorem bindEntry_eq_set {slot : Nat} (h : (entries.map Prod.fst).idxOf? name = some slot) :
    bindEntry name descriptor entries = entries.set slot (name, descriptor) := by
  induction entries generalizing slot with
  | nil => cases h
  | cons entry entries ih =>
    rw [List.map_cons, List.idxOf?_cons] at h
    by_cases hentry : entry.1 = name
    · rw [if_pos (beq_iff_eq.mpr hentry)] at h
      cases h
      rw [bindEntry, if_pos hentry]
      rfl
    · rw [if_neg (by simpa using hentry)] at h
      obtain ⟨behind, hbehind, rfl⟩ := Option.map_eq_some_iff.mp h
      rw [bindEntry, if_neg hentry, ih hbehind]
      rfl

theorem bindEntry_eq_append (h : name ∉ entries.map Prod.fst) :
    bindEntry name descriptor entries = entries ++ [(name, descriptor)] := by
  induction entries with
  | nil => rfl
  | cons entry entries ih =>
    rw [List.map_cons, List.mem_cons, not_or] at h
    rw [bindEntry, if_neg (Ne.symm h.1), ih h.2]
    rfl

/-- What is known of a name stands at its position. -/
theorem lookup?_eq_bind (bindings : Bindings) (name : String) :
    bindings.lookup? name =
      (bindings.names.idxOf? name).bind fun slot => bindings.entries[slot]?.map Prod.snd := by
  rw [lookup?, List.find?_eq_bind_findIdx?_getElem?, Option.map_bind, names, List.idxOf?,
    List.findIdx?_map]
  rfl

/-- A name that has a position has an entry there. -/
theorem exists_entry_of_idxOf? {bindings : Bindings} {slot : Nat}
    (h : bindings.names.idxOf? name = some slot) :
    ∃ descriptor, bindings.entries[slot]? = some (name, descriptor) := by
  obtain ⟨hlt, hname, -⟩ := List.findIdx?_eq_some_iff_getElem.mp h
  have hlt' : slot < bindings.entries.length := by simpa [names] using hlt
  refine ⟨bindings.entries[slot].2, ?_⟩
  rw [List.getElem?_eq_getElem hlt']
  have hfst : bindings.entries[slot].1 = name := by simpa [names] using hname
  exact congrArg some (Prod.ext hfst rfl)

end Bindings

namespace Slots.Keeps

open Guarded

variable {ε : Type} {slots : Slots} {bindings : Bindings}

theorem empty : Slots.empty.Keeps .empty := ⟨rfl, fun _ => rfl, List.nodup_nil⟩

variable (h : slots.Keeps bindings)
include h

theorem lookup?_eq (name : String) :
    (slots.lookup? name : Guarded ε (Option Descriptor)) = .ok (bindings.lookup? name) := by
  rw [Slots.lookup?, h.slot?, h.entries, bindings.lookup?_eq_bind]
  cases hslot : bindings.names.idxOf? name with
  | none => rfl
  | some slot =>
    obtain ⟨descriptor, hentry⟩ := Bindings.exists_entry_of_idxOf? hslot
    simp only [hentry, found_some, ok_bind, Option.bind_some, Option.map_some]

theorem known_eq : (slots.known : Guarded ε Bindings) = .ok bindings := by
  have hentry (entry) (hmem : entry ∈ bindings.entries) :
      bindings.lookup? entry.1 = some entry.2 := by
    rw [Bindings.lookup?, find?_key_eq_some h.nodup hmem]
    rfl
  have hall : (bindings.entries.mapM fun entry => do
      let descriptor ← slots.lookup? entry.1
      let descriptor ← found descriptor
      .ok (entry.1, descriptor) : Guarded ε _) = .ok (bindings.entries.map id) := by
    refine mapM_eq_ok fun entry hmem => ?_
    simp only [h.lookup?_eq, ok_bind, hentry entry hmem, found_some]
    rfl
  rw [Slots.known, h.entries, hall, List.map_id]
  rfl

/-- **Binding a name finds its slot**, and the slots go on to keep the bindings. -/
theorem bind_eq (name : String) (descriptor : Descriptor) :
    ∃ next, (slots.bind name descriptor : Guarded ε _) = .ok (bindings.lookup? name, next) ∧
      next.Keeps (bindings.bind name descriptor) := by
  have hnames := bindings.names_bind name descriptor
  rw [Slots.bind, h.slot?, bindings.lookup?_eq_bind]
  cases hslot : bindings.names.idxOf? name with
  | some slot =>
    obtain ⟨previous, hentry⟩ := Bindings.exists_entry_of_idxOf? hslot
    have hmem : name ∈ bindings.names := List.isSome_idxOf?.mp (by rw [hslot]; rfl)
    rw [if_pos hmem] at hnames
    refine ⟨⟨slots.entries.set slot (name, descriptor), slots.slot?⟩, ?_, ?_, ?_, ?_⟩
    · simp only [h.entries, hentry, found_some, ok_bind, Option.bind_some, Option.map_some]
    · show slots.entries.set slot (name, descriptor) = _
      rw [h.entries]
      exact (Bindings.bindEntry_eq_set hslot).symm
    · rw [hnames]
      exact h.slot?
    · rw [hnames]
      exact h.nodup
  | none =>
    have hmem : name ∉ bindings.names := List.idxOf?_eq_none_iff.mp hslot
    rw [if_neg hmem] at hnames
    refine ⟨_, rfl, ?_, fun other => ?_, ?_⟩
    · rw [h.entries]
      exact (Bindings.bindEntry_eq_append hmem).symm
    · have hlength : slots.entries.length = bindings.names.length := by
        rw [h.entries, Bindings.names, List.length_map]
      show (if other = name then _ else slots.slot? other) = _
      rw [hnames, idxOf?_concat hmem, hlength, h.slot?]
    · rw [hnames]
      exact List.nodup_append_comm.mp (List.nodup_cons.mpr ⟨hmem, h.nodup⟩)

end Slots.Keeps

namespace Guarded

open Slots

variable {ε : Type}

/-- Some assignments are followed: the warnings about them, and the slots in the end. -/
def follow (registry : Registry) : Slots → List Assignment → Guarded ε (List Finding × Slots)
  | slots, [] => .ok ([], slots)
  | slots, assignment :: assignments => do
    let bindings ← slots.known
    let (previous, next) ← slots.bind assignment.name (assignment.value.infer registry bindings)
    let current ← next.lookup? assignment.name
    let warning := current.bind fun current => Finding.ofStep? ⟨assignment, previous, current⟩
    let (warnings, last) ← follow registry next assignments
    .ok (warning.toList ++ warnings, last)

/-- The outcome of checking a script. -/
def checkScript (checker : Checker) (script : Script) : Guarded ε Outcome := do
  let assignments ← assignments script
  let (warnings, slots) ← follow checker.registry .empty assignments
  let sites ← callSites script
  let bindings ← slots.known
  .ok { errors := [], warnings, infos := sites.filterMap Finding.ofCall?, bindings }

/-- The outcome of checking a text.  A text that is refused is one error. -/
def check (checker : Checker) (source : String) : Guarded Fault Outcome :=
  match read source with
  | .ok script => checkScript checker script
  | .error (.refused fault) => .ok (.failed fault.text)
  | .error failure => .error failure

/-- Following keeps what the history of the assignments binds, and warns of its drifts. -/
theorem follow_eq (registry : Registry) {slots : Slots} {bindings : Bindings}
    (h : slots.Keeps bindings) (assignments : List Assignment) :
    ∃ last, (follow registry slots assignments : Guarded ε _) =
        .ok ((bindings.history registry assignments).filterMap Finding.ofStep?, last) ∧
      last.Keeps (bindings.after (bindings.history registry assignments)) := by
  induction assignments generalizing slots bindings with
  | nil => exact ⟨slots, rfl, h⟩
  | cons assignment assignments ih =>
    obtain ⟨next, hnext, hkeeps⟩ :=
      h.bind_eq (ε := ε) assignment.name (assignment.value.infer registry bindings)
    obtain ⟨last, hlast, hkeeps'⟩ := ih hkeeps
    refine ⟨last, ?_, hkeeps'⟩
    simp only [follow, h.known_eq, ok_bind, hnext, hkeeps.lookup?_eq, Bindings.lookup?_bind_self,
      hlast, Option.bind_some]
    rw [Bindings.history, List.filterMap_cons]
    cases Finding.ofStep? _ <;> rfl

theorem checkScript_eq (checker : Checker) {script : Script} (h : script.Sound) :
    (checkScript checker script : Guarded ε Outcome) = .ok (checker.checkScript script) := by
  obtain ⟨last, hlast, hkeeps⟩ :=
    follow_eq (ε := ε) checker.registry .empty script.assignments
  simp only [checkScript, assignments_eq h, ok_bind, hlast, callSites_eq h, hkeeps.known_eq]
  rfl

theorem check_eq (checker : Checker) (source : String) :
    check checker source = .ok (checker.check source) := by
  rw [check, read_eq, Checker.check]
  cases hread : Script.read source with
  | ok script => exact checkScript_eq checker (Script.sound_of_read hread)
  | error fault => rfl

/-- **Whatever the text, no run leaves it, and every run ends.**  Scanning, reading, the table, the
assignments, the calls and the check look up offsets between two characters, indices of tokens and
slots of entries only, and none of their loops uses up its bound.  So each of them has the outcome
of the reader it follows, which either has an answer or refuses the text for a reason. -/
theorem runs_complete (source : String) (checker : Checker) :
    scan source = plain (Token.scan source) ∧
      read source = plain (Script.read source) ∧
      (read source >>= table) = plain ((Script.read source).map Script.table) ∧
      (read source >>= assignments) = plain ((Script.read source).map Script.assignments) ∧
      (read source >>= callSites) = plain ((Script.read source).map Script.callSites) ∧
      check checker source = .ok (checker.check source) := by
  have hbind {α : Type} {run : Script → Guarded Fault α} {f : Script → α}
      (h : ∀ script, script.Sound → run script = .ok (f script)) :
      (read source >>= run) = plain ((Script.read source).map f) := by
    rw [read_eq]
    cases hread : Script.read source with
    | ok script => exact h script (Script.sound_of_read hread)
    | error fault => rfl
  exact ⟨scan_eq source, read_eq source, hbind fun _ => table_eq, hbind fun _ => assignments_eq,
    hbind fun _ => callSites_eq, check_eq checker source⟩

end Guarded
end TypeDrift
