import TypeDrift.Proofs.Text.Coordinates

/-! # Line endings

The line feeds of a text can be written otherwise: as a carriage return and a line feed, or as a lone
carriage return (`LineEnding.write`).  A reader that moves over the text step by step does not see the
difference, but for the character that a line break is seen as (`steps_write`).  So all places are the
same.
-/
namespace TypeDrift

open Text

/-- The ways of writing a line break besides a line feed. -/
inductive LineEnding where
  | returnFeed
  | loneReturn
deriving DecidableEq, Repr

/-- What a line break is seen as when it is written otherwise. -/
def Text.returned (c : Char) : Char := if c = '\n' then '\r' else c

namespace LineEnding

/-- A line break, written in this way. -/
def chars : LineEnding → List Char
  | returnFeed => ['\r', '\n']
  | loneReturn => ['\r']

/-- A text with its line feeds written in this way. -/
def write (ending : LineEnding) (cs : List Char) : List Char :=
  cs.flatMap fun c => if c = '\n' then ending.chars else [c]

/-- A source with its line feeds written in this way. -/
def rewrite (ending : LineEnding) (source : String) : String :=
  String.ofList (ending.write source.toList)

variable (ending : LineEnding)

@[simp] theorem write_nil : ending.write [] = [] := rfl

@[simp] theorem write_newline (cs : List Char) :
    ending.write ('\n' :: cs) = ending.chars ++ ending.write cs := rfl

theorem write_cons {c : Char} (h : c ≠ '\n') (cs : List Char) :
    ending.write (c :: cs) = c :: ending.write cs := by
  rw [write, List.flatMap_cons, if_neg h]
  rfl

theorem write_append (a b : List Char) :
    ending.write (a ++ b) = ending.write a ++ ending.write b := List.flatMap_append

theorem write_eq_self {cs : List Char} (h : '\n' ∉ cs) : ending.write cs = cs := by
  induction cs with
  | nil => rfl
  | cons c cs ih =>
    obtain ⟨hc, hcs⟩ := not_or.mp (mt List.mem_cons.mpr h)
    rw [write_cons ending (Ne.symm hc), ih hcs]

/-- A line break begins with a carriage return, however it is written otherwise. -/
theorem exists_chars : ∃ tail, ending.chars = '\r' :: tail := by
  cases ending
  · exact ⟨['\n'], rfl⟩
  · exact ⟨[], rfl⟩

/-- What a text begins with when it is written otherwise: nothing, a line break, or the same
character. -/
theorem write_cases (cs : List Char) :
    cs = [] ∨ (∃ rest tail, cs = '\n' :: rest ∧ ending.write cs = '\r' :: tail) ∨
      ∃ c rest, c ≠ '\n' ∧ cs = c :: rest ∧ ending.write cs = c :: ending.write rest := by
  cases cs with
  | nil => exact .inl rfl
  | cons c rest =>
    by_cases hc : c = '\n'
    · obtain ⟨tail, htail⟩ := ending.exists_chars
      refine .inr (.inl ⟨rest, tail ++ ending.write rest, by rw [hc], ?_⟩)
      rw [hc, write_newline, htail]
      rfl
    · exact .inr (.inr ⟨c, rest, hc, rfl, ending.write_cons hc rest⟩)

/-! ## Characters that are no line breaks -/

section Plain
variable {p : Char → Bool} (hfeed : p '\n' = false) (hreturn : p '\r' = false)
include hfeed hreturn

theorem takeWhile_write (cs : List Char) : (ending.write cs).takeWhile p = cs.takeWhile p := by
  induction cs with
  | nil => rfl
  | cons c cs ih =>
    by_cases hc : c = '\n'
    · obtain ⟨tail, htail⟩ := ending.exists_chars
      subst hc
      rw [write_newline, htail, List.cons_append, List.takeWhile_cons, List.takeWhile_cons, hfeed,
        hreturn]
      rfl
    · rw [write_cons ending hc, List.takeWhile_cons, List.takeWhile_cons, ih]

theorem dropWhile_write (cs : List Char) :
    (ending.write cs).dropWhile p = ending.write (cs.dropWhile p) := by
  induction cs with
  | nil => rfl
  | cons c cs ih =>
    by_cases hc : c = '\n'
    · obtain ⟨tail, htail⟩ := ending.exists_chars
      subst hc
      rw [List.dropWhile_cons, hfeed, write_newline, htail, List.cons_append, List.dropWhile_cons,
        hreturn, if_neg Bool.false_ne_true, if_neg Bool.false_ne_true, write_newline, htail]
      rfl
    · rw [write_cons ending hc, List.dropWhile_cons, List.dropWhile_cons]
      split
      · exact ih
      · exact (write_cons ending hc cs).symm

theorem head?_any_write (cs : List Char) : (ending.write cs).head?.any p = cs.head?.any p := by
  rcases ending.write_cases cs with rfl | ⟨rest, tail, rfl, hwrite⟩ | ⟨c, rest, -, rfl, hwrite⟩
  · rfl
  · rw [hwrite]
    exact hreturn.trans hfeed.symm
  · rw [hwrite]
    rfl

end Plain

theorem isPrefixOf_write {mark : List Char} (hmark : ∀ c ∈ mark, isBreak c = false)
    (cs : List Char) : mark.isPrefixOf (ending.write cs) = mark.isPrefixOf cs := by
  induction mark generalizing cs with
  | nil => simp
  | cons m mark ih =>
    have hm := hmark m List.mem_cons_self
    have hne {c : Char} (hc : isBreak c = true) : (m == c) = false := by
      rw [beq_eq_false_iff_ne]
      rintro rfl
      rw [hm] at hc
      cases hc
    rcases ending.write_cases cs with rfl | ⟨rest, tail, rfl, hwrite⟩ | ⟨c, rest, -, rfl, hwrite⟩
    · rfl
    · rw [hwrite, List.isPrefixOf, List.isPrefixOf, hne (by decide), hne (by decide)]
      rfl
    · rw [hwrite, List.isPrefixOf, List.isPrefixOf,
        ih (fun d hd => hmark d (List.mem_cons_of_mem m hd))]

/-- What comes behind a mark that stands at the beginning. -/
theorem drop_write {mark cs : List Char} (hmark : ∀ c ∈ mark, isBreak c = false)
    (h : mark.isPrefixOf cs = true) :
    (ending.write cs).drop mark.length = ending.write (cs.drop mark.length) := by
  obtain ⟨rest, rfl⟩ := List.isPrefixOf_iff_prefix.mp h
  have hfree : '\n' ∉ mark := fun hmem => absurd (hmark _ hmem) (by decide)
  rw [write_append, write_eq_self ending hfree, List.drop_left, List.drop_left]

/-! ## Steps and places -/

theorem steps_chars_append (cs : List Char) :
    steps (ending.chars ++ ending.write cs) = '\r' :: steps (ending.write cs) := by
  cases ending with
  | returnFeed => rfl
  | loneReturn =>
    refine steps_cons ?_
    rintro ⟨-, hhead⟩
    rcases loneReturn.write_cases cs with rfl | ⟨rest, tail, rfl, hwrite⟩ | ⟨c, rest, hc, rfl, hwrite⟩
    · cases hhead
    · rw [hwrite] at hhead
      cases Option.some.inj hhead
    · rw [hwrite] at hhead
      exact hc (Option.some.inj hhead)

variable {cs : List Char} (hfree : '\r' ∉ cs)
include hfree

/-- **The steps over a text stay the same** when its line breaks are written otherwise. -/
theorem steps_write : steps (ending.write cs) = (steps cs).map returned := by
  induction cs with
  | nil => rfl
  | cons c cs ih =>
    obtain ⟨hc, hcs⟩ := not_or.mp (mt List.mem_cons.mpr hfree)
    have hsplit (rest : List Char) : Splits [c] rest := splits_of_last (a := []) rest (Ne.symm hc)
    rw [steps_cons (hsplit cs), List.map_cons]
    by_cases hfeed : c = '\n'
    · subst hfeed
      rw [write_newline, steps_chars_append, ih hcs]
      rfl
    · rw [write_cons ending hfeed, steps_cons (hsplit _), ih hcs, returned, if_neg hfeed]

omit hfree in
theorem step_returned (place : Position) (c : Char) : place.step (returned c) = place.step c := by
  unfold returned
  split
  · next hc =>
    subst hc
    rfl
  · rfl

omit hfree in
theorem foldl_step_returned (place : Position) (cs : List Char) :
    (cs.map returned).foldl Position.step place = cs.foldl Position.step place := by
  rw [List.foldl_map, funext fun place => funext (step_returned place)]

theorem after_write (place : Position) : place.after (ending.write cs) = place.after cs := by
  rw [Position.after, steps_write ending hfree, foldl_step_returned]
  rfl

theorem last_write (place : Position) : place.last (ending.write cs) = place.last cs := by
  rw [Position.last, steps_write ending hfree, ← List.map_dropLast, foldl_step_returned]
  rfl

end LineEnding
end TypeDrift
