import Mathlib.Data.List.DropRight
import TypeDrift.Text.Position

/-! # Coordinates

A place is moved along a text step by step.  This module says what the moves add up to: behind a
text, the line is one more than the number of its line breaks, and the column one more than the
number of characters behind the last of them (`after_start`).

A text can be cut between any two characters but the two of one line break.  Where it is cut, places
can be counted piece by piece (`after_append`); and because a place enters the count of lines only
as a summand, the same text read further down has all its places that much further down
(`after_down`).
-/
namespace TypeDrift

namespace Text

/-- No line break of two characters lies across the border of two texts. -/
def Splits (a b : List Char) : Prop := ¬(a.getLast? = some '\r' ∧ b.head? = some '\n')

/-- How often a line ends in a text: at a line feed, at a carriage return, or at the two together. -/
def lineBreaks : List Char → Nat
  | '\r' :: '\n' :: rest => lineBreaks rest + 1
  | c :: rest => (if isBreak c then 1 else 0) + lineBreaks rest
  | [] => 0

/-- What stands behind the last line break of a text. -/
def lastLine (text : List Char) : List Char := text.rtakeWhile (!isBreak ·)

theorem splits_nil_left (b : List Char) : Splits [] b := fun h => by simp at h

theorem splits_of_head {a : List Char} {c : Char} (b : List Char) (h : c ≠ '\n') :
    Splits a (c :: b) := fun hbad => h (Option.some.inj hbad.2)

theorem splits_of_last {a : List Char} {c : Char} (b : List Char) (h : c ≠ '\r') :
    Splits (a ++ [c]) b := fun hbad => h (by simpa using hbad.1)

theorem Splits.of_cons {c : Char} {a b : List Char} (h : Splits (c :: a) b) : Splits a b := by
  rintro ⟨hlast, hhead⟩
  refine h ⟨?_, hhead⟩
  cases a with
  | nil => cases hlast
  | cons d a => rw [List.getLast?_cons_cons, hlast]

theorem Splits.of_append {a b c : List Char} (h : Splits a (b ++ c)) : Splits a b := by
  rintro ⟨hlast, hhead⟩
  refine h ⟨hlast, ?_⟩
  rw [List.head?_append, hhead]
  rfl

theorem Splits.of_append_left {a b c : List Char} (h : Splits (a ++ b) c) : Splits b c := by
  rintro ⟨hlast, hhead⟩
  refine h ⟨?_, hhead⟩
  rw [List.getLast?_append, hlast]
  rfl

/-- Where a text is not empty, what comes behind it does not matter to the text before it. -/
theorem Splits.append_right {a b : List Char} (h : Splits a b) (hb : b ≠ []) (c : List Char) :
    Splits a (b ++ c) := by
  rintro ⟨hlast, hhead⟩
  refine h ⟨hlast, ?_⟩
  rwa [List.head?_append_of_ne_nil _ hb] at hhead

theorem Splits.append_left {b c : List Char} (h : Splits b c) (hb : b ≠ []) (a : List Char) :
    Splits (a ++ b) c := by
  rintro ⟨hlast, hhead⟩
  refine h ⟨?_, hhead⟩
  rwa [List.getLast?_append_of_ne_nil _ hb] at hlast

theorem steps_cons {c : Char} {rest : List Char} (h : Splits [c] rest) :
    steps (c :: rest) = c :: steps rest := by
  rw [steps]
  intro rest' hc hrest
  exact h ⟨congrArg some hc, by rw [hrest]; rfl⟩

theorem steps_append {a b : List Char} (h : Splits a b) : steps (a ++ b) = steps a ++ steps b := by
  fun_induction steps a with
  | case1 rest ih => exact congrArg ('\r' :: ·) (ih h.of_cons.of_cons)
  | case2 c rest hpair ih =>
    -- A line break of two characters is the first case, or would lie across the border.
    have hrest : Splits [c] (rest ++ b) := by
      rintro ⟨hc, hhead⟩
      cases rest with
      | nil => exact h ⟨hc, hhead⟩
      | cons d rest =>
        cases Option.some.inj hc
        cases Option.some.inj hhead
        exact hpair rest rfl rfl
    rw [List.cons_append, steps_cons hrest, ih h.of_cons]
    rfl
  | case3 => rfl

theorem lineBreaks_eq_countP (text : List Char) :
    lineBreaks text = (steps text).countP isBreak := by
  fun_induction lineBreaks text with
  | case1 rest ih => rw [steps, List.countP_cons, ih]; rfl
  | case2 c rest hpair ih =>
    have hrest : Splits [c] rest := by
      rintro ⟨hc, hhead⟩
      cases rest with
      | nil => cases hhead
      | cons d rest =>
        cases Option.some.inj hc
        cases Option.some.inj hhead
        exact hpair rest rfl rfl
    rw [steps_cons hrest, List.countP_cons, ih, Nat.add_comm]
  | case3 => rfl

theorem lineBreaks_append {a b : List Char} (h : Splits a b) :
    lineBreaks (a ++ b) = lineBreaks a + lineBreaks b := by
  simp only [lineBreaks_eq_countP, steps_append h, List.countP_append]

/-- A line feed behind a carriage return belongs to the step that the carriage return is. -/
theorem steps_concat_newline {text : List Char} (h : text.getLast? = some '\r') :
    steps (text ++ ['\n']) = steps text := by
  obtain ⟨init, rfl⟩ : ∃ init, text = init ++ ['\r'] :=
    ⟨text.dropLast, (List.dropLast_append_getLast? _ h).symm⟩
  have hsplit : ∀ rest, Splits init ('\r' :: rest) := fun rest => splits_of_head rest (by decide)
  rw [List.append_assoc, steps_append (hsplit []), List.singleton_append,
    steps_append (hsplit ['\n'])]
  rfl

theorem lastLine_concat (text : List Char) (c : Char) :
    lastLine (text ++ [c]) = if isBreak c then [] else lastLine text ++ [c] := by
  rw [lastLine, List.rtakeWhile_concat]
  cases isBreak c <;> rfl

end Text

namespace Position

open Text

theorem after_append {a b : List Char} (place : Position) (h : Splits a b) :
    place.after (a ++ b) = (place.after a).after b := by
  rw [after, steps_append h, List.foldl_append]
  rfl

theorem after_singleton (place : Position) (c : Char) : place.after [c] = place.step c := by
  rw [after, steps_cons (fun h => by simp at h)]
  rfl

/-- **Places are coordinates.**  The place behind a text, counted from the start. -/
theorem after_start (text : List Char) :
    start.after text = ⟨lineBreaks text + 1, (lastLine text).length + 1⟩ := by
  induction text using List.reverseRecOn with
  | nil => rfl
  | append_singleton text c ih =>
    by_cases hsplit : Splits text [c]
    · rw [after_append _ hsplit, ih, after_singleton, lineBreaks_append hsplit, lastLine_concat]
      cases hc : isBreak c <;> simp [step, lineBreaks, hc]
    · -- The last character is the second one of a line break, and the place stays where it was.
      obtain ⟨hlast, hhead⟩ := Classical.not_not.mp hsplit
      cases Option.some.inj hhead
      have hsteps := steps_concat_newline hlast
      have hline : lastLine text = [] := by
        obtain ⟨init, rfl⟩ : ∃ init, text = init ++ ['\r'] :=
          ⟨text.dropLast, (List.dropLast_append_getLast? _ hlast).symm⟩
        exact lastLine_concat init '\r'
      rw [after, hsteps]
      refine ih.trans ?_
      rw [lineBreaks_eq_countP, lineBreaks_eq_countP, hsteps, lastLine_concat, hline]
      rfl

theorem le_iff {p q : Position} :
    p.le q = true ↔ p.line < q.line ∨ (p.line = q.line ∧ p.column ≤ q.column) := by
  simp [le]

theorem le_trans {p q r : Position} (h : p.le q = true) (h' : q.le r = true) : p.le r = true := by
  rw [le_iff] at *
  omega

theorem le_total (p q : Position) : (p.le q || q.le p) = true := by
  rw [Bool.or_eq_true, le_iff, le_iff]
  omega

/-- A place, so many lines further down. -/
def down (lines : Nat) (place : Position) : Position := ⟨place.line + lines, place.column⟩

theorem le_down (lines : Nat) (p q : Position) : (p.down lines).le (q.down lines) = p.le q := by
  rw [Bool.eq_iff_iff, le_iff, le_iff]
  simp [down]

theorem step_down (lines : Nat) (place : Position) (c : Char) :
    (place.down lines).step c = (place.step c).down lines := by
  unfold step
  split
  · exact congrArg (Position.mk · 1) (Nat.add_right_comm _ _ _)
  · rfl

theorem foldl_step_down (lines : Nat) (place : Position) (text : List Char) :
    text.foldl step (place.down lines) = (text.foldl step place).down lines := by
  induction text generalizing place with
  | nil => rfl
  | cons c text ih => rw [List.foldl_cons, step_down, ih, List.foldl_cons]

theorem after_down (lines : Nat) (place : Position) (text : List Char) :
    (place.down lines).after text = (place.after text).down lines :=
  foldl_step_down lines place _

theorem last_down (lines : Nat) (place : Position) (text : List Char) :
    (place.down lines).last text = (place.last text).down lines :=
  foldl_step_down lines place _

/-- The last place of a text that does not end within a line break is the place behind the rest of
it. -/
theorem last_concat {text : List Char} {c : Char} (place : Position) (h : Splits text [c]) :
    place.last (text ++ [c]) = place.after text := by
  rw [last, steps_append h, steps_cons (fun h => by simp at h)]
  exact congrArg (List.foldl step place) (List.dropLast_concat)

end Position
end TypeDrift
