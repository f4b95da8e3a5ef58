import TypeDrift.Proofs.Expr.Ranges
import TypeDrift.Proofs.Guarded.Text

/-! # Guarded moves in a row of lexemes

A `Spot` is what a cursor is without the lexemes that are still to come: the index of the next one,
the index of the one taken last, and the open brackets.  Every look at a lexeme goes through its
index.

A cursor in a row that ends with the end of input stands at a lexeme of the row wherever it is moved
to (`Cursor.Standing`): skipping stops at the end of input at the latest, and taking a lexeme does
not pass it.  So every guarded move has the outcome of the move of the cursor.
-/
namespace TypeDrift

/-- A place in a row of lexemes, by indices alone. -/
structure Spot where
  /-- The index of the next lexeme. -/
  current : Nat
  /-- The index of the lexeme taken last. -/
  previous : Nat
  /-- The open brackets, the innermost one first. -/
  brackets : List Bracket
deriving Repr

namespace Spot

open Guarded

/-! ## Moves -/

section Moves
variable {ε : Type} (row : List Lexeme)

/-- The next lexeme. -/
def head (s : Spot) : Guarded ε Lexeme := found row[s.current]?

/-- The first index from `index` on where `p` does not hold of the lexeme. -/
def skipFrom (p : Lexeme → Bool) : Nat → Nat → Guarded ε Nat
  | 0, _ => .error .endless
  | bound + 1, index => do
    let lexeme ← found row[index]?
    if p lexeme then skipFrom p bound (index + 1) else .ok index

/-- The place behind the lexemes for which `p` holds. -/
def skipWhile (p : Lexeme → Bool) (s : Spot) : Guarded ε Spot := do
  let current ← skipFrom row p (row.length + 1) s.current
  .ok { s with current }

/-- The place behind the line breaks. -/
def skipNewlines (s : Spot) : Guarded ε Spot :=
  s.skipWhile row fun lexeme => lexeme.kind == .newline

/-- The place behind the line breaks and semicolons. -/
def skipSeparators (s : Spot) : Guarded ε Spot :=
  s.skipWhile row fun lexeme => lexeme.kind == .newline || lexeme.kind == .semicolon

/-- The place behind the line breaks, where these mean nothing. -/
def settle (s : Spot) : Guarded ε Spot :=
  if s.brackets.head? = some .round then s.skipNewlines row else .ok s

/-- The place behind the next lexeme, unless that is the end of input.  Line breaks that mean nothing
are passed before. -/
def advance (s : Spot) : Guarded ε Spot := do
  let s ← s.settle row
  let lexeme ← s.head row
  if lexeme.kind = .endOfInput then .ok s
  else .ok { s with current := s.current + 1, previous := s.current }

/-- The kind of the first lexeme behind the next one that is no line break.  The rest of the row has
to begin within it or at its end. -/
def secondKind? (s : Spot) : Guarded ε (Option Kind) :=
  if row.length < s.current + 1 then .error .outOfRange
  else
    .ok (((row.drop (s.current + 1)).find? fun lexeme => lexeme.kind != .newline).map Lexeme.kind)

/-- The expression of a form from the lexeme with the index `start` on: to the one taken last, but at
least that one.  Both are looked up, for the places where the expression begins and ends. -/
def close (s : Spot) (start : Nat) (form : Form Expr) : Guarded ε Expr := do
  let _ ← found row[start]?
  let _ ← found row[max s.previous start]?
  .ok (.node ⟨start, max s.previous start + 1⟩ form)

/-- The next lexeme is refused. -/
def refuse {α : Type} (s : Spot) : Guarded Refusal α := do
  let lexeme ← s.head row
  .error (.refused ⟨s.current, lexeme⟩)

/-- The place behind a lexeme of the kind that has to come next. -/
def expect (kind : Kind) (s : Spot) : Guarded Refusal Spot := do
  let s ← s.settle row
  let lexeme ← s.head row
  if lexeme.kind = kind then s.advance row else s.refuse row

end Moves

/-- The same place inside one more bracket. -/
def enter (s : Spot) (bracket : Bracket) : Spot := { s with brackets := bracket :: s.brackets }

/-- The same place outside the innermost bracket. -/
def leave (s : Spot) : Spot := { s with brackets := s.brackets.tail }

end Spot

namespace Cursor

open Guarded

/-- The place without what is still to come. -/
def spot (c : Cursor) : Spot := ⟨c.index, c.last, c.brackets⟩

/-- A place in this row, with the end of input still to come. -/
structure Standing (row : List Lexeme) (c : Cursor) : Prop where
  inRow : c.In row
  closed : c.Closed

/-! ## What the moves of a cursor do not change -/

theorem settle_eq_self {c : Cursor} (h : c.brackets.head? ≠ some .round) : c.settle = c := by
  rw [settle, if_pos]
  simpa [endsAtNewline] using h

@[simp] theorem settle_skipNewlines (c : Cursor) : c.skipNewlines.settle = c.skipNewlines := by
  unfold settle
  split
  · rfl
  · exact skipWhile_skipWhile c _

/-- Where `else` is looked for there is nothing to pass: outside of all brackets line breaks mean
something, and inside of them they have been passed. -/
@[simp] theorem settle_beforeElse (c : Cursor) : c.beforeElse.settle = c.beforeElse := by
  unfold beforeElse
  split
  · next hempty =>
    have hnone : c.brackets = [] := List.isEmpty_iff.mp hempty
    exact settle_eq_self (by simp [hnone])
  · exact settle_skipNewlines c

@[simp] theorem current_spot (c : Cursor) : c.spot.current = c.index := rfl

@[simp] theorem previous_spot (c : Cursor) : c.spot.previous = c.last := rfl

@[simp] theorem brackets_spot (c : Cursor) : c.spot.brackets = c.brackets := rfl

@[simp] theorem enter_spot (c : Cursor) (bracket : Bracket) :
    c.spot.enter bracket = (c.enter bracket).spot := rfl

@[simp] theorem leave_spot (c : Cursor) : c.spot.leave = c.leave.spot := rfl

variable {ε : Type} {row : List Lexeme} {c d : Cursor}

/-! ## A standing place -/

namespace Standing

theorem of_reaches (h : c.Standing row) (hreach : c.Reaches d) : d.Standing row :=
  ⟨h.inRow.of_reaches hreach, h.closed.of_reaches hreach⟩

theorem settle (h : c.Standing row) : c.settle.Standing row := h.of_reaches (reaches_settle c)

theorem settle_advance (h : c.Standing row) : c.settle.advance.Standing row :=
  h.of_reaches (reaches_settle_advance c)

theorem skipNewlines (h : c.Standing row) : c.skipNewlines.Standing row :=
  h.of_reaches (reaches_skipNewlines c)

theorem enter (h : c.Standing row) (bracket : Bracket) : (c.enter bracket).Standing row :=
  ⟨h.inRow, h.closed⟩

theorem leave (h : c.Standing row) : c.leave.Standing row := ⟨h.inRow, h.closed⟩

/-- **There is always a next lexeme.** -/
theorem getElem?_index (h : c.Standing row) : row[c.index]? = some c.head := by
  obtain ⟨init, hrest, -⟩ := h.closed
  have hcons : ∃ rest, c.rest = c.head :: rest := by
    cases hcons : c.rest with
    | nil =>
      rw [hcons] at hrest
      exact absurd hrest.symm (by simp)
    | cons lexeme rest => exact ⟨rest, by rw [head, hcons]; rfl⟩
  obtain ⟨rest, hcons⟩ := hcons
  have hdrop : row.drop c.index = c.head :: rest := h.inRow.symm.trans hcons
  have hfirst : (row.drop c.index)[0]? = some c.head := by rw [hdrop]; rfl
  rwa [List.getElem?_drop] at hfirst

theorem index_lt (h : c.Standing row) : c.index < row.length :=
  (List.getElem?_eq_some_iff.mp h.getElem?_index).1

end Standing

/-! ## Guarded moves follow the moves of a cursor -/

/-- Skipping ends before the row does. -/
theorem skipFrom_eq {p : Lexeme → Bool} {rest : List Lexeme} {index bound : Nat}
    (hrest : row.drop index = rest) (hstop : ∃ lexeme ∈ rest, p lexeme = false)
    (hbound : rest.length < bound) :
    (Spot.skipFrom row p bound index : Guarded ε Nat) =
      .ok (index + (rest.takeWhile p).length) := by
  induction rest generalizing index bound with
  | nil =>
    obtain ⟨_, hmem, -⟩ := hstop
    cases hmem
  | cons lexeme rest ih =>
    cases bound with
    | zero => exact absurd hbound (Nat.not_lt_zero _)
    | succ bound =>
      have hfirst : row[index]? = some lexeme := by
        have hzero : (row.drop index)[0]? = some lexeme := by rw [hrest]; rfl
        rwa [List.getElem?_drop] at hzero
      rw [Spot.skipFrom, hfirst, found_some, ok_bind]
      cases hp : p lexeme with
      | false =>
        rw [List.takeWhile_cons_of_neg (by simp [hp])]
        rfl
      | true =>
        have hdrop : row.drop (index + 1) = rest := by
          rw [← List.drop_drop, hrest]
          rfl
        have hstop' : ∃ lexeme ∈ rest, p lexeme = false := by
          obtain ⟨other, hmem, hother⟩ := hstop
          rcases List.mem_cons.mp hmem with rfl | hmem
          · rw [hp] at hother
            cases hother
          · exact ⟨other, hmem, hother⟩
        rw [if_pos rfl, List.takeWhile_cons_of_pos hp,
          ih hdrop hstop' (Nat.lt_of_succ_lt_succ hbound), List.length_cons]
        exact congrArg Except.ok (by omega)

namespace Standing

variable (h : c.Standing row)
include h

theorem head : (c.spot.head row : Guarded ε Lexeme) = .ok c.head := by
  rw [Spot.head, spot, h.getElem?_index]
  rfl

theorem skipWhile_spot {p : Lexeme → Bool} (hp : p .endOfInput = false) :
    (c.spot.skipWhile row p : Guarded ε Spot) = .ok (c.skipWhile p).spot := by
  obtain ⟨init, hrest, -⟩ := h.closed
  have hstop : ∃ lexeme ∈ c.rest, p lexeme = false :=
    ⟨.endOfInput, by rw [hrest]; exact List.mem_append_right _ List.mem_cons_self, hp⟩
  have hlength : c.rest.length < row.length + 1 := by
    rw [h.inRow, List.length_drop]
    omega
  have hskip : (Spot.skipFrom row p (row.length + 1) c.index : Guarded ε Nat) =
      .ok (c.skipWhile p).index := skipFrom_eq h.inRow.symm hstop hlength
  rw [Spot.skipWhile, current_spot, hskip]
  rfl

theorem skipNewlines_spot : (c.spot.skipNewlines row : Guarded ε Spot) = .ok c.skipNewlines.spot :=
  h.skipWhile_spot rfl

theorem skipSeparators_spot :
    (c.spot.skipSeparators row : Guarded ε Spot) = .ok c.skipSeparators.spot :=
  h.skipWhile_spot rfl

theorem settle_spot : (c.spot.settle row : Guarded ε Spot) = .ok c.settle.spot := by
  rw [Spot.settle, brackets_spot]
  by_cases hround : c.brackets.head? = some .round
  · have hsettle : c.settle = c.skipNewlines := by
      rw [Cursor.settle, if_neg (by simp [endsAtNewline, hround])]
    rw [if_pos hround, h.skipNewlines_spot, hsettle]
  · rw [if_neg hround, settle_eq_self hround]

/-- What is taken is the next lexeme behind line breaks that mean nothing. -/
theorem advance_spot : (c.spot.advance row : Guarded ε Spot) = .ok c.settle.advance.spot := by
  simp only [Spot.advance, h.settle_spot, ok_bind, h.settle.head]
  by_cases hend : c.settle.head.kind = .endOfInput
  · have hsame : c.settle.advance = c.settle := by
      unfold Cursor.advance
      split
      · rfl
      · next lexeme rest hrest =>
        have hkind : lexeme.kind = .endOfInput := by simpa [Cursor.head, hrest] using hend
        rw [if_pos hkind]
    rw [if_pos hend, hsame]
  · rw [if_neg hend, advance_eq hend]
    rfl

theorem settle_advance_spot :
    (c.settle.spot.advance row : Guarded ε Spot) = .ok c.settle.advance.spot := by
  rw [h.settle.advance_spot, settle_settle]

/-- Behind the next lexeme lies the rest of the row, or nothing. -/
theorem secondKind?_spot :
    (c.spot.secondKind? row : Guarded ε (Option Kind)) = .ok c.secondKind? := by
  have hlt := h.index_lt
  have htail : row.drop (c.index + 1) = c.rest.tail := by
    rw [← List.drop_drop, ← h.inRow, List.drop_one]
  rw [Spot.secondKind?, current_spot, if_neg (Nat.not_lt.mpr hlt), htail]
  rfl

theorem refuse_spot {α : Type} :
    (c.spot.refuse row : Guarded Refusal α) = .error (.refused c.refusal) := by
  rw [Spot.refuse, h.head]
  rfl

end Standing

/-- An expression is closed with the lexeme taken last, if that lies behind its first one. -/
theorem Behind.close_spot (h : c.Behind row) {start : Nat} (hle : start ≤ c.last)
    (form : Form Expr) :
    (c.spot.close row start form : Guarded ε Expr) = .ok (c.close start form) := by
  obtain ⟨lexeme, hlexeme, -⟩ := h.written
  replace hlexeme : row[c.last]? = some lexeme := hlexeme
  obtain ⟨hlast, -⟩ := List.getElem?_eq_some_iff.mp hlexeme
  have hfirst := List.getElem?_eq_getElem (Nat.lt_of_le_of_lt hle hlast)
  have hmax : max c.last start = c.last := Nat.max_eq_left hle
  simp only [Spot.close, previous_spot, hmax, hlexeme, hfirst, found_some, ok_bind]
  rfl

end Cursor
end TypeDrift
