import TypeDrift.Proofs.Expr.Brackets
import TypeDrift.Proofs.Guarded.Visits

/-! # Reading inside constructs

The readers keep a list of open brackets, and read off it whether a line break means anything and
whether `else` may stand on another line.  A routine that enters a bracket has to leave it on every
way to its end, so that the list is right for whatever is read next.

It is compared with two things that it is not made from: with the constructs whose contents are
being read, which a noted run is handed and does not keep, and with the brackets that the lexemes
before the place leave open (`Spot.Stands`).  What each move does to a place is said once; what each
reader does follows by going through it, with the readers that it calls by the induction on the
bound (`Expr.Balances`).  No lexeme has to be at any place for this: a run that leaves its row ends
there.
-/
namespace TypeDrift

namespace Construct

/-- Line breaks end expressions in the contents. -/
def newlineSensitive : Construct → Bool
  | block => true
  | _ => false

/-- The bracket that is open around the contents, as the lexemes show it. -/
def opened : Construct → OpenBracket
  | index false => .bracket
  | index true => .double
  | block => .brace
  | _ => .paren

theorem newlineSensitive_eq (construct : Construct) :
    (construct.bracket == .brace) = construct.newlineSensitive := by
  cases construct <;> rfl

end Construct

namespace Spot

open Guarded OpenBracket

/-! ## The list of open brackets -/

/-- Whether line breaks end expressions: in the script, and inside each bracket that the reader has
open, the innermost one last. -/
def newlineSensitive (s : Spot) : List Bool := true :: s.brackets.reverse.map (· == .brace)

/-- The reader has some bracket open. -/
def isNested (s : Spot) : Bool := 1 < s.newlineSensitive.length

section Uses
variable (row : List Lexeme) (s : Spot)

/-- Line breaks are passed where the last entry says that they end nothing. -/
theorem settle_eq : (s.settle row : Guarded Refusal Spot) =
    if s.newlineSensitive.getLast? = some false then s.skipNewlines row else .ok s := by
  obtain ⟨current, previous, brackets⟩ := s
  cases brackets with
  | nil => rfl
  | cons bracket outer =>
    have hlast : (newlineSensitive ⟨current, previous, bracket :: outer⟩).getLast? =
        some (bracket == .brace) := by
      rw [newlineSensitive, List.reverse_cons, List.map_append, ← List.cons_append]
      exact List.getLast?_concat
    rw [hlast]
    cases bracket <;> rfl

/-- In front of `else` line breaks are passed inside brackets. -/
theorem beforeElse_eq : s.beforeElse row =
    if s.isNested then do (← s.skipNewlines row).settle row else s.settle row := by
  obtain ⟨current, previous, brackets⟩ := s
  cases brackets with
  | nil => rfl
  | cons bracket outer => simp [beforeElse, isNested, newlineSensitive]

end Uses

/-- The brackets that the lexemes before a place leave open. -/
def opened (row : List Lexeme) (s : Spot) : List OpenBracket := after [] (row.take s.current)

/-- A place in the row or at its end, no earlier than the index `least`, with these brackets open
for the reader and these by the lexemes. -/
structure Stands (row : List Lexeme) (brackets : List Bracket) (opened : List OpenBracket)
    (least : Nat) (s : Spot) : Prop where
  brackets_eq : s.brackets = brackets
  opened_eq : s.opened row = opened
  least_le : least ≤ s.current
  le_length : s.current ≤ row.length

/-- A place in the contents of these constructs, the innermost one first. -/
def Within (row : List Lexeme) (inside : List Construct) (least : Nat) (s : Spot) : Prop :=
  s.Stands row (inside.map Construct.bracket) (inside.map Construct.opened) least

/-! ## What the moves do to a place -/

variable {row : List Lexeme} {s s' : Spot} {lexeme : Lexeme}

theorem eq_some_of_found {α : Type} {a? : Option α} {a : α}
    (h : (found a? : Guarded Refusal α) = .ok a) : a? = some a := by
  cases a? with
  | none => cases h
  | some a' => cases h; rfl

theorem getElem?_of_head (h : (s.head row : Guarded Refusal Lexeme) = .ok lexeme) :
    row[s.current]? = some lexeme := eq_some_of_found h

theorem drop_eq_cons {index : Nat} (h : row[index]? = some lexeme) :
    row.drop index = lexeme :: row.drop (index + 1) := by
  obtain ⟨hlt, rfl⟩ := List.getElem?_eq_some_iff.mp h
  exact List.drop_eq_getElem_cons hlt

theorem after_take_succ {index : Nat} (h : row[index]? = some lexeme) :
    after [] (row.take (index + 1)) = step (after [] (row.take index)) lexeme.kind := by
  rw [List.take_add_one, h, after_append]
  rfl

/-- What is skipped lies between the two places. -/
theorem skipFrom_passes {p : Lexeme → Bool} {bound index stop : Nat}
    (h : (skipFrom row p bound index : Guarded Refusal Nat) = .ok stop) :
    index ≤ stop ∧ stop ≤ row.length ∧ ∃ passed, row.drop index = passed ++ row.drop stop ∧
      row.take stop = row.take index ++ passed ∧ ∀ lexeme ∈ passed, p lexeme = true := by
  induction bound generalizing index with
  | zero => cases h
  | succ bound ih =>
    obtain ⟨lexeme, hfound, h⟩ := Expr.exists_of_bind_eq_ok h
    have hlexeme := eq_some_of_found hfound
    split at h
    · next hskip =>
      obtain ⟨hle, hlength, passed, hdrop, htake, hpassed⟩ := ih h
      refine ⟨Nat.le_of_succ_le hle, hlength, lexeme :: passed, ?_, ?_,
        List.forall_mem_cons.mpr ⟨hskip, hpassed⟩⟩
      · rw [drop_eq_cons hlexeme, hdrop, List.cons_append]
      · rw [htake, List.take_add_one, hlexeme, List.append_assoc]
        rfl
    · cases h
      obtain ⟨hlt, -⟩ := List.getElem?_eq_some_iff.mp hlexeme
      exact ⟨Nat.le_refl _, Nat.le_of_lt hlt, [], rfl, (List.append_nil _).symm,
        List.forall_mem_nil _⟩

theorem settle_passes (h : (s.settle row : Guarded Refusal Spot) = .ok s') :
    ∃ passed, row.drop s.current = passed ++ row.drop s'.current ∧
      ∀ lexeme ∈ passed, lexeme.kind = .newline := by
  rw [settle] at h
  split at h
  · obtain ⟨stop, hstop, h⟩ := Expr.exists_of_bind_eq_ok h
    obtain ⟨-, -, passed, hdrop, -, hpassed⟩ := skipFrom_passes hstop
    cases h
    exact ⟨passed, hdrop, fun lexeme hmem => eq_of_beq (hpassed lexeme hmem)⟩
  · cases h
    exact ⟨[], rfl, List.forall_mem_nil _⟩

theorem settle_of_head (h : row[s.current]? = some lexeme) (hkind : lexeme.kind ≠ .newline) :
    (s.settle row : Guarded Refusal Spot) = .ok s := by
  have hstop : (lexeme.kind == .newline) = false := by simpa using hkind
  rw [settle]
  split
  · rw [skipNewlines, skipWhile, skipFrom, h, found_some, ok_bind, hstop]
    rfl
  · rfl

theorem advance_of_head (h : row[s.current]? = some lexeme) (htrivia : lexeme.isTrivia = false) :
    (s.advance row : Guarded Refusal Spot) =
      .ok { s with current := s.current + 1, previous := s.current } := by
  obtain ⟨hnewline, hend⟩ := Cursor.kind_ne_of_not_isTrivia htrivia
  rw [advance, settle_of_head h hnewline, ok_bind, head, h, found_some, ok_bind, if_neg hend]

/-- What comes second is what comes next behind the first lexeme. -/
theorem find?_of_secondKind? {second : Option Kind} (h : row[s.current]? = some lexeme)
    (htrivia : lexeme.isTrivia = false)
    (hsecond : (s.secondKind? row : Guarded Refusal (Option Kind)) = .ok second)
    (hadvance : (s.advance row : Guarded Refusal Spot) = .ok s') :
    ((row.drop s'.current).find? fun lexeme => lexeme.kind != .newline).map Lexeme.kind =
      second := by
  rw [advance_of_head h htrivia] at hadvance
  cases hadvance
  rw [secondKind?] at hsecond
  split at hsecond
  · cases hsecond
  · exact Except.ok.inj hsecond

theorem refuse_ne_ok {α : Type} (a : α) : s.refuse row ≠ .ok a := by
  intro h
  obtain ⟨lexeme, -, h⟩ := Expr.exists_of_bind_eq_ok h
  cases h

namespace Stands

variable {brackets : List Bracket} {opened : List OpenBracket} {least least' : Nat}

theorem mono (h : s.Stands row brackets opened least) (hle : least' ≤ least) :
    s.Stands row brackets opened least' :=
  ⟨h.brackets_eq, h.opened_eq, hle.trans h.least_le, h.le_length⟩

theorem here (h : s.Stands row brackets opened least) : s.Stands row brackets opened s.current :=
  ⟨h.brackets_eq, h.opened_eq, Nat.le_refl _, h.le_length⟩

theorem enter (h : s.Stands row brackets opened least) (bracket : Bracket) :
    (s.enter bracket).Stands row (bracket :: brackets) opened least :=
  ⟨congrArg (bracket :: ·) h.brackets_eq, h.opened_eq, h.least_le, h.le_length⟩

theorem leave (h : s.Stands row brackets opened least) :
    s.leave.Stands row brackets.tail opened least :=
  ⟨congrArg List.tail h.brackets_eq, h.opened_eq, h.least_le, h.le_length⟩

variable (h : s.Stands row brackets opened least)
include h

theorem skipWhile {p : Lexeme → Bool}
    (hp : ∀ lexeme, p lexeme = true → lexeme.kind.isBracket = false)
    (hskip : (s.skipWhile row p : Guarded Refusal Spot) = .ok s') :
    s'.Stands row brackets opened least := by
  obtain ⟨stop, hstop, hskip⟩ := Expr.exists_of_bind_eq_ok hskip
  obtain ⟨hle, hlength, passed, -, htake, hpassed⟩ := skipFrom_passes hstop
  cases hskip
  refine ⟨h.brackets_eq, ?_, h.least_le.trans hle, hlength⟩
  rw [← h.opened_eq, Spot.opened, Spot.opened, htake, after_append,
    after_of_plain fun lexeme hmem => hp lexeme (hpassed lexeme hmem)]

theorem skipNewlines (hskip : (s.skipNewlines row : Guarded Refusal Spot) = .ok s') :
    s'.Stands row brackets opened least := by
  refine h.skipWhile (fun lexeme hlexeme => ?_) hskip
  rw [eq_of_beq hlexeme]
  rfl

theorem skipSeparators (hskip : (s.skipSeparators row : Guarded Refusal Spot) = .ok s') :
    s'.Stands row brackets opened least := by
  refine h.skipWhile (fun lexeme hlexeme => ?_) hskip
  rcases Bool.or_eq_true_iff.mp hlexeme with hkind | hkind <;> rw [eq_of_beq hkind] <;> rfl

theorem settle (hsettle : (s.settle row : Guarded Refusal Spot) = .ok s') :
    s'.Stands row brackets opened least := by
  rw [Spot.settle] at hsettle
  split at hsettle
  · exact h.skipNewlines hsettle
  · cases hsettle
    exact h

theorem beforeElse (hbefore : s.beforeElse row = .ok s') : s'.Stands row brackets opened least := by
  rw [Spot.beforeElse] at hbefore
  split at hbefore
  · exact h.settle hbefore
  · obtain ⟨passed, hpassed, hbefore⟩ := Expr.exists_of_bind_eq_ok hbefore
    exact (h.skipNewlines hpassed).settle hbefore

/-- A lexeme that is taken may open or close a bracket, which the reader does not see. -/
theorem take {kind : Kind} (hlexeme : row[s.current]? = some lexeme) (hkind : lexeme.kind = kind)
    (htrivia : kind.isTrivia = false)
    (hadvance : (s.advance row : Guarded Refusal Spot) = .ok s') :
    s'.Stands row brackets (step opened kind) (least + 1) := by
  subst hkind
  rw [advance_of_head hlexeme htrivia] at hadvance
  cases hadvance
  obtain ⟨hlt, -⟩ := List.getElem?_eq_some_iff.mp hlexeme
  refine ⟨h.brackets_eq, ?_, Nat.succ_le_succ h.least_le, hlt⟩
  rw [← h.opened_eq]
  exact after_take_succ hlexeme

theorem takePlain (hlexeme : row[s.current]? = some lexeme) (htrivia : lexeme.isTrivia = false)
    (hplain : lexeme.kind.isBracket = false)
    (hadvance : (s.advance row : Guarded Refusal Spot) = .ok s') :
    s'.Stands row brackets opened (least + 1) := by
  have htaken := h.take hlexeme rfl htrivia hadvance
  rwa [step_of_not_isBracket hplain] at htaken

/-- If the next lexeme that is no line break is no bracket, then whatever is taken is none. -/
theorem advance {kind : Kind} (hkind : kind.isBracket = false)
    (hnext : ((row.drop s.current).find? fun lexeme => lexeme.kind != .newline).map Lexeme.kind =
      some kind)
    (hadvance : (s.advance row : Guarded Refusal Spot) = .ok s') :
    s'.Stands row brackets opened least := by
  obtain ⟨settled, hsettle, hadvance⟩ := Expr.exists_of_bind_eq_ok hadvance
  obtain ⟨lexeme, hhead, hadvance⟩ := Expr.exists_of_bind_eq_ok hadvance
  have hsettled := h.settle hsettle
  have hlexeme := getElem?_of_head hhead
  have hplain : lexeme.kind.isBracket = false := by
    by_cases hnewline : lexeme.kind = .newline
    · rw [hnewline]
      rfl
    · obtain ⟨passed, hdrop, hpassed⟩ := settle_passes hsettle
      have hnone : passed.find? (fun lexeme => lexeme.kind != .newline) = none :=
        List.find?_eq_none.mpr fun lexeme hmem => by simp [hpassed lexeme hmem]
      rw [hdrop, drop_eq_cons hlexeme, List.find?_append, hnone, Option.none_or,
        List.find?_cons_of_pos (by simpa using hnewline)] at hnext
      cases hnext
      exact hkind
  split at hadvance
  · cases hadvance
    exact hsettled
  · cases hadvance
    obtain ⟨hlt, -⟩ := List.getElem?_eq_some_iff.mp hlexeme
    refine ⟨hsettled.brackets_eq, ?_, Nat.le_succ_of_le hsettled.least_le, hlt⟩
    rw [← hsettled.opened_eq]
    exact (after_take_succ hlexeme).trans (step_of_not_isBracket hplain _)

theorem expect {kind : Kind} (hkind : kind.isTrivia = false)
    (hexpect : s.expect row kind = .ok s') :
    s'.Stands row brackets (step opened kind) (least + 1) := by
  obtain ⟨settled, hsettle, hexpect⟩ := Expr.exists_of_bind_eq_ok hexpect
  obtain ⟨lexeme, hhead, hexpect⟩ := Expr.exists_of_bind_eq_ok hexpect
  split at hexpect
  · next hlexeme =>
    exact (h.settle hsettle).take (getElem?_of_head hhead) hlexeme hkind hexpect
  · exact absurd hexpect (refuse_ne_ok s')

theorem readName {start : Nat} {first : Lexeme} {e : Expr}
    (hread : s.readName row start first = .ok (e, s')) : s'.Stands row brackets opened least := by
  obtain ⟨next, hnext, hread⟩ := Expr.exists_of_bind_eq_ok hread
  dsimp only at hread
  split at hread
  · next hcolons =>
    have hkind : next.kind = .doubleColon ∨ next.kind = .tripleColon := by simpa using hcolons
    have htrivia : next.isTrivia = false := by
      rcases hkind with hkind | hkind <;> exact Lexeme.isTrivia_of_kind hkind rfl
    have hplain : next.kind.isBracket = false := by
      rcases hkind with hkind | hkind <;> rw [hkind] <;> rfl
    obtain ⟨behind, hbehind, hread⟩ := Expr.exists_of_bind_eq_ok hread
    obtain ⟨settled, hsettle, hread⟩ := Expr.exists_of_bind_eq_ok hread
    obtain ⟨lexeme, hhead, hread⟩ := Expr.exists_of_bind_eq_ok hread
    have hsettled := (h.takePlain (getElem?_of_head hnext) htrivia hplain hbehind).settle hsettle
    split at hread
    · next name hname =>
      obtain ⟨stop, hstop, hread⟩ := Expr.exists_of_bind_eq_ok hread
      obtain ⟨e', -, hread⟩ := Expr.exists_of_bind_eq_ok hread
      cases hread
      exact (hsettled.takePlain (getElem?_of_head hhead) (Expr.isTrivia_of_memberName? hname)
        (Expr.isBracket_of_memberName? hname) hstop).mono (by omega)
    · exact absurd hread (refuse_ne_ok _)
  · obtain ⟨e', -, hread⟩ := Expr.exists_of_bind_eq_ok hread
    cases hread
    exact h

theorem readMember {left e : Expr} {slot : Bool}
    (hread : s.readMember row left slot = .ok (e, s')) : s'.Stands row brackets opened least := by
  obtain ⟨passed, hpassed, hread⟩ := Expr.exists_of_bind_eq_ok hread
  obtain ⟨lexeme, hhead, hread⟩ := Expr.exists_of_bind_eq_ok hread
  have hpassed := h.skipNewlines hpassed
  split at hread
  · next name hname =>
    obtain ⟨stop, hstop, hread⟩ := Expr.exists_of_bind_eq_ok hread
    obtain ⟨e', -, hread⟩ := Expr.exists_of_bind_eq_ok hread
    cases hread
    exact (hpassed.takePlain (getElem?_of_head hhead) (Expr.isTrivia_of_memberName? hname)
      (Expr.isBracket_of_memberName? hname) hstop).mono (by omega)
  · exact absurd hread (refuse_ne_ok _)

end Stands
end Spot
end TypeDrift
