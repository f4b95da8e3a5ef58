import TypeDrift.Proofs.Guarded.Parse

/-! # Guarded moves come to an end

No move in a row of lexemes uses up its bound (`Guarded.Halts`): what is skipped lies in the row,
and the bound on skipping is larger than the row.  This needs no end of input: a move that leaves
the row ends there, with the failure that says so.

It is a class, so that it is found for the moves of a reader wherever these are gone through.
-/
namespace TypeDrift

namespace Guarded

variable {ε α β : Type}

/-- The run does not use up a bound. -/
class Halts (x : Guarded ε α) : Prop where
  ne_endless : x ≠ .error .endless

instance halts_ok (a : α) : Halts (.ok a : Guarded ε α) := ⟨nofun⟩

instance halts_refused (reason : ε) : Halts (.error (.refused reason) : Guarded ε α) := ⟨nofun⟩

instance halts_outOfRange : Halts (.error .outOfRange : Guarded ε α) := ⟨nofun⟩

instance halts_found (a? : Option α) : Halts (found a? : Guarded ε α) := by
  cases a? with
  | none => exact halts_outOfRange
  | some a => exact halts_ok a

theorem Halts.bind {x : Guarded ε α} {next : α → Guarded ε β} (hx : x.Halts)
    (hnext : ∀ a, (next a).Halts) : (x >>= next).Halts := by
  obtain failure | a := x
  · refine ⟨fun h => hx.ne_endless ?_⟩
    cases h
    rfl
  · exact hnext a

end Guarded

namespace Spot

open Guarded

variable {ε : Type} (row : List Lexeme) (s : Spot)

theorem halts_skipFrom {p : Lexeme → Bool} {bound index : Nat} (hpos : 0 < bound)
    (hbound : row.length < index + bound) :
    Halts (skipFrom row p bound index : Guarded ε Nat) := by
  induction bound generalizing index with
  | zero => cases hpos
  | succ bound ih =>
    rw [skipFrom]
    cases hlexeme : row[index]? with
    | none => exact halts_outOfRange
    | some lexeme =>
      obtain ⟨hlt, -⟩ := List.getElem?_eq_some_iff.mp hlexeme
      rw [found_some, ok_bind]
      split
      · exact ih (by omega) (by omega)
      · exact halts_ok index

instance halts_head : Halts (s.head row : Guarded ε Lexeme) := halts_found _

instance halts_skipWhile (p : Lexeme → Bool) : Halts (s.skipWhile row p : Guarded ε Spot) :=
  (halts_skipFrom row (Nat.succ_pos _) (by omega)).bind fun _ => halts_ok _

instance halts_skipNewlines : Halts (s.skipNewlines row : Guarded ε Spot) :=
  halts_skipWhile row s _

instance halts_skipSeparators : Halts (s.skipSeparators row : Guarded ε Spot) :=
  halts_skipWhile row s _

instance halts_settle : Halts (s.settle row : Guarded ε Spot) := by
  rw [settle]
  split
  · exact halts_skipNewlines row s
  · exact halts_ok s

instance halts_advance : Halts (s.advance row : Guarded ε Spot) := by
  refine (halts_settle row s).bind fun s => (halts_head row s).bind fun lexeme => ?_
  split <;> exact halts_ok _

instance halts_secondKind? : Halts (s.secondKind? row : Guarded ε (Option Kind)) := by
  rw [secondKind?]
  split
  · exact halts_outOfRange
  · exact halts_ok _

instance halts_close (start : Nat) (form : Form Expr) :
    Halts (s.close row start form : Guarded ε Expr) :=
  (halts_found _).bind fun _ => (halts_found _).bind fun _ => halts_ok _

instance halts_refuse {α : Type} : Halts (s.refuse row : Guarded Refusal α) :=
  (halts_head row s).bind fun _ => halts_refused _

instance halts_expect (kind : Kind) : (s.expect row kind).Halts := by
  refine (halts_settle row s).bind fun s => (halts_head row s).bind fun lexeme => ?_
  split
  · exact halts_advance row s
  · exact halts_refuse row s

instance halts_expectEnd (terminator : Kind) : (s.expectEnd row terminator).Halts := by
  refine (halts_head row s).bind fun lexeme => ?_
  split
  · exact halts_ok ()
  · exact halts_refuse row s

instance halts_expectSecond (double : Bool) : (s.expectSecond row double).Halts := by
  rw [expectSecond]
  split
  · exact halts_expect row s _
  · exact halts_ok s

instance halts_beforeElse : (s.beforeElse row).Halts := by
  rw [beforeElse]
  split
  · exact halts_settle row s
  · exact (halts_skipNewlines row s).bind fun s => halts_settle row s

instance halts_readName (start : Nat) (first : Lexeme) : (s.readName row start first).Halts := by
  refine (halts_head row s).bind fun next => ?_
  dsimp only
  split
  · refine (halts_advance row s).bind fun s => (halts_settle row s).bind fun s => ?_
    refine (halts_head row s).bind fun lexeme => ?_
    split
    · refine (halts_advance row s).bind fun s => (halts_close row s _ _).bind fun e => ?_
      exact halts_ok _
    · exact halts_refuse row s
  · exact (halts_close row s _ _).bind fun e => halts_ok _

instance halts_readMember (left : Expr) (slot : Bool) : (s.readMember row left slot).Halts := by
  refine (halts_skipNewlines row s).bind fun s => (halts_head row s).bind fun lexeme => ?_
  split
  · refine (halts_advance row s).bind fun s => (halts_close row s _ _).bind fun e => ?_
    exact halts_ok _
  · exact halts_refuse row s

end Spot
end TypeDrift
