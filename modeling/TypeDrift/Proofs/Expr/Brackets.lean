import TypeDrift.Proofs.Expr.Progress

/-! # Which brackets are open

Whether a line break may stand at a place can be seen without reading any expression: going through
the lexemes before it, one keeps a list of the brackets that are open (`OpenBracket.after`).  The
readers keep such a list too, but theirs is shorter.  It is emptied by one bracket already before
the second of the two that close `[[`, so that between these two a line break means what it means
around the whole of `[[ ]]` (`OpenBracket.ignoresNewlines`).

The two lists are compared in `OpenBracket.seen`: what the readers have of the brackets that are
open.
-/
namespace TypeDrift

/-- A bracket that is open. -/
inductive OpenBracket where
  | paren
  | bracket
  /-- Two brackets that were opened together. -/
  | double
  /-- Two brackets that were opened together, behind the first of the two that close them. -/
  | half
  | brace
deriving DecidableEq, Repr

namespace OpenBracket

/-- The open brackets behind a square bracket that closes. -/
def closeBracket : List OpenBracket → List OpenBracket
  | double :: outer => half :: outer
  | opened => opened.tail

/-- The open brackets behind one more lexeme, the innermost one first. -/
def step (opened : List OpenBracket) : Kind → List OpenBracket
  | .leftParen => paren :: opened
  | .leftBracket => bracket :: opened
  | .doubleLeftBracket => double :: opened
  | .leftBrace => brace :: opened
  | .rightBracket => closeBracket opened
  | .rightParen | .rightBrace => opened.tail
  | _ => opened

/-- The open brackets behind some more lexemes. -/
def after (opened : List OpenBracket) (lexemes : List Lexeme) : List OpenBracket :=
  lexemes.foldl (fun opened lexeme => step opened lexeme.kind) opened

/-- Inside these brackets a line break means nothing to the readers. -/
def ignoresNewlines : List OpenBracket → Bool
  | paren :: _ | bracket :: _ | double :: _ => true
  | half :: outer => ignoresNewlines outer
  | brace :: _ | [] => false

/-- Some bracket is open, and the innermost one is no brace. -/
def isInside : List OpenBracket → Bool
  | [] | brace :: _ => false
  | _ => true

/-- Only between the two brackets that close `[[` it depends on what is around. -/
theorem ignoresNewlines_of_isInside {opened : List OpenBracket}
    (hinside : isInside opened = true)
    (hhalf : opened.head? = some half → ignoresNewlines opened.tail = true) :
    ignoresNewlines opened = true := by
  cases opened with
  | nil => cases hinside
  | cons first outer =>
    cases first with
    | half => exact hhalf rfl
    | brace => cases hinside
    | _ => rfl

/-- What the readers have of the open brackets. -/
def seen : List OpenBracket → List Bracket
  | paren :: outer | bracket :: outer | double :: outer => .round :: seen outer
  | half :: outer => seen outer
  | brace :: outer => .brace :: seen outer
  | [] => []

theorem ignoresNewlines_eq (opened : List OpenBracket) :
    ignoresNewlines opened = ((seen opened).head? == some .round) := by
  induction opened with
  | nil => rfl
  | cons first outer ih =>
    cases first with
    | half => exact ih
    | _ => rfl

/-- The readers close the innermost bracket, unless they have done so before. -/
theorem seen_tail {opened : List OpenBracket} (h : opened.head? ≠ some half) :
    seen opened.tail = (seen opened).tail := by
  cases opened with
  | nil => rfl
  | cons first outer =>
    cases first with
    | half => exact absurd rfl h
    | _ => rfl

theorem seen_closeBracket {opened : List OpenBracket} (h : opened.head? ≠ some half) :
    seen (closeBracket opened) = (seen opened).tail := by
  rw [← seen_tail h]
  unfold closeBracket
  split <;> rfl

end OpenBracket

/-- The kinds that open or close a bracket. -/
def Kind.isBracket : Kind → Bool
  | leftParen | rightParen | leftBracket | doubleLeftBracket | rightBracket | leftBrace
  | rightBrace => true
  | _ => false

theorem OpenBracket.step_of_not_isBracket {kind : Kind} (h : kind.isBracket = false)
    (opened : List OpenBracket) : step opened kind = opened := by
  cases kind <;> first | rfl | cases h

theorem OpenBracket.after_append (opened : List OpenBracket) (lexemes lexemes' : List Lexeme) :
    after opened (lexemes ++ lexemes') = after (after opened lexemes) lexemes' := List.foldl_append

theorem OpenBracket.after_of_plain {opened : List OpenBracket} {lexemes : List Lexeme}
    (h : ∀ lexeme ∈ lexemes, lexeme.kind.isBracket = false) : after opened lexemes = opened := by
  induction lexemes with
  | nil => rfl
  | cons lexeme lexemes ih =>
    obtain ⟨hfirst, hothers⟩ := List.forall_mem_cons.mp h
    rw [after, List.foldl_cons, step_of_not_isBracket hfirst]
    exact ih hothers

/-- What opens a bracket and reads up to the end of it. -/
def Continuation.encloses : Continuation → Bool
  | call | index _ => true
  | member _ | between _ => false

/-- What opens a bracket and reads up to the end of it. -/
def Opening.encloses : Opening → Bool
  | paren | block => true
  | _ => false

theorem Continuation.isBracket_eq {kind : Kind} {step : Continuation} (h : ofKind? kind = some step) :
    kind.isBracket = step.encloses := by
  cases kind <;> cases h <;> rfl

theorem Opening.isBracket_eq {lexeme : Lexeme} {opening : Opening}
    (h : ofLexeme? lexeme = some opening) : lexeme.kind.isBracket = opening.encloses := by
  obtain ⟨kind, text⟩ := lexeme
  cases kind with
  | keyword word => cases word <;> cases h <;> rfl
  | _ => cases h <;> rfl

theorem Continuation.kind_of_call {kind : Kind} (h : ofKind? kind = some call) :
    kind = .leftParen := by
  cases kind <;> first | rfl | cases h

theorem Continuation.kind_of_index {kind : Kind} {double : Bool}
    (h : ofKind? kind = some (index double)) :
    kind = cond double .doubleLeftBracket .leftBracket := by
  cases kind <;> cases h <;> rfl

theorem Opening.kind_of_paren {lexeme : Lexeme} (h : ofLexeme? lexeme = some paren) :
    lexeme.kind = .leftParen := by
  obtain ⟨kind, text⟩ := lexeme
  cases kind with
  | keyword word => cases word <;> cases h
  | _ => first | rfl | cases h

theorem Opening.kind_of_block {lexeme : Lexeme} (h : ofLexeme? lexeme = some block) :
    lexeme.kind = .leftBrace := by
  obtain ⟨kind, text⟩ := lexeme
  cases kind with
  | keyword word => cases word <;> cases h
  | _ => first | rfl | cases h

namespace Expr

theorem Closer.seen_step (closer : Closer) {opened : List OpenBracket}
    (h : opened.head? ≠ some .half) :
    OpenBracket.seen (OpenBracket.step opened closer.kind) = (OpenBracket.seen opened).tail := by
  cases closer with
  | paren => exact OpenBracket.seen_tail h
  | bracket => exact OpenBracket.seen_closeBracket h

theorem isBracket_of_memberName? {lexeme : Lexeme} {keywords : Bool} {name : String}
    (h : memberName? lexeme keywords = some name) : lexeme.kind.isBracket = false := by
  obtain ⟨kind, text⟩ := lexeme
  cases kind <;> first | rfl | cases h

theorem isBracket_of_argumentName? {lexeme : Lexeme} {name : String}
    (h : argumentName? lexeme = some name) : lexeme.kind.isBracket = false := by
  obtain ⟨kind, text⟩ := lexeme
  cases kind <;> first | rfl | cases h

/-- The brackets that are open behind what a call reads: it closes the one that it reads in. -/
def Task.behind (opened : List OpenBracket) : Task → List OpenBracket
  | arguments closer | argumentsFrom closer => OpenBracket.step opened closer.kind
  | parameters | parametersFrom => OpenBracket.step opened .rightParen
  | _ => opened

end Expr
end TypeDrift
