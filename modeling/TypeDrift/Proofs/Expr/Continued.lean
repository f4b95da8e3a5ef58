import TypeDrift.Proofs.Expr.Forked
import TypeDrift.Proofs.Expr.Widened

/-! # Reading with a line break behind an operator

An operator asks for an operand, and the operand may stand on the next line.  This module asks what
becomes of a reading when a line break is put in right behind an operator: the same is read, with the
indices behind that place one higher (`Reads.continued`).

Two cursors go through the two rows as in the case of a line break inside brackets.  Here they need
never meet different lexemes.  Only the lexeme before the line break leads up to it, and that one is
taken by few readers: those that go on with an expression or begin one, which skip line breaks then
whatever is open, and those of `=` behind the name of an argument or of a parameter, inside of
parentheses or square brackets.  So the cursor of the longer row is moved over the line break as soon
as it stands in front of it (`OperatorBreak.InStep.operates`), and what is read from there is what
would have been read from the line break on.
-/
namespace TypeDrift

open Cursor

/-- The operators that an operand has to follow: those between two operands, those in front of one,
and those in front of the name of a member. -/
def Kind.isOperator (kind : Kind) : Bool :=
  kind.level?.isSome || kind == .bang || kind == .dollar || kind == .atSign

/-- What goes on with an expression by an operator. -/
def Continuation.operates : Continuation → Bool
  | call | index _ => false
  | member _ | between _ => true

/-- What begins an expression by an operator. -/
def Opening.operates : Opening → Bool
  | sign .. | tilde => true
  | _ => false

theorem Continuation.isOperator_eq {kind : Kind} {step : Continuation}
    (h : ofKind? kind = some step) : kind.isOperator = step.operates := by
  cases kind <;> cases h <;> rfl

theorem Opening.isOperator_eq {lexeme : Lexeme} {opening : Opening}
    (h : ofLexeme? lexeme = some opening) : lexeme.kind.isOperator = opening.operates := by
  obtain ⟨kind, text⟩ := lexeme
  cases kind with
  | keyword word => cases word <;> cases h <;> rfl
  | _ => cases h <;> rfl

namespace Expr

theorem Closer.isOperator_eq_false (closer : Closer) : closer.kind.isOperator = false := by
  cases closer <;> rfl

theorem isOperator_of_memberName? {lexeme : Lexeme} {keywords : Bool} {name : String}
    (h : memberName? lexeme keywords = some name) : lexeme.kind.isOperator = false := by
  obtain ⟨kind, text⟩ := lexeme
  cases kind <;> first | rfl | cases h

theorem isOperator_of_argumentName? {lexeme : Lexeme} {name : String}
    (h : argumentName? lexeme = some name) : lexeme.kind.isOperator = false := by
  obtain ⟨kind, text⟩ := lexeme
  cases kind <;> first | rfl | cases h

/-! ## Readers that settle first -/

section Settle
variable {c c' d : Cursor} (hsame : d.settle = c.settle)
include hsame

/-- An operand is read from where its reader settles. -/
theorem Reads.operand_of_settle {e : Expr} (h : Reads .operand c e c') : Reads .operand d e c' := by
  cases h with
  | leaf hopening => exact hsame ▸ .leaf (hsame ▸ hopening)
  | name hopening hname => exact .name (hsame ▸ hopening) (hsame ▸ hname)
  | paren hopening hinner hclose =>
    exact (Reads.paren (hsame ▸ hopening) (hsame ▸ hinner) hclose).of_result (by rw [hsame])
  | block hopening hbody =>
    exact (Reads.block (hsame ▸ hopening) (hsame ▸ hbody)).of_result (by rw [hsame])
  | sign hopening hinner =>
    exact (Reads.sign (hsame ▸ hopening) (hsame ▸ hinner)).of_result (by rw [hsame])
  | tilde hopening hright =>
    exact (Reads.tilde (hsame ▸ hopening) (hsame ▸ hright)).of_result (by rw [hsame])
  | function hopening hopen hgiven hbody =>
    exact (Reads.function (hsame ▸ hopening) (hsame ▸ hopen) (hsame ▸ hgiven) hbody).of_result
      (by rw [hsame])
  | conditional hopening hcondition hconsequent halternative =>
    exact (Reads.conditional (hsame ▸ hopening) (hsame ▸ hcondition) hconsequent
      halternative).of_result (by rw [hsame])
  | forLoop hopening hopen hinside hcounter hin hsequence hclose hbody =>
    exact (Reads.forLoop (hsame ▸ hopening) (hsame ▸ hopen) (hsame ▸ hinside) hcounter hin hsequence
      hclose hbody).of_result (by rw [hsame])
  | whileLoop hopening hcondition hbody =>
    exact (Reads.whileLoop (hsame ▸ hopening) (hsame ▸ hcondition) hbody).of_result (by rw [hsame])
  | repeatLoop hopening hbody =>
    exact (Reads.repeatLoop (hsame ▸ hopening) (hsame ▸ hbody)).of_result (by rw [hsame])

theorem Reads.expression_of_settle {power : Nat} {e : Expr} (h : Reads (.expression power) c e c') :
    Reads (.expression power) d e c' := by
  cases h with
  | expression hleft hmore => exact .expression (hleft.operand_of_settle hsame) hmore

theorem Reads.argumentValue_of_settle {closer : Closer} {value : Option Expr}
    (h : Reads (.argumentValue closer) c value c') : Reads (.argumentValue closer) d value c' := by
  cases h with
  | noValue hend => exact hsame ▸ .noValue (hsame ▸ hend)
  | value hgo hvalue => exact .value (hsame ▸ hgo) (hsame ▸ hvalue)

end Settle
end Expr

/-- A line break that is put into a row of lexemes right behind an operator. -/
structure OperatorBreak where
  /-- How many lexemes stand before the line break. -/
  place : Nat
  operator : Lexeme
  newline : Lexeme
  /-- The lexemes behind the line break. -/
  later : List Lexeme
  operates : operator.kind.isOperator = true
  kind_newline : newline.kind = .newline

namespace OperatorBreak

variable (insertion : OperatorBreak)

/-- The indices in the longer row. -/
def numbering : Renumbering := .gap insertion.place

/-- The operator is still to come. -/
def Ahead (c d : Cursor) : Prop :=
  ∃ ahead, c.rest = ahead ++ insertion.operator :: insertion.later ∧
    d.rest = ahead ++ insertion.operator :: insertion.newline :: insertion.later ∧
    c.index + ahead.length + 1 = insertion.place ∧ d.index = c.index

/-- The line break has been passed. -/
def Passed (c d : Cursor) : Prop :=
  d.rest = c.rest ∧ d.index = c.index + 1 ∧ insertion.place ≤ c.index

/-- Two cursors at one place in the two rows. -/
structure InStep (c d : Cursor) : Prop where
  last : d.last = insertion.numbering.token c.last
  brackets : d.brackets = c.brackets
  rows : insertion.Ahead c d ∨ insertion.Passed c d

variable {insertion} {c d : Cursor}

/-- An operator separates nothing. -/
theorem kind_operator (insertion : OperatorBreak) :
    insertion.operator.kind ≠ .newline ∧ insertion.operator.kind ≠ .semicolon := by
  have hoperates := insertion.operates
  constructor <;> intro hkind <;> rw [hkind] at hoperates <;> cases hoperates

theorem Ahead.skipWhile (h : insertion.Ahead c d) {p : Lexeme → Bool}
    (hstop : p insertion.operator = false) :
    insertion.Ahead (c.skipWhile p) (d.skipWhile p) := by
  obtain ⟨ahead, hc, hd, hplace, hindex⟩ := h
  rcases all_or_exists_stop p ahead with hskipped | ⟨passed, stop, behind, rfl, hskipped, hstop'⟩
  · rw [skipWhile_of_stop hc hskipped hstop, skipWhile_of_stop hd hskipped hstop]
    exact ⟨[], rfl, rfl, hplace, by rw [hindex]⟩
  · rw [List.append_assoc] at hc hd
    rw [List.length_append, ← Nat.add_assoc] at hplace
    rw [skipWhile_of_stop hc hskipped hstop', skipWhile_of_stop hd hskipped hstop']
    exact ⟨stop :: behind, rfl, rfl, hplace, by rw [hindex]⟩

namespace InStep

variable (h : insertion.InStep c d)
include h

theorem enter (bracket : Bracket) : insertion.InStep (c.enter bracket) (d.enter bracket) :=
  ⟨h.last, congrArg (bracket :: ·) h.brackets, h.rows⟩

theorem leave : insertion.InStep c.leave d.leave :=
  ⟨h.last, congrArg List.tail h.brackets, h.rows⟩

theorem index : d.index = insertion.numbering.token c.index := by
  rcases h.rows with ⟨ahead, -, -, hplace, hindex⟩ | ⟨-, hindex, hplace⟩
  · exact hindex.trans (Renumbering.token_gap_of_lt (by omega)).symm
  · exact hindex.trans (Renumbering.token_gap_of_le hplace).symm

theorem head : d.head = c.head := by
  rcases h.rows with ⟨ahead, hc, hd, -⟩ | ⟨hrest, -⟩
  · rw [Cursor.head, Cursor.head, hc, hd]
    cases ahead <;> rfl
  · rw [Cursor.head, Cursor.head, hrest]

theorem secondKind? : d.secondKind? = c.secondKind? := by
  rcases h.rows with ⟨ahead, hc, hd, -⟩ | ⟨hrest, -⟩
  · rw [Cursor.secondKind?, Cursor.secondKind?, hc, hd]
    cases ahead with
    | nil => simp [insertion.kind_newline]
    | cons lexeme ahead => simp [insertion.kind_operator.1]
  · rw [Cursor.secondKind?, Cursor.secondKind?, hrest]

/-- An expression is closed at the new indices. -/
theorem close {start start' : Nat} (hstart : start' = insertion.numbering.token start)
    (form : Form Expr) :
    d.close start' (form.map (Expr.renumber insertion.numbering) insertion.numbering.token) =
      (c.close start form).renumber insertion.numbering :=
  close_gap h.last hstart form

theorem skipWhile {p : Lexeme → Bool} (hstop : p insertion.operator = false) :
    insertion.InStep (c.skipWhile p) (d.skipWhile p) :=
  ⟨h.last, h.brackets, h.rows.imp (fun h => h.skipWhile hstop) fun h => skipWhile_behind h p⟩

theorem skipNewlines : insertion.InStep c.skipNewlines d.skipNewlines :=
  h.skipWhile (by simpa using insertion.kind_operator.1)

theorem skipSeparators : insertion.InStep c.skipSeparators d.skipSeparators :=
  h.skipWhile (by simpa using insertion.kind_operator)

theorem settle : insertion.InStep c.settle d.settle := by
  have hends : d.endsAtNewline = c.endsAtNewline := by rw [endsAtNewline, h.brackets, endsAtNewline]
  unfold Cursor.settle
  rw [hends]
  split
  · exact h
  · exact h.skipNewlines

theorem beforeElse : insertion.InStep c.beforeElse d.beforeElse := by
  unfold Cursor.beforeElse
  rw [h.brackets]
  split
  · exact h
  · exact h.skipNewlines

/-- Both take the same lexeme.  Behind the operator the cursor of the longer row stands in front of
the line break, and what counts is where it would be without it. -/
theorem operates (hend : c.head.kind ≠ .endOfInput) :
    ∃ d₁, insertion.InStep c.advance d₁ ∧ d.advance.skipNewlines = d₁.skipNewlines ∧
      (c.head.kind.isOperator = false → d₁ = d.advance) := by
  have hlast := h.index
  rcases h.rows with ⟨ahead, hc, hd, hplace, hindex⟩ | ⟨hrest, hindex, hplace⟩
  · rw [advance_eq hend, advance_eq (by rwa [h.head])]
    cases ahead with
    | nil =>
      have hhead : c.head = insertion.operator := by rw [Cursor.head, hc]; rfl
      refine ⟨⟨d.index + 2, insertion.later, d.index, d.brackets⟩,
        ⟨hlast, h.brackets, .inr ⟨by rw [hc]; rfl, ?_, ?_⟩⟩, ?_, ?_⟩
      · show d.index + 2 = c.index + 1 + 1
        rw [hindex]
      · exact Nat.le_of_eq hplace.symm
      · have hpassed : ∀ lexeme ∈ [insertion.newline], (lexeme.kind == .newline) = true :=
          List.forall_mem_singleton.mpr (by simp [insertion.kind_newline])
        have htail : d.rest.tail = [insertion.newline] ++ insertion.later := by rw [hd]; rfl
        exact skipWhile_of_append htail hpassed
      · intro hplain
        rw [hhead, insertion.operates] at hplain
        cases hplain
    | cons lexeme ahead =>
      refine ⟨⟨d.index + 1, d.rest.tail, d.index, d.brackets⟩, ⟨hlast, h.brackets,
        .inl ⟨ahead, by rw [hc]; rfl, by rw [hd]; rfl, ?_, ?_⟩⟩, rfl, fun _ => rfl⟩
      · rw [List.length_cons] at hplace
        show c.index + 1 + ahead.length + 1 = insertion.place
        omega
      · exact congrArg (· + 1) hindex
  · rw [advance_eq hend, advance_eq (by rwa [h.head])]
    exact ⟨⟨d.index + 1, d.rest.tail, d.index, d.brackets⟩, ⟨hlast, h.brackets,
      .inr ⟨congrArg List.tail hrest, congrArg (· + 1) hindex, Nat.le_succ_of_le hplace⟩⟩, rfl,
      fun _ => rfl⟩

/-- Both take the same lexeme, if it is no operator. -/
theorem advance (hend : c.head.kind ≠ .endOfInput) (hplain : c.head.kind.isOperator = false) :
    insertion.InStep c.advance d.advance := by
  obtain ⟨d₁, hd₁, -, hsame⟩ := h.operates hend
  exact hsame hplain ▸ hd₁

/-- Both take the same lexeme and the line breaks behind it. -/
theorem advance_skipNewlines (hend : c.head.kind ≠ .endOfInput) :
    insertion.InStep c.advance.skipNewlines d.advance.skipNewlines := by
  obtain ⟨d₁, hd₁, hsame, -⟩ := h.operates hend
  exact hsame ▸ hd₁.skipNewlines

/-- Both take the same lexeme, inside a bracket where line breaks mean nothing. -/
theorem advance_settle (hend : c.head.kind ≠ .endOfInput)
    (hround : c.brackets.head? = some .round) :
    ∃ d₁, insertion.InStep c.advance d₁ ∧ d.advance.settle = d₁.settle := by
  obtain ⟨d₁, hd₁, hsame, -⟩ := h.operates hend
  refine ⟨d₁, hd₁, ?_⟩
  rw [Expr.settle_eq (by rwa [brackets_advance, h.brackets]),
    Expr.settle_eq (by rwa [hd₁.brackets, brackets_advance]), hsame]

/-- Both take the same lexeme behind the line breaks that mean nothing, if it is no operator. -/
theorem taken {kind : Kind} (hkind : c.settle.head.kind = kind) (hend : kind ≠ .endOfInput)
    (hplain : kind.isOperator = false) : d.settle.head = c.settle.head ∧
    d.settle.index = insertion.numbering.token c.settle.index ∧
    insertion.InStep c.settle.advance d.settle.advance := by
  subst hkind
  exact ⟨h.settle.head, h.settle.index, h.settle.advance hend hplain⟩

/-- Both take what begins an expression, if it is no operator. -/
theorem begins {opening : Opening} (hopening : Opening.ofLexeme? c.settle.head = some opening)
    (hplain : opening.operates = false) : d.settle.head = c.settle.head ∧
    d.settle.index = insertion.numbering.token c.settle.index ∧
    insertion.InStep c.settle.advance d.settle.advance :=
  h.taken rfl (Opening.kind_ne_endOfInput hopening) ((Opening.isOperator_eq hopening).trans hplain)

/-- Both begin an expression with an operator, and go on behind line breaks. -/
theorem beginsAhead {opening : Opening} (hopening : Opening.ofLexeme? c.settle.head = some opening) :
    d.settle.head = c.settle.head ∧ d.settle.index = insertion.numbering.token c.settle.index ∧
    insertion.InStep c.settle.advance.skipNewlines d.settle.advance.skipNewlines :=
  ⟨h.settle.head, h.settle.index,
    h.settle.advance_skipNewlines (Opening.kind_ne_endOfInput hopening)⟩

end InStep
end OperatorBreak

namespace Expr

open OperatorBreak

variable {insertion : OperatorBreak} {c c' d : Cursor}

theorem readName_continued {start : Nat} {first : Lexeme} {e : Expr}
    (hd : insertion.InStep c d) (h : readName start first c = .ok (e, c')) :
    ∃ d', insertion.InStep c' d' ∧
      readName (insertion.numbering.token start) first d =
        .ok (e.renumber insertion.numbering, d') := by
  rcases readName_eq_ok_iff.mp h with ⟨hdouble, htriple, rfl, rfl⟩ | ⟨hcolons, name, hname, rfl, rfl⟩
  · exact ⟨d, hd, readName_eq_ok_iff.mpr (.inl ⟨by rwa [hd.head], by rwa [hd.head], rfl,
      (hd.close rfl (.identifier first.name)).symm⟩)⟩
  · have hbehind : insertion.InStep c.advance d.advance := by
      refine hd.advance ?_ ?_ <;> rcases hcolons with hkind | hkind <;> rw [hkind] <;> decide
    obtain ⟨hhead, -, htaken⟩ := hbehind.taken rfl (kind_ne_endOfInput_of_memberName? hname)
      (isOperator_of_memberName? hname)
    refine ⟨_, htaken, readName_eq_ok_iff.mpr (.inr ⟨by rwa [hd.head], name, by rwa [hhead], rfl,
      ?_⟩)⟩
    rw [hd.head]
    exact (htaken.close rfl (.namespaced _ _ _)).symm

/-- A member is read behind its operator, on whatever line. -/
theorem readMember_continued {left e : Expr} {slot : Bool}
    (hd : insertion.InStep c.skipNewlines d.skipNewlines)
    (h : readMember left slot c = .ok (e, c')) :
    ∃ d', insertion.InStep c' d' ∧
      readMember (left.renumber insertion.numbering) slot d =
        .ok (e.renumber insertion.numbering, d') := by
  obtain ⟨name, hname, rfl, rfl⟩ := readMember_eq_ok_iff.mp h
  have hbehind := hd.advance (kind_ne_endOfInput_of_memberName? hname)
    (isOperator_of_memberName? hname)
  refine ⟨_, hbehind, readMember_eq_ok_iff.mpr ⟨name, by rwa [hd.head], rfl, ?_⟩⟩
  rw [range_renumber]
  exact (hbehind.close rfl (.member left name slot)).symm

/-- **Reading with a line break behind an operator.**  What is read in the row is read in the longer
one, but for the indices. -/
theorem Reads.continued {task : Task} {result : task.Result} (h : Reads task c result c')
    (hd : insertion.InStep c d) (hfits : task.Fits c) :
    ∃ d', insertion.InStep c' d' ∧
      Reads (task.renumber insertion.numbering) d
        (task.renumberResult insertion.numbering result) d' := by
  induction h generalizing d with
  | expression _ _ ihleft ihmore =>
    obtain ⟨d₁, hd₁, hleft⟩ := ihleft hd trivial
    obtain ⟨d₂, hd₂, hmore⟩ := ihmore hd₁ trivial
    exact ⟨d₂, hd₂, .expression hleft hmore⟩
  | done hloose =>
    exact ⟨_, hd.settle, .done fun step hstep => hloose step (by rwa [← hd.settle.head])⟩
  | @call power left e given c c₁ c₂ hkind hpower _ _ ihgiven ihmore =>
    obtain ⟨hhead, -, hinside⟩ := hd.taken rfl (Continuation.kind_ne_endOfInput hkind)
      (Continuation.isOperator_eq hkind)
    obtain ⟨d₁, hd₁, hgiven⟩ := ihgiven (hinside.enter .round) rfl
    obtain ⟨d₂, hd₂, hmore⟩ := ihmore hd₁ trivial
    exact ⟨d₂, hd₂, .call (by rwa [hhead]) hpower hgiven
      (hmore.of_left (hd₁.close (start_renumber ..) (.call left given)))⟩
  | @index power left e given c c₁ c₂ hkind hpower _ _ ihgiven ihmore =>
    obtain ⟨hhead, -, hinside⟩ := hd.taken rfl (Continuation.kind_ne_endOfInput hkind)
      (Continuation.isOperator_eq hkind)
    obtain ⟨d₁, hd₁, hgiven⟩ := ihgiven (hinside.enter .round) rfl
    obtain ⟨d₂, hd₂, hmore⟩ := ihmore hd₁ trivial
    exact ⟨d₂, hd₂, .index (by rwa [hhead]) hpower hgiven
      (hmore.of_left (hd₁.close (start_renumber ..) (.index left given false)))⟩
  | @doubleIndex power left e given c c₁ c₂ hkind hpower _ hclose _ ihgiven ihmore =>
    obtain ⟨hhead, -, hinside⟩ := hd.taken rfl (Continuation.kind_ne_endOfInput hkind)
      (Continuation.isOperator_eq hkind)
    obtain ⟨d₁, hd₁, hgiven⟩ := ihgiven (hinside.enter .round) rfl
    obtain ⟨hhead₁, -, hbehind⟩ := hd₁.taken hclose (by decide) rfl
    obtain ⟨d₂, hd₂, hmore⟩ := ihmore hbehind trivial
    exact ⟨d₂, hd₂, .doubleIndex (by rwa [hhead]) hpower hgiven (by rwa [hhead₁])
      (hmore.of_left (hbehind.close (start_renumber ..) (.index left given true)))⟩
  | member hkind hpower hmember _ ihmore =>
    have hahead := hd.settle.advance_skipNewlines (Continuation.kind_ne_endOfInput hkind)
    obtain ⟨d₁, hd₁, hmember'⟩ := readMember_continued hahead hmember
    obtain ⟨d₂, hd₂, hmore⟩ := ihmore hd₁ trivial
    exact ⟨d₂, hd₂, .member (by rwa [hd.settle.head]) hpower hmember' hmore⟩
  | @between power level left right e c c₁ c₂ hkind hpower _ _ ihright ihmore =>
    have hahead := hd.settle.advance_skipNewlines (Continuation.kind_ne_endOfInput hkind)
    obtain ⟨d₁, hd₁, hright⟩ := ihright hahead trivial
    obtain ⟨d₂, hd₂, hmore⟩ := ihmore hd₁ trivial
    have hclose := hd₁.close (start_renumber _ left)
      (.between c.settle.head c.settle.index left right)
    rw [Form.map_between] at hclose
    refine ⟨d₂, hd₂, .between (by rwa [hd.settle.head]) hpower hright (hmore.of_left ?_)⟩
    rw [hd.settle.head, hd.settle.index]
    exact hclose
  | @leaf form c hopening =>
    obtain ⟨hhead, hindex, htaken⟩ := hd.taken rfl (Opening.kind_ne_endOfInput hopening)
      (Opening.isOperator_eq hopening)
    have hclose := htaken.close hindex form
    rw [Opening.map_leaf _ _ hopening] at hclose
    exact ⟨_, htaken, (Reads.leaf (by rwa [hhead])).of_result hclose⟩
  | name hopening hname =>
    obtain ⟨hhead, hindex, htaken⟩ := hd.begins hopening rfl
    obtain ⟨d₁, hd₁, hname'⟩ := readName_continued htaken hname
    exact ⟨d₁, hd₁, .name (by rwa [hhead]) (by rwa [hhead, hindex])⟩
  | @paren inner c c₁ hopening _ hclose ihinner =>
    obtain ⟨hhead, hindex, hinside⟩ := hd.begins hopening rfl
    obtain ⟨d₁, hd₁, hinner⟩ := ihinner (hinside.enter .round) trivial
    obtain ⟨hhead₁, -, hbehind⟩ := hd₁.taken hclose (by decide) rfl
    exact ⟨_, hbehind.leave, (Reads.paren (by rwa [hhead]) hinner (by rwa [hhead₁])).of_result
      (hbehind.leave.close hindex (.paren inner))⟩
  | @block body c c₁ hopening hbody ihbody =>
    obtain ⟨hhead, hindex, hinside⟩ := hd.begins hopening rfl
    obtain ⟨d₁, hd₁, hbody'⟩ := ihbody (hinside.enter .brace) (.inl rfl)
    have hbrace := hbody.head_of_statements rfl
    have hbehind := (hd₁.advance (by rw [hbrace]; decide) (by rw [hbrace]; rfl)).leave
    exact ⟨_, hbehind, (Reads.block (by rwa [hhead]) hbody').of_result
      (hbehind.close hindex (.block body))⟩
  | @sign operator level inner c c₁ hopening _ ihinner =>
    obtain ⟨hhead, hindex, hahead⟩ := hd.beginsAhead hopening
    obtain ⟨d₁, hd₁, hinner⟩ := ihinner hahead trivial
    exact ⟨d₁, hd₁, (Reads.sign (by rwa [hhead]) hinner).of_result
      (hd₁.close hindex (.unary operator inner))⟩
  | @tilde right c c₁ hopening _ ihright =>
    obtain ⟨hhead, hindex, hahead⟩ := hd.beginsAhead hopening
    obtain ⟨d₁, hd₁, hright⟩ := ihright hahead trivial
    exact ⟨d₁, hd₁, (Reads.tilde (by rwa [hhead]) hright).of_result
      (hd₁.close hindex (.formula none right))⟩
  | @repeatLoop body c c₁ hopening _ ihbody =>
    obtain ⟨hhead, hindex, hahead⟩ := hd.beginsAhead hopening
    obtain ⟨d₁, hd₁, hbody⟩ := ihbody hahead trivial
    exact ⟨d₁, hd₁, (Reads.repeatLoop (by rwa [hhead]) hbody).of_result
      (hd₁.close hindex (.repeatLoop body))⟩
  | @function given body c c₁ c₂ hopening hopen _ _ ihgiven ihbody =>
    obtain ⟨hhead, hindex, htaken⟩ := hd.begins hopening rfl
    obtain ⟨hhead₁, -, hinside⟩ := htaken.taken hopen (by decide) rfl
    obtain ⟨d₁, hd₁, hgiven⟩ := ihgiven (hinside.enter .round) rfl
    obtain ⟨d₂, hd₂, hbody⟩ := ihbody hd₁.skipNewlines trivial
    exact ⟨d₂, hd₂, (Reads.function (by rwa [hhead]) (by rwa [hhead₁]) hgiven hbody).of_result
      (hd₂.close hindex (.function given body))⟩
  | @conditional condition consequent alternative c c₁ c₂ c₃ hopening _ _ _ ihcondition
      ihconsequent ihalternative =>
    obtain ⟨hhead, hindex, htaken⟩ := hd.begins hopening rfl
    obtain ⟨d₁, hd₁, hcondition⟩ := ihcondition htaken trivial
    obtain ⟨d₂, hd₂, hconsequent⟩ := ihconsequent hd₁ trivial
    obtain ⟨d₃, hd₃, halternative⟩ := ihalternative hd₂ trivial
    exact ⟨d₃, hd₃, (Reads.conditional (by rwa [hhead]) hcondition hconsequent
      halternative).of_result
        (hd₃.close hindex (.conditional condition consequent alternative))⟩
  | @forLoop sequence body c c₁ c₂ c₃ hopening hopen hinside hcounter hin _ hclose _ ihsequence
      ihbody =>
    subst hinside
    obtain ⟨hhead, hindex, htaken⟩ := hd.begins hopening rfl
    obtain ⟨hhead₁, -, hinside⟩ := htaken.taken hopen (by decide) rfl
    obtain ⟨hhead₂, -, htaken₂⟩ := (hinside.enter .round).taken hcounter (by decide) rfl
    obtain ⟨hhead₃, -, htaken₃⟩ := htaken₂.taken hin (by decide) rfl
    obtain ⟨d₂, hd₂, hsequence⟩ := ihsequence htaken₃ trivial
    obtain ⟨hhead₄, -, hbehind⟩ := hd₂.taken hclose (by decide) rfl
    obtain ⟨d₃, hd₃, hbody⟩ := ihbody hbehind.leave.skipNewlines trivial
    refine ⟨d₃, hd₃, (Reads.forLoop (by rwa [hhead]) (by rwa [hhead₁]) rfl (by rwa [hhead₂])
      (by rwa [hhead₃]) hsequence (by rwa [hhead₄]) hbody).of_result ?_⟩
    rw [hhead₂]
    exact hd₃.close hindex (.forLoop _ sequence body)
  | @whileLoop condition body c c₁ c₂ hopening _ _ ihcondition ihbody =>
    obtain ⟨hhead, hindex, htaken⟩ := hd.begins hopening rfl
    obtain ⟨d₁, hd₁, hcondition⟩ := ihcondition htaken trivial
    obtain ⟨d₂, hd₂, hbody⟩ := ihbody hd₁ trivial
    exact ⟨d₂, hd₂, (Reads.whileLoop (by rwa [hhead]) hcondition hbody).of_result
      (hd₂.close hindex (.whileLoop condition body))⟩
  | header hopen _ hclose ihcondition =>
    obtain ⟨hhead, -, hinside⟩ := hd.taken hopen (by decide) rfl
    obtain ⟨d₁, hd₁, hcondition⟩ := ihcondition (hinside.enter .round) trivial
    obtain ⟨hhead₁, -, hbehind⟩ := hd₁.taken hclose (by decide) rfl
    exact ⟨_, hbehind.leave.skipNewlines, .header (by rwa [hhead]) hcondition (by rwa [hhead₁])⟩
  | elseBranch helse _ ihbranch =>
    have hahead := hd.beforeElse.advance_skipNewlines (by rw [helse]; decide)
    obtain ⟨d₁, hd₁, hbranch⟩ := ihbranch hahead trivial
    exact ⟨d₁, hd₁, .elseBranch (by rwa [hd.beforeElse.head]) hbranch⟩
  | noElse helse => exact ⟨d, hd, .noElse (by rwa [hd.beforeElse.head])⟩
  | noStatements hend =>
    exact ⟨_, hd.skipSeparators, .noStatements (by rwa [hd.skipSeparators.head])⟩
  | statement hgo _ hend _ ihfirst ihothers =>
    obtain ⟨d₁, hd₁, hfirst⟩ := ihfirst hd.skipSeparators trivial
    obtain ⟨d₂, hd₂, hothers⟩ := ihothers hd₁ hfits
    refine ⟨d₂, hd₂, .statement (by rwa [hd.skipSeparators.head]) hfirst ?_ hothers⟩
    exact expectEnd_eq_ok_iff.mpr (hd₁.head ▸ expectEnd_eq_ok_iff.mp hend)
  | @noArguments closer c hclose =>
    obtain ⟨hhead, -, hbehind⟩ :=
      hd.taken hclose closer.kind_ne_endOfInput closer.isOperator_eq_false
    exact ⟨_, hbehind.leave, .noArguments (by rwa [hhead])⟩
  | someArguments hgo _ ihgiven =>
    obtain ⟨d₁, hd₁, hgiven⟩ := ihgiven hd.settle (by simpa [Task.Fits] using hfits)
    exact ⟨d₁, hd₁, .someArguments (by rwa [hd.settle.head]) hgiven⟩
  | @lastArgument closer first c c₁ hfirst hclose ihfirst =>
    obtain ⟨d₁, hd₁, hfirst⟩ := ihfirst hd hfits
    obtain ⟨hhead, -, hbehind⟩ :=
      hd₁.taken hclose closer.kind_ne_endOfInput closer.isOperator_eq_false
    exact ⟨_, hbehind.leave, .lastArgument hfirst (by rwa [hhead])⟩
  | moreArguments hfirst hcomma _ ihfirst ihothers =>
    obtain ⟨d₁, hd₁, hfirst'⟩ := ihfirst hd hfits
    obtain ⟨hhead, -, htaken⟩ := hd₁.taken hcomma (by decide) rfl
    obtain ⟨d₂, hd₂, hothers⟩ := ihothers htaken
      (by simpa [Task.Fits, Task.closes, hfirst.brackets] using hfits)
    exact ⟨d₂, hd₂, .moreArguments hfirst' (by rwa [hhead]) hothers⟩
  | @namedArgument closer name value c c₁ hname hequal _ ihvalue =>
    have hround : c.settle.advance.brackets.head? = some .round := by simpa [Task.Fits] using hfits
    obtain ⟨hhead, -, htaken⟩ := hd.taken rfl (kind_ne_endOfInput_of_argumentName? hname)
      (isOperator_of_argumentName? hname)
    have hsign := kind_of_secondKind? (kind_ne_endOfInput_of_argumentName? hname) hequal
    rw [← settle_eq hround] at hsign
    obtain ⟨d₁, hd₁, hsame⟩ := htaken.settle.advance_settle (by rw [hsign]; decide)
      (by rwa [brackets_settle])
    obtain ⟨d₂, hd₂, hvalue⟩ := ihvalue hd₁ (by simpa [Task.Fits] using hfits)
    exact ⟨d₂, hd₂, .namedArgument (by rwa [hhead]) (by rwa [hd.settle.secondKind?])
      (hvalue.argumentValue_of_settle hsame)⟩
  | plainArgument hplain _ ihvalue =>
    obtain ⟨d₁, hd₁, hvalue⟩ := ihvalue hd.settle (by simpa [Task.Fits] using hfits)
    refine ⟨d₁, hd₁, .plainArgument ?_ hvalue⟩
    rwa [hd.settle.head, hd.settle.secondKind?]
  | noValue hend => exact ⟨_, hd.settle, .noValue (by rwa [hd.settle.head])⟩
  | value hgo _ ihvalue =>
    obtain ⟨d₁, hd₁, hvalue⟩ := ihvalue hd.settle trivial
    exact ⟨d₁, hd₁, .value (by rwa [hd.settle.head]) hvalue⟩
  | noParameters hclose =>
    obtain ⟨hhead, -, hbehind⟩ := hd.taken hclose (by decide) rfl
    exact ⟨_, hbehind.leave, .noParameters (by rwa [hhead])⟩
  | someParameters hgo _ ihgiven =>
    obtain ⟨d₁, hd₁, hgiven⟩ := ihgiven hd.settle (by simpa [Task.Fits] using hfits)
    exact ⟨d₁, hd₁, .someParameters (by rwa [hd.settle.head]) hgiven⟩
  | lastParameter hname _ hclose ihfallback =>
    obtain ⟨hhead, -, htaken⟩ := hd.taken hname (by decide) rfl
    obtain ⟨d₁, hd₁, hfallback⟩ := ihfallback htaken (by simpa [Task.Fits] using hfits)
    obtain ⟨hhead₁, -, hbehind⟩ := hd₁.taken hclose (by decide) rfl
    have hread := Reads.lastParameter (by rwa [hhead]) hfallback (by rwa [hhead₁])
    rw [hhead] at hread
    exact ⟨_, hbehind.leave, hread⟩
  | moreParameters hname hfallback hcomma _ ihfallback ihothers =>
    obtain ⟨hhead, -, htaken⟩ := hd.taken hname (by decide) rfl
    obtain ⟨d₁, hd₁, hfallback'⟩ := ihfallback htaken (by simpa [Task.Fits] using hfits)
    obtain ⟨hhead₁, -, htaken₁⟩ := hd₁.taken hcomma (by decide) rfl
    obtain ⟨d₂, hd₂, hothers⟩ := ihothers htaken₁
      (by simpa [Task.Fits, Task.closes, hfallback.brackets] using hfits)
    have hread := Reads.moreParameters (by rwa [hhead]) hfallback' (by rwa [hhead₁]) hothers
    rw [hhead] at hread
    exact ⟨d₂, hd₂, hread⟩
  | @fallback value c c₁ hequal _ ihvalue =>
    obtain ⟨d₁, hd₁, hsame⟩ := hd.settle.advance_settle (by rw [hequal]; decide)
      (by simpa [Task.Fits] using hfits)
    obtain ⟨d₂, hd₂, hvalue⟩ := ihvalue hd₁ trivial
    exact ⟨d₂, hd₂, .fallback (by rwa [hd.settle.head]) (hvalue.expression_of_settle hsame)⟩
  | noFallback hequal => exact ⟨_, hd.settle, .noFallback (by rwa [hd.settle.head])⟩

/-- A whole row and the row with a line break behind one of its operators. -/
theorem readAll_continued {earlier later : List Lexeme} {operator newline : Lexeme} {es : List Expr}
    (hoperator : operator.kind.isOperator = true) (hnewline : newline.kind = .newline)
    (h : readAll (earlier ++ operator :: later) = .ok es) :
    readAll (earlier ++ operator :: newline :: later) =
      .ok (es.map (renumber (.gap (earlier.length + 1)))) := by
  obtain ⟨c, hreads⟩ := readAll_eq_ok_iff.mp h
  let insertion : OperatorBreak :=
    ⟨earlier.length + 1, operator, newline, later, hoperator, hnewline⟩
  have hstart : insertion.InStep (.ofLexemes (earlier ++ operator :: later))
      (.ofLexemes (earlier ++ operator :: newline :: later)) :=
    ⟨(Renumbering.token_gap_of_lt (Nat.succ_pos _)).symm, rfl,
      .inl ⟨earlier, rfl, rfl, congrArg (· + 1) (Nat.zero_add _), rfl⟩⟩
  obtain ⟨d, -, hreads'⟩ := hreads.continued hstart (.inr rfl)
  exact readAll_eq_ok_iff.mpr ⟨d, hreads'⟩

end Expr
end TypeDrift
