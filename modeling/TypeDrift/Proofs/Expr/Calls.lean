import TypeDrift.Proofs.Expr.Complete

/-! # How reading fails

A call fails for one of two reasons.  It is stuck: it comes to a lexeme that it cannot go on with
(`Stuck`), after it has read whatever comes first.  Or one of the calls that it makes fails, again after
it has read what comes before that one (`Calls`).  So a failure is a chain of calls down to one that is
stuck (`Refuses`), and with a bound above its size a call is refused exactly where such a chain leads
(`Task.run_eq_error_iff`).

With every call comes the shortest row of lexemes, by their kinds, that its caller could still do with
when it is done.
-/
namespace TypeDrift.Expr

open Cursor Filter

/-- A call makes another one.  Last come the kinds of the lexemes that have still to come behind what
that one reads. -/
inductive Calls : Task → Cursor → Task → Cursor → List Kind → Prop where
  | operand {power : Nat} {c : Cursor} : Calls (.expression power) c .operand c []
  | continuation {power : Nat} {left : Expr} {c c₁ : Cursor} (hleft : Reads .operand c left c₁) :
      Calls (.expression power) c (.continuation power left) c₁ []
  | callArguments {power : Nat} {left : Expr} {c : Cursor}
      (hkind : Continuation.ofKind? c.settle.head.kind = some .call)
      (hpower : power ≤ Continuation.call.leftPower) :
      Calls (.continuation power left) c (.arguments .paren) (c.settle.advance.enter .round) []
  | callMore {power : Nat} {left : Expr} {given : List (Argument Expr)} {c c₁ : Cursor}
      (hkind : Continuation.ofKind? c.settle.head.kind = some .call)
      (hpower : power ≤ Continuation.call.leftPower)
      (hgiven : Reads (.arguments .paren) (c.settle.advance.enter .round) given c₁) :
      Calls (.continuation power left) c
        (.continuation power (c₁.close left.range.start (.call left given))) c₁ []
  | indexArguments {power : Nat} {left : Expr} {double : Bool} {c : Cursor}
      (hkind : Continuation.ofKind? c.settle.head.kind = some (.index double))
      (hpower : power ≤ (Continuation.index double).leftPower) :
      Calls (.continuation power left) c (.arguments .bracket) (c.settle.advance.enter .round)
        (if double then [.rightBracket] else [])
  | indexMore {power : Nat} {left : Expr} {given : List (Argument Expr)} {c c₁ : Cursor}
      (hkind : Continuation.ofKind? c.settle.head.kind = some (.index false))
      (hpower : power ≤ (Continuation.index false).leftPower)
      (hgiven : Reads (.arguments .bracket) (c.settle.advance.enter .round) given c₁) :
      Calls (.continuation power left) c
        (.continuation power (c₁.close left.range.start (.index left given false))) c₁ []
  | doubleIndexMore {power : Nat} {left : Expr} {given : List (Argument Expr)} {c c₁ : Cursor}
      (hkind : Continuation.ofKind? c.settle.head.kind = some (.index true))
      (hpower : power ≤ (Continuation.index true).leftPower)
      (hgiven : Reads (.arguments .bracket) (c.settle.advance.enter .round) given c₁)
      (hclose : c₁.settle.head.kind = .rightBracket) :
      Calls (.continuation power left) c (.continuation power
        (c₁.settle.advance.close left.range.start (.index left given true))) c₁.settle.advance []
  | memberMore {power : Nat} {slot : Bool} {left whole : Expr} {c c₁ : Cursor}
      (hkind : Continuation.ofKind? c.settle.head.kind = some (.member slot))
      (hpower : power ≤ (Continuation.member slot).leftPower)
      (hmember : readMember left slot c.settle.advance = .ok (whole, c₁)) :
      Calls (.continuation power left) c (.continuation power whole) c₁ []
  | betweenRight {power : Nat} {level : Level} {left : Expr} {c : Cursor}
      (hkind : Continuation.ofKind? c.settle.head.kind = some (.between level))
      (hpower : power ≤ (Continuation.between level).leftPower) :
      Calls (.continuation power left) c (.expression level.rightPower)
        c.settle.advance.skipNewlines []
  | betweenMore {power : Nat} {level : Level} {left right : Expr} {c c₁ : Cursor}
      (hkind : Continuation.ofKind? c.settle.head.kind = some (.between level))
      (hpower : power ≤ (Continuation.between level).leftPower)
      (hright : Reads (.expression level.rightPower) c.settle.advance.skipNewlines right c₁) :
      Calls (.continuation power left) c (.continuation power (c₁.close left.range.start
        (.between c.settle.head c.settle.index left right))) c₁ []
  | parenInner {c : Cursor} (hopening : Opening.ofLexeme? c.settle.head = some .paren) :
      Calls .operand c (.expression Level.lowest.binding) (c.settle.advance.enter .round)
        [.rightParen]
  | blockBody {c : Cursor} (hopening : Opening.ofLexeme? c.settle.head = some .block) :
      Calls .operand c (.statements .rightBrace) (c.settle.advance.enter .brace) [.rightBrace]
  | signInner {operator : UnaryOperator} {level : Level} {c : Cursor}
      (hopening : Opening.ofLexeme? c.settle.head = some (.sign operator level)) :
      Calls .operand c (.expression level.binding) c.settle.advance.skipNewlines []
  | tildeRight {c : Cursor} (hopening : Opening.ofLexeme? c.settle.head = some .tilde) :
      Calls .operand c (.expression Level.tilde.rightPower) c.settle.advance.skipNewlines []
  | functionParameters {c : Cursor} (hopening : Opening.ofLexeme? c.settle.head = some .function)
      (hopen : c.settle.advance.settle.head.kind = .leftParen) :
      Calls .operand c .parameters (c.settle.advance.settle.advance.enter .round) [.identifier]
  | functionBody {given : List (Parameter Expr)} {c c₁ : Cursor}
      (hopening : Opening.ofLexeme? c.settle.head = some .function)
      (hopen : c.settle.advance.settle.head.kind = .leftParen)
      (hgiven : Reads .parameters (c.settle.advance.settle.advance.enter .round) given c₁) :
      Calls .operand c (.expression Level.bodyPower) c₁.skipNewlines []
  | conditionalHeader {c : Cursor}
      (hopening : Opening.ofLexeme? c.settle.head = some .conditional) :
      Calls .operand c .header c.settle.advance [.identifier]
  | conditionalConsequent {condition : Expr} {c c₁ : Cursor}
      (hopening : Opening.ofLexeme? c.settle.head = some .conditional)
      (hcondition : Reads .header c.settle.advance condition c₁) :
      Calls .operand c (.expression Level.bodyPower) c₁ []
  | conditionalAlternative {condition consequent : Expr} {c c₁ c₂ : Cursor}
      (hopening : Opening.ofLexeme? c.settle.head = some .conditional)
      (hcondition : Reads .header c.settle.advance condition c₁)
      (hconsequent : Reads (.expression Level.bodyPower) c₁ consequent c₂) :
      Calls .operand c .alternative c₂ []
  | forSequence {c c₁ : Cursor} (hopening : Opening.ofLexeme? c.settle.head = some .forLoop)
      (hopen : c.settle.advance.settle.head.kind = .leftParen)
      (hinside : c₁ = (c.settle.advance.settle.advance.enter .round).settle)
      (hcounter : c₁.head.kind = .identifier)
      (hin : c₁.advance.settle.head.kind = .keyword .inWord) :
      Calls .operand c (.expression Level.lowest.binding) c₁.advance.settle.advance
        [.rightParen, .identifier]
  | forBody {sequence : Expr} {c c₁ c₂ : Cursor}
      (hopening : Opening.ofLexeme? c.settle.head = some .forLoop)
      (hopen : c.settle.advance.settle.head.kind = .leftParen)
      (hinside : c₁ = (c.settle.advance.settle.advance.enter .round).settle)
      (hcounter : c₁.head.kind = .identifier)
      (hin : c₁.advance.settle.head.kind = .keyword .inWord)
      (hsequence : Reads (.expression Level.lowest.binding) c₁.advance.settle.advance sequence c₂)
      (hclose : c₂.settle.head.kind = .rightParen) :
      Calls .operand c (.expression Level.bodyPower) c₂.settle.advance.leave.skipNewlines []
  | whileHeader {c : Cursor} (hopening : Opening.ofLexeme? c.settle.head = some .whileLoop) :
      Calls .operand c .header c.settle.advance [.identifier]
  | whileBody {condition : Expr} {c c₁ : Cursor}
      (hopening : Opening.ofLexeme? c.settle.head = some .whileLoop)
      (hcondition : Reads .header c.settle.advance condition c₁) :
      Calls .operand c (.expression Level.bodyPower) c₁ []
  | repeatBody {c : Cursor} (hopening : Opening.ofLexeme? c.settle.head = some .repeatLoop) :
      Calls .operand c (.expression Level.bodyPower) c.settle.advance.skipNewlines []
  | headerCondition {c : Cursor} (hopen : c.settle.head.kind = .leftParen) :
      Calls .header c (.expression Level.lowest.binding) (c.settle.advance.enter .round)
        [.rightParen]
  | elseBranch {c : Cursor} (helse : c.beforeElse.head.kind = .keyword .elseWord) :
      Calls .alternative c (.expression Level.bodyPower) c.beforeElse.advance.skipNewlines []
  | firstStatement {terminator : Kind} {c : Cursor}
      (hgo : c.skipSeparators.head.kind ≠ terminator) :
      Calls (.statements terminator) c (.expression Level.lowest.binding) c.skipSeparators []
  | otherStatements {terminator : Kind} {first : Expr} {c c₁ : Cursor}
      (hgo : c.skipSeparators.head.kind ≠ terminator)
      (hfirst : Reads (.expression Level.lowest.binding) c.skipSeparators first c₁)
      (hend : expectEnd terminator c₁ = .ok ())
      (hmore : c₁.skipSeparators.head.kind ≠ terminator) :
      Calls (.statements terminator) c (.statements terminator) c₁ []
  | someArguments {closer : Closer} {c : Cursor} (hgo : c.settle.head.kind ≠ closer.kind) :
      Calls (.arguments closer) c (.argumentsFrom closer) c.settle []
  | firstArgument {closer : Closer} {c : Cursor} :
      Calls (.argumentsFrom closer) c (.argument closer) c [closer.kind]
  | otherArguments {closer : Closer} {first : Argument Expr} {c c₁ : Cursor}
      (hfirst : Reads (.argument closer) c first c₁) (hcomma : c₁.settle.head.kind = .comma) :
      Calls (.argumentsFrom closer) c (.argumentsFrom closer) c₁.settle.advance []
  | namedValue {closer : Closer} {name : String} {c : Cursor}
      (hname : argumentName? c.settle.head = some name)
      (hequal : c.settle.secondKind? = some .equalAssign) :
      Calls (.argument closer) c (.argumentValue closer) c.settle.advance.settle.advance []
  | plainValue {closer : Closer} {c : Cursor}
      (hplain : argumentName? c.settle.head = none ∨ c.settle.secondKind? ≠ some .equalAssign) :
      Calls (.argument closer) c (.argumentValue closer) c.settle []
  | value {closer : Closer} {c : Cursor}
      (hgo : ¬(c.settle.head.kind = .comma ∨ c.settle.head.kind = closer.kind)) :
      Calls (.argumentValue closer) c (.expression Level.argumentPower) c.settle []
  | someParameters {c : Cursor} (hgo : c.settle.head.kind ≠ .rightParen) :
      Calls .parameters c .parametersFrom c.settle []
  | parameterFallback {c : Cursor} (hname : c.settle.head.kind = .identifier) :
      Calls .parametersFrom c .fallback c.settle.advance [.rightParen]
  | otherParameters {fallback : Option Expr} {c c₁ : Cursor}
      (hname : c.settle.head.kind = .identifier)
      (hfallback : Reads .fallback c.settle.advance fallback c₁)
      (hcomma : c₁.settle.head.kind = .comma) :
      Calls .parametersFrom c .parametersFrom c₁.settle.advance []
  | fallbackValue {c : Cursor} (hequal : c.settle.head.kind = .equalAssign) :
      Calls .fallback c (.expression Level.argumentPower) c.settle.advance []

/-- A call has come to a place where it cannot go on. -/
inductive Stuck : Task → Cursor → Cursor → Prop where
  /-- Nothing begins here. -/
  | operand {c : Cursor} (hnone : Opening.ofLexeme? c.settle.head = none) : Stuck .operand c c.settle
  | name {c : Cursor} (hopening : Opening.ofLexeme? c.settle.head = some .name)
      (hcolons : c.settle.advance.head.kind = .doubleColon ∨
        c.settle.advance.head.kind = .tripleColon)
      (hname : memberName? c.settle.advance.advance.settle.head false = none) :
      Stuck .operand c c.settle.advance.advance.settle
  | member {power : Nat} {slot : Bool} {left : Expr} {c : Cursor}
      (hkind : Continuation.ofKind? c.settle.head.kind = some (.member slot))
      (hpower : power ≤ (Continuation.member slot).leftPower)
      (hname : memberName? c.settle.advance.skipNewlines.head true = none) :
      Stuck (.continuation power left) c c.settle.advance.skipNewlines
  | doubleIndex {power : Nat} {left : Expr} {given : List (Argument Expr)} {c c₁ : Cursor}
      (hkind : Continuation.ofKind? c.settle.head.kind = some (.index true))
      (hpower : power ≤ (Continuation.index true).leftPower)
      (hgiven : Reads (.arguments .bracket) (c.settle.advance.enter .round) given c₁)
      (hclose : c₁.settle.head.kind ≠ .rightBracket) :
      Stuck (.continuation power left) c c₁.settle
  | paren {inner : Expr} {c c₁ : Cursor} (hopening : Opening.ofLexeme? c.settle.head = some .paren)
      (hinner : Reads (.expression Level.lowest.binding) (c.settle.advance.enter .round) inner c₁)
      (hclose : c₁.settle.head.kind ≠ .rightParen) : Stuck .operand c c₁.settle
  | functionOpen {c : Cursor} (hopening : Opening.ofLexeme? c.settle.head = some .function)
      (hopen : c.settle.advance.settle.head.kind ≠ .leftParen) :
      Stuck .operand c c.settle.advance.settle
  | forOpen {c : Cursor} (hopening : Opening.ofLexeme? c.settle.head = some .forLoop)
      (hopen : c.settle.advance.settle.head.kind ≠ .leftParen) :
      Stuck .operand c c.settle.advance.settle
  | forCounter {c c₁ : Cursor} (hopening : Opening.ofLexeme? c.settle.head = some .forLoop)
      (hopen : c.settle.advance.settle.head.kind = .leftParen)
      (hinside : c₁ = (c.settle.advance.settle.advance.enter .round).settle)
      (hcounter : c₁.head.kind ≠ .identifier) : Stuck .operand c c₁
  | forIn {c c₁ : Cursor} (hopening : Opening.ofLexeme? c.settle.head = some .forLoop)
      (hopen : c.settle.advance.settle.head.kind = .leftParen)
      (hinside : c₁ = (c.settle.advance.settle.advance.enter .round).settle)
      (hcounter : c₁.head.kind = .identifier)
      (hin : c₁.advance.settle.head.kind ≠ .keyword .inWord) : Stuck .operand c c₁.advance.settle
  | forClose {sequence : Expr} {c c₁ c₂ : Cursor}
      (hopening : Opening.ofLexeme? c.settle.head = some .forLoop)
      (hopen : c.settle.advance.settle.head.kind = .leftParen)
      (hinside : c₁ = (c.settle.advance.settle.advance.enter .round).settle)
      (hcounter : c₁.head.kind = .identifier)
      (hin : c₁.advance.settle.head.kind = .keyword .inWord)
      (hsequence : Reads (.expression Level.lowest.binding) c₁.advance.settle.advance sequence c₂)
      (hclose : c₂.settle.head.kind ≠ .rightParen) : Stuck .operand c c₂.settle
  | headerOpen {c : Cursor} (hopen : c.settle.head.kind ≠ .leftParen) : Stuck .header c c.settle
  | headerClose {condition : Expr} {c c₁ : Cursor} (hopen : c.settle.head.kind = .leftParen)
      (hcondition : Reads (.expression Level.lowest.binding) (c.settle.advance.enter .round)
        condition c₁)
      (hclose : c₁.settle.head.kind ≠ .rightParen) : Stuck .header c c₁.settle
  | statementEnd {terminator : Kind} {first : Expr} {c c₁ : Cursor}
      (hgo : c.skipSeparators.head.kind ≠ terminator)
      (hfirst : Reads (.expression Level.lowest.binding) c.skipSeparators first c₁)
      (hend : ¬(c₁.head.kind = .newline ∨ c₁.head.kind = .semicolon ∨
        c₁.head.kind = terminator)) : Stuck (.statements terminator) c c₁
  | argumentsEnd {closer : Closer} {first : Argument Expr} {c c₁ : Cursor}
      (hfirst : Reads (.argument closer) c first c₁) (hcomma : c₁.settle.head.kind ≠ .comma)
      (hclose : c₁.settle.head.kind ≠ closer.kind) : Stuck (.argumentsFrom closer) c c₁.settle
  | parameterName {c : Cursor} (hname : c.settle.head.kind ≠ .identifier) :
      Stuck .parametersFrom c c.settle
  | parametersEnd {fallback : Option Expr} {c c₁ : Cursor}
      (hname : c.settle.head.kind = .identifier)
      (hfallback : Reads .fallback c.settle.advance fallback c₁)
      (hcomma : c₁.settle.head.kind ≠ .comma) (hclose : c₁.settle.head.kind ≠ .rightParen) :
      Stuck .parametersFrom c c₁.settle

/-- A call fails at a place: it is stuck there, or a call that it makes fails there. -/
inductive Refuses : Task → Cursor → Cursor → Prop where
  | here {task : Task} {c e : Cursor} (h : Stuck task c e) : Refuses task c e
  | inside {task task' : Task} {c c' e : Cursor} {later : List Kind}
      (hcall : Calls task c task' c' later) (h : Refuses task' c' e) : Refuses task c e

/-! ## Every refusal is the end of a chain of calls -/

/-- What goes on with an expression is taken before any call is made. -/
theorem Calls.of_continuation {power : Nat} {left : Expr} {task' : Task} {c c' : Cursor}
    {later : List Kind} (h : Calls (.continuation power left) c task' c' later) :
    (∃ step, Continuation.ofKind? c.settle.head.kind = some step) ∧ c.settle.advance.Reaches c' := by
  cases h with
  | callArguments hkind | indexArguments hkind => exact ⟨⟨_, hkind⟩, .refl _⟩
  | callMore hkind _ hgiven | indexMore hkind _ hgiven => exact ⟨⟨_, hkind⟩, hgiven.reaches⟩
  | doubleIndexMore hkind _ hgiven =>
    exact ⟨⟨_, hkind⟩, .trans hgiven.reaches (reaches_settle_advance _)⟩
  | memberMore hkind _ hmember => exact ⟨⟨_, hkind⟩, Reads.reaches_readMember hmember⟩
  | betweenRight hkind => exact ⟨⟨_, hkind⟩, reaches_skipNewlines _⟩
  | betweenMore hkind _ hright => exact ⟨⟨_, hkind⟩, (reaches_skipNewlines _).trans hright.reaches⟩

/-- What begins an expression is taken before any call is made, and it is more than one lexeme or a
name. -/
theorem Calls.of_operand {task' : Task} {c c' : Cursor} {later : List Kind}
    (h : Calls .operand c task' c' later) :
    (∃ opening, Opening.ofLexeme? c.settle.head = some opening ∧ opening ≠ .name ∧
      ∀ form, opening ≠ .leaf form) ∧ c.settle.advance.Reaches c' := by
  cases h with
  | parenInner hopening | blockBody hopening | conditionalHeader hopening | whileHeader hopening =>
    exact ⟨⟨_, hopening, nofun, nofun⟩, .refl _⟩
  | signInner hopening | tildeRight hopening | repeatBody hopening =>
    exact ⟨⟨_, hopening, nofun, nofun⟩, reaches_skipNewlines _⟩
  | functionParameters hopening =>
    exact ⟨⟨_, hopening, nofun, nofun⟩, reaches_settle_advance _⟩
  | functionBody hopening _ hgiven =>
    exact ⟨⟨_, hopening, nofun, nofun⟩, (reaches_settle_advance _).trans
      (.trans hgiven.reaches (reaches_skipNewlines _))⟩
  | conditionalConsequent hopening hcondition | whileBody hopening hcondition =>
    exact ⟨⟨_, hopening, nofun, nofun⟩, hcondition.reaches⟩
  | conditionalAlternative hopening hcondition hconsequent =>
    exact ⟨⟨_, hopening, nofun, nofun⟩, hcondition.reaches.trans hconsequent.reaches⟩
  | forSequence hopening _ hinside =>
    subst hinside
    exact ⟨⟨_, hopening, nofun, nofun⟩, (reaches_settle_advance _).trans
      (.trans (reaches_settle_advance (enter _ .round)) (reaches_settle_advance _))⟩
  | forBody hopening _ hinside _ _ hsequence =>
    subst hinside
    exact ⟨⟨_, hopening, nofun, nofun⟩, (reaches_settle_advance _).trans
      (.trans (reaches_settle_advance (enter _ .round)) ((reaches_settle_advance _).trans
        (.trans hsequence.reaches ((reaches_settle_advance _).trans
          (reaches_skipNewlines (leave _))))))⟩

/-- Calls are made further on. -/
theorem Calls.reaches {task task' : Task} {c c' : Cursor} {later : List Kind}
    (h : Calls task c task' c' later) : c.Reaches c' := by
  have hcall := h
  cases h with
  | callArguments | callMore | indexArguments | indexMore | doubleIndexMore | memberMore
  | betweenRight | betweenMore => exact (reaches_settle_advance c).trans hcall.of_continuation.2
  | operand | firstArgument => exact .refl _
  | continuation hleft => exact hleft.reaches
  | headerCondition => exact reaches_settle_advance c
  | elseBranch =>
    exact (reaches_beforeElse c).trans ((reaches_advance _).trans (reaches_skipNewlines _))
  | firstStatement => exact reaches_skipSeparators c
  | otherStatements _ hfirst => exact (reaches_skipSeparators c).trans hfirst.reaches
  | someArguments | plainValue | value | someParameters => exact reaches_settle c
  | otherArguments hfirst => exact hfirst.reaches.trans (reaches_settle_advance _)
  | namedValue => exact (reaches_settle_advance c).trans (reaches_settle_advance _)
  | parameterFallback | fallbackValue => exact reaches_settle_advance c
  | otherParameters _ hfallback =>
    exact (reaches_settle_advance c).trans (hfallback.reaches.trans (reaches_settle_advance _))
  | _ => exact (reaches_settle_advance c).trans hcall.of_operand.2

/-- Every call that a call makes is smaller: a lexeme is taken first, or the call made has a lower
rank. -/
theorem Calls.size_lt {task task' : Task} {c c' : Cursor} {later : List Kind}
    (h : Calls task c task' c' later) : task'.size c' < task.size c := by
  have htaken {task task' : Task} (h : c.settle.head.kind ≠ .endOfInput)
      (hreach : c.settle.advance.Reaches c') : task'.size c' < task.size c :=
    Task.size_lt_of_length_lt (Nat.lt_of_le_of_lt hreach.length_le (length_settle_advance_lt h))
  have hcall := h
  cases h with
  | callArguments hstep | callMore hstep | indexArguments hstep | indexMore hstep
  | doubleIndexMore hstep | memberMore hstep | betweenRight hstep | betweenMore hstep =>
    exact htaken (Continuation.kind_ne_endOfInput hstep) hcall.of_continuation.2
  | operand => exact Task.size_lt_of_rank_lt (Nat.le_refl _) (by simp [Task.rank])
  | continuation hleft => exact Task.size_lt_of_length_lt (hleft.length_lt rfl)
  | headerCondition hopen => exact htaken (by rw [hopen]; decide) (.refl _)
  | elseBranch helse =>
    refine Task.size_lt_of_length_lt (Nat.lt_of_le_of_lt (reaches_skipNewlines _).length_le ?_)
    exact Nat.lt_of_lt_of_le (length_advance_lt (by rw [helse]; decide))
      (reaches_beforeElse c).length_le
  | firstStatement =>
    exact Task.size_lt_of_rank_lt (reaches_skipSeparators _).length_le (by simp [Task.rank])
  | otherStatements _ hfirst =>
    exact Task.size_lt_of_length_lt
      (Nat.lt_of_lt_of_le (hfirst.length_lt rfl) (reaches_skipSeparators _).length_le)
  | someArguments | plainValue | value | someParameters =>
    exact Task.size_lt_of_rank_lt (reaches_settle _).length_le (by simp [Task.rank])
  | firstArgument => exact Task.size_lt_of_rank_lt (Nat.le_refl _) (by simp [Task.rank])
  | otherArguments hfirst hcomma =>
    exact Task.size_lt_of_length_lt (Nat.lt_of_lt_of_le
      (length_settle_advance_lt (by rw [hcomma]; decide)) hfirst.reaches.length_le)
  | namedValue hname =>
    exact htaken (kind_ne_endOfInput_of_argumentName? hname) (reaches_settle_advance _)
  | parameterFallback hname => exact htaken (by rw [hname]; decide) (.refl _)
  | otherParameters hname hfallback =>
    exact htaken (by rw [hname]; decide) (hfallback.reaches.trans (reaches_settle_advance _))
  | fallbackValue hequal => exact htaken (by rw [hequal]; decide) (.refl _)
  | _ =>
    obtain ⟨⟨opening, hopening, -⟩, hreach⟩ := hcall.of_operand
    exact htaken (Opening.kind_ne_endOfInput hopening) hreach

theorem of_bind_eq_error {ε α β : Type} {x : Except ε α} {f : α → Except ε β} {error : ε}
    (h : x >>= f = .error error) : x = .error error ∨ ∃ a, x = .ok a ∧ f a = .error error := by
  cases x with
  | error other => exact .inl (congrArg Except.error (Except.error.inj h))
  | ok a => exact .inr ⟨a, rfl, h⟩

theorem of_expect_bind_eq_error {α : Type} {kind : Kind} {c : Cursor}
    {f : Cursor → Except Refusal α} {refusal : Refusal}
    (h : c.expect kind >>= f = .error refusal) :
    (c.settle.head.kind ≠ kind ∧ refusal = c.settle.refusal) ∨
      (c.settle.head.kind = kind ∧ f c.settle.advance = .error refusal) := by
  simp only [expect] at h
  split at h
  · next hkind => exact .inr ⟨hkind, h⟩
  · next hkind => exact .inl ⟨hkind, (Except.error.inj h).symm⟩

/-- With this bound, the refusal of every call below its size is the end of a chain. -/
def Chained (bound : Nat) : Prop :=
  ∀ {task : Task} {c : Cursor} {refusal : Refusal}, task.size c < bound →
    task.run bound c = .error refusal → ∃ e, Refuses task c e ∧ refusal = e.refusal

theorem stuck {task : Task} {c e : Cursor} {refusal : Refusal} (h : Stuck task c e)
    (hrefusal : refusal = e.refusal) : ∃ e, Refuses task c e ∧ refusal = e.refusal :=
  ⟨e, .here h, hrefusal⟩

section Step
variable {bound : Nat} (chained : Chained bound) {c : Cursor} {refusal : Refusal}
include chained

theorem Chained.inside {task task' : Task} {c c' : Cursor} {later : List Kind}
    (hsize : task.size c < bound + 1) (hcall : Calls task c task' c' later)
    (hrun : task'.run bound c' = .error refusal) : ∃ e, Refuses task c e ∧ refusal = e.refusal := by
  obtain ⟨e, he, hrefusal⟩ :=
    chained (Nat.lt_of_lt_of_le hcall.size_lt (Nat.le_of_lt_succ hsize)) hrun
  exact ⟨e, .inside hcall he, hrefusal⟩

/-- A call made first, and then what is done with its result. -/
theorem Chained.bind {β : Type} {task task' : Task} {c c' : Cursor} {later : List Kind}
    {next : task'.Result × Cursor → Except Refusal β} (hsize : task.size c < bound + 1)
    (hcall : Calls task c task' c' later) (hrun : task'.run bound c' >>= next = .error refusal)
    (hnext : ∀ result c₁, Reads task' c' result c₁ → next (result, c₁) = .error refusal →
      ∃ e, Refuses task c e ∧ refusal = e.refusal) : ∃ e, Refuses task c e ∧ refusal = e.refusal := by
  rcases of_bind_eq_error hrun with hrun | ⟨⟨result, c₁⟩, hread, hrun⟩
  · exact chained.inside hsize hcall hrun
  · exact hnext result c₁ (task'.reads_of_run hread) hrun

/-- A call made last: what is done with its result does not fail. -/
theorem Chained.last {β : Type} {task task' : Task} {c c' : Cursor} {later : List Kind}
    {next : task'.Result × Cursor → Except Refusal β} (hsize : task.size c < bound + 1)
    (hcall : Calls task c task' c' later) (hrun : task'.run bound c' >>= next = .error refusal)
    (hnext : ∀ result c₁, (next (result, c₁)).isOk = true) :
    ∃ e, Refuses task c e ∧ refusal = e.refusal := by
  refine chained.bind hsize hcall hrun fun result c₁ _ herror => ?_
  have hok := hnext result c₁
  rw [herror] at hok
  cases hok

theorem chained_continuation {power : Nat} {left : Expr}
    (hsize : (Task.continuation power left).size c < bound + 1)
    (h : continuation (bound + 1) power left c = .error refusal) :
    ∃ e, Refuses (.continuation power left) c e ∧ refusal = e.refusal := by
  simp only [continuation] at h
  split at h
  · cases h
  · next step hstep =>
    split at h
    · cases h
    · next htight =>
      have hpower := Nat.le_of_not_lt htight
      cases step with
      | call =>
        refine chained.bind hsize (.callArguments hstep hpower) h fun given c₁ hgiven h => ?_
        exact chained.inside hsize (.callMore hstep hpower hgiven) h
      | index double =>
        refine chained.bind hsize (.indexArguments hstep hpower) h fun given c₁ hgiven h => ?_
        cases double with
        | false => exact chained.inside hsize (.indexMore hstep hpower hgiven) h
        | true =>
          rcases of_expect_bind_eq_error h with ⟨hclose, hrefusal⟩ | ⟨hclose, h⟩
          · exact stuck (.doubleIndex hstep hpower hgiven hclose) hrefusal
          · exact chained.inside hsize (.doubleIndexMore hstep hpower hgiven hclose) h
      | member slot =>
        rcases of_bind_eq_error h with h | ⟨⟨whole, c₁⟩, hmember, h⟩
        · simp only [readMember] at h
          split at h
          · cases h
          · next hname => exact stuck (.member hstep hpower hname) (Except.error.inj h).symm
        · exact chained.inside hsize (.memberMore hstep hpower hmember) h
      | between level =>
        refine chained.bind hsize (.betweenRight hstep hpower) h fun right c₁ hright h => ?_
        exact chained.inside hsize (.betweenMore hstep hpower hright) h

theorem chained_operand (hsize : Task.operand.size c < bound + 1)
    (h : operand (bound + 1) c = .error refusal) :
    ∃ e, Refuses .operand c e ∧ refusal = e.refusal := by
  simp only [operand] at h
  -- The openings in their order, behind what nothing begins with.
  split at h
  · next hnone => exact stuck (.operand hnone) (Except.error.inj h).symm
  · cases h
  · next hopening =>
    simp only [readName, Bool.or_eq_true, beq_iff_eq] at h
    split at h
    · next hcolons =>
      split at h
      · cases h
      · next hname => exact stuck (.name hopening hcolons hname) (Except.error.inj h).symm
    · cases h
  · next hopening =>
    refine chained.bind hsize (.parenInner hopening) h fun inner c₁ hinner h => ?_
    rcases of_expect_bind_eq_error h with ⟨hclose, hrefusal⟩ | ⟨-, h⟩
    · exact stuck (.paren hopening hinner hclose) hrefusal
    · cases h
  · next hopening => exact chained.last hsize (.blockBody hopening) h fun _ _ => rfl
  · next hopening => exact chained.last hsize (.signInner hopening) h fun _ _ => rfl
  · next hopening => exact chained.last hsize (.tildeRight hopening) h fun _ _ => rfl
  · next hopening =>
    rcases of_expect_bind_eq_error h with ⟨hopen, hrefusal⟩ | ⟨hopen, h⟩
    · exact stuck (.functionOpen hopening hopen) hrefusal
    · refine chained.bind hsize (.functionParameters hopening hopen) h fun given c₁ hgiven h => ?_
      exact chained.last hsize (.functionBody hopening hopen hgiven) h fun _ _ => rfl
  · next hopening =>
    refine chained.bind hsize (.conditionalHeader hopening) h fun condition c₁ hcondition h => ?_
    refine chained.bind hsize (.conditionalConsequent hopening hcondition) h
      fun consequent c₂ hconsequent h => ?_
    exact chained.last hsize (.conditionalAlternative hopening hcondition hconsequent) h fun _ _ => rfl
  · next hopening =>
    rcases of_expect_bind_eq_error h with ⟨hopen, hrefusal⟩ | ⟨hopen, h⟩
    · exact stuck (.forOpen hopening hopen) hrefusal
    · split at h
      · next hcounter =>
        exact stuck (.forCounter hopening hopen rfl hcounter) (Except.error.inj h).symm
      · next hcounter =>
        have hcounter := Decidable.not_not.mp hcounter
        rcases of_expect_bind_eq_error h with ⟨hin, hrefusal⟩ | ⟨hin, h⟩
        · exact stuck (.forIn hopening hopen rfl hcounter hin) hrefusal
        · refine chained.bind hsize (.forSequence hopening hopen rfl hcounter hin) h
            fun sequence c₂ hsequence h => ?_
          rcases of_expect_bind_eq_error h with ⟨hclose, hrefusal⟩ | ⟨hclose, h⟩
          · exact stuck (.forClose hopening hopen rfl hcounter hin hsequence hclose) hrefusal
          · exact chained.last hsize (.forBody hopening hopen rfl hcounter hin hsequence hclose) h
              fun _ _ => rfl
  · next hopening =>
    refine chained.bind hsize (.whileHeader hopening) h fun condition c₁ hcondition h => ?_
    exact chained.last hsize (.whileBody hopening hcondition) h fun _ _ => rfl
  · next hopening => exact chained.last hsize (.repeatBody hopening) h fun _ _ => rfl

theorem chained_header (hsize : Task.header.size c < bound + 1)
    (h : Expr.header (bound + 1) c = .error refusal) :
    ∃ e, Refuses .header c e ∧ refusal = e.refusal := by
  simp only [Expr.header] at h
  rcases of_expect_bind_eq_error h with ⟨hopen, hrefusal⟩ | ⟨hopen, h⟩
  · exact stuck (.headerOpen hopen) hrefusal
  · refine chained.bind hsize (.headerCondition hopen) h fun condition c₁ hcondition h => ?_
    rcases of_expect_bind_eq_error h with ⟨hclose, hrefusal⟩ | ⟨-, h⟩
    · exact stuck (.headerClose hopen hcondition hclose) hrefusal
    · cases h

theorem chained_statements {terminator : Kind}
    (hsize : (Task.statements terminator).size c < bound + 1)
    (h : Expr.statements (bound + 1) terminator c = .error refusal) :
    ∃ e, Refuses (.statements terminator) c e ∧ refusal = e.refusal := by
  simp only [Expr.statements] at h
  split at h
  · cases h
  · next hgo =>
    refine chained.bind hsize (.firstStatement hgo) h fun first c₁ hfirst h => ?_
    rcases of_bind_eq_error h with h | ⟨_, hend, h⟩
    · unfold expectEnd at h
      split at h
      · cases h
      · next hend => exact stuck (.statementEnd hgo hfirst hend) (Except.error.inj h).symm
    · -- With the terminator ahead, the other statements would have been none.
      by_cases hmore : c₁.skipSeparators.head.kind = terminator
      · rcases of_bind_eq_error h with h | ⟨_, _, h⟩
        · cases bound with
          | zero => exact absurd hsize (by simp [Task.size, Task.rank])
          | succ bound =>
            simp only [Expr.statements, if_pos hmore] at h
            cases h
        · cases h
      · exact chained.last hsize (.otherStatements hgo hfirst hend hmore) h fun _ _ => rfl

theorem chained_argumentsFrom {closer : Closer}
    (hsize : (Task.argumentsFrom closer).size c < bound + 1)
    (h : Expr.argumentsFrom (bound + 1) closer.kind c = .error refusal) :
    ∃ e, Refuses (.argumentsFrom closer) c e ∧ refusal = e.refusal := by
  simp only [Expr.argumentsFrom] at h
  refine chained.bind hsize .firstArgument h fun first c₁ hfirst h => ?_
  simp only at h
  split at h
  · next hcomma => exact chained.last hsize (.otherArguments hfirst hcomma) h fun _ _ => rfl
  · next hcomma =>
    split at h
    · cases h
    · next hclose => exact stuck (.argumentsEnd hfirst hcomma hclose) (Except.error.inj h).symm

theorem chained_argument {closer : Closer} (hsize : (Task.argument closer).size c < bound + 1)
    (h : Expr.argument (bound + 1) closer.kind c = .error refusal) :
    ∃ e, Refuses (.argument closer) c e ∧ refusal = e.refusal := by
  simp only [Expr.argument] at h
  split at h
  · next name hname =>
    split at h
    · next hequal => exact chained.last hsize (.namedValue hname hequal) h fun _ _ => rfl
    · next hequal => exact chained.last hsize (.plainValue (.inr hequal)) h fun _ _ => rfl
  · next hnone => exact chained.last hsize (.plainValue (.inl hnone)) h fun _ _ => rfl

theorem chained_parametersFrom (hsize : Task.parametersFrom.size c < bound + 1)
    (h : Expr.parametersFrom (bound + 1) c = .error refusal) :
    ∃ e, Refuses .parametersFrom c e ∧ refusal = e.refusal := by
  simp only [Expr.parametersFrom] at h
  split at h
  · next hname => exact stuck (.parameterName hname) (Except.error.inj h).symm
  · next hname =>
    have hname := Decidable.not_not.mp hname
    refine chained.bind hsize (.parameterFallback hname) h fun fallback c₁ hfallback h => ?_
    simp only at h
    split at h
    · next hcomma => exact chained.last hsize (.otherParameters hname hfallback hcomma) h fun _ _ => rfl
    · next hcomma =>
      rcases of_expect_bind_eq_error h with ⟨hclose, hrefusal⟩ | ⟨-, h⟩
      · -- The reader has settled to look for a comma, and settles again for the parenthesis.
        rw [settle_settle] at hclose hrefusal
        exact stuck (.parametersEnd hname hfallback hcomma hclose) hrefusal
      · cases h

theorem chained_succ : Chained (bound + 1) := by
  intro task c refusal hsize h
  cases task with
  | expression power =>
    simp only [Task.run, read] at h
    refine chained.bind hsize .operand h fun left c₁ hleft h => ?_
    exact chained.inside hsize (.continuation hleft) h
  | continuation power left => exact chained_continuation chained hsize h
  | operand => exact chained_operand chained hsize h
  | header => exact chained_header chained hsize h
  | alternative =>
    simp only [Task.run, alternative_succ] at h
    split at h
    · next helse => exact chained.last hsize (.elseBranch helse) h fun _ _ => rfl
    · cases h
  | statements terminator => exact chained_statements chained hsize h
  | arguments closer =>
    simp only [Task.run, Expr.arguments] at h
    split at h
    · cases h
    · next hgo => exact chained.inside hsize (.someArguments hgo) h
  | argumentsFrom closer => exact chained_argumentsFrom chained hsize h
  | argument closer => exact chained_argument chained hsize h
  | argumentValue closer =>
    simp only [Task.run, Expr.argumentValue] at h
    split at h
    · cases h
    · next hgo => exact chained.last hsize (.value hgo) h fun _ _ => rfl
  | parameters =>
    simp only [Task.run, Expr.parameters] at h
    split at h
    · cases h
    · next hgo => exact chained.inside hsize (.someParameters hgo) h
  | parametersFrom => exact chained_parametersFrom chained hsize h
  | fallback =>
    simp only [Task.run, Expr.fallback] at h
    split at h
    · next hequal => exact chained.last hsize (.fallbackValue hequal) h fun _ _ => rfl
    · cases h

end Step

theorem chained (bound : Nat) : Chained bound := by
  induction bound with
  | zero => exact fun hsize => absurd hsize (Nat.not_lt_zero _)
  | succ bound ih => exact chained_succ ih

/-! ## Every chain of calls is run -/

theorem bind_eq_error {ε α β : Type} {x : Except ε α} {f : α → Except ε β} {error : ε}
    (h : x = .error error) : x >>= f = .error error := by
  subst h
  rfl

theorem expect_bind_eq_error {α : Type} {kind : Kind} {c : Cursor}
    {f : Cursor → Except Refusal α} (h : c.settle.head.kind ≠ kind) :
    c.expect kind >>= f = .error c.settle.refusal := bind_eq_error (if_neg h)

/-- A call fails as soon as a call that it makes fails, whatever the bound, if it is large enough to
read what comes first. -/
theorem Calls.eventually_run {task task' : Task} {c c' : Cursor} {later : List Kind}
    (h : Calls task c task' c' later) : ∀ᶠ bound in atTop, ∀ refusal,
      task'.run bound c' = .error refusal → task.run (bound + 1) c = .error refusal := by
  cases h with
  | operand => exact .of_forall fun bound refusal hrun => bind_eq_error hrun
  | continuation hleft =>
    filter_upwards [hleft.eventually_run] with bound hleft refusal hrun
    simp only [Task.run, read]
    exact bind_eq_of_ok hleft hrun
  | callArguments hkind hpower | indexArguments hkind hpower | betweenRight hkind hpower =>
    refine .of_forall fun bound refusal hrun => ?_
    simp only [Task.run, Expr.continuation, hkind, if_neg (Nat.not_lt.mpr hpower)]
    exact bind_eq_error hrun
  | callMore hkind hpower hread | indexMore hkind hpower hread | betweenMore hkind hpower hread =>
    filter_upwards [hread.eventually_run] with bound hread refusal hrun
    simp only [Task.run, Expr.continuation, hkind, if_neg (Nat.not_lt.mpr hpower)]
    exact bind_eq_of_ok hread hrun
  | doubleIndexMore hkind hpower hgiven hclose =>
    filter_upwards [hgiven.eventually_run] with bound hgiven refusal hrun
    simp only [Task.run, Expr.continuation, hkind, if_neg (Nat.not_lt.mpr hpower)]
    exact bind_eq_of_ok hgiven (bind_eq_of_ok (expect_eq_ok hclose) hrun)
  | memberMore hkind hpower hmember =>
    refine .of_forall fun bound refusal hrun => ?_
    simp only [Task.run, Expr.continuation, hkind, if_neg (Nat.not_lt.mpr hpower)]
    exact bind_eq_of_ok hmember hrun
  | parenInner hopening | blockBody hopening | signInner hopening | tildeRight hopening
  | conditionalHeader hopening | whileHeader hopening | repeatBody hopening =>
    refine .of_forall fun bound refusal hrun => ?_
    simp only [Task.run, Expr.operand, hopening]
    exact bind_eq_error hrun
  | functionParameters hopening hopen =>
    refine .of_forall fun bound refusal hrun => ?_
    simp only [Task.run, Expr.operand, hopening]
    exact bind_eq_of_ok (expect_eq_ok hopen) (bind_eq_error hrun)
  | functionBody hopening hopen hgiven =>
    filter_upwards [hgiven.eventually_run] with bound hgiven refusal hrun
    simp only [Task.run, Expr.operand, hopening]
    exact bind_eq_of_ok (expect_eq_ok hopen) (bind_eq_of_ok hgiven (bind_eq_error hrun))
  | conditionalConsequent hopening hcondition | whileBody hopening hcondition =>
    filter_upwards [hcondition.eventually_run] with bound hcondition refusal hrun
    simp only [Task.run, Expr.operand, hopening]
    exact bind_eq_of_ok hcondition (bind_eq_error hrun)
  | conditionalAlternative hopening hcondition hconsequent =>
    filter_upwards [hcondition.eventually_run, hconsequent.eventually_run] with bound hcondition
      hconsequent refusal hrun
    simp only [Task.run, Expr.operand, hopening]
    exact bind_eq_of_ok hcondition (bind_eq_of_ok hconsequent (bind_eq_error hrun))
  | forSequence hopening hopen hinside hcounter hin =>
    subst hinside
    refine .of_forall fun bound refusal hrun => ?_
    simp only [Task.run, Expr.operand, hopening]
    refine bind_eq_of_ok (expect_eq_ok hopen) ?_
    rw [if_neg (not_not.mpr hcounter)]
    exact bind_eq_of_ok (expect_eq_ok hin) (bind_eq_error hrun)
  | forBody hopening hopen hinside hcounter hin hsequence hclose =>
    subst hinside
    filter_upwards [hsequence.eventually_run] with bound hsequence refusal hrun
    simp only [Task.run, Expr.operand, hopening]
    refine bind_eq_of_ok (expect_eq_ok hopen) ?_
    rw [if_neg (not_not.mpr hcounter)]
    exact bind_eq_of_ok (expect_eq_ok hin) (bind_eq_of_ok hsequence
      (bind_eq_of_ok (expect_eq_ok hclose) (bind_eq_error hrun)))
  | headerCondition hopen =>
    refine .of_forall fun bound refusal hrun => ?_
    simp only [Task.run, Expr.header]
    exact bind_eq_of_ok (expect_eq_ok hopen) (bind_eq_error hrun)
  | elseBranch helse =>
    refine .of_forall fun bound refusal hrun => ?_
    simp only [Task.run, alternative_succ, if_pos helse]
    exact bind_eq_error hrun
  | firstStatement hgo =>
    refine .of_forall fun bound refusal hrun => ?_
    simp only [Task.run, Expr.statements, if_neg hgo]
    exact bind_eq_error hrun
  | otherStatements hgo hfirst hend _ =>
    filter_upwards [hfirst.eventually_run] with bound hfirst refusal hrun
    simp only [Task.run, Expr.statements, if_neg hgo]
    exact bind_eq_of_ok hfirst (bind_eq_of_ok hend (bind_eq_error hrun))
  | someArguments hgo =>
    refine .of_forall fun bound refusal hrun => ?_
    simp only [Task.run, Expr.arguments, if_neg hgo]
    exact hrun
  | firstArgument =>
    refine .of_forall fun bound refusal hrun => ?_
    simp only [Task.run, Expr.argumentsFrom]
    exact bind_eq_error hrun
  | otherArguments hfirst hcomma =>
    filter_upwards [hfirst.eventually_run] with bound hfirst refusal hrun
    simp only [Task.run, Expr.argumentsFrom]
    refine bind_eq_of_ok hfirst ?_
    rw [if_pos hcomma]
    exact bind_eq_error hrun
  | namedValue hname hequal =>
    refine .of_forall fun bound refusal hrun => ?_
    simp only [Task.run, Expr.argument, hname, if_pos hequal]
    exact bind_eq_error hrun
  | plainValue hplain =>
    refine .of_forall fun bound refusal hrun => ?_
    simp only [Task.run, Expr.argument]
    split
    · next name hname =>
      rw [if_neg (hplain.resolve_left (by simp [hname]))]
      exact bind_eq_error hrun
    · exact bind_eq_error hrun
  | value hgo =>
    refine .of_forall fun bound refusal hrun => ?_
    simp only [Task.run, Expr.argumentValue, if_neg hgo]
    exact bind_eq_error hrun
  | someParameters hgo =>
    refine .of_forall fun bound refusal hrun => ?_
    simp only [Task.run, Expr.parameters, if_neg hgo]
    exact hrun
  | parameterFallback hname =>
    refine .of_forall fun bound refusal hrun => ?_
    simp only [Task.run, Expr.parametersFrom]
    rw [if_neg (not_not.mpr hname)]
    exact bind_eq_error hrun
  | otherParameters hname hfallback hcomma =>
    filter_upwards [hfallback.eventually_run] with bound hfallback refusal hrun
    simp only [Task.run, Expr.parametersFrom]
    rw [if_neg (not_not.mpr hname)]
    refine bind_eq_of_ok hfallback ?_
    rw [if_pos hcomma]
    exact bind_eq_error hrun
  | fallbackValue hequal =>
    refine .of_forall fun bound refusal hrun => ?_
    simp only [Task.run, Expr.fallback, if_pos hequal]
    exact bind_eq_error hrun

/-- A call that is stuck fails there, whatever the bound, if it is large enough to read what comes
first. -/
theorem Stuck.eventually_run {task : Task} {c e : Cursor} (h : Stuck task c e) :
    ∀ᶠ bound in atTop, task.run (bound + 1) c = .error e.refusal := by
  cases h with
  | operand hnone =>
    refine .of_forall fun bound => ?_
    simp only [Task.run, Expr.operand, hnone]
    rfl
  | name hopening hcolons hname =>
    refine .of_forall fun bound => ?_
    simp only [Task.run, Expr.operand, hopening, readName, Bool.or_eq_true, beq_iff_eq,
      if_pos hcolons, hname]
    rfl
  | member hkind hpower hname =>
    refine .of_forall fun bound => ?_
    simp only [Task.run, Expr.continuation, hkind, if_neg (Nat.not_lt.mpr hpower), readMember, hname]
    rfl
  | doubleIndex hkind hpower hgiven hclose =>
    filter_upwards [hgiven.eventually_run] with bound hgiven
    simp only [Task.run, Expr.continuation, hkind, if_neg (Nat.not_lt.mpr hpower)]
    exact bind_eq_of_ok hgiven (expect_bind_eq_error hclose)
  | paren hopening hinner hclose =>
    filter_upwards [hinner.eventually_run] with bound hinner
    simp only [Task.run, Expr.operand, hopening]
    exact bind_eq_of_ok hinner (expect_bind_eq_error hclose)
  | functionOpen hopening hopen | forOpen hopening hopen =>
    refine .of_forall fun bound => ?_
    simp only [Task.run, Expr.operand, hopening]
    exact expect_bind_eq_error hopen
  | forCounter hopening hopen hinside hcounter =>
    subst hinside
    refine .of_forall fun bound => ?_
    simp only [Task.run, Expr.operand, hopening]
    refine bind_eq_of_ok (expect_eq_ok hopen) ?_
    rw [if_pos hcounter]
    rfl
  | forIn hopening hopen hinside hcounter hin =>
    subst hinside
    refine .of_forall fun bound => ?_
    simp only [Task.run, Expr.operand, hopening]
    refine bind_eq_of_ok (expect_eq_ok hopen) ?_
    rw [if_neg (not_not.mpr hcounter)]
    exact expect_bind_eq_error hin
  | forClose hopening hopen hinside hcounter hin hsequence hclose =>
    subst hinside
    filter_upwards [hsequence.eventually_run] with bound hsequence
    simp only [Task.run, Expr.operand, hopening]
    refine bind_eq_of_ok (expect_eq_ok hopen) ?_
    rw [if_neg (not_not.mpr hcounter)]
    exact bind_eq_of_ok (expect_eq_ok hin) (bind_eq_of_ok hsequence (expect_bind_eq_error hclose))
  | headerOpen hopen => exact .of_forall fun bound => expect_bind_eq_error hopen
  | headerClose hopen hcondition hclose =>
    filter_upwards [hcondition.eventually_run] with bound hcondition
    simp only [Task.run, Expr.header]
    exact bind_eq_of_ok (expect_eq_ok hopen) (bind_eq_of_ok hcondition (expect_bind_eq_error hclose))
  | statementEnd hgo hfirst hend =>
    filter_upwards [hfirst.eventually_run] with bound hfirst
    simp only [Task.run, Expr.statements, if_neg hgo]
    exact bind_eq_of_ok hfirst (bind_eq_error (if_neg hend))
  | argumentsEnd hfirst hcomma hclose =>
    filter_upwards [hfirst.eventually_run] with bound hfirst
    simp only [Task.run, Expr.argumentsFrom]
    refine bind_eq_of_ok hfirst ?_
    rw [if_neg hcomma, if_neg hclose]
    rfl
  | parameterName hname =>
    refine .of_forall fun bound => ?_
    simp only [Task.run, Expr.parametersFrom]
    rw [if_pos hname]
    rfl
  | parametersEnd hname hfallback hcomma hclose =>
    filter_upwards [hfallback.eventually_run] with bound hfallback
    simp only [Task.run, Expr.parametersFrom]
    rw [if_neg (not_not.mpr hname)]
    refine bind_eq_of_ok hfallback ?_
    rw [if_neg hcomma]
    exact (expect_bind_eq_error (by rwa [settle_settle])).trans (by rw [settle_settle]; rfl)

theorem Refuses.eventually_run {task : Task} {c e : Cursor} (h : Refuses task c e) :
    ∀ᶠ bound in atTop, task.run bound c = .error e.refusal := by
  induction h with refine eventually_of_succ ?_
  | here h => exact h.eventually_run
  | inside hcall _ ih =>
    filter_upwards [hcall.eventually_run, ih] with bound hcall hrun
    exact hcall _ hrun

/-- **To be refused is to be at the end of a chain of calls**, under every bound above the size of
the call. -/
theorem Task.run_eq_error_iff {task : Task} {c : Cursor} {bound : Nat} {refusal : Refusal}
    (h : task.size c < bound) :
    task.run bound c = .error refusal ↔ ∃ e, Refuses task c e ∧ refusal = e.refusal := by
  refine ⟨chained bound h, ?_⟩
  rintro ⟨e, hrefuses, rfl⟩
  obtain ⟨large, hrun, hlarge⟩ :=
    (hrefuses.eventually_run.and (eventually_gt_atTop (task.size c))).exists
  exact (run_eq_run h hlarge).trans hrun

/-- Where a whole row of lexemes is refused. -/
theorem readAll_eq_error_iff {lexemes : List Lexeme} {refusal : Refusal} :
    readAll lexemes = .error refusal ↔
      ∃ e, Refuses (.statements .endOfInput) (.ofLexemes lexemes) e ∧ refusal = e.refusal := by
  have hiff : statements (callsPerLexeme * (lexemes.length + 1)) .endOfInput (.ofLexemes lexemes) =
      .error refusal ↔ _ := Task.run_eq_error_iff (size_lt_readAll lexemes)
  rw [← hiff]
  constructor
  · intro h
    rcases of_bind_eq_error h with h | ⟨result, -, h⟩
    · exact h
    · cases h
  · exact bind_eq_error

end TypeDrift.Expr
