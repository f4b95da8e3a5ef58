import TypeDrift.Proofs.Expr.Refused

/-! # Completing a row

A reader never goes on to where nothing could follow any more.  Wherever it fails, other lexemes put in
place of the refused one and those behind it complete the row (`readAll_completable`).

What completes a row is found along the chain of calls that has failed.  A call that is stuck needs the
few lexemes that it has been waiting for: a name, where an expression has to come; the bracket that
closes what is open; the rest of the header of a loop.  Each call around it needs what still has to come
behind the call that it has made (`Calls`).  In this way brackets are closed and bodies are filled in,
the innermost first.
-/
namespace TypeDrift

/-- How a lexeme of a kind that completes a row is written. -/
def Kind.written : Kind → String
  | leftParen => "("
  | rightParen => ")"
  | rightBracket => "]"
  | rightBrace => "\x7d"
  | keyword .inWord => "in"
  | _ => "x"

/-- A lexeme that completes a row. -/
def Kind.lexeme (kind : Kind) : Lexeme := ⟨kind, kind.written⟩

/-- A kind that closes what is around an expression, so that the expression ends in front of it. -/
def Kind.Closing (kind : Kind) : Prop :=
  kind = .rightParen ∨ kind = .rightBracket ∨ kind = .rightBrace ∨ kind = .endOfInput

theorem Kind.Closing.quiet {kind : Kind} (h : kind.Closing) : kind.Quiet := by
  rcases h with rfl | rfl | rfl | rfl <;> decide

theorem Kind.Closing.ne_newline {kind : Kind} (h : kind.Closing) : kind ≠ .newline := by
  rcases h with rfl | rfl | rfl | rfl <;> decide

theorem Expr.Closer.closing (closer : Closer) : closer.kind.Closing := by
  cases closer
  · exact .inl rfl
  · exact .inr (.inl rfl)

namespace Cursor

/-- Lexemes of some kinds come next, and others behind them. -/
def Faces (c : Cursor) (kinds : List Kind) (follow : List Lexeme) : Prop :=
  c.rest = kinds.map Kind.lexeme ++ follow

variable {c : Cursor} {kind : Kind} {kinds : List Kind} {follow : List Lexeme}

theorem Faces.kind_head (h : c.Faces (kind :: kinds) follow) : c.head.kind = kind := by
  rw [head, h]
  rfl

/-- What comes next is taken. -/
theorem Faces.take (h : c.Faces (kind :: kinds) follow) (hnewline : kind ≠ .newline)
    (hend : kind ≠ .endOfInput) :
    c.settle = c ∧ c.settle.head.kind = kind ∧ c.settle.advance.Faces kinds follow := by
  have hkind := h.kind_head
  have hsettle : c.settle = c := settle_of_head (hkind ▸ hnewline)
  refine ⟨hsettle, hsettle.symm ▸ hkind, ?_⟩
  rw [hsettle, advance_eq (hkind ▸ hend), Faces, h]
  rfl

theorem Faces.skipNewlines (h : c.Faces (kind :: kinds) follow) (hnewline : kind ≠ .newline) :
    c.skipNewlines.Faces (kind :: kinds) follow := by
  rwa [skipNewlines_of_head (h.kind_head ▸ hnewline)]

theorem Faces.settle (h : c.Faces (kind :: kinds) follow) (hnewline : kind ≠ .newline) :
    c.settle.Faces (kind :: kinds) follow := by
  rwa [settle_of_head (h.kind_head ▸ hnewline)]

end Cursor

namespace Expr

open Cursor

/-! ## Readings that end -/

theorem Reads.ends {power : Nat} {left : Expr} {c : Cursor} (h : c.head.kind.Closing) :
    Reads (.continuation power left) c left c := by
  have hsettle := settle_of_head h.ne_newline
  have hdone : Reads (.continuation power left) c left c.settle := .done fun step hstep => by
    rw [hsettle, h.quiet.1] at hstep
    cases hstep
  rwa [hsettle] at hdone

theorem Reads.endsBranch {c : Cursor} (h : c.head.kind.Closing) : Reads .alternative c none c := by
  refine .noElse ?_
  have hhead : c.beforeElse = c := by
    unfold beforeElse
    split
    · rfl
    · exact skipNewlines_of_head h.ne_newline
  rw [hhead]
  exact h.quiet.2.2.2.1

theorem Reads.endsStatements {terminator : Kind} {c : Cursor} (h : c.head.kind = terminator)
    (hfits : (Task.statements terminator).Fits c) : Reads (.statements terminator) c [] c := by
  have hskip : c.skipSeparators = c := by
    refine skipWhile_of_head ?_
    rw [h]
    rcases hfits with rfl | rfl <;> rfl
  have hnone : Reads (.statements terminator) c [] c.skipSeparators :=
    .noStatements (by rwa [hskip])
  rwa [hskip] at hnone

/-- What may come behind what a call reads, if the call is to end there. -/
def Task.Follow (task : Task) (follow : List Lexeme) : Prop :=
  let kind := (follow.headD .endOfInput).kind
  match task with
  | statements terminator => kind = terminator
  | header => kind ≠ .newline
  | argument closer | argumentValue closer => kind = closer.kind
  | arguments _ | argumentsFrom _ | parameters | parametersFrom => True
  | _ => kind.Closing

/-- A call can be done, and these lexemes come behind what it reads. -/
def Finishes (task : Task) (c : Cursor) (follow : List Lexeme) : Prop :=
  ∃ result c', Reads task c result c' ∧ c'.rest = follow

section Finish
variable {follow : List Lexeme}

theorem Finishes.expression {power : Nat} {c : Cursor} (h : Finishes .operand c follow)
    (hfollow : (follow.headD .endOfInput).kind.Closing) : Finishes (.expression power) c follow := by
  obtain ⟨left, c₁, hleft, hrest⟩ := h
  exact ⟨left, c₁, .expression hleft (.ends (by rwa [head, hrest])), hrest⟩

theorem Finishes.name {c : Cursor} (h : c.settle.Faces [.identifier] follow)
    (hfollow : (follow.headD .endOfInput).kind.Closing) : Finishes .operand c follow := by
  obtain ⟨-, hkind, hbehind⟩ := h.take (by decide) (by decide)
  rw [settle_settle] at hkind hbehind
  have hhead : c.settle.advance.head.kind.Closing := by rwa [Cursor.head, hbehind]
  have hopening : Opening.ofLexeme? c.settle.head = some .name := by rw [Opening.ofLexeme?, hkind]
  exact ⟨_, _, .name hopening (readName_eq_ok_iff.mpr
    (.inl ⟨hhead.quiet.2.1, hhead.quiet.2.2.1, rfl, rfl⟩)), hbehind⟩

theorem Finishes.expressionName {power : Nat} {c : Cursor} (h : c.Faces [.identifier] follow)
    (hfollow : (follow.headD .endOfInput).kind.Closing) : Finishes (.expression power) c follow :=
  .expression (.name (h.settle (by decide)) hfollow) hfollow

/-- **A call is done** when the one that it makes is done, and what still has to come behind that one
comes there. -/
theorem Calls.finish {task task' : Task} {c c' : Cursor} {later : List Kind}
    (h : Calls task c task' c' later) (hfits : task.Fits c) (hfollow : task.Follow follow)
    (hread : Finishes task' c' (later.map Kind.lexeme ++ follow)) : Finishes task c follow := by
  obtain ⟨result, c₂, hread, hrest⟩ := hread
  have hhead {c : Cursor} (hrest : c.rest = follow) : c.head = follow.headD .endOfInput := by
    rw [head, hrest]
  cases h with
  | operand => exact .expression ⟨result, c₂, hread, hrest⟩ hfollow
  | continuation hleft => exact ⟨result, c₂, .expression hleft hread, hrest⟩
  | callArguments hkind hpower =>
    exact ⟨_, c₂, .call hkind hpower hread (.ends (hhead hrest ▸ hfollow)), hrest⟩
  | callMore hkind hpower hgiven => exact ⟨_, c₂, .call hkind hpower hgiven hread, hrest⟩
  | @indexArguments _ _ double _ hkind hpower =>
    cases double with
    | false => exact ⟨_, c₂, .index hkind hpower hread (.ends (hhead hrest ▸ hfollow)), hrest⟩
    | true =>
      obtain ⟨-, hclose, hbehind⟩ := Faces.take hrest (by decide) (by decide)
      exact ⟨_, _, .doubleIndex hkind hpower hread hclose (.ends (hhead hbehind ▸ hfollow)), hbehind⟩
  | indexMore hkind hpower hgiven => exact ⟨_, c₂, .index hkind hpower hgiven hread, hrest⟩
  | doubleIndexMore hkind hpower hgiven hclose =>
    exact ⟨_, c₂, .doubleIndex hkind hpower hgiven hclose hread, hrest⟩
  | memberMore hkind hpower hmember => exact ⟨_, c₂, .member hkind hpower hmember hread, hrest⟩
  | betweenRight hkind hpower =>
    exact ⟨_, c₂, .between hkind hpower hread (.ends (hhead hrest ▸ hfollow)), hrest⟩
  | betweenMore hkind hpower hright => exact ⟨_, c₂, .between hkind hpower hright hread, hrest⟩
  | parenInner hopening =>
    obtain ⟨-, hclose, hbehind⟩ := Faces.take hrest (by decide) (by decide)
    exact ⟨_, _, .paren hopening hread hclose, hbehind⟩
  | blockBody hopening =>
    obtain ⟨hsettle, -, hbehind⟩ := Faces.take hrest (by decide) (by decide)
    rw [hsettle] at hbehind
    exact ⟨_, _, .block hopening hread, hbehind⟩
  | signInner hopening => exact ⟨_, c₂, .sign hopening hread, hrest⟩
  | tildeRight hopening => exact ⟨_, c₂, .tilde hopening hread, hrest⟩
  | functionParameters hopening hopen =>
    obtain ⟨_, c₃, hbody, hrest₃⟩ :=
      Finishes.expressionName (Faces.skipNewlines hrest (by decide)) hfollow
    exact ⟨_, c₃, .function hopening hopen hread hbody, hrest₃⟩
  | functionBody hopening hopen hgiven =>
    exact ⟨_, c₂, .function hopening hopen hgiven hread, hrest⟩
  | conditionalHeader hopening =>
    obtain ⟨_, c₃, hconsequent, hrest₃⟩ := Finishes.expressionName hrest hfollow
    exact ⟨_, c₃, .conditional hopening hread hconsequent (.endsBranch (hhead hrest₃ ▸ hfollow)),
      hrest₃⟩
  | conditionalConsequent hopening hcondition =>
    exact ⟨_, c₂, .conditional hopening hcondition hread (.endsBranch (hhead hrest ▸ hfollow)), hrest⟩
  | conditionalAlternative hopening hcondition hconsequent =>
    exact ⟨_, c₂, .conditional hopening hcondition hconsequent hread, hrest⟩
  | forSequence hopening hopen hinside hcounter hin =>
    obtain ⟨-, hclose, hbehind⟩ := Faces.take hrest (by decide) (by decide)
    have hbehind : c₂.settle.advance.leave.Faces [.identifier] follow := hbehind
    obtain ⟨_, c₃, hbody, hrest₃⟩ :=
      Finishes.expressionName (hbehind.skipNewlines (by decide)) hfollow
    exact ⟨_, c₃, .forLoop hopening hopen hinside hcounter hin hread hclose hbody, hrest₃⟩
  | forBody hopening hopen hinside hcounter hin hsequence hclose =>
    exact ⟨_, c₂, .forLoop hopening hopen hinside hcounter hin hsequence hclose hread, hrest⟩
  | whileHeader hopening =>
    obtain ⟨_, c₃, hbody, hrest₃⟩ := Finishes.expressionName hrest hfollow
    exact ⟨_, c₃, .whileLoop hopening hread hbody, hrest₃⟩
  | whileBody hopening hcondition => exact ⟨_, c₂, .whileLoop hopening hcondition hread, hrest⟩
  | repeatBody hopening => exact ⟨_, c₂, .repeatLoop hopening hread, hrest⟩
  | headerCondition hopen =>
    obtain ⟨-, hclose, hbehind⟩ := Faces.take hrest (by decide) (by decide)
    have hbehind : c₂.settle.advance.leave.rest = follow := hbehind
    refine ⟨_, _, .header hopen hread hclose, ?_⟩
    rwa [skipNewlines_of_head (hhead hbehind ▸ hfollow)]
  | elseBranch helse => exact ⟨_, c₂, .elseBranch helse hread, hrest⟩
  | firstStatement hgo =>
    have hkind : (follow.headD .endOfInput).kind = _ := hfollow
    have hend : c₂.head.kind = _ := hhead hrest ▸ hkind
    exact ⟨_, c₂, .statement hgo hread (expectEnd_eq_ok_iff.mpr (.inr (.inr hend)))
      (.endsStatements hend hfits), hrest⟩
  | otherStatements hgo hfirst hend => exact ⟨_, c₂, .statement hgo hfirst hend hread, hrest⟩
  | someArguments hgo => exact ⟨_, c₂, .someArguments hgo hread, hrest⟩
  | @firstArgument closer =>
    obtain ⟨-, hclose, hbehind⟩ :=
      Faces.take hrest (Closer.kind_ne_newline closer) (Closer.kind_ne_endOfInput closer)
    exact ⟨_, _, .lastArgument hread hclose, hbehind⟩
  | otherArguments hfirst hcomma => exact ⟨_, c₂, .moreArguments hfirst hcomma hread, hrest⟩
  | namedValue hname hequal => exact ⟨_, c₂, .namedArgument hname hequal hread, hrest⟩
  | plainValue hplain => exact ⟨_, c₂, .plainArgument hplain hread, hrest⟩
  | value hgo => exact ⟨_, c₂, .value hgo hread, hrest⟩
  | someParameters hgo => exact ⟨_, c₂, .someParameters hgo hread, hrest⟩
  | parameterFallback hname =>
    obtain ⟨-, hclose, hbehind⟩ := Faces.take hrest (by decide) (by decide)
    exact ⟨_, _, .lastParameter hname hread hclose, hbehind⟩
  | otherParameters hname hfallback hcomma =>
    exact ⟨_, c₂, .moreParameters hname hfallback hcomma hread, hrest⟩
  | fallbackValue hequal => exact ⟨_, c₂, .fallback hequal hread, hrest⟩

/-- What may come behind a call may come behind the one that it makes, and what still has to come
before it. -/
theorem Calls.follows {task task' : Task} {c c' : Cursor} {later : List Kind}
    (h : Calls task c task' c' later) (hfits : task.Fits c) (hfollow : task.Follow follow) :
    task'.Follow (later.map Kind.lexeme ++ follow) := by
  cases h with
  | firstStatement =>
    have hkind : (follow.headD .endOfInput).kind = _ := hfollow
    show (follow.headD .endOfInput).kind.Closing
    rw [hkind]
    rcases hfits with rfl | rfl
    · exact .inr (.inr (.inl rfl))
    · exact .inr (.inr (.inr rfl))
  | @value closer =>
    have hkind : (follow.headD .endOfInput).kind = closer.kind := hfollow
    show (follow.headD .endOfInput).kind.Closing
    exact hkind ▸ closer.closing
  | callArguments | indexArguments | someArguments | otherArguments | functionParameters
  | someParameters | otherParameters => trivial
  | parenInner | forSequence | headerCondition | parameterFallback => exact .inl rfl
  | conditionalHeader | whileHeader => exact nofun
  | blockBody | firstArgument => rfl
  | _ => exact hfollow

end Finish

/-! ## Where a call is stuck -/

end Expr

open Cursor Expr

namespace Fork

/-- The fork at a refused lexeme: the second row goes on with lexemes of some kinds and those behind
them. -/
def insteadOf (e : Cursor) (kinds : List Kind) (follow : List Lexeme) : Fork :=
  ⟨.none, e.rest, kinds.map Kind.lexeme ++ follow⟩

variable {e : Cursor} {kind : Kind} {kinds : List Kind} {follow : List Lexeme}

theorem Beside.settle_faces {c d : Cursor}
    (hd : (insteadOf c.settle (kind :: kinds) follow).Beside c d)
    (hkind : kind ≠ .newline ∧ kind ≠ .semicolon) : d.settle.Faces (kind :: kinds) follow :=
  (hd.settle_of_lands (.inr ⟨rfl, hkind⟩)).rest_of_at rfl

/-- The lexeme that comes instead of the refused one is taken. -/
theorem Beside.takes_insteadOf {c d : Cursor}
    (hd : (insteadOf c.settle (kind :: kinds) follow).Beside c d)
    (hkind : kind ≠ .newline ∧ kind ≠ .semicolon) (hend : kind ≠ .endOfInput) :
    d.settle.head.kind = kind ∧ d.settle.advance.Faces kinds follow := by
  have hface := (hd.settle_faces hkind).take hkind.1 hend
  rw [settle_settle] at hface
  exact hface.2

variable (kinds follow)

theorem upTo_insteadOf {c : Cursor} (h : c.Reaches e) : (insteadOf e kinds follow).UpTo c :=
  h.length_le

/-- Inside a bracket that ignores line breaks, an expression ends in front of what closes it. -/
theorem stops_insteadOf {c : Cursor} (hround : c.brackets.head? = some .round)
    (hclosing : kind.Closing) : (insteadOf c.settle (kind :: kinds) follow).Stops c := by
  have hbrackets := brackets_ne_nil hround
  have hsame : c.beforeElse = c.settle := by
    rw [settle_eq hround, beforeElse, if_neg (by simpa using hbrackets)]
  exact .inr ⟨by rw [hsame]; rfl, hclosing.quiet, fun h => absurd h hclosing.ne_newline⟩

variable {kinds follow}

theorem resumes_insteadOf (h : ((kinds.map Kind.lexeme ++ follow).headD .endOfInput).kind.Closing) :
    (insteadOf e (.identifier :: kinds) follow).Resumes := by
  refine ⟨_, kinds.map Kind.lexeme ++ follow, rfl, rfl, ?_⟩
  cases hrest : kinds.map Kind.lexeme ++ follow with
  | nil => nofun
  | cons lexeme rest =>
    rw [hrest] at h
    have hlexeme : (lexeme.kind != .newline) = true := bne_iff_ne.mpr h.ne_newline
    rw [List.find?_cons_of_pos (by exact hlexeme)]
    exact fun hkind => h.quiet.ne_equalAssign (Option.some.inj hkind)

end Fork

namespace Expr

open Fork

/-- Lexemes of these kinds complete what a call has read before it failed at `e`.  If it has not read
anything, they begin with a name. -/
def Completes (kinds : List Kind) (task : Task) (c e : Cursor) : Prop :=
  .endOfInput ∉ kinds ∧ ∀ follow, task.Follow follow →
    (task ≠ .header → (task.entry c).rest.length = e.rest.length →
      (insteadOf e kinds follow).Resumes) ∧
    ∀ d, (insteadOf e kinds follow).Beside c d → Finishes task d follow

/-- What completes a call that has read something. -/
theorem Completes.of_precedes {kinds : List Kind} {task : Task} {c e : Cursor}
    (hkinds : .endOfInput ∉ kinds) (hpast : task ≠ .header → (task.entry c).Precedes e)
    (h : ∀ follow, task.Follow follow → ∀ d, (insteadOf e kinds follow).Beside c d →
      Finishes task d follow) : Completes kinds task c e :=
  ⟨hkinds, fun follow hfollow =>
    ⟨fun htask hat => absurd hat (Nat.ne_of_gt (hpast htask).2), h follow hfollow⟩⟩

/-- The kinds of a `for` loop, from the name of its counter on. -/
def counterKinds : List Kind :=
  [.identifier, .keyword .inWord, .identifier, .rightParen, .identifier]

theorem finishes_forCounter {c : Cursor} {follow : List Lexeme}
    (hopening : Opening.ofLexeme? c.settle.head = some .forLoop)
    (hopen : c.settle.advance.settle.head.kind = .leftParen)
    (hface : (c.settle.advance.settle.advance.enter .round).settle.Faces counterKinds follow)
    (hfollow : Task.operand.Follow follow) : Finishes .operand c follow := by
  obtain ⟨-, hcounter, hbehind⟩ := hface.take (by decide) (by decide)
  obtain ⟨-, hin, hsequence⟩ := hbehind.take (by decide) (by decide)
  rw [settle_settle] at hcounter hin hsequence
  exact (Calls.forSequence hopening hopen rfl hcounter hin).finish trivial hfollow
    (.expressionName hsequence (.inl rfl))

/-- Where an expression has to come, a name can come. -/
theorem completes_name (c : Cursor) : Completes [.identifier] .operand c c.settle := by
  refine ⟨by decide, fun follow hfollow => ?_⟩
  exact ⟨fun _ _ => resumes_insteadOf hfollow, fun d hd =>
    .name (hd.settle_faces (by decide)) hfollow⟩

/-- What completes an operand that has begun. -/
theorem Stuck.completes_operand {c e : Cursor} (h : Stuck .operand c e)
    (hbegun : Opening.ofLexeme? c.settle.head ≠ none) : ∃ kinds, Completes kinds .operand c e := by
  have hpast : Task.operand ≠ .header → c.Precedes e := fun _ => by
    obtain ⟨hnone, -⟩ | ⟨opening, hopening, -, hreach, -⟩ := h.of_operand
    · exact absurd hnone hbegun
    · exact (reaches_settle c).precedes (.of_advance (Opening.kind_ne_endOfInput hopening) hreach)
  cases h with
  | operand hnone => exact absurd hnone hbegun
  | name hopening hcolons hname =>
    refine ⟨[.identifier], .of_precedes (by decide) hpast fun follow hfollow d hd => ?_⟩
    have hcolon : c.settle.advance.head.kind ≠ .endOfInput := by
      rcases hcolons with h | h <;> rw [h] <;> decide
    have hplace := (upTo_insteadOf [.identifier] follow
      (reaches_settle c.settle.advance.advance)).before_of_advance hcolon
    obtain ⟨hopening', -, -, htaken⟩ := hd.begins hopening hplace.upTo
    have hkinds := hcolons.imp (htaken.kind_iff hplace rfl).mpr (htaken.kind_iff hplace rfl).mpr
    obtain ⟨hkind, hbehind⟩ := (htaken.advance hplace).takes_insteadOf (by decide) (by decide)
    exact ⟨_, _, .name hopening' (readName_eq_ok_iff.mpr
      (.inr ⟨hkinds, _, by rw [memberName?, hkind], rfl, rfl⟩)), hbehind⟩
  | @paren inner _ c₁ hopening hinner hclose =>
    refine ⟨[.rightParen], .of_precedes (by decide) hpast fun follow hfollow d hd => ?_⟩
    have hround : c₁.brackets.head? = some .round := by rw [hinner.brackets]; rfl
    have hstops := stops_insteadOf [] follow hround (.inl rfl : Kind.rightParen.Closing)
    obtain ⟨hopening', -, -, htaken⟩ :=
      hd.begins hopening (hstops.upTo.of_reaches hinner.reaches)
    obtain ⟨d₁, hd₁, hinner'⟩ := hinner.forked (htaken.enter .round) trivial hstops
    obtain ⟨hkind, hbehind⟩ := hd₁.takes_insteadOf (by decide) (by decide)
    exact ⟨_, _, .paren hopening' hinner' hkind, hbehind⟩
  | functionOpen hopening hopen =>
    refine ⟨[.leftParen, .rightParen, .identifier], .of_precedes (by decide) hpast
      fun follow hfollow d hd => ?_⟩
    obtain ⟨hopening', -, -, htaken⟩ := hd.begins hopening (upTo_insteadOf _ _ (reaches_settle _))
    obtain ⟨hopen', hinside⟩ := htaken.takes_insteadOf (by decide) (by decide)
    have hinside : (enter _ .round).Faces [.rightParen, .identifier] follow := hinside
    obtain ⟨-, hclose, hbehind⟩ := hinside.take (by decide) (by decide)
    exact (Calls.functionParameters hopening' hopen').finish trivial hfollow
      ⟨[], _, .noParameters hclose, hbehind⟩
  | forOpen hopening hopen =>
    refine ⟨.leftParen :: counterKinds, .of_precedes (by decide) hpast fun follow hfollow d hd => ?_⟩
    obtain ⟨hopening', -, -, htaken⟩ := hd.begins hopening (upTo_insteadOf _ _ (reaches_settle _))
    obtain ⟨hopen', hinside⟩ := htaken.takes_insteadOf (by decide) (by decide)
    exact finishes_forCounter hopening' hopen'
      (Faces.settle (c := enter _ .round) hinside (by decide)) hfollow
  | forCounter hopening hopen hinside hcounter =>
    subst hinside
    refine ⟨counterKinds, .of_precedes (by decide) hpast fun follow hfollow d hd => ?_⟩
    obtain ⟨hopening', -, hopen', hinside⟩ :=
      hd.opens hopening hopen (upTo_insteadOf _ _ (reaches_settle (enter _ .round)))
    exact finishes_forCounter hopening' hopen' (hinside.settle_faces (by decide)) hfollow
  | forIn hopening hopen hinside hcounter hin =>
    subst hinside
    refine ⟨[.keyword .inWord, .identifier, .rightParen, .identifier],
      .of_precedes (by decide) hpast fun follow hfollow d hd => ?_⟩
    obtain ⟨⟨hopening', -⟩, hopen', ⟨hcounter', -⟩, htaken⟩ :=
      hd.counts hopening hopen hcounter (upTo_insteadOf _ _ (reaches_settle _))
    obtain ⟨hin', hsequence⟩ := htaken.takes_insteadOf (by decide) (by decide)
    exact (Calls.forSequence hopening' hopen' rfl hcounter' hin').finish trivial hfollow
      (.expressionName hsequence (.inl rfl))
  | @forClose sequence _ _ c₂ hopening hopen hinside hcounter hin hsequence hclose =>
    subst hinside
    refine ⟨[.rightParen, .identifier], .of_precedes (by decide) hpast fun follow hfollow d hd => ?_⟩
    have hround : c₂.brackets.head? = some .round := by
      rw [hsequence.brackets]
      simp [Task.closes]
    have hstops := stops_insteadOf [.identifier] follow hround
      (.inl rfl : Kind.rightParen.Closing)
    have hup₁ := hstops.upTo.of_reaches hsequence.reaches
    obtain ⟨⟨hopening', -⟩, hopen', ⟨hcounter', -⟩, htaken⟩ :=
      hd.counts hopening hopen hcounter (hup₁.of_reaches (reaches_settle_advance _))
    obtain ⟨hin', -, hbehind₁⟩ := htaken.takes hin rfl (by decide) hup₁
    obtain ⟨d₂, hd₂, hsequence'⟩ := hsequence.forked hbehind₁ trivial hstops
    obtain ⟨hclose', hbehind⟩ := hd₂.takes_insteadOf (by decide) (by decide)
    have hbehind : d₂.settle.advance.leave.Faces [.identifier] follow := hbehind
    exact (Calls.forBody hopening' hopen' rfl hcounter' hin' hsequence' hclose').finish trivial
      hfollow (.expressionName (hbehind.skipNewlines (by decide)) hfollow)

/-- An argument is not empty where neither a comma nor the closing bracket comes behind it. -/
theorem Reads.precedes_of_argument {closer : Closer} {first : Argument Expr} {c c₁ : Cursor}
    (h : Reads (.argument closer) c first c₁) (hcomma : c₁.settle.head.kind ≠ .comma)
    (hclose : c₁.settle.head.kind ≠ closer.kind) : c.Precedes c₁ := by
  cases h with
  | namedArgument hname _ hvalue =>
    exact (reaches_settle c).precedes (.of_advance (kind_ne_endOfInput_of_argumentName? hname)
      ((reaches_settle_advance _).trans hvalue.reaches))
  | plainArgument _ hvalue =>
    cases hvalue with
    | noValue hend =>
      rw [settle_settle, settle_settle] at hcomma hclose
      rw [settle_settle] at hend
      exact (hend.elim hcomma hclose).elim
    | value _ hvalue =>
      rw [settle_settle] at hvalue
      exact (reaches_settle c).precedes ⟨hvalue.reaches, hvalue.length_lt rfl⟩

/-- **Every call that is stuck can be completed.** -/
theorem Stuck.completes {task : Task} {c e : Cursor} (h : Stuck task c e) (hfits : task.Fits c) :
    ∃ kinds, Completes kinds task c e := by
  have hstuck := h
  cases h with
  | operand => exact ⟨_, completes_name c⟩
  | name hopening | paren hopening | functionOpen hopening | forOpen hopening | forCounter hopening
  | forIn hopening | forClose hopening => exact hstuck.completes_operand (by simp [hopening])
  | member hkind hpower hname =>
    refine ⟨[.identifier], .of_precedes (by decide)
      (fun _ => (Refuses.here hstuck).precedes_of_continuation) fun follow hfollow d hd => ?_⟩
    have hup := upTo_insteadOf [.identifier] follow (reaches_skipNewlines c.settle.advance)
    obtain ⟨hkind', -, -, htaken⟩ := hd.goesOn hkind hup
    have hskip := htaken.skipNewlines (.inr ⟨rfl, nofun, nofun⟩)
    have hface : d.settle.advance.skipNewlines.Faces [.identifier] follow := hskip.rest_of_at rfl
    obtain ⟨hsettle, hname', hbehind⟩ := hface.take (by decide) (by decide)
    rw [hsettle] at hname' hbehind
    exact ⟨_, _, .member hkind' hpower
      (readMember_eq_ok_iff.mpr ⟨_, by rw [memberName?, hname'], rfl, rfl⟩)
      (.ends (by rwa [Cursor.head, hbehind])), hbehind⟩
  | @doubleIndex _ _ _ _ c₁ hkind hpower hgiven hclose =>
    refine ⟨[.rightBracket], .of_precedes (by decide)
      (fun _ => (Refuses.here hstuck).precedes_of_continuation) fun follow hfollow d hd => ?_⟩
    have hup := upTo_insteadOf [.rightBracket] follow (reaches_settle c₁)
    obtain ⟨hkind', -, -, htaken⟩ := hd.goesOn hkind (hup.of_reaches hgiven.reaches)
    obtain ⟨d₁, hd₁, hgiven'⟩ := hgiven.forked (htaken.enter .round) rfl hup
    obtain ⟨hclose', hbehind⟩ := hd₁.takes_insteadOf (by decide) (by decide)
    exact ⟨_, _, .doubleIndex hkind' hpower hgiven' hclose'
      (.ends (by rwa [Cursor.head, hbehind])), hbehind⟩
  | headerOpen hopen =>
    refine ⟨[.leftParen, .identifier, .rightParen], .of_precedes (by decide) (fun hne => absurd rfl hne)
      fun follow hfollow d hd => ?_⟩
    obtain ⟨hopen', hinside⟩ := hd.takes_insteadOf (by decide) (by decide)
    exact (Calls.headerCondition hopen').finish trivial hfollow (.expressionName hinside (.inl rfl))
  | @headerClose condition _ c₁ hopen hcondition hclose =>
    refine ⟨[.rightParen], .of_precedes (by decide) (fun hne => absurd rfl hne)
      fun follow hfollow d hd => ?_⟩
    have hround : c₁.brackets.head? = some .round := by rw [hcondition.brackets]; rfl
    have hstops := stops_insteadOf [] follow hround (.inl rfl : Kind.rightParen.Closing)
    obtain ⟨hopen', -, htaken⟩ :=
      hd.takes hopen rfl (by decide) (hstops.upTo.of_reaches hcondition.reaches)
    obtain ⟨d₁, hd₁, hcondition'⟩ := hcondition.forked (htaken.enter .round) trivial hstops
    obtain ⟨hclose', hbehind⟩ := hd₁.takes_insteadOf (by decide) (by decide)
    have hbehind : d₁.settle.advance.leave.rest = follow := hbehind
    refine ⟨_, _, .header hopen' hcondition' hclose', ?_⟩
    rwa [skipNewlines_of_head (by rwa [Cursor.head, hbehind])]
  | @statementEnd terminator first _ _ hgo hfirst hend =>
    refine ⟨[], .of_precedes (by decide) (fun _ => ⟨hfirst.reaches, hfirst.length_lt rfl⟩)
      fun follow hfollow d hd => ?_⟩
    have hclosing : (follow.headD .endOfInput).kind.Closing :=
      (Calls.firstStatement hgo).follows hfits hfollow
    have hplain := isString_of_fits hfits
    have hbefore : (insteadOf e [] follow).Before c.skipSeparators := hfirst.length_lt rfl
    have hskip := hd.skipSeparators (.inl hbefore)
    have hsame : e.beforeElse = e := by
      unfold beforeElse
      split
      · rfl
      · exact skipNewlines_of_head fun h => hend (.inl h)
    obtain ⟨d₁, hd₁, hfirst'⟩ := hfirst.forked hskip trivial
      (.inr ⟨by rw [hsame]; rfl, hclosing.quiet, fun h => absurd h hclosing.ne_newline⟩)
    have hrest : d₁.rest = follow := hd₁.rest_of_at rfl
    have hterminator : d₁.head.kind = terminator := by rwa [Cursor.head, hrest]
    exact ⟨_, d₁, .statement (mt (hskip.kind_iff hbefore hplain).mp hgo) hfirst'
      (expectEnd_eq_ok_iff.mpr (.inr (.inr hterminator))) (.endsStatements hterminator hfits), hrest⟩
  | @argumentsEnd closer first _ c₁ hfirst hcomma hclose =>
    refine ⟨[closer.kind], .of_precedes (by cases closer <;> decide) (fun _ =>
      ⟨hfirst.reaches.trans (reaches_settle c₁), Nat.lt_of_le_of_lt (reaches_settle c₁).length_le
        (hfirst.precedes_of_argument hcomma hclose).2⟩) fun follow hfollow d hd => ?_⟩
    have hround : c₁.brackets.head? = some .round := by rwa [hfirst.brackets]
    obtain ⟨d₁, hd₁, hfirst'⟩ := hfirst.forked hd hfits
      ⟨stops_insteadOf [] follow hround closer.closing, fun _ => ⟨hcomma, hclose⟩⟩
    obtain ⟨hclose', hbehind⟩ := hd₁.takes_insteadOf
      ⟨closer.kind_ne_newline, by cases closer <;> decide⟩ closer.kind_ne_endOfInput
    exact ⟨_, _, .lastArgument hfirst' hclose', hbehind⟩
  | parameterName hname =>
    refine ⟨[.identifier, .rightParen], by decide, fun follow hfollow =>
      ⟨fun _ _ => resumes_insteadOf (.inl rfl), fun d hd => ?_⟩⟩
    obtain ⟨hname', hbehind⟩ := hd.takes_insteadOf (by decide) (by decide)
    have hsettle := (hbehind.take (by decide) (by decide)).1
    refine (Calls.parameterFallback hname').finish (hd.fits hfits) hfollow ⟨none, _, .noFallback ?_, ?_⟩
    · rw [hsettle, hbehind.kind_head]
      decide
    · rwa [hsettle]
  | @parametersEnd fallback _ c₁ hname hfallback hcomma hclose =>
    refine ⟨[.rightParen], .of_precedes (by decide) (fun _ => (reaches_settle c).precedes
      (.of_advance (by rw [hname]; decide) (hfallback.reaches.trans (reaches_settle c₁))))
      fun follow hfollow d hd => ?_⟩
    have hround : c.settle.advance.brackets.head? = some .round := by
      rwa [brackets_advance, brackets_settle]
    have hstops := stops_insteadOf [] follow (c := c₁) (by rwa [hfallback.brackets])
      (.inl rfl : Kind.rightParen.Closing)
    obtain ⟨hname', -, htaken⟩ :=
      hd.takes hname rfl (by decide) (hstops.upTo.of_reaches hfallback.reaches)
    obtain ⟨d₁, hd₁, hfallback'⟩ := hfallback.forked htaken hround hstops
    obtain ⟨hclose', hbehind⟩ := hd₁.takes_insteadOf (by decide) (by decide)
    exact ⟨_, _, .lastParameter hname' hfallback' hclose', hbehind⟩

/-! ## Chains of calls -/

theorem Calls.endOfInput_notMem {task task' : Task} {c c' : Cursor} {later : List Kind}
    (h : Calls task c task' c' later) : .endOfInput ∉ later := by
  cases h with
  | @indexArguments _ _ double => cases double <;> decide
  | @firstArgument closer => cases closer <;> decide
  | _ => decide

/-- A call that fails right where it begins makes one that does. -/
theorem Calls.at_entry {task task' : Task} {c c' e : Cursor} {later : List Kind}
    (hcall : Calls task c task' c' later) (h : Refuses task' c' e) (htask : task ≠ .header)
    (hat : (task.entry c).rest.length = e.rest.length) :
    task' ≠ .header ∧ (task'.entry c').rest.length = e.rest.length := by
  have hrefuses : Refuses task c e := .inside hcall h
  have hentry := (task'.reaches_entry c').length_le
  have hplace := h.reaches_entry.length_le
  -- The call is made no later than at the entry, or nothing can have been taken before it.
  have hhere (hreach : (task.entry c).Reaches c') :
      (task'.entry c').rest.length = e.rest.length := by
    have hlength := hreach.length_le
    omega
  have hpast (hprecedes : (task.entry c).Precedes e) :
      task' ≠ .header ∧ (task'.entry c').rest.length = e.rest.length :=
    absurd hat (Nat.ne_of_gt hprecedes.2)
  have hreach := hcall.reaches
  cases task with
  | header => exact absurd rfl htask
  | continuation => exact hpast hrefuses.precedes_of_continuation
  | alternative => exact hpast hrefuses.precedes_of_alternative
  | operand =>
    obtain ⟨⟨opening, hopening, -⟩, hbehind⟩ := hcall.of_operand
    exact hpast ((reaches_settle c).precedes
      (.of_advance (Opening.kind_ne_endOfInput hopening) (hbehind.trans h.reaches)))
  | statements =>
    cases hcall with
    | firstStatement => exact ⟨by simp, hhere (.refl _)⟩
    | otherStatements _ hfirst => exact ⟨by simp, hhere hfirst.reaches⟩
  | argumentValue =>
    cases hname : argumentName? c.settle.head with
    | none =>
      rw [Task.entry, hname] at hhere
      cases hcall with
      | value => exact ⟨by simp, hhere (reaches_settle c)⟩
    | some name =>
      rw [Task.entry, hname] at hpast
      exact hpast (hrefuses.precedes_of_argumentValue hname)
  | _ => exact ⟨by cases hcall <;> simp, hhere hreach⟩

theorem Task.relabel_none (task : Task) : task.relabel .none = task := by
  cases task with
  | continuation power left => exact congrArg (continuation power) left.relabel_none
  | _ => rfl

/-- **Every call that fails can be completed**, from the place of the failure on. -/
theorem Refuses.completes {task : Task} {c e : Cursor} (h : Refuses task c e) (hfits : task.Fits c) :
    ∃ kinds, Completes kinds task c e := by
  induction h with
  | here h => exact h.completes hfits
  | @inside task task' c c' e later hcall h ih =>
    obtain ⟨kinds, hend, hkinds⟩ := ih (hcall.fits hfits)
    refine ⟨kinds ++ later, List.not_mem_append hend hcall.endOfInput_notMem,
      fun follow hfollow => ?_⟩
    obtain ⟨hresumes, hfinishes⟩ := hkinds _ (hcall.follows hfits hfollow)
    have hfork : insteadOf e kinds (later.map Kind.lexeme ++ follow) =
        insteadOf e (kinds ++ later) follow := by
      rw [insteadOf, insteadOf, List.map_append, List.append_assoc]
    rw [hfork] at hresumes
    refine ⟨fun htask hat => ?_, fun d hd => ?_⟩
    · obtain ⟨htask', hat'⟩ := hcall.at_entry h htask hat
      exact hresumes htask' hat'
    · have hready : (insteadOf e (kinds ++ later) follow).Ready task' c' :=
        (Nat.lt_or_eq_of_le h.reaches_entry.length_le).imp_right fun hat =>
          ⟨hat.symm, fun htask' => hresumes htask' hat.symm⟩
      obtain ⟨d₁, hd₁, hcall'⟩ := hcall.forked hd hfits hready
      have hcall' : Calls task d task' d₁ later := by
        rwa [insteadOf, Task.relabel_none, Task.relabel_none] at hcall'
      rw [← hfork] at hd₁
      exact hcall'.finish (hd.fits hfits) hfollow (hfinishes d₁ hd₁)

/-- **What comes before a refused lexeme can be completed** by lexemes of some kinds. -/
theorem readAll_completable {row : List Lexeme} {refusal : Refusal}
    (h : readAll row = .error refusal) :
    ∃ kinds : List Kind, .endOfInput ∉ kinds ∧ ∃ es,
      readAll (row.take refusal.index ++ kinds.map Kind.lexeme ++ [.endOfInput]) = .ok es := by
  obtain ⟨e, hrefuses, rfl⟩ := readAll_eq_error_iff.mp h
  obtain ⟨kinds, hend, hkinds⟩ := hrefuses.completes (.inr rfl)
  obtain ⟨-, hfinishes⟩ := hkinds [.endOfInput] rfl
  obtain ⟨passed, hrest, hindex, -⟩ := hrefuses.reaches
  have hrow : row = passed ++ e.rest := hrest
  have htake : row.take e.index = passed := by rw [hrow, hindex]; simp [ofLexemes]
  have hbeside : (insteadOf e kinds [.endOfInput]).Beside (.ofLexemes row)
      (.ofLexemes (passed ++ (kinds.map Kind.lexeme ++ [.endOfInput]))) :=
    ⟨passed, hrow, by rw [insteadOf, Lexeme.map_relabel_none]; rfl⟩
  obtain ⟨es, c, hreads, -⟩ := hfinishes _ hbeside
  refine ⟨kinds, hend, es, readAll_eq_ok_iff.mpr ⟨c, ?_⟩⟩
  rwa [refusal, htake, List.append_assoc]

end Expr
end TypeDrift
