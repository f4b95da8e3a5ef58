import TypeDrift.Proofs.Expr.Fork

/-! # Reading rows that fork

What is read from the first of two rows that fork is read from the second one too, but for the texts,
up to the same place (`Reads.forked`).  What that place has to be depends on the reader (`Fork.Exit`):
one that closes a bracket has seen all that it needs when it stops; an expression has looked ahead for
what goes on with it; an argument is empty only where a comma or the bracket is seen.
-/
namespace TypeDrift

open Cursor

namespace Expr

/-- Where a call can be made: what reads arguments and parameters is called inside a bracket that
ignores line breaks, and statements are read up to a brace or to the end. -/
def Task.Fits : Task → Cursor → Prop
  | arguments _, c | argumentsFrom _, c | argument _, c | argumentValue _, c | parameters, c
  | parametersFrom, c | fallback, c => c.brackets.head? = some .round
  | statements terminator, _ => terminator = .rightBrace ∨ terminator = .endOfInput
  | _, _ => True

theorem isString_of_fits {terminator : Kind} {c : Cursor} (h : (Task.statements terminator).Fits c) :
    terminator.isString = false := by
  rcases h with rfl | rfl <;> rfl

theorem brackets_ne_nil {c : Cursor} (h : c.brackets.head? = some .round) : c.brackets ≠ [] := by
  intro hnil
  rw [hnil] at h
  cases h

theorem settle_eq {c : Cursor} (h : c.brackets.head? = some .round) : c.settle = c.skipNewlines := by
  rw [settle, endsAtNewline, h]
  rfl

end Expr

open Expr

namespace Fork

variable {fork : Fork}

/-- What is needed of the place where a reader has stopped in the first row. -/
def Exit (fork : Fork) : Task → Cursor → Prop
  | .header, c => fork.Lands c
  | .statements _, c => fork.Before c
  | .arguments _, c | .argumentsFrom _, c | .parameters, c | .parametersFrom, c => fork.UpTo c
  | .argument closer, c | .argumentValue closer, c =>
    fork.Stops c ∧ (c.settle.rest.length = fork.first.length →
      c.settle.head.kind ≠ .comma ∧ c.settle.head.kind ≠ closer.kind)
  | _, c => fork.Stops c

theorem Exit.upTo {task : Task} {c : Cursor} (h : fork.Exit task c) : fork.UpTo c := by
  cases task with
  | header => exact Lands.upTo h
  | statements => exact Before.upTo h
  | arguments | argumentsFrom | parameters | parametersFrom => exact h
  | argument | argumentValue => exact Stops.upTo h.1
  | expression | continuation | operand | alternative | fallback => exact Stops.upTo h

/-- An expression may stop in front of a lexeme that is taken before the fork. -/
theorem UpTo.stops {c : Cursor} (h : fork.UpTo c.settle.advance)
    (htrivia : c.settle.head.isTrivia = false) : fork.Stops c := by
  obtain ⟨hnewline, hend⟩ := kind_ne_of_not_isTrivia htrivia
  exact .of_settle (h.before_of_advance hend) hnewline

theorem UpTo.exit_argument {closer : Closer} {c : Cursor} (h : fork.UpTo c.settle.advance)
    (htrivia : c.settle.head.isTrivia = false) : fork.Exit (.argument closer) c :=
  ⟨h.stops htrivia, fun hat => absurd hat
    (Nat.ne_of_gt (h.before_of_advance (kind_ne_of_not_isTrivia htrivia).2))⟩

namespace Beside

variable {c d : Cursor} (h : fork.Beside c d)
include h

/-- A call fits in both rows. -/
theorem fits {task : Task} (hfits : task.Fits c) : task.Fits d := by
  have hbrackets := h.brackets
  cases task with
  | statements | expression | continuation | operand | header | alternative => exact hfits
  | _ => exact (congrArg List.head? hbrackets).trans hfits

/-- Both go on with an expression. -/
theorem goesOn {step : Continuation} (hkind : Continuation.ofKind? c.settle.head.kind = some step)
    (hup : fork.UpTo c.settle.advance) :
    Continuation.ofKind? d.settle.head.kind = some step ∧
      d.settle.head = c.settle.head.relabel fork.labels ∧ d.settle.index = c.settle.index ∧
      fork.Beside c.settle.advance d.settle.advance := by
  obtain ⟨hhead, htaken⟩ := h.taken (hup.before_of_advance (Continuation.kind_ne_endOfInput hkind))
  refine ⟨?_, hhead, htaken⟩
  rw [hhead]
  exact (Continuation.ofKind?_relabel fork.labels _).trans hkind

/-- Both begin an expression. -/
theorem begins {opening : Opening} (hopening : Opening.ofLexeme? c.settle.head = some opening)
    (hup : fork.UpTo c.settle.advance) :
    Opening.ofLexeme? d.settle.head = some (opening.relabel fork.labels) ∧
      d.settle.head = c.settle.head.relabel fork.labels ∧ d.settle.index = c.settle.index ∧
      fork.Beside c.settle.advance d.settle.advance := by
  obtain ⟨hhead, htaken⟩ := h.taken (hup.before_of_advance (Opening.kind_ne_endOfInput hopening))
  refine ⟨?_, hhead, htaken⟩
  rw [hhead, Opening.ofLexeme?_relabel, hopening, Option.map_some]

/-- Both begin an expression, and go on behind line breaks. -/
theorem beginsAhead {opening : Opening} (hopening : Opening.ofLexeme? c.settle.head = some opening)
    (hlands : fork.Lands c.settle.advance.skipNewlines) :
    Opening.ofLexeme? d.settle.head = some (opening.relabel fork.labels) ∧
      d.settle.index = c.settle.index ∧
      fork.Beside c.settle.advance.skipNewlines d.settle.advance.skipNewlines := by
  obtain ⟨hopening', -, hindex, htaken⟩ :=
    h.begins hopening (hlands.upTo.of_reaches (reaches_skipNewlines _))
  exact ⟨hopening', hindex, htaken.skipNewlines hlands⟩

/-- Both take a lexeme of some kind. -/
theorem takes {kind : Kind} (hkind : c.settle.head.kind = kind) (hplain : kind.isString = false)
    (hend : kind ≠ .endOfInput) (hup : fork.UpTo c.settle.advance) :
    d.settle.head.kind = kind ∧ d.settle.head = c.settle.head.relabel fork.labels ∧
      fork.Beside c.settle.advance d.settle.advance := by
  obtain ⟨hhead, -, htaken⟩ := h.taken (hup.before_of_advance (hkind ▸ hend))
  exact ⟨by rwa [hhead, Lexeme.kind_relabel_iff hplain], hhead, htaken⟩

/-- Both begin an expression, and go on with a parenthesis. -/
theorem opens {opening : Opening} (hopening : Opening.ofLexeme? c.settle.head = some opening)
    (hopen : c.settle.advance.settle.head.kind = .leftParen)
    (hup : fork.UpTo c.settle.advance.settle.advance) :
    Opening.ofLexeme? d.settle.head = some (opening.relabel fork.labels) ∧
      d.settle.index = c.settle.index ∧ d.settle.advance.settle.head.kind = .leftParen ∧
      fork.Beside (c.settle.advance.settle.advance.enter .round)
        (d.settle.advance.settle.advance.enter .round) := by
  obtain ⟨hopening', -, hindex, htaken⟩ :=
    h.begins hopening (hup.of_reaches (reaches_settle_advance _))
  obtain ⟨hopen', -, hinside⟩ := htaken.takes hopen rfl (by decide) hup
  exact ⟨hopening', hindex, hopen', hinside.enter .round⟩

/-- Both begin a loop, and name its counter. -/
theorem counts (hopening : Opening.ofLexeme? c.settle.head = some .forLoop)
    (hopen : c.settle.advance.settle.head.kind = .leftParen)
    (hcounter : (c.settle.advance.settle.advance.enter .round).settle.head.kind = .identifier)
    (hup : fork.UpTo (c.settle.advance.settle.advance.enter .round).settle.advance) :
    (Opening.ofLexeme? d.settle.head = some .forLoop ∧ d.settle.index = c.settle.index) ∧
      d.settle.advance.settle.head.kind = .leftParen ∧
      ((d.settle.advance.settle.advance.enter .round).settle.head.kind = .identifier ∧
        (d.settle.advance.settle.advance.enter .round).settle.head =
          (c.settle.advance.settle.advance.enter .round).settle.head.relabel fork.labels) ∧
      fork.Beside (c.settle.advance.settle.advance.enter .round).settle.advance
        (d.settle.advance.settle.advance.enter .round).settle.advance := by
  obtain ⟨hopening', hindex, hopen', hinside⟩ := h.opens hopening hopen
    (hup.of_reaches (reaches_settle_advance (Cursor.enter _ .round)))
  obtain ⟨hcounter', hhead, htaken⟩ := hinside.takes hcounter rfl (by decide) hup
  exact ⟨⟨hopening', hindex⟩, hopen', ⟨hcounter', hhead⟩, htaken⟩

/-- Behind a name, the equals sign is seen before the fork. -/
theorem secondKind?_eq (hend : c.head.kind ≠ .endOfInput)
    (hbefore : fork.Before c.advance.skipNewlines) (hsecond : c.secondKind? = some .equalAssign) :
    d.secondKind? = some .equalAssign := by
  have hhere := hbefore.of_reaches ((reaches_advance c).trans (reaches_skipNewlines _))
  have hhead : d.head.kind = .endOfInput ↔ _ := h.kind_iff hhere rfl
  have hahead := (h.advance hhere).skipNewlines (.inl hbefore)
  obtain ⟨lexeme, common, hrest, hd⟩ := hahead.rest_cons hbefore
  rw [Cursor.secondKind?_eq hend, hrest] at hsecond
  rw [Cursor.secondKind?_eq (by rwa [ne_eq, hhead]), hd]
  simpa [(Lexeme.kind_relabel_iff rfl : _ = Kind.equalAssign ↔ _)] using hsecond

/-- Behind a name where an argument may stop, no equals sign is seen at the fork either. -/
theorem secondKind?_ne (hbefore : fork.Before c) (hend : c.head.kind ≠ .endOfInput)
    (hbrackets : c.brackets ≠ []) (hstops : fork.Stops c.advance)
    (hsecond : c.secondKind? ≠ some .equalAssign) : d.secondKind? ≠ some .equalAssign := by
  have hhead : d.head.kind = .endOfInput ↔ _ := h.kind_iff hbefore rfl
  have hahead := (h.advance hbefore).skipNewlines (hstops.lands (by simpa using hbrackets))
  have hsame : c.advance.beforeElse = c.advance.skipNewlines := if_neg (by simpa using hbrackets)
  rw [Cursor.secondKind?_eq hend] at hsecond
  rw [Cursor.secondKind?_eq (by rwa [ne_eq, hhead])]
  rw [Stops, hsame] at hstops
  rcases hstops with hbefore' | ⟨hat, hquiet, -⟩
  · obtain ⟨lexeme, common, hrest, hd⟩ := hahead.rest_cons hbefore'
    rw [hrest] at hsecond
    rw [hd]
    simpa [(Lexeme.kind_relabel_iff rfl : _ = Kind.equalAssign ↔ _)] using hsecond
  · rw [hahead.rest_of_at hat]
    intro hequal
    obtain ⟨lexeme, hlexeme, hkind⟩ := Option.map_eq_some_iff.mp hequal
    refine hquiet.ne_equalAssign ?_
    rwa [Fork.head, List.headD_eq_head?_getD, hlexeme]

/-- Both name an argument. -/
theorem named {name : String} (hround : c.brackets.head? = some .round)
    (hname : argumentName? c.settle.head = some name)
    (hequal : c.settle.secondKind? = some .equalAssign)
    (hup : fork.UpTo c.settle.advance.settle.advance) :
    argumentName? d.settle.head = some (fork.labels.text name) ∧
      d.settle.secondKind? = some .equalAssign ∧
      fork.Beside c.settle.advance.settle.advance d.settle.advance.settle.advance := by
  have hend := kind_ne_endOfInput_of_argumentName? hname
  have hround : c.settle.advance.brackets.head? = some .round := by
    rwa [brackets_advance, brackets_settle]
  have hsign := kind_of_secondKind? hend hequal
  have hbefore₁ : fork.Before c.settle.advance.settle := by
    refine hup.before_of_advance ?_
    rw [settle_eq hround, hsign]
    decide
  have hbefore : fork.Before c.settle :=
    hbefore₁.of_reaches ((reaches_advance _).trans (reaches_settle _))
  have hsettle := h.settle_of_lands (.inl hbefore)
  have hbehind := (hsettle.advance hbefore).settle_of_lands (.inl hbefore₁)
  refine ⟨?_, hsettle.secondKind?_eq hend (settle_eq hround ▸ hbefore₁) hequal,
    hbehind.advance hbefore₁⟩
  rw [hsettle.head hbefore, argumentName?_relabel, hname, Option.map_some]

end Beside

theorem readName_forked {start : Nat} {first : Lexeme} {c c' d : Cursor} {e : Expr}
    (hd : fork.Beside c d) (hstops : fork.Stops c') (h : readName start first c = .ok (e, c')) :
    ∃ d', fork.Beside c' d' ∧
      readName start (first.relabel fork.labels) d = .ok (e.relabel fork.labels, d') := by
  rcases readName_eq_ok_iff.mp h with ⟨hdouble, htriple, rfl, rfl⟩ | ⟨hcolons, name, hname, rfl, rfl⟩
  · have hplain : d.head.kind ≠ .doubleColon ∧ d.head.kind ≠ .tripleColon := by
      rcases hstops.upTo.before_or with hbefore | hat
      · exact ⟨mt (hd.kind_iff hbefore rfl).mp hdouble, mt (hd.kind_iff hbefore rfl).mp htriple⟩
      · have hquiet := hstops.quiet hat
        rw [hd.head_of_at hat]
        exact ⟨hquiet.2.1, hquiet.2.2.1⟩
    refine ⟨d, hd, readName_eq_ok_iff.mpr (.inl ⟨hplain.1, hplain.2, rfl, ?_⟩)⟩
    rw [Lexeme.name_relabel]
    exact (hd.close rfl (.identifier first.name)).symm
  · have hmember : fork.Before c.advance.settle :=
      hstops.upTo.before_of_advance (kind_ne_endOfInput_of_memberName? hname)
    have hbefore : fork.Before c := hmember.of_reaches ((reaches_advance c).trans (reaches_settle _))
    obtain ⟨hhead, -, htaken⟩ := (hd.advance hbefore).taken hmember
    have hkinds : d.head.kind = .doubleColon ∨ d.head.kind = .tripleColon :=
      hcolons.imp (hd.kind_iff hbefore rfl).mpr (hd.kind_iff hbefore rfl).mpr
    have hhidden : (d.head.kind == .tripleColon) = (c.head.kind == .tripleColon) := by
      have htriple : d.head.kind = .tripleColon ↔ _ := hd.kind_iff hbefore rfl
      simp only [beq_eq_decide, htriple]
    refine ⟨_, htaken, readName_eq_ok_iff.mpr (.inr ⟨hkinds, fork.labels.text name, ?_, rfl, ?_⟩)⟩
    · rw [hhead, memberName?_relabel, hname, Option.map_some]
    · rw [Lexeme.name_relabel, hhidden]
      exact (htaken.close rfl (.namespaced first.name name _)).symm

theorem readMember_forked {left e : Expr} {slot : Bool} {c c' d : Cursor} (hd : fork.Beside c d)
    (hup : fork.UpTo c') (h : readMember left slot c = .ok (e, c')) :
    ∃ d', fork.Beside c' d' ∧
      readMember (left.relabel fork.labels) slot d = .ok (e.relabel fork.labels, d') := by
  obtain ⟨name, hname, rfl, rfl⟩ := readMember_eq_ok_iff.mp h
  have hbefore := hup.before_of_advance (kind_ne_endOfInput_of_memberName? hname)
  have hskip := hd.skipNewlines (.inl hbefore)
  have hbehind := hskip.advance hbefore
  refine ⟨_, hbehind, readMember_eq_ok_iff.mpr ⟨fork.labels.text name, ?_, rfl, ?_⟩⟩
  · rw [hskip.head hbefore, memberName?_relabel, hname, Option.map_some]
  · rw [range_relabel]
    exact (hbehind.close rfl (.member left name slot)).symm

theorem expectEnd_forked {terminator : Kind} {c d : Cursor} (hd : fork.Beside c d)
    (hplain : terminator.isString = false) (hbefore : fork.Before c)
    (h : expectEnd terminator c = .ok ()) : expectEnd terminator d = .ok () := by
  rw [expectEnd_eq_ok_iff] at h ⊢
  rwa [hd.kind_iff hbefore rfl, hd.kind_iff hbefore rfl, hd.kind_iff hbefore hplain]

end Fork

namespace Expr.Reads

open Fork

variable {fork : Fork}

/-- An expression behind line breaks begins before the fork. -/
theorem before_skipNewlines {power : Nat} {e : Expr} {c c' : Cursor}
    (h : Reads (.expression power) c.skipNewlines e c') (hup : fork.UpTo c') :
    fork.Before c.skipNewlines := Nat.lt_of_le_of_lt hup (h.length_lt rfl)

/-- The value of an argument begins before the fork: an empty one would end at it. -/
theorem before_argumentValue {closer : Closer} {value : Option Expr} {c c' : Cursor}
    (h : Reads (.argumentValue closer) c.settle value c')
    (hexit : fork.Exit (.argumentValue closer) c') : fork.Before c.settle := by
  cases h with
  | noValue hend =>
    rw [settle_settle] at hexit hend
    refine (Stops.upTo hexit.1).before_or.resolve_right fun hat => ?_
    have hneither := hexit.2 ((settle_settle c).symm ▸ hat)
    rw [settle_settle] at hneither
    exact absurd hend (not_or.mpr hneither)
  | value _ hvalue =>
    rw [settle_settle] at hvalue
    exact Nat.lt_of_le_of_lt (Stops.upTo hexit.1) (hvalue.length_lt rfl)

/-- **Reading rows that fork.**  What is read from the first row is read from the second one, but
for the texts, up to the same place. -/
theorem forked {task : Task} {c c' d : Cursor} {result : task.Result}
    (h : Reads task c result c') (hd : fork.Beside c d) (hfits : task.Fits c)
    (hexit : fork.Exit task c') :
    ∃ d', fork.Beside c' d' ∧
      Reads (task.relabel fork.labels) d (task.relabelResult fork.labels result) d' := by
  induction h generalizing d with
  | expression hleft hmore ihleft ihmore =>
    obtain ⟨d₁, hd₁, hleft'⟩ :=
      ihleft hd trivial (Stops.of_reaches hexit hmore.reaches hmore.brackets)
    obtain ⟨d₂, hd₂, hmore'⟩ := ihmore hd₁ trivial hexit
    exact ⟨d₂, hd₂, .expression hleft' hmore'⟩
  | @done power left c hloose =>
    have hstops : fork.Stops c := Stops.of_reaches hexit (reaches_settle c) (brackets_settle c)
    have hsettle := hd.settle_of_stops hstops
    refine ⟨d.settle, hsettle, .done fun step hstep => ?_⟩
    rcases (Stops.upTo hexit).before_or with hbefore | hat
    · rw [hsettle.head hbefore] at hstep
      exact hloose step ((Continuation.ofKind?_relabel fork.labels _).symm.trans hstep)
    · -- What the second row goes on with at the fork goes on with no expression.
      rw [hsettle.head_of_at hat, (Stops.quiet hexit hat).1] at hstep
      cases hstep
  | @call power left e given c c₁ c₂ hkind hpower hgiven hmore ihgiven ihmore =>
    have hup₁ : fork.UpTo c₁ := (Stops.upTo hexit).of_reaches hmore.reaches
    obtain ⟨hkind', hhead, hindex, htaken⟩ := hd.goesOn hkind (hup₁.of_reaches hgiven.reaches)
    obtain ⟨d₁, hd₁, hgiven'⟩ := ihgiven (htaken.enter .round) rfl hup₁
    obtain ⟨d₂, hd₂, hmore'⟩ := ihmore hd₁ trivial hexit
    exact ⟨d₂, hd₂, .call hkind' hpower hgiven'
      (hmore'.of_left (hd₁.close (start_relabel ..) (.call left given)))⟩
  | @index power left e given c c₁ c₂ hkind hpower hgiven hmore ihgiven ihmore =>
    have hup₁ : fork.UpTo c₁ := (Stops.upTo hexit).of_reaches hmore.reaches
    obtain ⟨hkind', hhead, hindex, htaken⟩ := hd.goesOn hkind (hup₁.of_reaches hgiven.reaches)
    obtain ⟨d₁, hd₁, hgiven'⟩ := ihgiven (htaken.enter .round) rfl hup₁
    obtain ⟨d₂, hd₂, hmore'⟩ := ihmore hd₁ trivial hexit
    exact ⟨d₂, hd₂, .index hkind' hpower hgiven'
      (hmore'.of_left (hd₁.close (start_relabel ..) (.index left given false)))⟩
  | @doubleIndex power left e given c c₁ c₂ hkind hpower hgiven hclose hmore ihgiven ihmore =>
    have hup₁ : fork.UpTo c₁.settle.advance := (Stops.upTo hexit).of_reaches hmore.reaches
    have hup : fork.UpTo c₁ := hup₁.of_reaches (reaches_settle_advance c₁)
    obtain ⟨hkind', hhead, hindex, htaken⟩ := hd.goesOn hkind (hup.of_reaches hgiven.reaches)
    obtain ⟨d₁, hd₁, hgiven'⟩ := ihgiven (htaken.enter .round) rfl hup
    obtain ⟨hclose', -, hbehind⟩ := hd₁.takes hclose rfl (by decide) hup₁
    obtain ⟨d₂, hd₂, hmore'⟩ := ihmore hbehind trivial hexit
    exact ⟨d₂, hd₂, .doubleIndex hkind' hpower hgiven' hclose'
      (hmore'.of_left (hbehind.close (start_relabel ..) (.index left given true)))⟩
  | member hkind hpower hmember hmore ihmore =>
    have hup₁ := (Stops.upTo hexit).of_reaches hmore.reaches
    obtain ⟨hkind', -, -, htaken⟩ :=
      hd.goesOn hkind (hup₁.of_reaches (Reads.reaches_readMember hmember))
    obtain ⟨d₁, hd₁, hmember'⟩ := readMember_forked htaken hup₁ hmember
    obtain ⟨d₂, hd₂, hmore'⟩ := ihmore hd₁ trivial hexit
    exact ⟨d₂, hd₂, .member hkind' hpower hmember' hmore'⟩
  | @between power level left right e c c₁ c₂ hkind hpower hright hmore ihright ihmore =>
    have hstops₁ : fork.Stops c₁ := Stops.of_reaches hexit hmore.reaches hmore.brackets
    have hbefore := hright.before_skipNewlines hstops₁.upTo
    obtain ⟨hkind', hhead, hindex, htaken⟩ :=
      hd.goesOn hkind (hbefore.upTo.of_reaches (reaches_skipNewlines _))
    obtain ⟨d₁, hd₁, hright'⟩ := ihright (htaken.skipNewlines (.inl hbefore)) trivial hstops₁
    obtain ⟨d₂, hd₂, hmore'⟩ := ihmore hd₁ trivial hexit
    have hclose := hd₁.close (start_relabel fork.labels left)
      (.between c.settle.head c.settle.index left right)
    rw [Form.map_between, ← Form.between_relabel] at hclose
    refine ⟨d₂, hd₂, .between hkind' hpower hright' (hmore'.of_left ?_)⟩
    rw [hhead, hindex]
    exact hclose
  | @leaf form c hopening =>
    obtain ⟨hopening', -, hindex, htaken⟩ := hd.begins hopening (Stops.upTo hexit)
    have hclose := htaken.close hindex form
    rw [Opening.map_leaf _ _ hopening] at hclose
    exact ⟨_, htaken, (Reads.leaf hopening').of_result hclose⟩
  | name hopening hname =>
    obtain ⟨hopening', hhead, hindex, htaken⟩ := hd.begins hopening
      ((Stops.upTo hexit).of_reaches (Reads.reaches_readName hname))
    obtain ⟨d₁, hd₁, hname'⟩ := readName_forked htaken hexit hname
    exact ⟨d₁, hd₁, .name hopening' (by rwa [hhead, hindex])⟩
  | @paren inner c c₁ hopening hinner hclose ihinner =>
    have hup₁ : fork.UpTo c₁.settle.advance := hexit.upTo
    have hstops₁ : fork.Stops c₁ := hup₁.stops (Lexeme.isTrivia_of_kind hclose rfl)
    obtain ⟨hopening', -, hindex, htaken⟩ :=
      hd.begins hopening (hstops₁.upTo.of_reaches hinner.reaches)
    obtain ⟨d₁, hd₁, hinner'⟩ := ihinner (htaken.enter .round) trivial hstops₁
    obtain ⟨hclose', -, hbehind⟩ := hd₁.takes hclose rfl (by decide) hup₁
    exact ⟨_, hbehind.leave, (Reads.paren hopening' hinner' hclose').of_result
      (hbehind.leave.close hindex (.paren inner))⟩
  | @block body c c₁ hopening hbody ihbody =>
    -- The brace is not taken by the statements.
    have hbrace := hbody.head_of_statements rfl
    have hup₁ : fork.UpTo c₁.advance := hexit.upTo
    have hbefore₁ := hup₁.before_of_advance (by rw [hbrace]; decide)
    obtain ⟨hopening', -, hindex, htaken⟩ :=
      hd.begins hopening (hbefore₁.upTo.of_reaches hbody.reaches)
    obtain ⟨d₁, hd₁, hbody'⟩ := ihbody (htaken.enter .brace) (.inl rfl) hbefore₁
    have hbehind := (hd₁.advance hbefore₁).leave
    exact ⟨_, hbehind, (Reads.block hopening' hbody').of_result
      (hbehind.close hindex (.block body))⟩
  | @sign operator level inner c c₁ hopening hinner ihinner =>
    have hbefore := hinner.before_skipNewlines (Stops.upTo hexit)
    obtain ⟨hopening', hindex, hahead⟩ := hd.beginsAhead hopening (.inl hbefore)
    obtain ⟨d₁, hd₁, hinner'⟩ := ihinner hahead trivial hexit
    exact ⟨d₁, hd₁, (Reads.sign hopening' hinner').of_result
      (hd₁.close hindex (.unary operator inner))⟩
  | @tilde right c c₁ hopening hright ihright =>
    have hbefore := hright.before_skipNewlines (Stops.upTo hexit)
    obtain ⟨hopening', hindex, hahead⟩ := hd.beginsAhead hopening (.inl hbefore)
    obtain ⟨d₁, hd₁, hright'⟩ := ihright hahead trivial hexit
    exact ⟨d₁, hd₁, (Reads.tilde hopening' hright').of_result
      (hd₁.close hindex (.formula none right))⟩
  | @repeatLoop body c c₁ hopening hbody ihbody =>
    have hbefore := hbody.before_skipNewlines (Stops.upTo hexit)
    obtain ⟨hopening', hindex, hahead⟩ := hd.beginsAhead hopening (.inl hbefore)
    obtain ⟨d₁, hd₁, hbody'⟩ := ihbody hahead trivial hexit
    exact ⟨d₁, hd₁, (Reads.repeatLoop hopening' hbody').of_result
      (hd₁.close hindex (.repeatLoop body))⟩
  | @function given body c c₁ c₂ hopening hopen hgiven hbody ihgiven ihbody =>
    have hbefore := hbody.before_skipNewlines (Stops.upTo hexit)
    have hup₁ : fork.UpTo c₁ := hbefore.upTo.of_reaches (reaches_skipNewlines c₁)
    obtain ⟨hopening', hindex, hopen', hinside⟩ :=
      hd.opens hopening hopen (hup₁.of_reaches hgiven.reaches)
    obtain ⟨d₁, hd₁, hgiven'⟩ := ihgiven hinside rfl hup₁
    obtain ⟨d₂, hd₂, hbody'⟩ := ihbody (hd₁.skipNewlines (.inl hbefore)) trivial hexit
    exact ⟨d₂, hd₂, (Reads.function hopening' hopen' hgiven' hbody').of_result
      (hd₂.close hindex (.function given body))⟩
  | @conditional condition consequent alternative c c₁ c₂ c₃ hopening hcondition hconsequent
      halternative ihcondition ihconsequent ihalternative =>
    have hstops₂ : fork.Stops c₂ := Stops.of_reaches hexit halternative.reaches halternative.brackets
    -- An expression comes behind the header, so that the line breaks in front of it have ended.
    have hbefore₁ : fork.Before c₁ := Nat.lt_of_le_of_lt hstops₂.upTo (hconsequent.length_lt rfl)
    obtain ⟨hopening', -, hindex, htaken⟩ :=
      hd.begins hopening (hbefore₁.upTo.of_reaches hcondition.reaches)
    obtain ⟨d₁, hd₁, hcondition'⟩ := ihcondition htaken trivial (.inl hbefore₁)
    obtain ⟨d₂, hd₂, hconsequent'⟩ := ihconsequent hd₁ trivial hstops₂
    obtain ⟨d₃, hd₃, halternative'⟩ := ihalternative hd₂ trivial hexit
    exact ⟨d₃, hd₃, (Reads.conditional hopening' hcondition' hconsequent' halternative').of_result
      (hd₃.close hindex (.conditional condition consequent alternative))⟩
  | @whileLoop condition body c c₁ c₂ hopening hcondition hbody ihcondition ihbody =>
    have hbefore₁ : fork.Before c₁ := Nat.lt_of_le_of_lt (Stops.upTo hexit) (hbody.length_lt rfl)
    obtain ⟨hopening', -, hindex, htaken⟩ :=
      hd.begins hopening (hbefore₁.upTo.of_reaches hcondition.reaches)
    obtain ⟨d₁, hd₁, hcondition'⟩ := ihcondition htaken trivial (.inl hbefore₁)
    obtain ⟨d₂, hd₂, hbody'⟩ := ihbody hd₁ trivial hexit
    exact ⟨d₂, hd₂, (Reads.whileLoop hopening' hcondition' hbody').of_result
      (hd₂.close hindex (.whileLoop condition body))⟩
  | @forLoop sequence body c c₁ c₂ c₃ hopening hopen hinside hcounter hin hsequence hclose hbody
      ihsequence ihbody =>
    subst hinside
    have hbefore := hbody.before_skipNewlines (Stops.upTo hexit)
    have hup₂ : fork.UpTo c₂.settle.advance :=
      hbefore.upTo.of_reaches (reaches_skipNewlines c₂.settle.advance.leave)
    have hstops₂ : fork.Stops c₂ := hup₂.stops (Lexeme.isTrivia_of_kind hclose rfl)
    have hup₁ := hstops₂.upTo.of_reaches hsequence.reaches
    obtain ⟨⟨hopening', hindex⟩, hopen', ⟨hcounter', hhead⟩, htaken⟩ :=
      hd.counts hopening hopen hcounter (hup₁.of_reaches (reaches_settle_advance _))
    obtain ⟨hin', -, hbehind₁⟩ := htaken.takes hin rfl (by decide) hup₁
    obtain ⟨d₂, hd₂, hsequence'⟩ := ihsequence hbehind₁ trivial hstops₂
    obtain ⟨hclose', -, hbehind⟩ := hd₂.takes hclose rfl (by decide) hup₂
    obtain ⟨d₃, hd₃, hbody'⟩ := ihbody (hbehind.leave.skipNewlines (.inl hbefore)) trivial hexit
    refine ⟨d₃, hd₃, (Reads.forLoop hopening' hopen' rfl hcounter' hin' hsequence' hclose'
      hbody').of_result ?_⟩
    rw [hhead, Lexeme.name_relabel]
    exact hd₃.close hindex (.forLoop _ sequence body)
  | @header condition c c₁ hopen hcondition hclose ihcondition =>
    have hup₁ : fork.UpTo c₁.settle.advance :=
      (Lands.upTo hexit).of_reaches (reaches_skipNewlines c₁.settle.advance.leave)
    have hstops₁ : fork.Stops c₁ := hup₁.stops (Lexeme.isTrivia_of_kind hclose rfl)
    obtain ⟨hopen', -, htaken⟩ :=
      hd.takes hopen rfl (by decide) (hstops₁.upTo.of_reaches hcondition.reaches)
    obtain ⟨d₁, hd₁, hcondition'⟩ := ihcondition (htaken.enter .round) trivial hstops₁
    obtain ⟨hclose', -, hbehind⟩ := hd₁.takes hclose rfl (by decide) hup₁
    exact ⟨_, hbehind.leave.skipNewlines hexit, .header hopen' hcondition' hclose'⟩
  | @elseBranch branch c c₁ helse hbranch ihbranch =>
    have hbefore := hbranch.before_skipNewlines (Stops.upTo hexit)
    have htaken : fork.Before c.beforeElse :=
      (hbefore.upTo.of_reaches (reaches_skipNewlines _)).before_of_advance (by rw [helse]; decide)
    have hahead := hd.beforeElse (.inl htaken)
    obtain ⟨d₁, hd₁, hbranch'⟩ :=
      ihbranch ((hahead.advance htaken).skipNewlines (.inl hbefore)) trivial hexit
    exact ⟨d₁, hd₁, .elseBranch ((hahead.kind_iff htaken rfl).mpr helse) hbranch'⟩
  | @noElse c helse =>
    have hahead := hd.beforeElse hexit
    refine ⟨d, hd, .noElse ?_⟩
    rcases hexit with hbefore | ⟨hat, hquiet, -⟩
    · exact mt (hahead.kind_iff hbefore rfl).mp helse
    · rw [hahead.head_of_at hat]
      exact hquiet.2.2.2.1
  | @noStatements terminator c hend =>
    have hskip := hd.skipSeparators (.inl hexit)
    exact ⟨_, hskip, .noStatements ((hskip.kind_iff hexit (isString_of_fits hfits)).mpr hend)⟩
  | @statement terminator first others c c₁ c₂ hgo hfirst hend hothers ihfirst ihothers =>
    have hplain := isString_of_fits hfits
    have hahead₁ : fork.Before c₁.skipSeparators := Before.of_reaches hexit hothers.reaches_statements
    have hbefore₁ : fork.Before c₁ := hahead₁.of_reaches (reaches_skipSeparators c₁)
    have hbefore : fork.Before c.skipSeparators := hbefore₁.of_reaches hfirst.reaches
    have hskip := hd.skipSeparators (.inl hbefore)
    obtain ⟨d₁, hd₁, hfirst'⟩ := ihfirst hskip trivial
      (.of_ahead (reaches_beforeElse_skipSeparators c₁) (.inl hahead₁))
    obtain ⟨d₂, hd₂, hothers'⟩ := ihothers hd₁ hfits hexit
    exact ⟨d₂, hd₂, .statement (mt (hskip.kind_iff hbefore hplain).mp hgo) hfirst'
      (expectEnd_forked hd₁ hplain hbefore₁ hend) hothers'⟩
  | noArguments hclose =>
    obtain ⟨hclose', -, hbehind⟩ :=
      hd.takes hclose (Closer.isString_kind _) (Closer.kind_ne_endOfInput _) hexit
    exact ⟨_, hbehind.leave, .noArguments hclose'⟩
  | @someArguments closer given c c₁ hgo hgiven ihgiven =>
    have hbefore : fork.Before c.settle := Nat.lt_of_le_of_lt hexit (hgiven.length_lt rfl)
    have hsettle := hd.settle_of_lands (.inl hbefore)
    obtain ⟨d₁, hd₁, hgiven'⟩ := ihgiven hsettle (by rwa [Task.Fits, brackets_settle]) hexit
    exact ⟨d₁, hd₁, .someArguments
      (mt (hsettle.kind_iff hbefore (Closer.isString_kind _)).mp hgo) hgiven'⟩
  | @lastArgument closer first c c₁ hfirst hclose ihfirst =>
    obtain ⟨d₁, hd₁, hfirst'⟩ :=
      ihfirst hd hfits (UpTo.exit_argument hexit (Closer.isTrivia_eq_false _ hclose))
    obtain ⟨hclose', -, hbehind⟩ :=
      hd₁.takes hclose (Closer.isString_kind _) (Closer.kind_ne_endOfInput _) hexit
    exact ⟨_, hbehind.leave, .lastArgument hfirst' hclose'⟩
  | @moreArguments closer first others c c₁ c₂ hfirst hcomma hothers ihfirst ihothers =>
    have hup₁ : fork.UpTo c₁.settle.advance := UpTo.of_reaches hexit hothers.reaches
    obtain ⟨d₁, hd₁, hfirst'⟩ :=
      ihfirst hd hfits (hup₁.exit_argument (Lexeme.isTrivia_of_kind hcomma rfl))
    obtain ⟨hcomma', -, hbehind⟩ := hd₁.takes hcomma rfl (by decide) hup₁
    have hbrackets : c₁.settle.advance.brackets = c.brackets := by
      rw [brackets_advance, brackets_settle]
      exact hfirst.brackets
    obtain ⟨d₂, hd₂, hothers'⟩ := ihothers hbehind (by rwa [Task.Fits, hbrackets]) hexit
    exact ⟨d₂, hd₂, .moreArguments hfirst' hcomma' hothers'⟩
  | @namedArgument closer name value c c₁ hname hequal hvalue ihvalue =>
    obtain ⟨hname', hequal', hbehind⟩ :=
      hd.named hfits hname hequal ((Stops.upTo hexit.1).of_reaches hvalue.reaches)
    obtain ⟨d₁, hd₁, hvalue'⟩ := ihvalue hbehind
      (by rwa [Task.Fits, brackets_advance, brackets_settle, brackets_advance, brackets_settle]) hexit
    exact ⟨d₁, hd₁, .namedArgument hname' hequal' hvalue'⟩
  | @plainArgument closer value c c₁ hplain hvalue ihvalue =>
    have hround : c.settle.brackets.head? = some .round := by rwa [brackets_settle]
    have hsettle := hd.settle_of_stops
      (Stops.of_reaches hexit.1 ((reaches_settle c).trans hvalue.reaches)
        (hvalue.brackets.trans (brackets_settle c)))
    obtain ⟨d₁, hd₁, hvalue'⟩ := ihvalue hsettle hround hexit
    refine ⟨d₁, hd₁, .plainArgument (Decidable.or_iff_not_imp_left.mpr fun hname' => ?_) hvalue'⟩
    have hbefore : fork.Before c.settle := hvalue.before_argumentValue hexit
    rw [hsettle.head hbefore, argumentName?_relabel, Option.map_eq_none_iff] at hname'
    obtain ⟨name, hname⟩ := Option.ne_none_iff_exists'.mp hname'
    have hbehind := hvalue.reaches.advance (hvalue.length_lt_of_argumentName? hname)
    -- The value is the name itself, or begins with it, so that something comes behind the name.
    refine hsettle.secondKind?_ne hbefore (kind_ne_endOfInput_of_argumentName? hname)
      (brackets_ne_nil hround) (Stops.of_reaches hexit.1 hbehind ?_) (hplain.resolve_left hname')
    rw [brackets_advance]
    exact hvalue.brackets
  | @noValue closer c hend =>
    have hround : c.settle.brackets.head? = some .round := by rwa [brackets_settle]
    have hsettle := hd.settle_of_stops
      (Stops.of_reaches hexit.1 (reaches_settle c) (brackets_settle c))
    refine ⟨_, hsettle, .noValue ?_⟩
    rcases (Stops.upTo hexit.1).before_or with hbefore | hat
    · exact hend.imp (hsettle.kind_iff hbefore rfl).mpr
        (hsettle.kind_iff hbefore (Closer.isString_kind _)).mpr
    · -- At the fork the argument would not have been empty.
      have hneither := hexit.2 ((settle_settle c).symm ▸ hat)
      rw [settle_settle] at hneither
      exact absurd hend (not_or.mpr hneither)
  | @value closer value c c₁ hgo hvalue ihvalue =>
    have hbefore : fork.Before c.settle :=
      Nat.lt_of_le_of_lt (Stops.upTo hexit.1) (hvalue.length_lt rfl)
    have hsettle := hd.settle_of_lands (.inl hbefore)
    obtain ⟨d₁, hd₁, hvalue'⟩ := ihvalue hsettle trivial hexit.1
    refine ⟨d₁, hd₁, .value ?_ hvalue'⟩
    rwa [hsettle.kind_iff hbefore rfl, hsettle.kind_iff hbefore (Closer.isString_kind _)]
  | noParameters hclose =>
    obtain ⟨hclose', -, hbehind⟩ := hd.takes hclose rfl (by decide) hexit
    exact ⟨_, hbehind.leave, .noParameters hclose'⟩
  | @someParameters given c c₁ hgo hgiven ihgiven =>
    have hbefore : fork.Before c.settle := Nat.lt_of_le_of_lt hexit (hgiven.length_lt rfl)
    have hsettle := hd.settle_of_lands (.inl hbefore)
    obtain ⟨d₁, hd₁, hgiven'⟩ := ihgiven hsettle (by rwa [Task.Fits, brackets_settle]) hexit
    exact ⟨d₁, hd₁, .someParameters (mt (hsettle.kind_iff hbefore rfl).mp hgo) hgiven'⟩
  | @lastParameter fallback c c₁ hname hfallback hclose ihfallback =>
    have hstops : fork.Stops c₁ := UpTo.stops hexit (Lexeme.isTrivia_of_kind hclose rfl)
    obtain ⟨hname', hhead, htaken⟩ :=
      hd.takes hname rfl (by decide) (hstops.upTo.of_reaches hfallback.reaches)
    obtain ⟨d₁, hd₁, hfallback'⟩ :=
      ihfallback htaken (by rwa [Task.Fits, brackets_advance, brackets_settle]) hstops
    obtain ⟨hclose', -, hbehind⟩ := hd₁.takes hclose rfl (by decide) hexit
    refine ⟨_, hbehind.leave, (Reads.lastParameter hname' hfallback' hclose').of_result ?_⟩
    rw [hhead, Lexeme.name_relabel]
    rfl
  | @moreParameters fallback others c c₁ c₂ hname hfallback hcomma hothers ihfallback ihothers =>
    have hup₁ : fork.UpTo c₁.settle.advance := UpTo.of_reaches hexit hothers.reaches
    have hstops : fork.Stops c₁ := hup₁.stops (Lexeme.isTrivia_of_kind hcomma rfl)
    obtain ⟨hname', hhead, htaken⟩ :=
      hd.takes hname rfl (by decide) (hstops.upTo.of_reaches hfallback.reaches)
    obtain ⟨d₁, hd₁, hfallback'⟩ :=
      ihfallback htaken (by rwa [Task.Fits, brackets_advance, brackets_settle]) hstops
    obtain ⟨hcomma', -, hbehind⟩ := hd₁.takes hcomma rfl (by decide) hup₁
    have hbrackets : c₁.settle.advance.brackets = c.brackets := by
      rw [brackets_advance, brackets_settle]
      exact hfallback.brackets.trans (by rw [brackets_advance, brackets_settle]; rfl)
    obtain ⟨d₂, hd₂, hothers'⟩ := ihothers hbehind (by rwa [Task.Fits, hbrackets]) hexit
    refine ⟨d₂, hd₂, (Reads.moreParameters hname' hfallback' hcomma' hothers').of_result ?_⟩
    rw [hhead, Lexeme.name_relabel]
    rfl
  | @fallback value c c₁ hequal hvalue ihvalue =>
    obtain ⟨hequal', -, htaken⟩ :=
      hd.takes hequal rfl (by decide) ((Stops.upTo hexit).of_reaches hvalue.reaches)
    obtain ⟨d₁, hd₁, hvalue'⟩ := ihvalue htaken trivial hexit
    exact ⟨d₁, hd₁, .fallback hequal' hvalue'⟩
  | @noFallback c hequal =>
    have hsettle := hd.settle_of_stops
      (Stops.of_reaches hexit (reaches_settle c) (brackets_settle c))
    refine ⟨_, hsettle, .noFallback ?_⟩
    rcases (Stops.upTo hexit).before_or with hbefore | hat
    · exact mt (hsettle.kind_iff hbefore rfl).mp hequal
    · rw [hsettle.head_of_at hat]
      exact (Stops.quiet hexit hat).ne_equalAssign

end Expr.Reads
end TypeDrift
