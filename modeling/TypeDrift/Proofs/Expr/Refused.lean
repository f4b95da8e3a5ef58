import TypeDrift.Proofs.Expr.Append
import TypeDrift.Proofs.Expr.Entry
import TypeDrift.Proofs.Expr.Forked

/-! # Refusals from rows that fork

A failure is a chain of calls, each of which has read something before it makes the next one.  All of
that lies before the place of the failure, as no call in the chain fails before its entry.  So when that
place comes before the fork, every reading on the way is one that is the same from both rows, and the
whole chain is there in the second row too (`Refuses.forked`).
-/
namespace TypeDrift

open Cursor Expr

namespace Expr

/-- A call is made where it fits, if the one that makes it was. -/
theorem Calls.fits {task task' : Task} {c c' : Cursor} {later : List Kind}
    (h : Calls task c task' c' later) (hfits : task.Fits c) : task'.Fits c' := by
  cases h with
  | someArguments | firstArgument | namedValue | plainValue | someParameters | parameterFallback =>
    simpa [Task.Fits] using hfits
  | otherArguments hfirst =>
    have hbrackets := hfirst.brackets
    simpa [Task.Fits, hbrackets, Task.closes] using hfits
  | otherParameters _ hfallback =>
    have hbrackets := hfallback.brackets
    simpa [Task.Fits, hbrackets, Task.closes] using hfits
  | otherStatements => exact hfits
  | blockBody => exact .inl rfl
  | callArguments | indexArguments | functionParameters => rfl
  | _ => trivial

end Expr

/-! ## Chains of calls in both rows -/

namespace Fork

variable {fork : Fork}

/-- A call can be made here in both rows: it does not fail before the fork, or it comes to the fork and
the second row goes on with a name.  The header of a branch or of a loop has something before it that
has been taken. -/
def Ready (fork : Fork) (task : Task) (c : Cursor) : Prop :=
  fork.Before (task.entry c) ∨
    (task.entry c).rest.length = fork.first.length ∧ (task ≠ .header → fork.Resumes)

theorem Ready.upTo {task : Task} {c : Cursor} (h : fork.Ready task c) : fork.UpTo c :=
  UpTo.of_reaches (h.elim Before.upTo fun hat => Nat.le_of_eq hat.1.symm) (task.reaches_entry c)

theorem Ready.length_le {task : Task} {c : Cursor} (h : fork.Ready task c) :
    fork.first.length ≤ (task.entry c).rest.length :=
  h.elim Nat.le_of_lt fun hat => Nat.le_of_eq hat.1.symm

theorem Ready.before_or {task : Task} {c : Cursor} (h : fork.Ready task c) (htask : task ≠ .header) :
    fork.Before (task.entry c) ∨
      (task.entry c).rest.length = fork.first.length ∧ fork.Resumes :=
  h.imp_right fun hat => ⟨hat.1, hat.2 htask⟩

theorem Resumes.lands (h : fork.Resumes) {c : Cursor} (hat : c.rest.length = fork.first.length) :
    fork.Lands c := by
  refine .inr ⟨hat, ?_⟩
  rw [h.kind_head]
  exact ⟨nofun, nofun⟩

theorem Lands.of_place {c : Cursor}
    (h : fork.Before c ∨ c.rest.length = fork.first.length ∧ fork.Resumes) : fork.Lands c :=
  h.elim .inl fun hat => hat.2.lands hat.1

theorem Ready.lands {power : Nat} {c : Cursor} (h : fork.Ready (.expression power) c) :
    fork.Lands c := .of_place (h.before_or (by simp))

theorem Ready.stops {power : Nat} {left : Expr} {c : Cursor}
    (h : fork.Ready (.continuation power left) c) : fork.Stops c :=
  .of_ahead (reaches_beforeElse_skipNewlines c) (h.before_or (by simp))

/-- Inside a bracket that ignores line breaks, an expression may stop in front of them. -/
theorem Stops.of_round {c : Cursor} (hround : c.brackets.head? = some .round)
    (h : fork.Before c.settle) : fork.Stops c := by
  rw [settle_eq hround] at h
  exact .of_ahead (reaches_beforeElse_skipNewlines c) (.inl h)

/-- A lexeme is not of the kind that it is not of in the first row, nor a name of that kind. -/
theorem Beside.kind_ne {c d : Cursor} (hd : fork.Beside c d) {kind : Kind}
    (hplain : kind.isString = false) (hname : kind ≠ .identifier)
    (hplace : fork.Before c ∨ c.rest.length = fork.first.length ∧ fork.Resumes)
    (h : c.head.kind ≠ kind) : d.head.kind ≠ kind := by
  rcases hplace with hbefore | ⟨hat, hresumes⟩
  · exact mt (hd.kind_iff hbefore hplain).mp h
  · rw [hd.head_of_at hat, hresumes.kind_head]
    exact hname.symm

end Fork

namespace Expr

open Fork

variable {fork : Fork}

theorem Calls.of_left {task : Task} {power : Nat} {left left' : Expr} {c c' : Cursor}
    {later : List Kind} (h : Calls task c (.continuation power left) c' later)
    (hleft : left = left') : Calls task c (.continuation power left') c' later := hleft ▸ h

/-- What is called in the first row is called in the second one. -/
theorem Calls.forked {task task' : Task} {c c' d : Cursor} {later : List Kind}
    (h : Calls task c task' c' later) (hd : fork.Beside c d) (hfits : task.Fits c)
    (hready : fork.Ready task' c') :
    ∃ d', fork.Beside c' d' ∧
      Calls (task.relabel fork.labels) d (task'.relabel fork.labels) d' later := by
  cases h with
  | operand => exact ⟨d, hd, .operand⟩
  | continuation hleft =>
    obtain ⟨d₁, hd₁, hleft'⟩ := hleft.forked hd trivial hready.stops
    exact ⟨d₁, hd₁, .continuation hleft'⟩
  | callArguments hkind hpower =>
    obtain ⟨hkind', -, -, htaken⟩ := hd.goesOn hkind hready.upTo
    exact ⟨_, htaken.enter .round, .callArguments hkind' hpower⟩
  | @callMore power left given _ _ hkind hpower hgiven =>
    obtain ⟨hkind', -, -, htaken⟩ := hd.goesOn hkind (hready.upTo.of_reaches hgiven.reaches)
    obtain ⟨d₁, hd₁, hgiven'⟩ := hgiven.forked (htaken.enter .round) rfl hready.upTo
    exact ⟨d₁, hd₁, (Calls.callMore hkind' hpower hgiven').of_left
      (hd₁.close (start_relabel ..) (.call left given))⟩
  | indexArguments hkind hpower =>
    obtain ⟨hkind', -, -, htaken⟩ := hd.goesOn hkind hready.upTo
    exact ⟨_, htaken.enter .round, .indexArguments hkind' hpower⟩
  | @indexMore power left given _ _ hkind hpower hgiven =>
    obtain ⟨hkind', -, -, htaken⟩ := hd.goesOn hkind (hready.upTo.of_reaches hgiven.reaches)
    obtain ⟨d₁, hd₁, hgiven'⟩ := hgiven.forked (htaken.enter .round) rfl hready.upTo
    exact ⟨d₁, hd₁, (Calls.indexMore hkind' hpower hgiven').of_left
      (hd₁.close (start_relabel ..) (.index left given false))⟩
  | @doubleIndexMore power left given _ c₁ hkind hpower hgiven hclose =>
    have hup : fork.UpTo c₁ := hready.upTo.of_reaches (reaches_settle_advance c₁)
    obtain ⟨hkind', -, -, htaken⟩ := hd.goesOn hkind (hup.of_reaches hgiven.reaches)
    obtain ⟨d₁, hd₁, hgiven'⟩ := hgiven.forked (htaken.enter .round) rfl hup
    obtain ⟨hclose', -, hbehind⟩ := hd₁.takes hclose rfl (by decide) hready.upTo
    exact ⟨_, hbehind, (Calls.doubleIndexMore hkind' hpower hgiven' hclose').of_left
      (hbehind.close (start_relabel ..) (.index left given true))⟩
  | memberMore hkind hpower hmember =>
    obtain ⟨hkind', -, -, htaken⟩ :=
      hd.goesOn hkind (hready.upTo.of_reaches (Reads.reaches_readMember hmember))
    obtain ⟨d₁, hd₁, hmember'⟩ := readMember_forked htaken hready.upTo hmember
    exact ⟨d₁, hd₁, .memberMore hkind' hpower hmember'⟩
  | betweenRight hkind hpower =>
    obtain ⟨hkind', -, -, htaken⟩ :=
      hd.goesOn hkind (hready.upTo.of_reaches (reaches_skipNewlines _))
    exact ⟨_, htaken.skipNewlines hready.lands, .betweenRight hkind' hpower⟩
  | @betweenMore power level left right _ _ hkind hpower hright =>
    have hbefore := hright.before_skipNewlines hready.upTo
    obtain ⟨hkind', hhead, hindex, htaken⟩ :=
      hd.goesOn hkind (hbefore.upTo.of_reaches (reaches_skipNewlines _))
    obtain ⟨d₁, hd₁, hright'⟩ :=
      hright.forked (htaken.skipNewlines (.inl hbefore)) trivial hready.stops
    have hclose := hd₁.close (start_relabel fork.labels left)
      (.between c.settle.head c.settle.index left right)
    rw [Form.map_between, ← Form.between_relabel] at hclose
    refine ⟨d₁, hd₁, (Calls.betweenMore hkind' hpower hright').of_left ?_⟩
    rw [hhead, hindex]
    exact hclose
  | parenInner hopening =>
    obtain ⟨hopening', -, -, htaken⟩ := hd.begins hopening hready.upTo
    exact ⟨_, htaken.enter .round, .parenInner hopening'⟩
  | blockBody hopening =>
    obtain ⟨hopening', -, -, htaken⟩ := hd.begins hopening hready.upTo
    exact ⟨_, htaken.enter .brace, .blockBody hopening'⟩
  | signInner hopening =>
    obtain ⟨hopening', -, hahead⟩ := hd.beginsAhead hopening hready.lands
    exact ⟨_, hahead, .signInner hopening'⟩
  | tildeRight hopening =>
    obtain ⟨hopening', -, hahead⟩ := hd.beginsAhead hopening hready.lands
    exact ⟨_, hahead, .tildeRight hopening'⟩
  | repeatBody hopening =>
    obtain ⟨hopening', -, hahead⟩ := hd.beginsAhead hopening hready.lands
    exact ⟨_, hahead, .repeatBody hopening'⟩
  | functionParameters hopening hopen =>
    obtain ⟨hopening', -, hopen', hinside⟩ := hd.opens hopening hopen hready.upTo
    exact ⟨_, hinside, .functionParameters hopening' hopen'⟩
  | @functionBody given _ c₁ hopening hopen hgiven =>
    have hup₁ : fork.UpTo c₁ := hready.upTo.of_reaches (reaches_skipNewlines c₁)
    obtain ⟨hopening', -, hopen', hinside⟩ :=
      hd.opens hopening hopen (hup₁.of_reaches hgiven.reaches)
    obtain ⟨d₁, hd₁, hgiven'⟩ := hgiven.forked hinside rfl hup₁
    exact ⟨_, hd₁.skipNewlines hready.lands, .functionBody hopening' hopen' hgiven'⟩
  | conditionalHeader hopening =>
    obtain ⟨hopening', -, -, htaken⟩ := hd.begins hopening hready.upTo
    exact ⟨_, htaken, .conditionalHeader hopening'⟩
  | conditionalConsequent hopening hcondition =>
    obtain ⟨hopening', -, -, htaken⟩ :=
      hd.begins hopening (hready.upTo.of_reaches hcondition.reaches)
    obtain ⟨d₁, hd₁, hcondition'⟩ := hcondition.forked htaken trivial hready.lands
    exact ⟨d₁, hd₁, .conditionalConsequent hopening' hcondition'⟩
  | @conditionalAlternative condition consequent _ c₁ _ hopening hcondition hconsequent =>
    have hstops : fork.Stops c' :=
      .of_ahead (reaches_beforeElse_skipNewlines c') (hready.before_or (by simp))
    have hbefore₁ : fork.Before c₁ := Nat.lt_of_le_of_lt hstops.upTo (hconsequent.length_lt rfl)
    obtain ⟨hopening', -, -, htaken⟩ :=
      hd.begins hopening (hbefore₁.upTo.of_reaches hcondition.reaches)
    obtain ⟨d₁, hd₁, hcondition'⟩ := hcondition.forked htaken trivial (.inl hbefore₁)
    obtain ⟨d₂, hd₂, hconsequent'⟩ := hconsequent.forked hd₁ trivial hstops
    exact ⟨d₂, hd₂, .conditionalAlternative hopening' hcondition' hconsequent'⟩
  | forSequence hopening hopen hinside hcounter hin =>
    subst hinside
    obtain ⟨⟨hopening', -⟩, hopen', ⟨hcounter', -⟩, htaken⟩ :=
      hd.counts hopening hopen hcounter (hready.upTo.of_reaches (reaches_settle_advance _))
    obtain ⟨hin', -, hbehind⟩ := htaken.takes hin rfl (by decide) hready.upTo
    exact ⟨_, hbehind, .forSequence hopening' hopen' rfl hcounter' hin'⟩
  | @forBody sequence _ _ c₂ hopening hopen hinside hcounter hin hsequence hclose =>
    subst hinside
    have hup₂ : fork.UpTo c₂.settle.advance :=
      hready.upTo.of_reaches (reaches_skipNewlines c₂.settle.advance.leave)
    have hstops₂ : fork.Stops c₂ := hup₂.stops (Lexeme.isTrivia_of_kind hclose rfl)
    have hup₁ := hstops₂.upTo.of_reaches hsequence.reaches
    obtain ⟨⟨hopening', -⟩, hopen', ⟨hcounter', -⟩, htaken⟩ :=
      hd.counts hopening hopen hcounter (hup₁.of_reaches (reaches_settle_advance _))
    obtain ⟨hin', -, hbehind₁⟩ := htaken.takes hin rfl (by decide) hup₁
    obtain ⟨d₂, hd₂, hsequence'⟩ := hsequence.forked hbehind₁ trivial hstops₂
    obtain ⟨hclose', -, hbehind⟩ := hd₂.takes hclose rfl (by decide) hup₂
    exact ⟨_, hbehind.leave.skipNewlines hready.lands,
      .forBody hopening' hopen' rfl hcounter' hin' hsequence' hclose'⟩
  | whileHeader hopening =>
    obtain ⟨hopening', -, -, htaken⟩ := hd.begins hopening hready.upTo
    exact ⟨_, htaken, .whileHeader hopening'⟩
  | whileBody hopening hcondition =>
    obtain ⟨hopening', -, -, htaken⟩ :=
      hd.begins hopening (hready.upTo.of_reaches hcondition.reaches)
    obtain ⟨d₁, hd₁, hcondition'⟩ := hcondition.forked htaken trivial hready.lands
    exact ⟨d₁, hd₁, .whileBody hopening' hcondition'⟩
  | headerCondition hopen =>
    obtain ⟨hopen', -, htaken⟩ := hd.takes hopen rfl (by decide) hready.upTo
    exact ⟨_, htaken.enter .round, .headerCondition hopen'⟩
  | elseBranch helse =>
    have hbefore : fork.Before c.beforeElse :=
      (hready.upTo.of_reaches (reaches_skipNewlines _)).before_of_advance (by rw [helse]; decide)
    have hahead := hd.beforeElse (.inl hbefore)
    exact ⟨_, (hahead.advance hbefore).skipNewlines hready.lands,
      .elseBranch ((hahead.kind_iff hbefore rfl).mpr helse)⟩
  | firstStatement hgo =>
    have hskip := hd.skipSeparators hready.lands
    refine ⟨_, hskip, .firstStatement (hskip.kind_ne (isString_of_fits hfits) ?_
      (hready.before_or (by simp)) hgo)⟩
    rcases hfits with rfl | rfl <;> simp
  | @otherStatements terminator first _ c₁ hgo hfirst hend hmore =>
    have hplain := isString_of_fits hfits
    have hname : terminator ≠ .identifier := by rcases hfits with rfl | rfl <;> simp
    have hplace := hready.before_or (by simp)
    have hbefore₁ : fork.Before c' := by
      refine hready.upTo.before_or.resolve_right fun hat => ?_
      have hlength := hready.length_le
      have hahead := length_skipSeparators_lt hend hmore
      simp only [Task.entry] at hlength
      omega
    have hbefore : fork.Before c.skipSeparators := hbefore₁.of_reaches hfirst.reaches
    have hskip := hd.skipSeparators (.inl hbefore)
    obtain ⟨d₁, hd₁, hfirst'⟩ :=
      hfirst.forked hskip trivial (.of_ahead (reaches_beforeElse_skipSeparators c') hplace)
    have hskip₁ := hd₁.skipSeparators (.of_place hplace)
    exact ⟨d₁, hd₁, .otherStatements (mt (hskip.kind_iff hbefore hplain).mp hgo) hfirst'
      (expectEnd_forked hd₁ hplain hbefore₁ hend) (hskip₁.kind_ne hplain hname hplace hmore)⟩
  | @someArguments closer _ hgo =>
    have hplace := hready.before_or (by simp)
    have hsettle := hd.settle_of_lands (.of_place hplace)
    exact ⟨_, hsettle, .someArguments (hsettle.kind_ne (Closer.isString_kind _)
      (Closer.kind_ne_identifier _) hplace hgo)⟩
  | firstArgument => exact ⟨d, hd, .firstArgument⟩
  | @otherArguments closer first _ c₁ hfirst hcomma =>
    have hup : fork.UpTo c₁.settle.advance := hready.upTo
    obtain ⟨d₁, hd₁, hfirst'⟩ :=
      hfirst.forked hd hfits (hup.exit_argument (Lexeme.isTrivia_of_kind hcomma rfl))
    obtain ⟨hcomma', -, hbehind⟩ := hd₁.takes hcomma rfl (by decide) hup
    exact ⟨_, hbehind, .otherArguments hfirst' hcomma'⟩
  | @namedValue closer name _ hname hequal =>
    obtain ⟨hname', hequal', hbehind⟩ := hd.named hfits hname hequal hready.upTo
    exact ⟨_, hbehind, .namedValue hname' hequal'⟩
  | @plainValue closer _ hplain =>
    have hplace := hready.before_or (by simp)
    simp only [Task.entry, settle_settle] at hplace
    cases hname : argumentName? c.settle.head with
    | none =>
      rw [hname, if_neg (by simp)] at hplace
      have hsettle := hd.settle_of_lands (.of_place hplace)
      refine ⟨_, hsettle, .plainValue ?_⟩
      rcases hplace with hbefore | ⟨hat, hresumes⟩
      · left
        rw [hsettle.head hbefore, argumentName?_relabel, hname, Option.map_none]
      · -- The name at the fork does not name an argument.
        obtain ⟨lexeme, rest, hsecond, -, hequal⟩ := hresumes
        right
        rwa [secondKind?, hsettle.rest_of_at hat, hsecond]
    | some name =>
      rw [hname, if_pos Option.isSome_some] at hplace
      have hend := kind_ne_endOfInput_of_argumentName? hname
      have hround : c.settle.brackets.head? = some .round := by rwa [brackets_settle]
      have hbefore : fork.Before c.settle :=
        ((Lands.of_place hplace).upTo.of_reaches (reaches_skipNewlines _)).before_of_advance hend
      have hsettle := hd.settle_of_lands (.inl hbefore)
      exact ⟨_, hsettle, .plainValue (.inr (hsettle.secondKind?_ne hbefore hend
        (brackets_ne_nil hround) (.of_ahead (reaches_beforeElse_skipNewlines _) hplace)
        (hplain.resolve_left (by simp [hname]))))⟩
  | @value closer _ hgo =>
    have hplace := hready.before_or (by simp)
    have hsettle := hd.settle_of_lands (.of_place hplace)
    obtain ⟨hcomma, hclose⟩ := not_or.mp hgo
    exact ⟨_, hsettle, .value (not_or.mpr ⟨hsettle.kind_ne rfl (by simp) hplace hcomma,
      hsettle.kind_ne (Closer.isString_kind _) (Closer.kind_ne_identifier _) hplace hclose⟩)⟩
  | someParameters hgo =>
    have hplace := hready.before_or (by simp)
    have hsettle := hd.settle_of_lands (.of_place hplace)
    exact ⟨_, hsettle, .someParameters (hsettle.kind_ne rfl (by simp) hplace hgo)⟩
  | parameterFallback hname =>
    obtain ⟨hname', -, htaken⟩ := hd.takes hname rfl (by decide) hready.upTo
    exact ⟨_, htaken, .parameterFallback hname'⟩
  | @otherParameters fallback _ c₁ hname hfallback hcomma =>
    have hup : fork.UpTo c₁.settle.advance := hready.upTo
    have hstops : fork.Stops c₁ := hup.stops (Lexeme.isTrivia_of_kind hcomma rfl)
    obtain ⟨hname', -, htaken⟩ :=
      hd.takes hname rfl (by decide) (hstops.upTo.of_reaches hfallback.reaches)
    obtain ⟨d₁, hd₁, hfallback'⟩ :=
      hfallback.forked htaken (by rwa [Task.Fits, brackets_advance, brackets_settle]) hstops
    obtain ⟨hcomma', -, hbehind⟩ := hd₁.takes hcomma rfl (by decide) hup
    exact ⟨_, hbehind, .otherParameters hname' hfallback' hcomma'⟩
  | fallbackValue hequal =>
    obtain ⟨hequal', -, htaken⟩ := hd.takes hequal rfl (by decide) hready.upTo
    exact ⟨_, htaken, .fallbackValue hequal'⟩

/-- What is stuck before the fork is stuck there in both rows. -/
theorem Stuck.forked {task : Task} {c e d : Cursor} (h : Stuck task c e) (hd : fork.Beside c d)
    (hfits : task.Fits c) (hbefore : fork.Before e) :
    ∃ e', fork.Beside e e' ∧ Stuck (task.relabel fork.labels) d e' := by
  cases h with
  | operand hnone =>
    have hsettle := hd.settle_of_lands (.inl hbefore)
    refine ⟨_, hsettle, .operand ?_⟩
    rw [hsettle.head hbefore, Opening.ofLexeme?_relabel, hnone, Option.map_none]
  | name hopening hcolons hname =>
    have hplace : fork.Before c.settle.advance :=
      hbefore.of_reaches ((reaches_advance _).trans (reaches_settle _))
    obtain ⟨hopening', -, -, htaken⟩ := hd.begins hopening hplace.upTo
    have hbehind := (htaken.advance hplace).settle_of_lands (.inl hbefore)
    refine ⟨_, hbehind, .name hopening' (hcolons.imp (htaken.kind_iff hplace rfl).mpr
      (htaken.kind_iff hplace rfl).mpr) ?_⟩
    rw [hbehind.head hbefore, memberName?_relabel, hname, Option.map_none]
  | member hkind hpower hname =>
    obtain ⟨hkind', -, -, htaken⟩ :=
      hd.goesOn hkind (hbefore.upTo.of_reaches (reaches_skipNewlines _))
    have hskip := htaken.skipNewlines (.inl hbefore)
    refine ⟨_, hskip, .member hkind' hpower ?_⟩
    rw [hskip.head hbefore, memberName?_relabel, hname, Option.map_none]
  | @doubleIndex _ _ given _ c₁ hkind hpower hgiven hclose =>
    have hup : fork.UpTo c₁ := hbefore.upTo.of_reaches (reaches_settle c₁)
    obtain ⟨hkind', -, -, htaken⟩ := hd.goesOn hkind (hup.of_reaches hgiven.reaches)
    obtain ⟨d₁, hd₁, hgiven'⟩ := hgiven.forked (htaken.enter .round) rfl hup
    have hsettle := hd₁.settle_of_lands (.inl hbefore)
    exact ⟨_, hsettle, .doubleIndex hkind' hpower hgiven' (mt (hsettle.kind_iff hbefore rfl).mp hclose)⟩
  | @paren inner _ c₁ hopening hinner hclose =>
    have hstops : fork.Stops c₁ := .of_round (by rw [hinner.brackets]; rfl) hbefore
    obtain ⟨hopening', -, -, htaken⟩ :=
      hd.begins hopening (hstops.upTo.of_reaches hinner.reaches)
    obtain ⟨d₁, hd₁, hinner'⟩ := hinner.forked (htaken.enter .round) trivial hstops
    have hsettle := hd₁.settle_of_lands (.inl hbefore)
    exact ⟨_, hsettle, .paren hopening' hinner' (mt (hsettle.kind_iff hbefore rfl).mp hclose)⟩
  | functionOpen hopening hopen =>
    obtain ⟨hopening', -, -, htaken⟩ :=
      hd.begins hopening (hbefore.upTo.of_reaches (reaches_settle _))
    have hsettle := htaken.settle_of_lands (.inl hbefore)
    exact ⟨_, hsettle, .functionOpen hopening' (mt (hsettle.kind_iff hbefore rfl).mp hopen)⟩
  | forOpen hopening hopen =>
    obtain ⟨hopening', -, -, htaken⟩ :=
      hd.begins hopening (hbefore.upTo.of_reaches (reaches_settle _))
    have hsettle := htaken.settle_of_lands (.inl hbefore)
    exact ⟨_, hsettle, .forOpen hopening' (mt (hsettle.kind_iff hbefore rfl).mp hopen)⟩
  | forCounter hopening hopen hinside hcounter =>
    subst hinside
    obtain ⟨hopening', -, hopen', hinside⟩ :=
      hd.opens hopening hopen (hbefore.upTo.of_reaches (reaches_settle (enter _ .round)))
    have hsettle := hinside.settle_of_lands (.inl hbefore)
    exact ⟨_, hsettle, .forCounter hopening' hopen' rfl
      (mt (hsettle.kind_iff hbefore rfl).mp hcounter)⟩
  | forIn hopening hopen hinside hcounter hin =>
    subst hinside
    obtain ⟨⟨hopening', -⟩, hopen', ⟨hcounter', -⟩, htaken⟩ :=
      hd.counts hopening hopen hcounter (hbefore.upTo.of_reaches (reaches_settle _))
    have hsettle := htaken.settle_of_lands (.inl hbefore)
    exact ⟨_, hsettle, .forIn hopening' hopen' rfl hcounter'
      (mt (hsettle.kind_iff hbefore rfl).mp hin)⟩
  | @forClose sequence _ _ c₂ hopening hopen hinside hcounter hin hsequence hclose =>
    subst hinside
    have hround : c₂.brackets.head? = some .round := by
      rw [hsequence.brackets]
      simp [Task.closes]
    have hstops : fork.Stops c₂ := .of_round hround hbefore
    have hup₁ := hstops.upTo.of_reaches hsequence.reaches
    obtain ⟨⟨hopening', -⟩, hopen', ⟨hcounter', -⟩, htaken⟩ :=
      hd.counts hopening hopen hcounter (hup₁.of_reaches (reaches_settle_advance _))
    obtain ⟨hin', -, hbehind₁⟩ := htaken.takes hin rfl (by decide) hup₁
    obtain ⟨d₂, hd₂, hsequence'⟩ := hsequence.forked hbehind₁ trivial hstops
    have hsettle := hd₂.settle_of_lands (.inl hbefore)
    exact ⟨_, hsettle, .forClose hopening' hopen' rfl hcounter' hin' hsequence'
      (mt (hsettle.kind_iff hbefore rfl).mp hclose)⟩
  | headerOpen hopen =>
    have hsettle := hd.settle_of_lands (.inl hbefore)
    exact ⟨_, hsettle, .headerOpen (mt (hsettle.kind_iff hbefore rfl).mp hopen)⟩
  | @headerClose condition _ c₁ hopen hcondition hclose =>
    have hstops : fork.Stops c₁ := .of_round (by rw [hcondition.brackets]; rfl) hbefore
    obtain ⟨hopen', -, htaken⟩ :=
      hd.takes hopen rfl (by decide) (hstops.upTo.of_reaches hcondition.reaches)
    obtain ⟨d₁, hd₁, hcondition'⟩ := hcondition.forked (htaken.enter .round) trivial hstops
    have hsettle := hd₁.settle_of_lands (.inl hbefore)
    exact ⟨_, hsettle, .headerClose hopen' hcondition' (mt (hsettle.kind_iff hbefore rfl).mp hclose)⟩
  | statementEnd hgo hfirst hend =>
    have hplain := isString_of_fits hfits
    have hplace := hbefore.of_reaches hfirst.reaches
    have hskip := hd.skipSeparators (.inl hplace)
    obtain ⟨e', he', hfirst'⟩ :=
      hfirst.forked hskip trivial (.of_head hbefore fun h => hend (.inl h))
    refine ⟨e', he', .statementEnd (mt (hskip.kind_iff hplace hplain).mp hgo) hfirst' ?_⟩
    rwa [he'.kind_iff hbefore rfl, he'.kind_iff hbefore rfl, he'.kind_iff hbefore hplain]
  | @argumentsEnd _ first _ c₁ hfirst hcomma hclose =>
    have hround : c₁.brackets.head? = some .round := by rwa [hfirst.brackets]
    obtain ⟨d₁, hd₁, hfirst'⟩ := hfirst.forked hd hfits
      ⟨.of_round hround hbefore, fun hat => absurd hat (Nat.ne_of_gt hbefore)⟩
    have hsettle := hd₁.settle_of_lands (.inl hbefore)
    exact ⟨_, hsettle, .argumentsEnd hfirst' (mt (hsettle.kind_iff hbefore rfl).mp hcomma)
      (mt (hsettle.kind_iff hbefore (Closer.isString_kind _)).mp hclose)⟩
  | parameterName hname =>
    have hsettle := hd.settle_of_lands (.inl hbefore)
    exact ⟨_, hsettle, .parameterName (mt (hsettle.kind_iff hbefore rfl).mp hname)⟩
  | @parametersEnd fallback _ c₁ hname hfallback hcomma hclose =>
    have hround : c.settle.advance.brackets.head? = some .round := by
      rwa [brackets_advance, brackets_settle]
    have hstops : fork.Stops c₁ := .of_round (by rwa [hfallback.brackets]) hbefore
    obtain ⟨hname', -, htaken⟩ :=
      hd.takes hname rfl (by decide) (hstops.upTo.of_reaches hfallback.reaches)
    obtain ⟨d₁, hd₁, hfallback'⟩ := hfallback.forked htaken hround hstops
    have hsettle := hd₁.settle_of_lands (.inl hbefore)
    exact ⟨_, hsettle, .parametersEnd hname' hfallback' (mt (hsettle.kind_iff hbefore rfl).mp hcomma)
      (mt (hsettle.kind_iff hbefore rfl).mp hclose)⟩

/-- **What fails before the fork fails there in both rows.** -/
theorem Refuses.forked {task : Task} {c e d : Cursor} (h : Refuses task c e) (hd : fork.Beside c d)
    (hfits : task.Fits c) (hbefore : fork.Before e) :
    ∃ e', fork.Beside e e' ∧ Refuses (task.relabel fork.labels) d e' := by
  induction h generalizing d with
  | here h =>
    obtain ⟨e', he', h'⟩ := h.forked hd hfits hbefore
    exact ⟨e', he', .here h'⟩
  | inside hcall h ih =>
    have hready : fork.Ready _ _ := .inl (hbefore.of_reaches h.reaches_entry)
    obtain ⟨d₁, hd₁, hcall'⟩ := hcall.forked hd hfits hready
    obtain ⟨e', he', h'⟩ := ih hd₁ (hcall.fits hfits) hbefore
    exact ⟨e', he', .inside hcall' h'⟩

/-! ## Whole rows -/

/-- Two rows that agree in their first lexemes, but for the texts, and fork behind them. -/
theorem beside_ofLexemes {labels : Relabelling} {common first second : List Lexeme} :
    Beside ⟨labels, first, second⟩ (.ofLexemes (common ++ first))
      (.ofLexemes (common.map (Lexeme.relabel labels) ++ second)) := ⟨common, rfl, rfl⟩

/-- **A refusal is decided by the lexemes up to the refused one.**  A row that has the same ones, but
for their texts, is refused at the same place. -/
theorem readAll_refused_alike (labels : Relabelling) {common first : List Lexeme}
    (second : List Lexeme) {refusal : Refusal} (h : readAll (common ++ first) = .error refusal)
    (hindex : refusal.index < common.length) :
    readAll (common.map (Lexeme.relabel labels) ++ second) =
      .error ⟨refusal.index, refusal.found.relabel labels⟩ := by
  obtain ⟨e, hrefuses, rfl⟩ := readAll_eq_error_iff.mp h
  let fork : Fork := ⟨labels, first, second⟩
  have hbefore : fork.Before e := by
    have hcount := hrefuses.reaches.index_add_length
    simp only [ofLexemes, List.length_append, Nat.zero_add] at hcount
    show first.length < e.rest.length
    have hlt : e.index < common.length := hindex
    omega
  obtain ⟨e', he', hrefuses'⟩ := hrefuses.forked (beside_ofLexemes : fork.Beside _ _) (.inr rfl) hbefore
  refine readAll_eq_error_iff.mpr ⟨e', hrefuses', ?_⟩
  show Refusal.mk e.index (e.head.relabel labels) = ⟨e'.index, e'.head⟩
  rw [he'.head hbefore, he'.index]

/-- What is answered for a row, with the texts in it replaced. -/
def relabelled (labels : Relabelling) : Except Refusal (List Expr) → Except Refusal (List Expr)
  | .ok es => .ok (es.map (relabel labels))
  | .error refusal => .error ⟨refusal.index, refusal.found.relabel labels⟩

/-- **Reading goes by kinds.**  A row with its texts replaced is read as the same expressions with
their texts replaced, or refused at the same lexeme. -/
theorem readAll_relabel (labels : Relabelling) {row : List Lexeme}
    (hrow : ∀ lexeme ∈ row, lexeme.kind ≠ .endOfInput) :
    readAll ((row ++ [Lexeme.endOfInput]).map (Lexeme.relabel labels)) =
      relabelled labels (readAll (row ++ [.endOfInput])) := by
  have hsame : row ++ [Lexeme.endOfInput] ++ [] = row ++ [.endOfInput] := List.append_nil _
  cases hread : readAll (row ++ [.endOfInput]) with
  | ok es =>
    obtain ⟨c, hreads, hrest, -⟩ := exists_reads_row hrow hread
    have hbeside : Fork.Beside ⟨labels, [], []⟩ (.ofLexemes (row ++ [Lexeme.endOfInput] ++ []))
        (.ofLexemes ((row ++ [Lexeme.endOfInput]).map (Lexeme.relabel labels) ++ [])) :=
      beside_ofLexemes
    have hbefore : Fork.Before ⟨labels, [], []⟩ c := by
      show 0 < c.rest.length
      rw [hrest]
      exact Nat.one_pos
    rw [hsame, List.append_nil] at hbeside
    obtain ⟨d, -, hreads'⟩ := hreads.forked hbeside (.inr rfl) hbefore
    exact readAll_eq_ok_iff.mpr ⟨d, hreads'⟩
  | error refusal =>
    have hindex := Nat.lt_succ_of_le (index_le_of_readAll_eq_error hrow hread)
    rw [← hsame] at hread
    have hrefused := readAll_refused_alike labels [] hread (by simpa using hindex)
    rwa [List.append_nil] at hrefused

end Expr
end TypeDrift
