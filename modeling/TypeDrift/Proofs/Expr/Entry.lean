import TypeDrift.Proofs.Expr.Calls

/-! # Where a call can fail

A call does not fail before the first lexeme that it has to look at, its `Task.entry`
(`Refuses.reaches_entry`).  What goes on with an expression, and `else`, are looked for behind line
breaks and then taken, as separators are in front of a statement.  And the value of an argument does
not fail at the name that it begins with: a name is an expression already.
-/
namespace TypeDrift.Expr

open Cursor

/-- The first lexeme at which a call can fail. -/
def Task.entry : Task → Cursor → Cursor
  | continuation .., c | alternative, c => c.skipNewlines
  | statements _, c => c.skipSeparators
  | argumentValue _, c =>
    if (argumentName? c.settle.head).isSome then c.settle.advance.skipNewlines else c
  | _, c => c

theorem Task.reaches_entry (task : Task) (c : Cursor) : c.Reaches (task.entry c) := by
  cases task with
  | continuation | alternative => exact reaches_skipNewlines c
  | statements => exact reaches_skipSeparators c
  | argumentValue =>
    simp only [Task.entry]
    split
    · exact (reaches_settle_advance c).trans (reaches_skipNewlines _)
    · exact .refl c
  | _ => exact .refl c

/-! ## Failures lie ahead -/

/-- What begins an expression is taken before anything behind it is refused. -/
theorem Stuck.of_operand {c e : Cursor} (h : Stuck .operand c e) :
    (Opening.ofLexeme? c.settle.head = none ∧ e = c.settle) ∨
      ∃ opening, Opening.ofLexeme? c.settle.head = some opening ∧
        (∀ form, opening ≠ .leaf form) ∧ c.settle.advance.Reaches e ∧
        (opening = .name → c.settle.advance.Precedes e ∧ c.settle.advance.head.kind ≠ .newline) := by
  have hinside (c : Cursor) : c.settle.advance.Reaches
      (c.settle.advance.settle.advance.enter .round).settle :=
    (reaches_settle_advance _).trans (reaches_settle (enter _ .round))
  cases h with
  | operand hnone => exact .inl ⟨hnone, rfl⟩
  | name hopening hcolons =>
    have hkind : c.settle.advance.head.kind ≠ .endOfInput ∧
        c.settle.advance.head.kind ≠ .newline := by
      rcases hcolons with h | h <;> rw [h] <;> decide
    have hbehind := Precedes.of_advance hkind.1 (reaches_settle _)
    exact .inr ⟨_, hopening, nofun, hbehind.1, fun _ => ⟨hbehind, hkind.2⟩⟩
  | paren hopening hinner =>
    exact .inr ⟨_, hopening, nofun, .trans hinner.reaches (reaches_settle _), nofun⟩
  | functionOpen hopening | forOpen hopening =>
    exact .inr ⟨_, hopening, nofun, reaches_settle _, nofun⟩
  | forCounter hopening _ heq =>
    subst heq
    exact .inr ⟨_, hopening, nofun, hinside c, nofun⟩
  | forIn hopening _ heq =>
    subst heq
    exact .inr ⟨_, hopening, nofun,
      (hinside c).trans ((reaches_advance _).trans (reaches_settle _)), nofun⟩
  | forClose hopening _ heq _ _ hsequence =>
    subst heq
    exact .inr ⟨_, hopening, nofun, (hinside c).trans ((reaches_advance _).trans
      ((reaches_settle_advance _).trans (hsequence.reaches.trans (reaches_settle _)))), nofun⟩

/-- What goes on with an expression is taken before anything behind it is refused. -/
theorem Stuck.of_continuation {power : Nat} {left : Expr} {c e : Cursor}
    (h : Stuck (.continuation power left) c e) :
    (∃ step, Continuation.ofKind? c.settle.head.kind = some step) ∧ c.settle.advance.Reaches e := by
  cases h with
  | member hkind => exact ⟨⟨_, hkind⟩, reaches_skipNewlines _⟩
  | doubleIndex hkind _ hgiven => exact ⟨⟨_, hkind⟩, .trans hgiven.reaches (reaches_settle _)⟩

theorem Stuck.reaches {task : Task} {c e : Cursor} (h : Stuck task c e) : c.Reaches e := by
  have hstuck := h
  cases h with
  | member | doubleIndex => exact (reaches_settle_advance c).trans hstuck.of_continuation.2
  | headerOpen | parameterName => exact reaches_settle c
  | headerClose _ hinner =>
    exact (reaches_settle_advance c).trans (.trans hinner.reaches (reaches_settle _))
  | statementEnd _ hfirst => exact (reaches_skipSeparators c).trans hfirst.reaches
  | argumentsEnd hfirst => exact hfirst.reaches.trans (reaches_settle _)
  | parametersEnd _ hfallback =>
    exact (reaches_settle_advance c).trans (hfallback.reaches.trans (reaches_settle _))
  | _ =>
    rcases hstuck.of_operand with ⟨-, heq⟩ | ⟨opening, -, -, hreach, -⟩
    · rw [heq]
      exact reaches_settle c
    · exact (reaches_settle_advance c).trans hreach

theorem Refuses.reaches {task : Task} {c e : Cursor} (h : Refuses task c e) : c.Reaches e := by
  induction h with
  | here h => exact h.reaches
  | inside hcall _ ih => exact hcall.reaches.trans ih

/-- A continuation fails behind the lexeme that goes on with an expression. -/
theorem Refuses.precedes_of_continuation {power : Nat} {left : Expr} {c e : Cursor}
    (h : Refuses (.continuation power left) c e) : c.skipNewlines.Precedes e := by
  have hgone : (∃ step, Continuation.ofKind? c.settle.head.kind = some step) ∧
      c.settle.advance.Reaches e := by
    cases h with
    | here h => exact h.of_continuation
    | inside hcall h =>
      exact ⟨hcall.of_continuation.1, hcall.of_continuation.2.trans h.reaches⟩
  obtain ⟨⟨step, hkind⟩, hreach⟩ := hgone
  have hnewline : c.settle.head.kind ≠ .newline := by
    intro hnewline
    rw [hnewline] at hkind
    cases hkind
  rw [← settle_eq_skipNewlines hnewline]
  exact .of_advance (Continuation.kind_ne_endOfInput hkind) hreach

/-- What can name an argument is an expression of its own. -/
theorem exists_opening_of_argumentName? {lexeme : Lexeme} {name : String}
    (h : argumentName? lexeme = some name) :
    ∃ opening, Opening.ofLexeme? lexeme = some opening ∧
      (opening = .name ∨ ∃ form, opening = .leaf form) := by
  obtain ⟨kind, text⟩ := lexeme
  cases kind with
  | identifier => exact ⟨_, rfl, .inl rfl⟩
  | string contents => exact ⟨_, rfl, .inr ⟨_, rfl⟩⟩
  | keyword word => cases word <;> first | exact ⟨_, rfl, .inr ⟨_, rfl⟩⟩ | cases h
  | _ => cases h

/-- An expression that begins with a name fails behind the next lexeme after it. -/
theorem Refuses.precedes_of_argumentName? {power : Nat} {name : String} {c e : Cursor}
    (h : Refuses (.expression power) c.settle e) (hname : argumentName? c.settle.head = some name) :
    c.settle.advance.skipNewlines.Precedes e := by
  obtain ⟨opening, hopening, hkind⟩ := exists_opening_of_argumentName? hname
  have hsettle := settle_settle c
  cases h with
  | here h => cases h
  | inside hcall h =>
    cases hcall with
    | continuation hleft =>
      have hbehind := hleft.reaches.advance (hleft.length_lt rfl)
      exact hbehind.skipNewlines.precedes h.precedes_of_continuation
    | operand =>
      cases h with
      | here h =>
        rcases h.of_operand with ⟨hnone, -⟩ | ⟨other, hother, hnoLeaf, -, hbehind⟩
        · rw [hsettle] at hnone
          cases hnone.symm.trans hopening
        · rw [hsettle] at hother hbehind
          cases hopening.symm.trans hother
          rcases hkind with hkind | ⟨form, hkind⟩
          · obtain ⟨hprecedes, hnewline⟩ := hbehind hkind
            rwa [skipNewlines_of_head hnewline]
          · exact absurd hkind (hnoLeaf form)
      | inside hcall h =>
        obtain ⟨⟨other, hother, hnoName, hnoLeaf⟩, -⟩ := hcall.of_operand
        rw [hsettle] at hother
        cases hopening.symm.trans hother
        rcases hkind with hkind | ⟨form, hkind⟩
        · exact absurd hkind hnoName
        · exact absurd hkind (hnoLeaf form)

theorem Refuses.precedes_of_argumentValue {closer : Closer} {name : String} {c e : Cursor}
    (h : Refuses (.argumentValue closer) c e) (hname : argumentName? c.settle.head = some name) :
    c.settle.advance.skipNewlines.Precedes e := by
  cases h with
  | here h => cases h
  | inside hcall h =>
    cases hcall with
    | value => exact h.precedes_of_argumentName? hname

theorem Refuses.precedes_of_alternative {c e : Cursor} (h : Refuses .alternative c e) :
    c.skipNewlines.Precedes e := by
  cases h with
  | here h => cases h
  | inside hcall h =>
    cases hcall with
    | elseBranch helse =>
      rw [← beforeElse_eq_skipNewlines (by rw [helse]; decide)]
      exact .of_advance (by rw [helse]; decide) ((reaches_skipNewlines _).trans h.reaches)

/-- **No call fails before its entry.** -/
theorem Refuses.reaches_entry {task : Task} {c e : Cursor} (h : Refuses task c e) :
    (task.entry c).Reaches e := by
  cases task with
  | continuation => exact h.precedes_of_continuation.1
  | alternative => exact h.precedes_of_alternative.1
  | statements =>
    cases h with
    | here h =>
      cases h with
      | statementEnd _ hfirst => exact hfirst.reaches
    | inside hcall h =>
      cases hcall with
      | firstStatement => exact h.reaches
      | otherStatements _ hfirst => exact hfirst.reaches.trans h.reaches
  | argumentValue =>
    simp only [Task.entry]
    split
    · next hname =>
      obtain ⟨name, hname⟩ := Option.isSome_iff_exists.mp hname
      exact (h.precedes_of_argumentValue hname).1
    · exact h.reaches
  | _ => exact h.reaches

/-- What is refused is a lexeme of the row, unless the row ends in front of it. -/
theorem found_of_readAll_eq_error {row : List Lexeme} {refusal : Refusal}
    (h : readAll row = .error refusal) (hindex : refusal.index < row.length) :
    row[refusal.index]? = some refusal.found := by
  obtain ⟨e, hrefuses, rfl⟩ := readAll_eq_error_iff.mp h
  obtain ⟨passed, hrest, hplace, -⟩ := hrefuses.reaches
  have hrow : row = passed ++ e.rest := hrest
  have hpassed : e.index = passed.length := by rw [hplace, ofLexemes, Nat.zero_add]
  rw [refusal, hpassed, hrow, List.length_append] at hindex
  cases he : e.rest with
  | nil =>
    rw [he] at hindex
    exact absurd hindex (Nat.lt_irrefl _)
  | cons lexeme rest => simp [refusal, head, hpassed, hrow, he]

end TypeDrift.Expr
