import TypeDrift.Proofs.Expr.Bounds
import TypeDrift.Proofs.Expr.Complete
import TypeDrift.Proofs.Expr.Forked
import TypeDrift.Proofs.Expr.Refusals

/-! # One row of lexemes behind another

When a row of lexemes can be read, then that row, a line break and another row are read as the first
row and then the second (`readAll_append`).  The whole row and the first one part where the first one
ends (`Fork.atEnd`).  The whole row has a line break there, and no bracket is open, so that every
expression of the first row ends there if it has not ended before.  The statements of the second row
are read as if nothing stood before them: what the cursor remembers of the first row is the index,
which is only counted on, and the lexeme taken last, which is forgotten as soon as another one is
taken.
-/
namespace TypeDrift

/-- A row that ends, and the same row that goes on with `more` instead. -/
def Fork.atEnd (more : List Lexeme) : Fork := ⟨.none, [.endOfInput], more⟩

namespace Cursor

/-- The end of input comes last, and nowhere else. -/
def Closed (c : Cursor) : Prop :=
  ∃ init, c.rest = init ++ [.endOfInput] ∧ ∀ lexeme ∈ init, lexeme.kind ≠ .endOfInput

/-- The same place, where the row goes on with `more` instead of ending. -/
def goOn (more : List Lexeme) (c : Cursor) : Cursor := { c with rest := c.rest.dropLast ++ more }

theorem rest_goOn (more : List Lexeme) {c : Cursor} {init : List Lexeme}
    (h : c.rest = init ++ [.endOfInput]) : (c.goOn more).rest = init ++ more := by
  rw [goOn, h, List.dropLast_concat]

theorem beside_atEnd_iff {more : List Lexeme} {c d : Cursor} :
    (Fork.atEnd more).Beside c d ↔ (∃ init, c.rest = init ++ [.endOfInput]) ∧ d = c.goOn more := by
  have hgoes {init : List Lexeme} (hrest : c.rest = init ++ [.endOfInput]) :
      { c with rest := init.map (Lexeme.relabel .none) ++ more } = c.goOn more := by
    rw [Lexeme.map_relabel_none, goOn, hrest, List.dropLast_concat]
  constructor
  · rintro ⟨init, hrest, rfl⟩
    exact ⟨⟨init, hrest⟩, hgoes hrest⟩
  · rintro ⟨⟨init, hrest⟩, rfl⟩
    exact ⟨init, hrest, (hgoes hrest).symm⟩

namespace Closed

variable {c d : Cursor} (hc : c.Closed)
include hc

theorem of_reaches (h : c.Reaches d) : d.Closed := by
  obtain ⟨init, hrest, hinit⟩ := hc
  obtain ⟨passed, hpassed, -, hkinds⟩ := h
  rcases List.append_eq_append_iff.mp (hrest.symm.trans hpassed) with
    ⟨left, hleft, hright⟩ | ⟨left, hleft, hright⟩
  · cases left with
    | nil => exact ⟨[], hright.symm, nofun⟩
    | cons lexeme left =>
      obtain ⟨rfl, -⟩ := List.cons.inj hright
      exact absurd rfl (hkinds .endOfInput (by simp [hleft]))
  · exact ⟨left, hright, fun lexeme hmem => hinit lexeme (by simp [hleft, hmem])⟩

theorem upTo (more : List Lexeme) : (Fork.atEnd more).UpTo c := by
  obtain ⟨init, hrest, -⟩ := hc
  show 1 ≤ c.rest.length
  simp [hrest]

theorem beside (more : List Lexeme) : (Fork.atEnd more).Beside c (c.goOn more) := by
  obtain ⟨init, hrest, -⟩ := hc
  exact beside_atEnd_iff.mpr ⟨⟨init, hrest⟩, rfl⟩

variable {more : List Lexeme} (hmore : (more.headD .endOfInput).kind = .newline)
include hmore

/-- Outside of all brackets, an expression that ends with the row ends at a line break too. -/
theorem stops (hbrackets : c.brackets = []) : (Fork.atEnd more).Stops c := by
  have hhead : (Fork.atEnd more).head.kind = .newline := hmore
  refine ((hc.of_reaches (reaches_beforeElse c)).upTo more).before_or.imp_right fun hat => ?_
  exact ⟨hat, by rw [hhead]; decide, fun _ => hbrackets⟩

/-- And so does a statement. -/
theorem expectEnd_goOn (h : Expr.expectEnd .endOfInput c = .ok ()) :
    Expr.expectEnd .endOfInput (c.goOn more) = .ok () := by
  rcases (hc.upTo more).before_or with hbefore | hat
  · exact Fork.expectEnd_forked (hc.beside more) rfl hbefore h
  · refine Expr.expectEnd_eq_ok_iff.mpr (.inl ?_)
    rw [(hc.beside more).head_of_at hat]
    exact hmore

end Closed

/-- The same place, where another lexeme was the last one taken. -/
def after (last : Nat) (c : Cursor) : Cursor := { c with last }

variable (last : Nat) (c : Cursor)

@[simp] theorem head_after : (c.after last).head = c.head := rfl

@[simp] theorem index_after : (c.after last).index = c.index := rfl

@[simp] theorem skipSeparators_after :
    (c.after last).skipSeparators = c.skipSeparators.after last := rfl

@[simp] theorem settle_after : (c.after last).settle = c.settle.after last := by
  by_cases hends : c.endsAtNewline = true
  · have hsame : (c.after last).endsAtNewline = true := hends
    simp only [settle, if_pos hends, if_pos hsame]
  · have hsame : ¬(c.after last).endsAtNewline = true := hends
    simp only [settle, if_neg hends, if_neg hsame]
    rfl

variable {c}

theorem advance_after (h : c.head.kind ≠ .endOfInput) : (c.after last).advance = c.advance := by
  have hsame : (c.after last).head.kind ≠ .endOfInput := h
  rw [advance_eq h, advance_eq hsame]
  rfl

variable {more : List Lexeme}

/-- What is skipped at the end of a row and what is skipped where it goes on. -/
theorem skipWhile_goOn_skipWhile {p : Lexeme → Bool} (hc : c.Closed) (hp : p .endOfInput = false) :
    ((c.skipWhile p).goOn more).skipWhile p = (c.goOn more).skipWhile p := by
  obtain ⟨init, hrest, -⟩ := hc
  have hinit := List.takeWhile_append_dropWhile (p := p) (l := init)
  have hpassed : ∀ lexeme ∈ init.takeWhile p, p lexeme = true :=
    fun _ hmem => List.mem_takeWhile_imp hmem
  have htake : (init.dropWhile p ++ [Lexeme.endOfInput]).takeWhile p = [] := by
    have hhead := List.head?_dropWhile_not p init
    cases hdrop : init.dropWhile p with
    | nil => simp [hp]
    | cons lexeme ahead =>
      rw [hdrop] at hhead
      simpa using hhead
  have hdrop : (init.dropWhile p ++ [Lexeme.endOfInput]).dropWhile p =
      init.dropWhile p ++ [.endOfInput] := by
    have happend := List.takeWhile_append_dropWhile (p := p)
      (l := init.dropWhile p ++ [Lexeme.endOfInput])
    rwa [htake, List.nil_append] at happend
  have hends : c.rest = init.takeWhile p ++ (init.dropWhile p ++ [.endOfInput]) := by
    rw [hrest, ← List.append_assoc, hinit]
  have hgoes : (c.goOn more).rest = init.takeWhile p ++ (init.dropWhile p ++ more) := by
    rw [rest_goOn more hrest, ← List.append_assoc, hinit]
  rw [skipWhile_of_append hgoes hpassed, skipWhile_of_append hends hpassed]
  simp only [skipWhile, goOn, htake, hdrop, List.dropLast_concat, List.length_nil, Nat.add_zero]

end Cursor

namespace Expr

open Cursor Filter

/-- Which lexeme was taken last does not matter to an operand: it takes another one. -/
theorem operand_after (bound last : Nat) (c : Cursor) :
    operand bound (c.after last) = operand bound c := by
  cases bound with
  | zero => rfl
  | succ bound =>
    simp only [operand, settle_after, head_after, index_after]
    split
    · rfl
    all_goals
      next hopening => simp only [advance_after _ (Opening.kind_ne_endOfInput hopening)]

theorem read_after (bound power last : Nat) (c : Cursor) :
    read bound power (c.after last) = read bound power c := by
  cases bound with
  | zero => rfl
  | succ bound => simp only [read, operand_after]

/-- The outcome of a call without the cursor. -/
def answer {α : Type} (outcome : Except Refusal (α × Cursor)) : Except Refusal α :=
  outcome.map Prod.fst

theorem answer_statements_after (bound last : Nat) (terminator : Kind) (c : Cursor) :
    answer (statements bound terminator (c.after last)) =
      answer (statements bound terminator c) := by
  cases bound with
  | zero => rfl
  | succ bound =>
    simp only [statements, skipSeparators_after, head_after, read_after]
    split <;> rfl

/-- Separators in front of statements do not matter. -/
theorem statements_of_skipSeparators {bound : Nat} {terminator : Kind} {c d : Cursor}
    (h : c.skipSeparators = d.skipSeparators) :
    statements bound terminator c = statements bound terminator d ∨ bound = 0 := by
  cases bound with
  | zero => exact .inr rfl
  | succ bound => exact .inl (by simp only [statements, h])

/-- The answer of statements of which the first can be read. -/
theorem answer_statements_succ {bound : Nat} {terminator : Kind} {first : Expr} {c c₁ : Cursor}
    (hgo : c.skipSeparators.head.kind ≠ terminator)
    (hfirst : read bound Level.lowest.binding c.skipSeparators = .ok (first, c₁))
    (hend : expectEnd terminator c₁ = .ok ()) :
    answer (statements (bound + 1) terminator c) =
      (answer (statements bound terminator c₁)).map (first :: ·) := by
  simp only [statements, if_neg hgo, hfirst, hend, Bind.bind, Except.bind]
  cases statements bound terminator c₁ <;> rfl

theorem readAll_eq_answer (lexemes : List Lexeme) :
    readAll lexemes = answer (statements (callsPerLexeme * (lexemes.length + 1)) .endOfInput
      (.ofLexemes lexemes)) := by
  unfold readAll
  cases statements _ .endOfInput (.ofLexemes lexemes) <;> rfl

/-- What is answered for a whole row of lexemes, under every bound that is large enough. -/
theorem eventually_answer_eq (lexemes : List Lexeme) :
    ∀ᶠ bound in atTop,
      answer (statements bound .endOfInput (.ofLexemes lexemes)) = readAll lexemes := by
  filter_upwards [eventually_gt_atTop ((Task.statements .endOfInput).size (.ofLexemes lexemes))]
    with bound hbound
  rw [readAll_eq_answer]
  exact congrArg answer (Task.run_eq_run hbound (size_lt_readAll lexemes))

/-- The answer for a row of lexemes, so much later. -/
def later (distance : Nat) : Except Refusal (List Expr) → Except Refusal (List Expr)
  | .ok es => .ok (es.map (renumber (.shift distance)))
  | .error refusal => .error (refusal.shift distance)

/-- What is answered for a row of lexemes that stands behind others. -/
theorem eventually_answer_later (lexemes : List Lexeme) (distance last : Nat) :
    ∀ᶠ bound in atTop,
      answer (statements bound .endOfInput (((ofLexemes lexemes).shift distance).after last)) =
        later distance (readAll lexemes) := by
  filter_upwards [eventually_gt_atTop ((Task.statements .endOfInput).size (.ofLexemes lexemes))]
    with bound hbound
  rw [answer_statements_after, readAll_eq_answer]
  have hshift : statements bound .endOfInput ((ofLexemes lexemes).shift distance) =
      shifted distance (List.map (renumber (.shift distance))) (statements _ .endOfInput _) :=
    Task.run_shift distance (size_lt_readAll lexemes) hbound
  rw [hshift]
  obtain refusal | ⟨es, c⟩ := statements _ .endOfInput (ofLexemes lexemes) <;> rfl

section GoOn
variable {more : List Lexeme} (hmore : (more.headD .endOfInput).kind = .newline)
include hmore

/-- **Statements that go on**: those of the row that ends here, and those that are read from where
it ends. -/
theorem eventually_statements_continued {es : List Expr} {c c' : Cursor}
    (h : Reads (.statements .endOfInput) c es c') (hc : c.Closed) (hbrackets : c.brackets = [])
    {outcome : Except Refusal (List Expr)}
    (houtcome : ∀ᶠ bound in atTop,
      answer (statements bound .endOfInput (c'.goOn more)) = outcome) :
    ∀ᶠ bound in atTop,
      answer (statements bound .endOfInput (c.goOn more)) = outcome.map (es ++ ·) := by
  induction es generalizing c with
  | nil =>
    cases h with
    | noStatements hend =>
      have hid : outcome.map ([] ++ ·) = outcome := by cases outcome <;> rfl
      have hskip : (c.skipSeparators.goOn more).skipSeparators = (c.goOn more).skipSeparators :=
        skipWhile_goOn_skipWhile hc rfl
      rw [hid]
      filter_upwards [houtcome, eventually_gt_atTop 0] with bound hbound hpositive
      rw [← hbound, (statements_of_skipSeparators hskip).resolve_right (Nat.ne_of_gt hpositive)]
  | cons first others ih =>
    cases h with
    | @statement _ _ _ _ c₁ _ hgo hfirst hend hothers =>
      have hbrackets₁ : c₁.brackets = [] := hfirst.brackets.trans hbrackets
      have hc₁ := hc.of_reaches ((reaches_skipSeparators c).trans hfirst.reaches)
      have hbefore : (Fork.atEnd more).Before c.skipSeparators :=
        Nat.lt_of_le_of_lt (hc₁.upTo more) (hfirst.length_lt rfl)
      have hskip := (hc.beside more).skipSeparators (.inl hbefore)
      have hgo' : (c.goOn more).skipSeparators.head.kind ≠ .endOfInput :=
        mt (hskip.kind_iff hbefore rfl).mp hgo
      obtain ⟨d₁, hd₁, hfirst'⟩ : ∃ d₁, (Fork.atEnd more).Beside c₁ d₁ ∧
          Reads (.expression Level.lowest.binding) (c.goOn more).skipSeparators (first.relabel .none)
            d₁ := hfirst.forked hskip trivial (hc₁.stops hmore hbrackets₁)
      obtain ⟨-, rfl⟩ := beside_atEnd_iff.mp hd₁
      rw [first.relabel_none] at hfirst'
      refine eventually_of_succ ?_
      filter_upwards [hfirst'.eventually_run, ih hothers hc₁ hbrackets₁] with bound hrun hrest
      rw [answer_statements_succ hgo' hrun (hc₁.expectEnd_goOn hmore hend), hrest]
      cases outcome <;> rfl

end GoOn

/-! ## Whole rows -/

section Row
variable {row : List Lexeme} (hrow : ∀ lexeme ∈ row, lexeme.kind ≠ .endOfInput)
include hrow

theorem closed_ofLexemes : (ofLexemes (row ++ [.endOfInput])).Closed := ⟨row, rfl, hrow⟩

/-- A row that can be read is read up to its end. -/
theorem exists_reads_row {es : List Expr} (h : readAll (row ++ [.endOfInput]) = .ok es) :
    ∃ c, Reads (.statements .endOfInput) (.ofLexemes (row ++ [.endOfInput])) es c ∧
      c.rest = [.endOfInput] ∧ c.index = row.length := by
  obtain ⟨c, hreads⟩ := readAll_eq_ok_iff.mp h
  have hrest : c.rest = [.endOfInput] := by
    obtain ⟨init, hrest, hinit⟩ := (closed_ofLexemes hrow).of_reaches hreads.reaches
    cases init with
    | nil => exact hrest
    | cons lexeme init =>
      have hhead : c.head = lexeme := by rw [head, hrest]; rfl
      exact absurd (hhead ▸ hreads.head_of_statements rfl) (hinit lexeme List.mem_cons_self)
  have hcount := hreads.reaches.index_add_length
  simp only [hrest, ofLexemes, List.length_append, List.length_singleton] at hcount
  exact ⟨c, hreads, hrest, by omega⟩

/-- The expressions of a row lie within it. -/
theorem inside_readAll {es : List Expr} (h : readAll (row ++ [.endOfInput]) = .ok es) :
    ∀ e ∈ es, Inside row.length e := by
  obtain ⟨c, hreads, -, hindex⟩ := exists_reads_row hrow h
  exact hindex ▸ hreads.inside nofun

/-- What is refused of a row lies within it, or is its end. -/
theorem index_le_of_readAll_eq_error {refusal : Refusal}
    (h : readAll (row ++ [.endOfInput]) = .error refusal) : refusal.index ≤ row.length := by
  rw [readAll_eq_answer] at h
  have hrun : statements (callsPerLexeme * ((row ++ [Lexeme.endOfInput]).length + 1)) .endOfInput
      (.ofLexemes (row ++ [.endOfInput])) = .error refusal := by
    cases hrun : statements _ .endOfInput (.ofLexemes (row ++ [.endOfInput])) with
    | error other =>
      rw [hrun] at h
      exact congrArg Except.error (Except.error.inj h)
    | ok result =>
      rw [hrun] at h
      cases h
  have hahead := (Task.statements .endOfInput).refusesAhead_run
    (callsPerLexeme * ((row ++ [Lexeme.endOfInput]).length + 1))
    (.ofLexemes (row ++ [.endOfInput]))
  obtain ⟨d, hreach, rfl⟩ := hahead refusal hrun
  obtain ⟨init, hrest, -⟩ := (closed_ofLexemes hrow).of_reaches hreach
  have hcount := hreach.index_add_length
  simp only [hrest, ofLexemes, List.length_append, List.length_singleton] at hcount
  show d.index ≤ row.length
  omega

/-- **A row, a line break and another row** are read as the one row and the other. -/
theorem readAll_append (others : List Lexeme) {newline : Lexeme} {es : List Expr}
    (hnewline : newline.kind = .newline) (h : readAll (row ++ [.endOfInput]) = .ok es) :
    readAll (row ++ newline :: others) =
      (later (row.length + 1) (readAll others)).map (es ++ ·) := by
  obtain ⟨c, hreads, hrest, hindex⟩ := exists_reads_row hrow h
  have hbrackets : c.brackets = [] := hreads.brackets
  have hskip : (c.goOn (newline :: others)).skipSeparators =
      (((ofLexemes others).shift (row.length + 1)).after c.last).skipSeparators := by
    have hgoes : (c.goOn (newline :: others)).rest = [newline] ++ others :=
      rest_goOn _ (show c.rest = [] ++ [.endOfInput] from hrest)
    refine (skipWhile_of_append hgoes (by simp [hnewline])).trans ?_
    simp [skipSeparators, skipWhile, goOn, shift, after, ofLexemes, hindex, hbrackets]
  have hothers : ∀ᶠ bound in atTop,
      answer (statements bound .endOfInput (c.goOn (newline :: others))) =
        later (row.length + 1) (readAll others) := by
    filter_upwards [eventually_answer_later others (row.length + 1) c.last, eventually_gt_atTop 0]
      with bound hbound hpositive
    rw [← hbound, (statements_of_skipSeparators hskip).resolve_right (Nat.ne_of_gt hpositive)]
  have hhead : ((newline :: others).headD .endOfInput).kind = .newline := hnewline
  have hgoes := eventually_statements_continued hhead hreads (closed_ofLexemes hrow) rfl hothers
  have hwhole : (ofLexemes (row ++ [.endOfInput])).goOn (newline :: others) =
      ofLexemes (row ++ newline :: others) := by simp [goOn, ofLexemes]
  rw [hwhole] at hgoes
  obtain ⟨bound, hbound, hanswer⟩ := (hgoes.and (eventually_answer_eq _)).exists
  exact hanswer.symm.trans hbound

end Row
end Expr
end TypeDrift
