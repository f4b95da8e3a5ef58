import TypeDrift.Proofs.Expr.Append
import TypeDrift.Proofs.Expr.Brackets

/-! # Reading with one more line break

A line break is put into a row of lexemes at a place where line breaks mean nothing.  This module
asks what becomes of a reading: the same is read, with the indices behind that place one higher
(`Reads.widened`).

The proof follows two cursors through the two rows.  Up to the line break they have the same lexemes
before them, and behind it again; in between the one stands in front of it and the other where it
would be (`Insertion.Along`).  There they meet different lexemes.  A reader that looks only after it
has settled does not notice, because it settles over the line break: what it has of the open
brackets is `OpenBracket.seen` of those that are open (`Insertion.Widened`), and inside these line
breaks mean nothing.  Two readers look without settling.  A name looks for colons behind it, and a
statement for a separator; the line break is one, but the colons must not be moved away from the
name.
-/
namespace TypeDrift

open Cursor

/-- Every token from the one with the index `place` on comes one later. -/
def Renumbering.gap (place : Nat) : Renumbering :=
  ⟨fun index => if index < place then index else index + 1,
    fun stop => if stop ≤ place then stop else stop + 1⟩

theorem Renumbering.past_gap (place last : Nat) :
    (gap place).past (last + 1) = (gap place).token last + 1 := by
  simp only [gap]
  split <;> split <;> omega

theorem Renumbering.token_gap_of_lt {place index : Nat} (h : index < place) :
    (gap place).token index = index := if_pos h

theorem Renumbering.token_gap_of_le {place index : Nat} (h : place ≤ index) :
    (gap place).token index = index + 1 := if_neg (Nat.not_lt.mpr h)

namespace Cursor

variable {place start start' : Nat} {c d : Cursor}

/-- An expression is closed at the new indices. -/
theorem close_gap (hlast : d.last = (Renumbering.gap place).token c.last)
    (hstart : start' = (Renumbering.gap place).token start) (form : Form Expr) :
    d.close start' (form.map (Expr.renumber (.gap place)) (Renumbering.gap place).token) =
      (c.close start form).renumber (.gap place) := by
  rw [Cursor.close, Cursor.close, Expr.renumber_node, hstart, hlast, Renumbering.range,
    Renumbering.past_gap]

/-- Behind the place the same lexemes are skipped. -/
theorem skipWhile_behind (h : d.rest = c.rest ∧ d.index = c.index + 1 ∧ place ≤ c.index)
    (p : Lexeme → Bool) :
    (d.skipWhile p).rest = (c.skipWhile p).rest ∧
      (d.skipWhile p).index = (c.skipWhile p).index + 1 ∧ place ≤ (c.skipWhile p).index := by
  obtain ⟨hrest, hindex, hplace⟩ := h
  refine ⟨?_, ?_, Nat.le_trans hplace (Nat.le_add_right _ _)⟩
  · rw [skipWhile, skipWhile, hrest]
  · rw [skipWhile, skipWhile, hrest, hindex, Nat.add_right_comm]

end Cursor

/-- A line break that is put into a row of lexemes. -/
structure Insertion where
  /-- How many lexemes stand before it. -/
  place : Nat
  newline : Lexeme
  /-- The lexemes behind it. -/
  later : List Lexeme
  kind_newline : newline.kind = .newline
  /-- It does not come between a name and the colons behind it. -/
  no_colons : ∀ lexeme ∈ later.head?, lexeme.kind ≠ .doubleColon ∧ lexeme.kind ≠ .tripleColon

namespace Insertion

variable (insertion : Insertion)

/-- The indices in the longer row. -/
def numbering : Renumbering := .gap insertion.place

/-- The line break is still to come, and inside the brackets that are open there it means nothing. -/
def Ahead (opened : List OpenBracket) (c d : Cursor) : Prop :=
  ∃ ahead, c.rest = ahead ++ insertion.later ∧
    d.rest = ahead ++ insertion.newline :: insertion.later ∧
    c.index + ahead.length = insertion.place ∧ d.index = c.index ∧
    OpenBracket.ignoresNewlines (OpenBracket.after opened ahead) = true

/-- The line break has been passed. -/
def Passed (c d : Cursor) : Prop :=
  d.rest = c.rest ∧ d.index = c.index + 1 ∧ insertion.place ≤ c.index

/-- Two cursors at one place in the two rows. -/
structure Along (opened : List OpenBracket) (c d : Cursor) : Prop where
  last : d.last = insertion.numbering.token c.last
  brackets : d.brackets = c.brackets
  rows : insertion.Ahead opened c d ∨ insertion.Passed c d

/-- Two cursors at one place in the two rows, with the brackets before it that are open. -/
structure Widened (opened : List OpenBracket) (c d : Cursor) : Prop
    extends insertion.Along opened c d where
  seen : c.brackets = OpenBracket.seen opened

/-- Neither cursor stands in front of the line break. -/
structure InStep (opened : List OpenBracket) (c d : Cursor) : Prop
    extends insertion.Widened opened c d where
  index : d.index = insertion.numbering.token c.index

variable {insertion} {opened : List OpenBracket} {c d : Cursor}

theorem token_of_lt {index : Nat} (h : index < insertion.place) :
    insertion.numbering.token index = index := Renumbering.token_gap_of_lt h

theorem token_of_le {index : Nat} (h : insertion.place ≤ index) :
    insertion.numbering.token index = index + 1 := Renumbering.token_gap_of_le h

/-! ## Moving along both rows -/

theorem Passed.skipWhile (h : insertion.Passed c d) {p : Lexeme → Bool} :
    insertion.Passed (c.skipWhile p) (d.skipWhile p) := skipWhile_behind h p

namespace Along

theorem enter (h : insertion.Along opened c d) (bracket : Bracket) :
    insertion.Along opened (c.enter bracket) (d.enter bracket) :=
  ⟨h.last, congrArg (bracket :: ·) h.brackets, h.rows⟩

theorem leave (h : insertion.Along opened c d) : insertion.Along opened c.leave d.leave :=
  ⟨h.last, congrArg List.tail h.brackets, h.rows⟩

/-- An expression is closed at the new indices. -/
theorem close (h : insertion.Along opened c d) {start start' : Nat}
    (hstart : start' = insertion.numbering.token start) (form : Form Expr) :
    d.close start' (form.map (Expr.renumber insertion.numbering) insertion.numbering.token) =
      (c.close start form).renumber insertion.numbering :=
  close_gap h.last hstart form

/-- Where line breaks are skipped, neither cursor is left in front of the one that was put in. -/
theorem skipWhile (h : insertion.Along opened c d) {p : Lexeme → Bool}
    (hnewline : p insertion.newline = true)
    (hplain : ∀ lexeme, p lexeme = true → lexeme.kind.isBracket = false) :
    insertion.Along opened (c.skipWhile p) (d.skipWhile p) ∧
      (d.skipWhile p).index = insertion.numbering.token (c.skipWhile p).index := by
  have hpassed (h' : insertion.Passed (c.skipWhile p) (d.skipWhile p)) :
      insertion.Along opened (c.skipWhile p) (d.skipWhile p) ∧
        (d.skipWhile p).index = insertion.numbering.token (c.skipWhile p).index :=
    ⟨⟨h.last, h.brackets, .inr h'⟩, h'.2.1.trans (token_of_le h'.2.2).symm⟩
  rcases h.rows with ⟨ahead, hc, hd, hplace, hindex, hignores⟩ | hrows
  · rcases all_or_exists_stop p ahead with hskipped | ⟨passed, stop, behind, rfl, hskipped, hstop⟩
    · -- All that lies before the line break is skipped, and the line break with it.
      have hskippedToo : ∀ lexeme ∈ ahead ++ [insertion.newline], p lexeme = true :=
        List.forall_mem_append.mpr ⟨hskipped, List.forall_mem_singleton.mpr hnewline⟩
      have hrows : insertion.Passed
          { c with index := c.index + ahead.length, rest := insertion.later }
          { d with index := d.index + (ahead ++ [insertion.newline]).length,
                   rest := insertion.later } := by
        refine ⟨rfl, ?_, Nat.le_of_eq hplace.symm⟩
        simp only [hindex, List.length_append, List.length_singleton, Nat.add_assoc]
      refine hpassed ?_
      rw [skipWhile_of_append hc hskipped,
        skipWhile_of_append (hd.trans (List.append_cons ..)) hskippedToo]
      exact hrows.skipWhile
    · rw [List.append_assoc] at hc hd
      rw [List.length_append, List.length_cons] at hplace
      rw [OpenBracket.after_append,
        OpenBracket.after_of_plain fun lexeme hmem => hplain lexeme (hskipped lexeme hmem)]
        at hignores
      rw [skipWhile_of_stop hc hskipped hstop, skipWhile_of_stop hd hskipped hstop]
      refine ⟨⟨h.last, h.brackets, .inl ⟨stop :: behind, rfl, rfl, ?_, ?_, hignores⟩⟩, ?_⟩
      · rw [List.length_cons, ← hplace, Nat.add_assoc]
      · rw [hindex]
      · rw [token_of_lt (by simp only; omega), hindex]
  · exact hpassed hrows.skipWhile

end Along

namespace InStep

theorem rows_cons (h : insertion.InStep opened c d) :
    (∃ lexeme ahead, c.rest = lexeme :: (ahead ++ insertion.later) ∧
      d.rest = lexeme :: (ahead ++ insertion.newline :: insertion.later) ∧
      insertion.Ahead (OpenBracket.step opened lexeme.kind)
        { c with index := c.index + 1, rest := c.rest.tail, last := c.index }
        { d with index := d.index + 1, rest := d.rest.tail, last := d.index }) ∨
    insertion.Passed c d := by
  refine h.rows.imp_left fun ⟨ahead, hc, hd, hplace, hindex, hignores⟩ => ?_
  cases ahead with
  | nil =>
    have hgap := h.index.trans (token_of_le (Nat.le_of_eq hplace.symm))
    exact absurd (hindex.symm.trans hgap) (Nat.ne_of_lt (Nat.lt_succ_self _))
  | cons lexeme ahead =>
    refine ⟨lexeme, ahead, hc, hd, ahead, by rw [hc]; rfl, by rw [hd]; rfl, ?_,
      congrArg (· + 1) hindex, hignores⟩
    rw [← hplace, List.length_cons, Nat.add_right_comm]
    rfl

theorem head (h : insertion.InStep opened c d) : d.head = c.head := by
  rcases h.rows_cons with ⟨lexeme, ahead, hc, hd, -⟩ | ⟨hrest, -⟩
  · rw [Cursor.head, Cursor.head, hc, hd]
    rfl
  · rw [Cursor.head, Cursor.head, hrest]

theorem secondKind? (h : insertion.InStep opened c d) : d.secondKind? = c.secondKind? := by
  rcases h.rows_cons with ⟨lexeme, ahead, hc, hd, -⟩ | ⟨hrest, -⟩
  · simp [Cursor.secondKind?, hc, hd, insertion.kind_newline]
  · rw [Cursor.secondKind?, Cursor.secondKind?, hrest]

/-- Both take the same lexeme. -/
theorem advance (h : insertion.InStep opened c d) (hend : c.head.kind ≠ .endOfInput) :
    insertion.Along (OpenBracket.step opened c.head.kind) c.advance d.advance := by
  rw [advance_eq hend, advance_eq (by rwa [h.head])]
  refine ⟨h.index, h.brackets, ?_⟩
  rcases h.rows_cons with ⟨lexeme, ahead, hc, -, hahead⟩ | ⟨hrest, hindex, hplace⟩
  · have hhead : c.head = lexeme := by rw [Cursor.head, hc]; rfl
    exact .inl (hhead ▸ hahead)
  · exact .inr ⟨congrArg List.tail hrest, congrArg (· + 1) hindex, Nat.le_succ_of_le hplace⟩

end InStep

namespace Widened

variable (h : insertion.Widened opened c d)
include h

theorem skipNewlines : insertion.InStep opened c.skipNewlines d.skipNewlines := by
  have hplain (lexeme : Lexeme) (hkind : (lexeme.kind == .newline) = true) :
      lexeme.kind.isBracket = false := by
    rw [eq_of_beq hkind]
    rfl
  obtain ⟨halong, hindex⟩ := h.skipWhile (by simp [insertion.kind_newline]) hplain
  exact ⟨⟨halong, h.seen⟩, hindex⟩

theorem skipSeparators : insertion.InStep opened c.skipSeparators d.skipSeparators := by
  have hplain (lexeme : Lexeme)
      (hkind : (lexeme.kind == .newline || lexeme.kind == .semicolon) = true) :
      lexeme.kind.isBracket = false := by
    rcases (Bool.or_eq_true _ _).mp hkind with hkind | hkind <;> rw [eq_of_beq hkind] <;> rfl
  obtain ⟨halong, hindex⟩ := h.skipWhile (by simp [insertion.kind_newline]) hplain
  exact ⟨⟨halong, h.seen⟩, hindex⟩

/-- The two cursors meet the same lexemes, or the one stands in front of the line break and the
other where it would be. -/
theorem inStep_or : insertion.InStep opened c d ∨
    c.rest = insertion.later ∧ d.rest = insertion.newline :: insertion.later ∧
      OpenBracket.ignoresNewlines opened = true := by
  rcases h.rows with ⟨ahead, hc, hd, hplace, hindex, hignores⟩ | ⟨-, hindex, hplace⟩
  · cases ahead with
    | nil => exact .inr ⟨hc, hd, hignores⟩
    | cons lexeme ahead =>
      rw [List.length_cons] at hplace
      exact .inl ⟨h, by rw [token_of_lt (by omega), hindex]⟩
  · exact .inl ⟨h, by rw [token_of_le hplace, hindex]⟩

/-- The line break is not put in where it would mean anything. -/
theorem inStep (hopened : OpenBracket.ignoresNewlines opened = false) :
    insertion.InStep opened c d :=
  h.inStep_or.resolve_right fun hat => Bool.false_ne_true (hopened.symm.trans hat.2.2)

theorem settle : insertion.InStep opened c.settle d.settle := by
  have hends : d.endsAtNewline = c.endsAtNewline := by rw [endsAtNewline, h.brackets, endsAtNewline]
  unfold Cursor.settle
  rw [hends]
  split
  · next hc =>
    refine h.inStep ?_
    rw [OpenBracket.ignoresNewlines_eq, ← h.seen]
    simpa [endsAtNewline] using hc
  · exact h.skipNewlines

theorem beforeElse : insertion.InStep opened c.beforeElse d.beforeElse := by
  unfold Cursor.beforeElse
  rw [h.brackets]
  split
  · next hc =>
    refine h.inStep ?_
    rw [OpenBracket.ignoresNewlines_eq, ← h.seen, List.isEmpty_iff.mp hc]
    rfl
  · exact h.skipNewlines

variable {kind : Kind} (hkind : c.settle.head.kind = kind) (hend : kind ≠ .endOfInput)
include hkind hend

/-- Both take the same lexeme. -/
theorem taken : d.settle.head = c.settle.head ∧
    d.settle.index = insertion.numbering.token c.settle.index ∧
    insertion.Along (OpenBracket.step opened kind) c.settle.advance d.settle.advance := by
  subst hkind
  exact ⟨h.settle.head, h.settle.index, h.settle.advance hend⟩

/-- Both take a lexeme that is no bracket. -/
theorem passes (hplain : kind.isBracket = false) : d.settle.head = c.settle.head ∧
    d.settle.index = insertion.numbering.token c.settle.index ∧
    insertion.Widened opened c.settle.advance d.settle.advance := by
  obtain ⟨hhead, hindex, halong⟩ := h.taken hkind hend
  rw [OpenBracket.step_of_not_isBracket hplain] at halong
  exact ⟨hhead, hindex, halong, by rw [brackets_advance, brackets_settle, h.seen]⟩

/-- Both take a bracket that opens, and go inside. -/
theorem opens (bracket : Bracket)
    (hopens : OpenBracket.seen (OpenBracket.step opened kind) = bracket :: OpenBracket.seen opened) :
    d.settle.head = c.settle.head ∧
    d.settle.index = insertion.numbering.token c.settle.index ∧
    insertion.Widened (OpenBracket.step opened kind) (c.settle.advance.enter bracket)
      (d.settle.advance.enter bracket) := by
  obtain ⟨hhead, hindex, halong⟩ := h.taken hkind hend
  refine ⟨hhead, hindex, halong.enter bracket, ?_⟩
  rw [hopens, brackets_enter, brackets_advance, brackets_settle, h.seen]

/-- Both take a bracket that closes, and go outside. -/
theorem closes
    (hcloses : OpenBracket.seen (OpenBracket.step opened kind) = (OpenBracket.seen opened).tail) :
    d.settle.head = c.settle.head ∧
    insertion.Widened (OpenBracket.step opened kind) c.settle.advance.leave
      d.settle.advance.leave := by
  obtain ⟨hhead, -, halong⟩ := h.taken hkind hend
  refine ⟨hhead, halong.leave, ?_⟩
  rw [hcloses, brackets_leave, brackets_advance, brackets_settle, h.seen]

end Widened

/-- Both take what begins an expression, if it is no bracket. -/
theorem Widened.begins (h : insertion.Widened opened c d) {opening : Opening}
    (hopening : Opening.ofLexeme? c.settle.head = some opening) (hplain : opening.encloses = false) :
    d.settle.head = c.settle.head ∧
    d.settle.index = insertion.numbering.token c.settle.index ∧
    insertion.Widened opened c.settle.advance d.settle.advance :=
  h.passes rfl (Opening.kind_ne_endOfInput hopening) ((Opening.isBracket_eq hopening).trans hplain)

/-- Both take what goes on with an expression, if it is no bracket. -/
theorem Widened.goesOn (h : insertion.Widened opened c d) {step : Continuation}
    (hkind : Continuation.ofKind? c.settle.head.kind = some step) (hplain : step.encloses = false) :
    d.settle.head = c.settle.head ∧
    d.settle.index = insertion.numbering.token c.settle.index ∧
    insertion.Widened opened c.settle.advance d.settle.advance :=
  h.passes rfl (Continuation.kind_ne_endOfInput hkind)
    ((Continuation.isBracket_eq hkind).trans hplain)

/-- Both take a lexeme that is no bracket. -/
theorem InStep.passes (h : insertion.InStep opened c d) (hend : c.head.kind ≠ .endOfInput)
    (hplain : c.head.kind.isBracket = false) : insertion.Widened opened c.advance d.advance := by
  have halong := h.advance hend
  rw [OpenBracket.step_of_not_isBracket hplain] at halong
  exact ⟨halong, by rw [brackets_advance, h.seen]⟩

end Insertion

namespace Expr

open Insertion

variable {insertion : Insertion} {opened : List OpenBracket} {c c' d : Cursor}

theorem readName_widened {start : Nat} {first : Lexeme} {e : Expr}
    (hd : insertion.Widened opened c d) (h : readName start first c = .ok (e, c')) :
    ∃ d', insertion.Widened opened c' d' ∧
      readName (insertion.numbering.token start) first d =
        .ok (e.renumber insertion.numbering, d') := by
  rcases readName_eq_ok_iff.mp h with ⟨hdouble, htriple, rfl, rfl⟩ | ⟨hcolons, name, hname, rfl, rfl⟩
  · have hplain : d.head.kind ≠ .doubleColon ∧ d.head.kind ≠ .tripleColon := by
      rcases hd.inStep_or with hstep | ⟨-, hrest, -⟩
      · rw [hstep.head]
        exact ⟨hdouble, htriple⟩
      · have hnewline : d.head.kind = .newline := by
          rw [Cursor.head, hrest]
          exact insertion.kind_newline
        rw [hnewline]
        exact ⟨by decide, by decide⟩
    refine ⟨d, hd, readName_eq_ok_iff.mpr (.inl ⟨hplain.1, hplain.2, rfl, ?_⟩)⟩
    exact (hd.close rfl (.identifier first.name)).symm
  · have hend : c.head.kind ≠ .endOfInput := by
      rcases hcolons with hkind | hkind <;> rw [hkind] <;> decide
    have hbracket : c.head.kind.isBracket = false := by
      rcases hcolons with hkind | hkind <;> rw [hkind] <;> rfl
    -- In front of the line break there would be no colons to come.
    have hstep : insertion.InStep opened c d := by
      rcases hd.inStep_or with hstep | ⟨hrest, -⟩
      · exact hstep
      · have hhead : c.head ∈ insertion.later.head? := by
          rw [← hrest, rest_eq_cons hend]
          rfl
        obtain ⟨hdouble, htriple⟩ := insertion.no_colons _ hhead
        exact absurd hcolons (not_or.mpr ⟨hdouble, htriple⟩)
    have hbehind := hstep.passes hend hbracket
    obtain ⟨hhead, -, htaken⟩ := hbehind.passes rfl
      (kind_ne_of_not_isTrivia (isTrivia_of_memberName? hname)).2 (isBracket_of_memberName? hname)
    refine ⟨_, htaken, readName_eq_ok_iff.mpr (.inr ⟨?_, name, ?_, rfl, ?_⟩)⟩
    · rwa [hstep.head]
    · rwa [hhead]
    · rw [hstep.head]
      exact (htaken.close rfl (.namespaced _ _ _)).symm

theorem readMember_widened {left e : Expr} {slot : Bool} (hd : insertion.Widened opened c d)
    (h : readMember left slot c = .ok (e, c')) :
    ∃ d', insertion.Widened opened c' d' ∧
      readMember (left.renumber insertion.numbering) slot d =
        .ok (e.renumber insertion.numbering, d') := by
  obtain ⟨name, hname, rfl, rfl⟩ := readMember_eq_ok_iff.mp h
  have hskip := hd.skipNewlines
  have hbehind := hskip.passes (kind_ne_of_not_isTrivia (isTrivia_of_memberName? hname)).2
    (isBracket_of_memberName? hname)
  refine ⟨_, hbehind, readMember_eq_ok_iff.mpr ⟨name, by rwa [hskip.head], rfl, ?_⟩⟩
  rw [range_renumber]
  exact (hbehind.close rfl (.member left name slot)).symm

/-- The line break ends a statement, if it is put in behind one. -/
theorem expectEnd_widened {terminator : Kind} (hd : insertion.Widened opened c d)
    (h : expectEnd terminator c = .ok ()) : expectEnd terminator d = .ok () := by
  rcases hd.inStep_or with hstep | ⟨-, hrest, -⟩
  · unfold expectEnd at h ⊢
    rw [hstep.head]
    split at h
    · next hend => rw [if_pos hend]
    · cases h
  · refine if_pos (.inl ?_)
    rw [Cursor.head, hrest]
    exact insertion.kind_newline

/-- Behind a name with an equals sign to come comes that sign, or a line break before it. -/
theorem kind_settle_of_secondKind? (hend : c.head.kind ≠ .endOfInput)
    (h : c.secondKind? = some .equalAssign) :
    c.advance.settle.head.kind = .newline ∨ c.advance.settle.head.kind = .equalAssign := by
  have hsecond := kind_of_secondKind? hend h
  by_cases hnewline : c.advance.settle.head.kind = .newline
  · exact .inl hnewline
  · refine .inr ?_
    unfold Cursor.settle at hnewline ⊢
    split
    · next hends =>
      rw [if_pos hends] at hnewline
      rwa [skipNewlines_of_head hnewline] at hsecond
    · exact hsecond

theorem start_renumber (numbering : Renumbering) (e : Expr) :
    (e.renumber numbering).range.start = numbering.token e.range.start :=
  congrArg TokenRange.start (range_renumber numbering e)

/-- **Reading with one more line break.**  What is read in the row is read in the longer one, but
for the indices.  A reader that closes a bracket has to have it: of the two that close `[[`, the
second one is taken by the continuation itself. -/
theorem Reads.widened {task : Task} {result : task.Result} (h : Reads task c result c')
    (hd : insertion.Widened opened c d) (hopened : task.closes = true → opened.head? ≠ some .half) :
    ∃ d', insertion.Widened (task.behind opened) c' d' ∧
      Reads (task.renumber insertion.numbering) d
        (task.renumberResult insertion.numbering result) d' := by
  induction h generalizing d opened with
  | expression _ _ ihleft ihmore =>
    obtain ⟨d₁, hd₁, hleft⟩ := ihleft hd nofun
    obtain ⟨d₂, hd₂, hmore⟩ := ihmore hd₁ nofun
    exact ⟨d₂, hd₂, .expression hleft hmore⟩
  | done hloose =>
    have hsettle := hd.settle
    exact ⟨_, hsettle.toWidened, .done fun step hstep => hloose step (by rwa [← hsettle.head])⟩
  | @call power left e given c c₁ c₂ hkind hpower _ _ ihgiven ihmore =>
    obtain ⟨hhead, -, hinside⟩ :=
      hd.opens (Continuation.kind_of_call hkind) (by decide) .round rfl
    obtain ⟨d₁, hd₁, hgiven⟩ := ihgiven hinside nofun
    replace hd₁ : insertion.Widened opened c₁ d₁ := hd₁
    obtain ⟨d₂, hd₂, hmore⟩ := ihmore hd₁ nofun
    exact ⟨d₂, hd₂, .call (by rwa [hhead]) hpower hgiven
      (hmore.of_left (hd₁.close (start_renumber ..) (.call left given)))⟩
  | @index power left e given c c₁ c₂ hkind hpower _ _ ihgiven ihmore =>
    obtain ⟨hhead, -, hinside⟩ :=
      hd.opens (Continuation.kind_of_index hkind) (by decide) .round rfl
    obtain ⟨d₁, hd₁, hgiven⟩ := ihgiven hinside nofun
    replace hd₁ : insertion.Widened opened c₁ d₁ := hd₁
    obtain ⟨d₂, hd₂, hmore⟩ := ihmore hd₁ nofun
    exact ⟨d₂, hd₂, .index (by rwa [hhead]) hpower hgiven
      (hmore.of_left (hd₁.close (start_renumber ..) (.index left given false)))⟩
  | @doubleIndex power left e given c c₁ c₂ hkind hpower _ hclose _ ihgiven ihmore =>
    obtain ⟨hhead, -, hinside⟩ :=
      hd.opens (Continuation.kind_of_index hkind) (by decide) .round rfl
    obtain ⟨d₁, hd₁, hgiven⟩ := ihgiven hinside nofun
    -- The arguments have left the bracket, and still one of the two is to come.
    replace hd₁ : insertion.Widened (.half :: opened) c₁ d₁ := hd₁
    obtain ⟨hhead₁, -, halong⟩ := hd₁.taken hclose (by decide)
    have hbehind : insertion.Widened opened c₁.settle.advance d₁.settle.advance :=
      ⟨halong, by rw [brackets_advance, brackets_settle]; exact hd₁.seen⟩
    obtain ⟨d₂, hd₂, hmore⟩ := ihmore hbehind nofun
    exact ⟨d₂, hd₂, .doubleIndex (by rwa [hhead]) hpower hgiven (by rwa [hhead₁])
      (hmore.of_left (hbehind.close (start_renumber ..) (.index left given true)))⟩
  | member hkind hpower hmember _ ihmore =>
    obtain ⟨hhead, -, htaken⟩ := hd.goesOn hkind rfl
    obtain ⟨d₁, hd₁, hmember'⟩ := readMember_widened htaken hmember
    obtain ⟨d₂, hd₂, hmore⟩ := ihmore hd₁ nofun
    exact ⟨d₂, hd₂, .member (by rwa [hhead]) hpower hmember' hmore⟩
  | @between power level left right e c c₁ c₂ hkind hpower _ _ ihright ihmore =>
    obtain ⟨hhead, hindex, htaken⟩ := hd.goesOn hkind rfl
    obtain ⟨d₁, hd₁, hright⟩ := ihright htaken.skipNewlines.toWidened nofun
    obtain ⟨d₂, hd₂, hmore⟩ := ihmore hd₁ nofun
    have hclose := hd₁.close (start_renumber _ left)
      (.between c.settle.head c.settle.index left right)
    rw [Form.map_between] at hclose
    refine ⟨d₂, hd₂, .between (by rwa [hhead]) hpower hright (hmore.of_left ?_)⟩
    rw [hhead, hindex]
    exact hclose
  | @leaf form c hopening =>
    obtain ⟨hhead, hindex, htaken⟩ := hd.begins hopening rfl
    have hclose := htaken.close hindex form
    rw [Opening.map_leaf _ _ hopening] at hclose
    exact ⟨_, htaken, (Reads.leaf (by rwa [hhead])).of_result hclose⟩
  | name hopening hname =>
    obtain ⟨hhead, hindex, htaken⟩ := hd.begins hopening rfl
    obtain ⟨d₁, hd₁, hname'⟩ := readName_widened htaken hname
    exact ⟨d₁, hd₁, .name (by rwa [hhead]) (by rwa [hhead, hindex])⟩
  | @paren inner c c₁ hopening _ hclose ihinner =>
    obtain ⟨hhead, hindex, hinside⟩ :=
      hd.opens (Opening.kind_of_paren hopening) (by decide) .round rfl
    obtain ⟨d₁, hd₁, hinner⟩ := ihinner hinside nofun
    obtain ⟨hhead₁, hbehind⟩ := hd₁.closes hclose (by decide) rfl
    exact ⟨_, hbehind, (Reads.paren (by rwa [hhead]) hinner (by rwa [hhead₁])).of_result
      (hbehind.close hindex (.paren inner))⟩
  | @block body c c₁ hopening hbody ihbody =>
    obtain ⟨hhead, hindex, hinside⟩ :=
      hd.opens (Opening.kind_of_block hopening) (by decide) .brace rfl
    obtain ⟨d₁, hd₁, hbody'⟩ := ihbody hinside nofun
    -- Directly inside braces the line break is not put in.
    have hbrace := hbody.head_of_statements rfl
    have halong := (hd₁.inStep rfl).advance (by rw [hbrace]; decide)
    rw [hbrace] at halong
    have hbehind : insertion.Widened opened c₁.advance.leave d₁.advance.leave :=
      ⟨halong.leave, by rw [brackets_leave, brackets_advance, hd₁.seen]; rfl⟩
    exact ⟨_, hbehind, (Reads.block (by rwa [hhead]) hbody').of_result
      (hbehind.close hindex (.block body))⟩
  | @sign operator level inner c c₁ hopening _ ihinner =>
    obtain ⟨hhead, hindex, htaken⟩ := hd.begins hopening rfl
    obtain ⟨d₁, hd₁, hinner⟩ := ihinner htaken.skipNewlines.toWidened nofun
    exact ⟨d₁, hd₁, (Reads.sign (by rwa [hhead]) hinner).of_result
      (hd₁.close hindex (.unary operator inner))⟩
  | @tilde right c c₁ hopening _ ihright =>
    obtain ⟨hhead, hindex, htaken⟩ := hd.begins hopening rfl
    obtain ⟨d₁, hd₁, hright⟩ := ihright htaken.skipNewlines.toWidened nofun
    exact ⟨d₁, hd₁, (Reads.tilde (by rwa [hhead]) hright).of_result
      (hd₁.close hindex (.formula none right))⟩
  | @repeatLoop body c c₁ hopening _ ihbody =>
    obtain ⟨hhead, hindex, htaken⟩ := hd.begins hopening rfl
    obtain ⟨d₁, hd₁, hbody⟩ := ihbody htaken.skipNewlines.toWidened nofun
    exact ⟨d₁, hd₁, (Reads.repeatLoop (by rwa [hhead]) hbody).of_result
      (hd₁.close hindex (.repeatLoop body))⟩
  | @function given body c c₁ c₂ hopening hopen _ _ ihgiven ihbody =>
    obtain ⟨hhead, hindex, htaken⟩ := hd.begins hopening rfl
    obtain ⟨hhead₁, -, hinside⟩ := htaken.opens hopen (by decide) .round rfl
    obtain ⟨d₁, hd₁, hgiven⟩ := ihgiven hinside nofun
    replace hd₁ : insertion.Widened opened c₁ d₁ := hd₁
    obtain ⟨d₂, hd₂, hbody⟩ := ihbody hd₁.skipNewlines.toWidened nofun
    exact ⟨d₂, hd₂, (Reads.function (by rwa [hhead]) (by rwa [hhead₁]) hgiven hbody).of_result
      (hd₂.close hindex (.function given body))⟩
  | @conditional condition consequent alternative c c₁ c₂ c₃ hopening _ _ _ ihcondition
      ihconsequent ihalternative =>
    obtain ⟨hhead, hindex, htaken⟩ := hd.begins hopening rfl
    obtain ⟨d₁, hd₁, hcondition⟩ := ihcondition htaken nofun
    obtain ⟨d₂, hd₂, hconsequent⟩ := ihconsequent hd₁ nofun
    obtain ⟨d₃, hd₃, halternative⟩ := ihalternative hd₂ nofun
    exact ⟨d₃, hd₃, (Reads.conditional (by rwa [hhead]) hcondition hconsequent
      halternative).of_result
        (hd₃.close hindex (.conditional condition consequent alternative))⟩
  | @forLoop sequence body c c₁ c₂ c₃ hopening hopen hinside hcounter hin _ hclose _ ihsequence
      ihbody =>
    subst hinside
    obtain ⟨hhead, hindex, htaken⟩ := hd.begins hopening rfl
    obtain ⟨hhead₁, -, hinside⟩ := htaken.opens hopen (by decide) .round rfl
    obtain ⟨hhead₂, -, htaken₂⟩ := hinside.passes hcounter (by decide) rfl
    obtain ⟨hhead₃, -, htaken₃⟩ := htaken₂.passes hin (by decide) rfl
    obtain ⟨d₂, hd₂, hsequence⟩ := ihsequence htaken₃ nofun
    obtain ⟨hhead₄, hbehind⟩ := hd₂.closes hclose (by decide) rfl
    replace hbehind : insertion.Widened opened c₂.settle.advance.leave d₂.settle.advance.leave :=
      hbehind
    obtain ⟨d₃, hd₃, hbody⟩ := ihbody hbehind.skipNewlines.toWidened nofun
    refine ⟨d₃, hd₃, (Reads.forLoop (by rwa [hhead]) (by rwa [hhead₁]) rfl (by rwa [hhead₂])
      (by rwa [hhead₃]) hsequence (by rwa [hhead₄]) hbody).of_result ?_⟩
    rw [hhead₂]
    exact hd₃.close hindex (.forLoop _ sequence body)
  | @whileLoop condition body c c₁ c₂ hopening _ _ ihcondition ihbody =>
    obtain ⟨hhead, hindex, htaken⟩ := hd.begins hopening rfl
    obtain ⟨d₁, hd₁, hcondition⟩ := ihcondition htaken nofun
    obtain ⟨d₂, hd₂, hbody⟩ := ihbody hd₁ nofun
    exact ⟨d₂, hd₂, (Reads.whileLoop (by rwa [hhead]) hcondition hbody).of_result
      (hd₂.close hindex (.whileLoop condition body))⟩
  | header hopen _ hclose ihcondition =>
    obtain ⟨hhead, -, hinside⟩ := hd.opens hopen (by decide) .round rfl
    obtain ⟨d₁, hd₁, hcondition⟩ := ihcondition hinside nofun
    obtain ⟨hhead₁, hbehind⟩ := hd₁.closes hclose (by decide) rfl
    exact ⟨_, hbehind.skipNewlines.toWidened, .header (by rwa [hhead]) hcondition (by rwa [hhead₁])⟩
  | elseBranch helse _ ihbranch =>
    have hbefore := hd.beforeElse
    have htaken := hbefore.passes (by rw [helse]; decide) (by rw [helse]; rfl)
    obtain ⟨d₁, hd₁, hbranch⟩ := ihbranch htaken.skipNewlines.toWidened nofun
    exact ⟨d₁, hd₁, .elseBranch (by rwa [hbefore.head]) hbranch⟩
  | noElse helse => exact ⟨d, hd, .noElse (by rwa [hd.beforeElse.head])⟩
  | noStatements hend =>
    have hskip := hd.skipSeparators
    exact ⟨_, hskip.toWidened, .noStatements (by rwa [hskip.head])⟩
  | statement hgo _ hend _ ihfirst ihothers =>
    have hskip := hd.skipSeparators
    obtain ⟨d₁, hd₁, hfirst⟩ := ihfirst hskip.toWidened nofun
    obtain ⟨d₂, hd₂, hothers⟩ := ihothers hd₁ nofun
    exact ⟨d₂, hd₂, .statement (by rwa [hskip.head]) hfirst (expectEnd_widened hd₁ hend) hothers⟩
  | @noArguments closer c hclose =>
    obtain ⟨hhead, hbehind⟩ :=
      hd.closes hclose closer.kind_ne_endOfInput (closer.seen_step (hopened rfl))
    exact ⟨_, hbehind, .noArguments (by rwa [hhead])⟩
  | someArguments hgo _ ihgiven =>
    obtain ⟨d₁, hd₁, hgiven⟩ := ihgiven hd.settle.toWidened hopened
    exact ⟨d₁, hd₁, .someArguments (by rwa [hd.settle.head]) hgiven⟩
  | @lastArgument closer first c c₁ _ hclose ihfirst =>
    obtain ⟨d₁, hd₁, hfirst⟩ := ihfirst hd nofun
    obtain ⟨hhead, hbehind⟩ :=
      hd₁.closes hclose closer.kind_ne_endOfInput (closer.seen_step (hopened rfl))
    exact ⟨_, hbehind, .lastArgument hfirst (by rwa [hhead])⟩
  | moreArguments _ hcomma _ ihfirst ihothers =>
    obtain ⟨d₁, hd₁, hfirst⟩ := ihfirst hd nofun
    obtain ⟨hhead, -, htaken⟩ := hd₁.passes hcomma (by decide) rfl
    obtain ⟨d₂, hd₂, hothers⟩ := ihothers htaken hopened
    exact ⟨d₂, hd₂, .moreArguments hfirst (by rwa [hhead]) hothers⟩
  | namedArgument hname hequal _ ihvalue =>
    have hend := (kind_ne_of_not_isTrivia (isTrivia_of_argumentName? hname)).2
    obtain ⟨hhead, -, htaken⟩ := hd.passes rfl hend (isBracket_of_argumentName? hname)
    have hkind := kind_settle_of_secondKind? hend hequal
    obtain ⟨-, -, htaken₁⟩ := htaken.passes rfl
      (by rcases hkind with hkind | hkind <;> rw [hkind] <;> decide)
      (by rcases hkind with hkind | hkind <;> rw [hkind] <;> rfl)
    obtain ⟨d₁, hd₁, hvalue⟩ := ihvalue htaken₁ nofun
    exact ⟨d₁, hd₁, .namedArgument (by rwa [hhead]) (by rwa [hd.settle.secondKind?]) hvalue⟩
  | plainArgument hplain _ ihvalue =>
    obtain ⟨d₁, hd₁, hvalue⟩ := ihvalue hd.settle.toWidened nofun
    refine ⟨d₁, hd₁, .plainArgument ?_ hvalue⟩
    rwa [hd.settle.head, hd.settle.secondKind?]
  | noValue hend => exact ⟨_, hd.settle.toWidened, .noValue (by rwa [hd.settle.head])⟩
  | value hgo _ ihvalue =>
    obtain ⟨d₁, hd₁, hvalue⟩ := ihvalue hd.settle.toWidened nofun
    exact ⟨d₁, hd₁, .value (by rwa [hd.settle.head]) hvalue⟩
  | noParameters hclose =>
    obtain ⟨hhead, hbehind⟩ :=
      hd.closes hclose (by decide) (Closer.paren.seen_step (hopened rfl))
    exact ⟨_, hbehind, .noParameters (by rwa [hhead])⟩
  | someParameters hgo _ ihgiven =>
    obtain ⟨d₁, hd₁, hgiven⟩ := ihgiven hd.settle.toWidened hopened
    exact ⟨d₁, hd₁, .someParameters (by rwa [hd.settle.head]) hgiven⟩
  | lastParameter hname _ hclose ihfallback =>
    obtain ⟨hhead, -, htaken⟩ := hd.passes hname (by decide) rfl
    obtain ⟨d₁, hd₁, hfallback⟩ := ihfallback htaken nofun
    obtain ⟨hhead₁, hbehind⟩ :=
      hd₁.closes hclose (by decide) (Closer.paren.seen_step (hopened rfl))
    have hread := Reads.lastParameter (by rwa [hhead]) hfallback (by rwa [hhead₁])
    rw [hhead] at hread
    exact ⟨_, hbehind, hread⟩
  | moreParameters hname _ hcomma _ ihfallback ihothers =>
    obtain ⟨hhead, -, htaken⟩ := hd.passes hname (by decide) rfl
    obtain ⟨d₁, hd₁, hfallback⟩ := ihfallback htaken nofun
    obtain ⟨hhead₁, -, htaken₁⟩ := hd₁.passes hcomma (by decide) rfl
    obtain ⟨d₂, hd₂, hothers⟩ := ihothers htaken₁ hopened
    have hread := Reads.moreParameters (by rwa [hhead]) hfallback (by rwa [hhead₁]) hothers
    rw [hhead] at hread
    exact ⟨d₂, hd₂, hread⟩
  | fallback hequal _ ihvalue =>
    obtain ⟨hhead, -, htaken⟩ := hd.passes hequal (by decide) rfl
    obtain ⟨d₁, hd₁, hvalue⟩ := ihvalue htaken nofun
    exact ⟨d₁, hd₁, .fallback (by rwa [hhead]) hvalue⟩
  | noFallback hequal =>
    exact ⟨_, hd.settle.toWidened, .noFallback (by rwa [hd.settle.head])⟩

/-- A whole row and the row with a line break put in. -/
theorem readAll_widened {earlier later : List Lexeme} {newline : Lexeme} {es : List Expr}
    (hnewline : newline.kind = .newline)
    (hignores : OpenBracket.ignoresNewlines (OpenBracket.after [] earlier) = true)
    (hcolons : ∀ lexeme ∈ later.head?, lexeme.kind ≠ .doubleColon ∧ lexeme.kind ≠ .tripleColon)
    (h : readAll (earlier ++ later) = .ok es) :
    readAll (earlier ++ newline :: later) = .ok (es.map (renumber (.gap earlier.length))) := by
  obtain ⟨c, hreads⟩ := readAll_eq_ok_iff.mp h
  have hplace : 0 < earlier.length := by
    refine List.length_pos_iff.mpr fun hnil => ?_
    rw [hnil] at hignores
    cases hignores
  let insertion : Insertion := ⟨earlier.length, newline, later, hnewline, hcolons⟩
  have hstart : insertion.Widened [] (.ofLexemes (earlier ++ later))
      (.ofLexemes (earlier ++ newline :: later)) :=
    ⟨⟨(token_of_lt hplace).symm, rfl, .inl ⟨earlier, rfl, rfl, Nat.zero_add _, rfl, hignores⟩⟩, rfl⟩
  obtain ⟨d, -, hreads'⟩ := hreads.widened hstart nofun
  exact readAll_eq_ok_iff.mpr ⟨d, hreads'⟩

end Expr
end TypeDrift
