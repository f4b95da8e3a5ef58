import TypeDrift.Proofs.Expr.Progress
import TypeDrift.Proofs.Expr.Relabel

/-! # Rows that fork

Two rows of lexemes begin alike, but for their texts, and part at some lexeme (`Fork`).  This module
asks how far two readers of them stay together.

A reader looks at the lexeme it comes to, and a few times ahead of it: past line breaks for `else`,
and past them for `=` behind the name of an argument.  So a call that ends in the common part, with a
lexeme of it ahead that is no line break, reads the same from both rows (`Reads.forked`).  It may
also end right at the fork, if what the second row goes on with asks for nothing that has been read
before it (`Kind.Quiet`): the call has ended in the first row, and ends there in the second one too.
-/
namespace TypeDrift

/-- A kind that does not go on with anything read before it: with no expression, no name, no branch
and no statement. -/
def Kind.Quiet (kind : Kind) : Prop :=
  Continuation.ofKind? kind = none ∧ kind ≠ .doubleColon ∧ kind ≠ .tripleColon ∧
    kind ≠ .keyword .elseWord ∧ kind ≠ .semicolon

instance (kind : Kind) : Decidable kind.Quiet := by unfold Kind.Quiet; infer_instance

theorem Kind.Quiet.ne_equalAssign {kind : Kind} (h : kind.Quiet) : kind ≠ .equalAssign := by
  rintro rfl
  cases h.1

/-- Two rows of lexemes that begin alike, but for the texts, and the two ways in which they go on. -/
structure Fork where
  labels : Relabelling
  first : List Lexeme
  second : List Lexeme

open Cursor

namespace Fork

variable (fork : Fork)

/-- The lexeme at the fork in the second row. -/
def head : Lexeme := fork.second.headD .endOfInput

/-- The place is not behind the fork. -/
def UpTo (c : Cursor) : Prop := fork.first.length ≤ c.rest.length

/-- The next lexeme comes before the fork. -/
def Before (c : Cursor) : Prop := fork.first.length < c.rest.length

/-- Line breaks and separators that end here in the first row end here in the second one: before
the fork, or at the fork in front of another lexeme. -/
def Lands (c : Cursor) : Prop :=
  fork.Before c ∨
    c.rest.length = fork.first.length ∧ fork.head.kind ≠ .newline ∧ fork.head.kind ≠ .semicolon

/-- An expression that ends here in the first row ends here in the second one. -/
def Stops (c : Cursor) : Prop :=
  fork.Before c.beforeElse ∨
    c.beforeElse.rest.length = fork.first.length ∧ fork.head.kind.Quiet ∧
      (fork.head.kind = .newline → c.brackets = [])

/-- At the fork, the second row goes on with a name that does not name an argument. -/
def Resumes : Prop :=
  ∃ name rest, fork.second = name :: rest ∧ name.kind = .identifier ∧
    (rest.find? fun lexeme => lexeme.kind != .newline).map Lexeme.kind ≠ some .equalAssign

/-- `c` in the first row, and `d` at the same place of the second one, not behind the fork. -/
def Beside (c d : Cursor) : Prop :=
  ∃ common, c.rest = common ++ fork.first ∧
    d = { c with rest := common.map (Lexeme.relabel fork.labels) ++ fork.second }

variable {fork}

/-! ## Before the fork -/

theorem Before.upTo {c : Cursor} (h : fork.Before c) : fork.UpTo c := Nat.le_of_lt h

theorem UpTo.of_reaches {c d : Cursor} (hd : fork.UpTo d) (h : c.Reaches d) : fork.UpTo c :=
  Nat.le_trans hd h.length_le

theorem Before.of_reaches {c d : Cursor} (hd : fork.Before d) (h : c.Reaches d) : fork.Before c :=
  Nat.lt_of_lt_of_le hd h.length_le

theorem Lands.upTo {c : Cursor} (h : fork.Lands c) : fork.UpTo c :=
  h.elim Before.upTo fun hat => Nat.le_of_eq hat.1.symm

/-- A lexeme that is taken up to the fork comes before it. -/
theorem UpTo.before_of_advance {c : Cursor} (h : fork.UpTo c.advance)
    (hend : c.head.kind ≠ .endOfInput) : fork.Before c :=
  Nat.lt_of_le_of_lt h (length_advance_lt hend)

theorem Stops.upTo_beforeElse {c : Cursor} (h : fork.Stops c) : fork.UpTo c.beforeElse :=
  h.elim Before.upTo fun hat => Nat.le_of_eq hat.1.symm

theorem Stops.upTo {c : Cursor} (h : fork.Stops c) : fork.UpTo c :=
  h.upTo_beforeElse.of_reaches (reaches_beforeElse c)

/-- Where an expression stops at the fork, the second row goes on with something quiet. -/
theorem Stops.quiet {c : Cursor} (h : fork.Stops c) (hat : c.rest.length = fork.first.length) :
    fork.head.kind.Quiet := by
  have hlength := (reaches_beforeElse c).length_le
  rcases h with hbefore | ⟨-, hquiet, -⟩
  · exact absurd hbefore (by unfold Before; omega)
  · exact hquiet

theorem UpTo.before_or {c : Cursor} (h : fork.UpTo c) :
    fork.Before c ∨ c.rest.length = fork.first.length :=
  (Nat.lt_or_eq_of_le h).imp_right Eq.symm

theorem length_beforeElse_le {c d : Cursor} (h : c.Reaches d) (hbrackets : d.brackets = c.brackets) :
    d.beforeElse.rest.length ≤ c.beforeElse.rest.length := by
  unfold beforeElse
  rw [hbrackets]
  split
  · exact h.length_le
  · exact h.length_skipNewlines_le

/-- An expression may stop where it may stop further on. -/
theorem Stops.of_reaches {c d : Cursor} (hd : fork.Stops d) (h : c.Reaches d)
    (hbrackets : d.brackets = c.brackets) : fork.Stops c := by
  have hlength := length_beforeElse_le h hbrackets
  rcases hd with hbefore | ⟨hat, hquiet, hnewline⟩
  · exact .inl (Nat.lt_of_lt_of_le hbefore hlength)
  · rcases Nat.lt_or_eq_of_le hlength with hlt | heq
    · exact .inl (Nat.lt_of_le_of_lt (Nat.le_of_eq hat.symm) hlt)
    · exact .inr ⟨heq ▸ hat, hquiet, fun h => hbrackets ▸ hnewline h⟩

/-- An expression may stop where a lexeme is met before the fork that is no line break. -/
theorem Stops.of_settle {c : Cursor} (h : fork.Before c.settle)
    (hnewline : c.settle.head.kind ≠ .newline) : fork.Stops c := by
  refine Or.inl (Nat.lt_of_lt_of_le h ?_)
  unfold beforeElse
  split
  · exact (reaches_settle c).length_le
  · rw [settle_eq_skipNewlines hnewline]

theorem Resumes.kind_head (h : fork.Resumes) : fork.head.kind = .identifier := by
  obtain ⟨name, rest, hsecond, hkind, -⟩ := h
  rw [Fork.head, hsecond]
  exact hkind

/-- An expression may stop where something comes further on, before the fork or, in the second row, at
it. -/
theorem Stops.of_ahead {c c' : Cursor} (hreach : c.beforeElse.Reaches c')
    (h : fork.Before c' ∨ c'.rest.length = fork.first.length ∧ fork.Resumes) : fork.Stops c := by
  have hlength := hreach.length_le
  rcases h with hbefore | ⟨hat, hresumes⟩
  · exact .inl (hbefore.of_reaches hreach)
  · rcases Nat.lt_or_eq_of_le (hat ▸ hlength) with hlt | heq
    · exact .inl hlt
    · have hkind := hresumes.kind_head
      refine .inr ⟨heq.symm, by rw [hkind]; decide, fun hnewline => ?_⟩
      rw [hkind] at hnewline
      cases hnewline

theorem Stops.of_head {c : Cursor} (h : fork.Before c) (hnewline : c.head.kind ≠ .newline) :
    fork.Stops c := by
  refine .inl ?_
  unfold beforeElse
  split
  · exact h
  · rwa [skipNewlines_of_head hnewline]

/-- Line breaks that mean nothing here end in both rows. -/
theorem Stops.lands {c : Cursor} (h : fork.Stops c) (hbrackets : c.brackets ≠ []) :
    fork.Lands c.skipNewlines := by
  have hsame : c.beforeElse = c.skipNewlines := if_neg (by simpa using hbrackets)
  rw [Stops, hsame] at h
  exact h.imp_right fun ⟨hat, hquiet, hnewline⟩ =>
    ⟨hat, fun hkind => hbrackets (hnewline hkind), hquiet.2.2.2.2⟩

/-! ## Moving along both rows -/

namespace Beside

variable {c d : Cursor} (h : fork.Beside c d)
include h

theorem index : d.index = c.index := by
  obtain ⟨common, -, rfl⟩ := h
  rfl

theorem brackets : d.brackets = c.brackets := by
  obtain ⟨common, -, rfl⟩ := h
  rfl

/-- The same expression is closed, but for its texts. -/
theorem close {start start' : Nat} (hstart : start' = start) (form : Form Expr) :
    d.close start' ((form.map (Expr.relabel fork.labels) id).relabel fork.labels) =
      (c.close start form).relabel fork.labels := by
  obtain ⟨common, -, rfl⟩ := h
  rw [hstart, Cursor.close, Cursor.close, Expr.relabel_node]

theorem rest_cons (hbefore : fork.Before c) :
    ∃ lexeme common, c.rest = lexeme :: (common ++ fork.first) ∧
      d = { c with rest := lexeme.relabel fork.labels ::
        (common.map (Lexeme.relabel fork.labels) ++ fork.second) } := by
  obtain ⟨common, hrest, rfl⟩ := h
  cases common with
  | nil => exact absurd (congrArg List.length hrest) (Nat.ne_of_gt hbefore)
  | cons lexeme common => exact ⟨lexeme, common, hrest, rfl⟩

theorem head (hbefore : fork.Before c) : d.head = c.head.relabel fork.labels := by
  obtain ⟨lexeme, common, hrest, rfl⟩ := h.rest_cons hbefore
  rw [Cursor.head, Cursor.head, hrest]
  rfl

theorem kind_iff (hbefore : fork.Before c) {kind : Kind} (hkind : kind.isString = false) :
    d.head.kind = kind ↔ c.head.kind = kind := by
  rw [h.head hbefore, Lexeme.kind_relabel_iff hkind]

theorem rest_of_at (hat : c.rest.length = fork.first.length) : d.rest = fork.second := by
  obtain ⟨common, hrest, rfl⟩ := h
  have hnil : common = [] := by
    rw [hrest, List.length_append] at hat
    exact List.eq_nil_of_length_eq_zero (by omega)
  rw [hnil, List.map_nil, List.nil_append]

theorem head_of_at (hat : c.rest.length = fork.first.length) : d.head = fork.head := by
  rw [Cursor.head, h.rest_of_at hat, Fork.head]

theorem enter (bracket : Bracket) : fork.Beside (c.enter bracket) (d.enter bracket) := by
  obtain ⟨common, hrest, rfl⟩ := h
  exact ⟨common, hrest, rfl⟩

theorem leave : fork.Beside c.leave d.leave := by
  obtain ⟨common, hrest, rfl⟩ := h
  exact ⟨common, hrest, rfl⟩

theorem advance (hbefore : fork.Before c) : fork.Beside c.advance d.advance := by
  have hside := h
  obtain ⟨lexeme, common, hrest, hd⟩ := h.rest_cons hbefore
  by_cases hend : c.head.kind = .endOfInput
  · -- The end of input is not taken in either row.
    have hd : d.head.kind = .endOfInput := (h.kind_iff hbefore rfl).mpr hend
    rwa [advance_of_end hend, advance_of_end hd]
  · have hd' : d.head.kind ≠ .endOfInput := fun hkind => hend ((h.kind_iff hbefore rfl).mp hkind)
    rw [advance_eq hend, advance_eq hd']
    exact ⟨common, by rw [hrest]; rfl, by rw [hd]; rfl⟩

/-- What is skipped ends in both rows, before the fork or at it. -/
theorem skipWhile {p : Lexeme → Bool}
    (hp : ∀ lexeme, p (Lexeme.relabel fork.labels lexeme) = p lexeme)
    (hstop : fork.Before (c.skipWhile p) ∨
      (c.skipWhile p).rest.length = fork.first.length ∧ p fork.head = false) :
    fork.Beside (c.skipWhile p) (d.skipWhile p) := by
  obtain ⟨common, hrest, rfl⟩ := h
  have hsplit := List.takeWhile_append_dropWhile (p := p) (l := common)
  have hskipped : ∀ lexeme ∈ common.takeWhile p, p lexeme = true :=
    fun _ hmem => List.mem_takeWhile_imp hmem
  have hskipped' : ∀ lexeme ∈ (common.takeWhile p).map (Lexeme.relabel fork.labels),
      p lexeme = true := by
    simpa only [List.forall_mem_map, hp] using hskipped
  rw [← hsplit, List.append_assoc] at hrest
  rw [← hsplit, List.map_append, List.append_assoc]
  have hc := skipWhile_of_append hrest hskipped
  have hd := skipWhile_of_append
    (c := { c with rest := (common.takeWhile p).map (Lexeme.relabel fork.labels) ++
      ((common.dropWhile p).map (Lexeme.relabel fork.labels) ++ fork.second) }) rfl hskipped'
  rw [hc] at hstop
  rw [hc, hd]
  cases hdrop : common.dropWhile p with
  | nil =>
    -- All of the common part is skipped, so that both stand at the fork.
    rw [hdrop, List.nil_append] at hstop
    have hle := (List.dropWhile_suffix (l := fork.first) p).length_le
    rcases hstop with hbefore | ⟨hat, hhead⟩
    · exact absurd hle (Nat.not_le_of_lt hbefore)
    · have hfirst : fork.first.dropWhile p = fork.first :=
        (List.dropWhile_suffix p).eq_of_length hat
      have htake := List.takeWhile_append_dropWhile (p := p) (l := fork.first)
      rw [hfirst, List.append_left_eq_self] at htake
      refine ⟨[], ?_, ?_⟩
      · simp only [Cursor.skipWhile, List.nil_append, hfirst]
      · rw [skipWhile_of_head (by exact hhead)]
        simp only [Cursor.skipWhile, List.nil_append, List.map_nil, htake, hfirst, List.length_nil,
          List.length_map, Nat.add_zero]
  | cons lexeme ahead =>
    have hlexeme : p lexeme = false := by
      have hhead := List.head?_dropWhile_not p common
      rw [hdrop] at hhead
      simpa using hhead
    rw [skipWhile_of_head (by exact hlexeme), skipWhile_of_head (by exact (hp lexeme).trans hlexeme)]
    exact ⟨lexeme :: ahead, rfl, by simp only [List.length_map]⟩

theorem skipNewlines (hlands : fork.Lands c.skipNewlines) :
    fork.Beside c.skipNewlines d.skipNewlines := by
  refine h.skipWhile (fun lexeme => ?_) (hlands.imp_right fun hat => ⟨hat.1, by simpa using hat.2.1⟩)
  have hkind : (lexeme.relabel fork.labels).kind = .newline ↔ lexeme.kind = .newline :=
    Lexeme.kind_relabel_iff rfl
  simp only [beq_eq_decide, hkind]

theorem skipSeparators (hlands : fork.Lands c.skipSeparators) :
    fork.Beside c.skipSeparators d.skipSeparators := by
  refine h.skipWhile (fun lexeme => ?_) (hlands.imp_right fun hat => ⟨hat.1, by simpa using hat.2⟩)
  have hkind (kind : Kind) (hkind : kind.isString = false) :
      (lexeme.relabel fork.labels).kind = kind ↔ lexeme.kind = kind :=
    Lexeme.kind_relabel_iff hkind
  simp only [beq_eq_decide, hkind .newline rfl, hkind .semicolon rfl]

theorem settle (hlands : c.endsAtNewline = false → fork.Lands c.skipNewlines) :
    fork.Beside c.settle d.settle := by
  have hends : d.endsAtNewline = c.endsAtNewline := by rw [endsAtNewline, h.brackets, endsAtNewline]
  unfold Cursor.settle
  rw [hends]
  split
  · exact h
  · next hc => exact h.skipNewlines (hlands (by simpa using hc))

theorem settle_of_lands (hlands : fork.Lands c.settle) : fork.Beside c.settle d.settle := by
  refine h.settle fun hends => ?_
  rwa [Cursor.settle, if_neg (by simp [hends])] at hlands

theorem settle_of_stops (hstops : fork.Stops c) : fork.Beside c.settle d.settle := by
  refine h.settle fun hends => hstops.lands fun hnil => ?_
  rw [endsAtNewline, hnil] at hends
  cases hends

theorem beforeElse (hstops : fork.Stops c) : fork.Beside c.beforeElse d.beforeElse := by
  unfold Cursor.beforeElse
  rw [h.brackets]
  split
  · exact h
  · next hne => exact h.skipNewlines (hstops.lands (by simpa using hne))

/-- Both take the same lexeme, but for its texts. -/
theorem taken (hbefore : fork.Before c.settle) :
    d.settle.head = c.settle.head.relabel fork.labels ∧ d.settle.index = c.settle.index ∧
      fork.Beside c.settle.advance d.settle.advance :=
  have hsettle := h.settle_of_lands (.inl hbefore)
  ⟨hsettle.head hbefore, hsettle.index, hsettle.advance hbefore⟩

end Beside
end Fork
end TypeDrift
