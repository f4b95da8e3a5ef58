import Mathlib.Data.List.TakeWhile
import TypeDrift.Expr.Cursor

/-! # Moving a cursor

A cursor only ever moves on in its row of lexemes: what is still to come after a move is an end of
what was to come before it, and the index grows by what was passed (`Cursor.Reaches`).  Line breaks
may be passed without being taken; only `Cursor.advance` takes a lexeme, and it never passes the end
of input.
-/
namespace TypeDrift.Cursor

/-! ## What a move leaves as it is -/

@[simp] theorem brackets_skipWhile (c : Cursor) (p : Lexeme → Bool) :
    (c.skipWhile p).brackets = c.brackets := rfl

@[simp] theorem brackets_skipNewlines (c : Cursor) : c.skipNewlines.brackets = c.brackets := rfl

@[simp] theorem brackets_skipSeparators (c : Cursor) : c.skipSeparators.brackets = c.brackets := rfl

@[simp] theorem brackets_settle (c : Cursor) : c.settle.brackets = c.brackets := by
  unfold settle
  split <;> rfl

@[simp] theorem brackets_advance (c : Cursor) : c.advance.brackets = c.brackets := by
  unfold advance
  split
  · rfl
  · split <;> rfl

@[simp] theorem brackets_enter (c : Cursor) (bracket : Bracket) :
    (c.enter bracket).brackets = bracket :: c.brackets := rfl

@[simp] theorem brackets_leave (c : Cursor) : c.leave.brackets = c.brackets.tail := rfl

theorem skipWhile_skipWhile (c : Cursor) (p : Lexeme → Bool) :
    (c.skipWhile p).skipWhile p = c.skipWhile p := by
  have hdrop : (c.rest.dropWhile p).takeWhile p = [] := by
    have hhead := List.head?_dropWhile_not p c.rest
    cases hrest : c.rest.dropWhile p with
    | nil => rfl
    | cons lexeme rest =>
      rw [hrest] at hhead
      rw [List.takeWhile_cons_of_neg (by simpa using hhead)]
  have hkeep := List.takeWhile_append_dropWhile (p := p) (l := c.rest.dropWhile p)
  rw [hdrop, List.nil_append] at hkeep
  simp only [skipWhile, hdrop, hkeep, List.length_nil, Nat.add_zero]

/-- Nothing is skipped in front of a lexeme that stops. -/
theorem skipWhile_of_head {c : Cursor} {p : Lexeme → Bool} (hstop : p c.head = false) :
    c.skipWhile p = c := by
  obtain ⟨index, rest, last, brackets⟩ := c
  cases rest with
  | nil => rfl
  | cons lexeme rest =>
    have hlexeme : ¬p lexeme = true := by simpa [head] using hstop
    rw [skipWhile, List.takeWhile_cons_of_neg hlexeme, List.dropWhile_cons_of_neg hlexeme]
    rfl

theorem skipWhile_of_append {c : Cursor} {p : Lexeme → Bool} {passed ahead : List Lexeme}
    (hrest : c.rest = passed ++ ahead) (hpassed : ∀ lexeme ∈ passed, p lexeme = true) :
    c.skipWhile p =
      { c with index := c.index + passed.length, rest := ahead }.skipWhile p := by
  simp only [skipWhile, hrest, List.takeWhile_append_of_pos hpassed,
    List.dropWhile_append_of_pos hpassed, List.length_append, Nat.add_assoc]

/-- Up to the first lexeme that stops all are skipped. -/
theorem skipWhile_of_stop {c : Cursor} {p : Lexeme → Bool} {passed ahead : List Lexeme}
    {stop : Lexeme} (hrest : c.rest = passed ++ stop :: ahead)
    (hpassed : ∀ lexeme ∈ passed, p lexeme = true) (hstop : p stop = false) :
    c.skipWhile p = { c with index := c.index + passed.length, rest := stop :: ahead } := by
  rw [skipWhile_of_append hrest hpassed, skipWhile_of_head hstop]

/-- Either all of some lexemes are skipped, or one of them stops. -/
theorem all_or_exists_stop (p : Lexeme → Bool) (ahead : List Lexeme) :
    (∀ lexeme ∈ ahead, p lexeme = true) ∨
      ∃ passed stop behind, ahead = passed ++ stop :: behind ∧
        (∀ lexeme ∈ passed, p lexeme = true) ∧ p stop = false := by
  cases hfind : ahead.find? fun lexeme => !p lexeme with
  | none => exact .inl (by simpa using hfind)
  | some stop =>
    obtain ⟨hstop, passed, behind, hsplit, hpassed⟩ := List.find?_eq_some_iff_append.mp hfind
    exact .inr ⟨passed, stop, behind, hsplit, by simpa using hpassed, by simpa using hstop⟩

theorem skipNewlines_of_head {c : Cursor} (h : c.head.kind ≠ .newline) : c.skipNewlines = c :=
  skipWhile_of_head (by simpa using h)

@[simp] theorem settle_settle (c : Cursor) : c.settle.settle = c.settle := by
  by_cases hends : c.endsAtNewline = true
  · simp only [settle, if_pos hends]
  · have hsame : c.skipNewlines.endsAtNewline = c.endsAtNewline := rfl
    simp only [settle, if_neg hends, hsame]
    exact skipWhile_skipWhile c _

/-- Only line breaks are passed. -/
theorem settle_of_head {c : Cursor} (h : c.head.kind ≠ .newline) : c.settle = c := by
  unfold settle
  split
  · rfl
  · exact skipNewlines_of_head h

/-- In front of another lexeme than a line break, it does not matter whether they mean anything. -/
theorem settle_eq_skipNewlines {c : Cursor} (h : c.settle.head.kind ≠ .newline) :
    c.settle = c.skipNewlines := by
  unfold settle at h ⊢
  split
  · next hends =>
    rw [if_pos hends] at h
    exact (skipNewlines_of_head h).symm
  · rfl

/-! ## Taking a lexeme -/

/-- A lexeme that is not the end of input is one that is still to come. -/
theorem rest_eq_cons {c : Cursor} (h : c.head.kind ≠ .endOfInput) :
    c.rest = c.head :: c.rest.tail := by
  unfold head at h ⊢
  cases hrest : c.rest with
  | nil => exact absurd (by rw [hrest]; rfl) h
  | cons lexeme rest => rfl

theorem advance_eq {c : Cursor} (h : c.head.kind ≠ .endOfInput) :
    c.advance =
      { index := c.index + 1, rest := c.rest.tail, last := c.index, brackets := c.brackets } := by
  have hrest := rest_eq_cons h
  unfold advance
  split
  · next hnil => rw [hnil] at hrest; cases hrest
  · next lexeme rest hcons =>
    obtain ⟨rfl, -⟩ := List.cons.inj (hcons.symm.trans hrest)
    rw [if_neg h, hcons]
    rfl

theorem advance_of_end {c : Cursor} (h : c.head.kind = .endOfInput) : c.advance = c := by
  unfold advance
  split
  · rfl
  · next lexeme rest hrest =>
    have hkind : lexeme.kind = .endOfInput := by simpa [head, hrest] using h
    rw [if_pos hkind]

theorem last_advance {c : Cursor} (h : c.head.kind ≠ .endOfInput) : c.advance.last = c.index := by
  rw [advance_eq h]

theorem index_advance {c : Cursor} (h : c.head.kind ≠ .endOfInput) :
    c.advance.index = c.index + 1 := by rw [advance_eq h]

/-- The second lexeme is met behind the first one and the line breaks that follow it. -/
theorem secondKind?_eq {c : Cursor} (h : c.head.kind ≠ .endOfInput) :
    c.secondKind? = c.advance.skipNewlines.rest.head?.map Lexeme.kind := by
  have hdrop := List.find?_eq_head?_dropWhile_not
    (fun lexeme : Lexeme => lexeme.kind != .newline) c.rest.tail
  simp only [bne, Bool.not_not] at hdrop
  rw [advance_eq h, secondKind?]
  exact congrArg (Option.map Lexeme.kind) hdrop

theorem kind_of_secondKind? {c : Cursor} {kind : Kind} (hend : c.head.kind ≠ .endOfInput)
    (h : c.secondKind? = some kind) : c.advance.skipNewlines.head.kind = kind := by
  rw [secondKind?_eq hend] at h
  obtain ⟨lexeme, hhead, hkind⟩ := Option.map_eq_some_iff.mp h
  rwa [head, List.headD_eq_head?_getD, hhead]

/-! ## Further on in the same row -/

/-- The second place lies further on than the first, or is the same place. The end of input is not
passed. -/
def Reaches (c d : Cursor) : Prop :=
  ∃ passed, c.rest = passed ++ d.rest ∧ d.index = c.index + passed.length ∧
    ∀ lexeme ∈ passed, lexeme.kind ≠ .endOfInput

namespace Reaches

theorem refl (c : Cursor) : c.Reaches c := ⟨[], rfl, rfl, nofun⟩

theorem trans {c d e : Cursor} (h : c.Reaches d) (h' : d.Reaches e) : c.Reaches e := by
  obtain ⟨passed, hrest, hindex, hkinds⟩ := h
  obtain ⟨passed', hrest', hindex', hkinds'⟩ := h'
  refine ⟨passed ++ passed', by rw [hrest, hrest', List.append_assoc], ?_,
    List.forall_mem_append.mpr ⟨hkinds, hkinds'⟩⟩
  rw [hindex', hindex, List.length_append, Nat.add_assoc]

theorem length_le {c d : Cursor} (h : c.Reaches d) : d.rest.length ≤ c.rest.length := by
  obtain ⟨passed, hrest, -⟩ := h
  rw [hrest, List.length_append]
  exact Nat.le_add_left _ _

theorem index_le {c d : Cursor} (h : c.Reaches d) : c.index ≤ d.index := by
  obtain ⟨passed, -, hindex, -⟩ := h
  exact hindex ▸ Nat.le_add_right _ _

/-- What is passed is counted. -/
theorem index_add_length {c d : Cursor} (h : c.Reaches d) :
    d.index + d.rest.length = c.index + c.rest.length := by
  obtain ⟨passed, hrest, hindex, -⟩ := h
  rw [hrest, hindex, List.length_append, Nat.add_assoc]

/-- What lies ahead further on lies ahead here too. -/
theorem mem {c d : Cursor} (h : c.Reaches d) {lexeme : Lexeme} (hmem : lexeme ∈ d.rest) :
    lexeme ∈ c.rest := by
  obtain ⟨passed, hrest, -⟩ := h
  exact hrest ▸ List.mem_append_right passed hmem

/-- Of two places ahead, the one with less to come lies further on. -/
theorem of_length_le {c d e : Cursor} (hd : c.Reaches d) (he : c.Reaches e)
    (hlength : e.rest.length ≤ d.rest.length) : d.Reaches e := by
  obtain ⟨passed, hrest, hindex, hkinds⟩ := hd
  obtain ⟨passed', hrest', hindex', hkinds'⟩ := he
  rcases List.append_eq_append_iff.mp (hrest.symm.trans hrest') with
    ⟨between, rfl, hbetween⟩ | ⟨between, rfl, hbetween⟩
  · refine ⟨between, hbetween, ?_, fun lexeme hmem => hkinds' lexeme (List.mem_append_right _ hmem)⟩
    rw [hindex', hindex, List.length_append, Nat.add_assoc]
  · have hnil : between = [] := by
      rw [hbetween, List.length_append] at hlength
      exact List.eq_nil_of_length_eq_zero (by omega)
    subst hnil
    exact ⟨[], hbetween.symm, by simp [hindex, hindex'], nofun⟩

theorem length_skipNewlines_le {c d : Cursor} (h : c.Reaches d) :
    d.skipNewlines.rest.length ≤ c.skipNewlines.rest.length := by
  obtain ⟨passed, hrest, -⟩ := h
  simp only [skipNewlines, skipWhile, hrest, List.dropWhile_append]
  split
  · exact Nat.le_refl _
  · rw [List.length_append]
    exact Nat.le_trans (List.dropWhile_suffix _).length_le (Nat.le_add_left _ _)

end Reaches

theorem reaches_skipWhile {p : Lexeme → Bool} (c : Cursor)
    (hp : ∀ lexeme, p lexeme = true → lexeme.kind ≠ .endOfInput) : c.Reaches (c.skipWhile p) :=
  ⟨c.rest.takeWhile p, List.takeWhile_append_dropWhile.symm, rfl,
    fun lexeme hmem => hp lexeme (List.mem_takeWhile_imp hmem)⟩

theorem reaches_skipNewlines (c : Cursor) : c.Reaches c.skipNewlines :=
  reaches_skipWhile c fun lexeme h => by simp_all

/-- Line breaks skipped here are skipped further on, or lie before that place. -/
theorem Reaches.skipNewlines {c d : Cursor} (h : c.Reaches d) :
    c.skipNewlines.Reaches d.skipNewlines :=
  .of_length_le (reaches_skipNewlines c) (h.trans (reaches_skipNewlines d)) h.length_skipNewlines_le

theorem reaches_skipSeparators (c : Cursor) : c.Reaches c.skipSeparators :=
  reaches_skipWhile c fun lexeme h hkind => by simp [hkind] at h

/-- Line breaks are separators, which are skipped with the others. -/
theorem skipSeparators_skipNewlines (c : Cursor) :
    c.skipNewlines.skipSeparators = c.skipSeparators := by
  have hrest := (List.takeWhile_append_dropWhile
    (p := fun lexeme : Lexeme => lexeme.kind == .newline) (l := c.rest)).symm
  refine (skipWhile_of_append hrest fun lexeme hmem => ?_).symm
  rw [List.mem_takeWhile_imp hmem, Bool.true_or]

theorem reaches_skipNewlines_skipSeparators (c : Cursor) :
    c.skipNewlines.Reaches c.skipSeparators :=
  skipSeparators_skipNewlines c ▸ reaches_skipSeparators c.skipNewlines

theorem reaches_settle (c : Cursor) : c.Reaches c.settle := by
  unfold settle
  split
  · exact .refl c
  · exact reaches_skipNewlines c

theorem reaches_advance (c : Cursor) : c.Reaches c.advance := by
  by_cases h : c.head.kind = .endOfInput
  · rw [advance_of_end h]
    exact .refl c
  · exact ⟨[c.head], by rw [advance_eq h]; exact rest_eq_cons h, by rw [advance_eq h]; rfl,
      List.forall_mem_singleton.mpr h⟩

/-- What lies further on lies behind the next lexeme. -/
theorem Reaches.advance {c d : Cursor} (h : c.Reaches d) (hlength : d.rest.length < c.rest.length) :
    c.advance.Reaches d := by
  refine .of_length_le (reaches_advance c) h ?_
  by_cases hend : c.head.kind = .endOfInput
  · rw [advance_of_end hend]
    exact Nat.le_of_lt hlength
  · rw [rest_eq_cons hend, List.length_cons] at hlength
    rw [advance_eq hend]
    exact Nat.le_of_lt_succ hlength

theorem length_advance_lt {c : Cursor} (h : c.head.kind ≠ .endOfInput) :
    c.advance.rest.length < c.rest.length := by
  rw [advance_eq h, rest_eq_cons h]
  exact Nat.lt_succ_self _

/-- The second place lies behind the lexeme that comes next at the first one. -/
def Precedes (c d : Cursor) : Prop := c.Reaches d ∧ d.rest.length < c.rest.length

theorem Precedes.of_advance {c d : Cursor} (hend : c.head.kind ≠ .endOfInput)
    (h : c.advance.Reaches d) : c.Precedes d :=
  ⟨(reaches_advance c).trans h, Nat.lt_of_le_of_lt h.length_le (length_advance_lt hend)⟩

theorem Reaches.precedes {c d e : Cursor} (h : c.Reaches d) (h' : d.Precedes e) : c.Precedes e :=
  ⟨h.trans h'.1, Nat.lt_of_lt_of_le h'.2 h.length_le⟩

end TypeDrift.Cursor
