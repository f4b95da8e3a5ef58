import TypeDrift.Proofs.Expr.Append

/-! # The ranges of what is read

An expression holds a range of indices.  This module shows that these ranges are laid out as the text
is (`Reads.laysOut`): the range of an expression is not empty, begins and ends with a lexeme that is
written out, holds the ranges of its parts one behind the other, and has a lexeme of its own between
them.

The reader closes an expression with the lexeme that was taken last, so what has to be carried along
is where that one lies: before the reader, with nothing but line breaks in between
(`Cursor.Behind`).  An expression that is read therefore ends where the reader has last taken a
lexeme (`Expr.ReadFrom`), and whatever is read next begins behind it.
-/
namespace TypeDrift

/-- The lexeme with this index is written out: it is there, and it is no line break and no end of
input. -/
def WrittenAt (row : List Lexeme) (index : Nat) : Prop :=
  ∃ lexeme ∈ row[index]?, lexeme.isTrivia = false

/-- The lexeme with this index is a line break. -/
def BreakAt (row : List Lexeme) (index : Nat) : Prop :=
  ∃ lexeme ∈ row[index]?, lexeme.kind = .newline

/-- The lexeme with this index separates expressions. -/
def SeparatorAt (row : List Lexeme) (index : Nat) : Prop :=
  ∃ lexeme ∈ row[index]?, lexeme.kind = .newline ∨ lexeme.kind = .semicolon

theorem TokenRange.contains_iff {range : TokenRange} {index : Nat} :
    range.contains index = true ↔ range.start ≤ index ∧ index < range.stop := by
  simp [contains]

theorem TokenRange.contains_eq_false_iff {range : TokenRange} {index : Nat} :
    range.contains index = false ↔ index < range.start ∨ range.stop ≤ index := by
  rw [← Bool.not_eq_true, contains_iff]
  omega

variable {row : List Lexeme}

theorem BreakAt.separatorAt {index : Nat} (h : BreakAt row index) : SeparatorAt row index := by
  obtain ⟨lexeme, hmem, hkind⟩ := h
  exact ⟨lexeme, hmem, .inl hkind⟩

namespace Cursor

/-- A place in this row: what is still to come is the row from the index on. -/
def In (row : List Lexeme) (c : Cursor) : Prop := c.rest = row.drop c.index

/-- A place in this row where a lexeme that is written out has been taken, with nothing but line
breaks behind it. -/
structure Behind (row : List Lexeme) (c : Cursor) : Prop where
  inRow : c.In row
  last_lt : c.last < c.index
  written : WrittenAt row c.last
  breaks : ∀ index, c.last < index → index < c.index → BreakAt row index

theorem in_ofLexemes (row : List Lexeme) : (ofLexemes row).In row := rfl

variable {c d : Cursor}

theorem In.of_reaches (h : c.In row) (hreach : c.Reaches d) : d.In row := by
  obtain ⟨passed, hrest, hindex, -⟩ := hreach
  have hdrop : row.drop c.index = passed ++ d.rest := h.symm.trans hrest
  show d.rest = row.drop d.index
  rw [hindex, ← List.drop_drop, hdrop, List.drop_left]

theorem In.getElem?_index (h : c.In row) (hend : c.head.kind ≠ .endOfInput) :
    row[c.index]? = some c.head := by
  have hrest : row.drop c.index = c.head :: c.rest.tail := h.symm.trans (rest_eq_cons hend)
  have hfirst : (row.drop c.index)[0]? = some c.head := by rw [hrest]; rfl
  rwa [List.getElem?_drop] at hfirst

/-- What is skipped is what the test holds for. -/
theorem In.of_skipWhile (h : c.In row) {p : Lexeme → Bool} {index : Nat} (hle : c.index ≤ index)
    (hlt : index < (c.skipWhile p).index) : ∃ lexeme ∈ row[index]?, p lexeme = true := by
  obtain ⟨k, rfl⟩ := Nat.exists_eq_add_of_le hle
  have hk : k < (c.rest.takeWhile p).length := Nat.lt_of_add_lt_add_left hlt
  have hrow : row[c.index + k]? = (c.rest.takeWhile p)[k]? := by
    have hsplit : row.drop c.index = c.rest.takeWhile p ++ c.rest.dropWhile p :=
      h.symm.trans List.takeWhile_append_dropWhile.symm
    rw [← List.getElem?_drop, hsplit, List.getElem?_append_left hk]
  refine ⟨(c.rest.takeWhile p)[k], ?_, List.mem_takeWhile_imp (List.getElem_mem hk)⟩
  rw [hrow, List.getElem?_eq_getElem hk]
  rfl

theorem In.of_skipSeparators (h : c.In row) {index : Nat} (hle : c.index ≤ index)
    (hlt : index < c.skipSeparators.index) : SeparatorAt row index := by
  obtain ⟨lexeme, hmem, hkind⟩ := h.of_skipWhile hle hlt
  exact ⟨lexeme, hmem, by simpa using hkind⟩

theorem In.of_skipNewlines (h : c.In row) {index : Nat} (hle : c.index ≤ index)
    (hlt : index < c.skipNewlines.index) : BreakAt row index := by
  obtain ⟨lexeme, hmem, hkind⟩ := h.of_skipWhile hle hlt
  exact ⟨lexeme, hmem, by simpa using hkind⟩

theorem In.of_settle (h : c.In row) {index : Nat} (hle : c.index ≤ index)
    (hlt : index < c.settle.index) : BreakAt row index := by
  unfold settle at hlt
  split at hlt
  · omega
  · exact h.of_skipNewlines hle hlt

/-- A lexeme that is written out is taken. -/
theorem In.advance (h : c.In row) (htrivia : c.head.isTrivia = false) :
    WrittenAt row c.index ∧ c.advance.Behind row ∧ c.advance.last = c.index := by
  have hend := (kind_ne_of_not_isTrivia htrivia).2
  have hindex := index_advance hend
  have hlast := last_advance hend
  have hwritten : WrittenAt row c.index := ⟨c.head, h.getElem?_index hend, htrivia⟩
  refine ⟨hwritten, ⟨h.of_reaches (reaches_advance c), ?_, ?_, ?_⟩, hlast⟩
  · omega
  · rwa [hlast]
  · intro index hlt hlt'
    omega

namespace Behind

theorem skipNewlines (h : c.Behind row) : c.skipNewlines.Behind row := by
  refine ⟨h.inRow.of_reaches (reaches_skipNewlines c),
    Nat.lt_of_lt_of_le h.last_lt (reaches_skipNewlines c).index_le, h.written, ?_⟩
  intro index hlt hlt'
  by_cases hbefore : index < c.index
  · exact h.breaks index hlt hbefore
  · exact h.inRow.of_skipNewlines (Nat.le_of_not_lt hbefore) hlt'

theorem settle (h : c.Behind row) : c.settle.Behind row := by
  unfold Cursor.settle
  split
  · exact h
  · exact h.skipNewlines

theorem last_lt_settle (h : c.Behind row) : c.last < c.settle.index :=
  Nat.lt_of_lt_of_le h.last_lt (reaches_settle c).index_le

theorem enter (h : c.Behind row) (bracket : Bracket) : (c.enter bracket).Behind row :=
  ⟨h.inRow, h.last_lt, h.written, h.breaks⟩

theorem leave (h : c.Behind row) : c.leave.Behind row :=
  ⟨h.inRow, h.last_lt, h.written, h.breaks⟩

end Behind

/-- From `c` on the lexeme at `place` is the first that was taken, and `d` lies behind it with
nothing but line breaks in between. -/
structure Took (row : List Lexeme) (c : Cursor) (place : Nat) (d : Cursor) : Prop where
  le : c.index ≤ place
  written : WrittenAt row place
  behind : d.Behind row
  last : d.last = place

theorem In.took (h : c.In row) (htrivia : c.settle.head.isTrivia = false) :
    Took row c c.settle.index c.settle.advance := by
  have hreach := reaches_settle c
  obtain ⟨hwritten, hbehind, hlast⟩ := (h.of_reaches hreach).advance htrivia
  exact ⟨hreach.index_le, hwritten, hbehind, hlast⟩

namespace Took

variable {place : Nat} (took : Took row c place d)
include took

theorem lt_index : place < d.index := took.last ▸ took.behind.last_lt

theorem lt_settle : place < d.settle.index := took.last ▸ took.behind.last_lt_settle

theorem skipNewlines : Took row c place d.skipNewlines :=
  ⟨took.le, took.written, took.behind.skipNewlines, took.last⟩

theorem enter (bracket : Bracket) : Took row c place (d.enter bracket) :=
  ⟨took.le, took.written, took.behind.enter bracket, took.last⟩

theorem leave : Took row c place d.leave :=
  ⟨took.le, took.written, took.behind.leave, took.last⟩

end Took
end Cursor

namespace Expr

open Cursor

/-- The range of an expression against those of its parts, in the row that it was read from. -/
structure LaidOut (row : List Lexeme) (e : Expr) : Prop where
  nonempty : e.range.start < e.range.stop
  first : WrittenAt row e.range.start
  last : WrittenAt row (e.range.stop - 1)
  inside : ∀ child ∈ e.children,
    e.range.start ≤ child.range.start ∧ child.range.stop ≤ e.range.stop
  ordered : e.children.Pairwise fun a b => a.range.stop ≤ b.range.start
  /-- Something in the range belongs to the expression itself. -/
  own : ∃ index, WrittenAt row index ∧ e.range.contains index = true ∧
    ∀ child ∈ e.children, child.range.contains index = false

/-- An expression and everything in it is laid out. -/
def Tiled (row : List Lexeme) (e : Expr) : Prop := ∀ node ∈ e.preorder, node.LaidOut row

theorem tiled_iff {e : Expr} :
    e.Tiled row ↔ e.LaidOut row ∧ ∀ child ∈ e.children, child.Tiled row := forall_mem_preorder_iff

/-- Expressions one behind the other, from the index `lo` up to the index `hi`. -/
inductive Laid (row : List Lexeme) : Nat → Nat → List Expr → Prop where
  | nil {lo hi : Nat} (hle : lo ≤ hi) : Laid row lo hi []
  | cons {lo hi : Nat} {e : Expr} {es : List Expr} (hstart : lo ≤ e.range.start)
      (htiled : e.Tiled row) (hrest : Laid row e.range.stop hi es) : Laid row lo hi (e :: es)

namespace Laid

variable {lo lo' mid hi hi' : Nat} {e : Expr} {l m : List Expr}

theorem le (h : Laid row lo hi l) : lo ≤ hi := by
  induction h with
  | nil hle => exact hle
  | cons hstart htiled _ ih =>
    have hnonempty := (tiled_iff.mp htiled).1.nonempty
    omega

theorem mono (h : Laid row lo hi l) (hlo : lo' ≤ lo) (hhi : hi ≤ hi') : Laid row lo' hi' l := by
  induction h generalizing lo' with
  | nil hle => exact .nil (Nat.le_trans hlo (Nat.le_trans hle hhi))
  | cons hstart htiled _ ih =>
    exact .cons (Nat.le_trans hlo hstart) htiled (ih (Nat.le_refl _) hhi)

theorem append (hl : Laid row lo mid l) (hm : Laid row mid hi m) :
    Laid row lo hi (l ++ m) := by
  induction hl with
  | nil hle => exact hm.mono hle (Nat.le_refl _)
  | cons hstart htiled _ ih => exact .cons hstart htiled (ih hm)

theorem tiled (h : Laid row lo hi l) : ∀ e ∈ l, e.Tiled row := by
  induction h with
  | nil => exact nofun
  | cons _ htiled _ ih => exact List.forall_mem_cons.mpr ⟨htiled, ih⟩

theorem within (h : Laid row lo hi l) : ∀ e ∈ l, lo ≤ e.range.start ∧ e.range.stop ≤ hi := by
  induction h with
  | nil => exact nofun
  | cons hstart htiled hrest ih =>
    have hnonempty := (tiled_iff.mp htiled).1.nonempty
    refine List.forall_mem_cons.mpr ⟨⟨hstart, hrest.le⟩, fun e he => ?_⟩
    have hwithin := ih e he
    omega

theorem ordered (h : Laid row lo hi l) :
    l.Pairwise fun a b => a.range.stop ≤ b.range.start := by
  induction h with
  | nil => exact .nil
  | cons _ _ hrest ih => exact .cons (fun e he => (hrest.within e he).1) ih

end Laid

/-- The expression that the reader has stopped behind: it begins at the index `start`, and ends with
the lexeme taken last. -/
structure ReadFrom (row : List Lexeme) (start : Nat) (e : Expr) (c : Cursor) : Prop where
  tiled : e.Tiled row
  start : e.range.start = start
  stop : e.range.stop = c.last + 1
  behind : c.Behind row

namespace ReadFrom

variable {start lo : Nat} {e : Expr} {c d : Cursor}

theorem written (h : ReadFrom row start e c) : WrittenAt row start :=
  h.start ▸ (tiled_iff.mp h.tiled).1.first

theorem laid (h : ReadFrom row start e c) (hle : lo ≤ start) : Laid row lo (c.last + 1) [e] :=
  .cons (h.start ▸ hle) h.tiled (.nil (Nat.le_of_eq h.stop))

/-- What is read has been passed. -/
theorem laid_index (h : ReadFrom row start e c) (hle : lo ≤ start) : Laid row lo c.index [e] :=
  (h.laid hle).mono (Nat.le_refl _) h.behind.last_lt

theorem settle (h : ReadFrom row start e c) : ReadFrom row start e c.settle := by
  have hlast : c.settle.last = c.last := by
    unfold Cursor.settle
    split <;> rfl
  exact ⟨h.tiled, h.start, hlast ▸ h.stop, h.behind.settle⟩

end ReadFrom

/-- **An expression that is closed is laid out**, if its parts are, on both sides of a lexeme of its
own. -/
theorem readFrom_close {c : Cursor} {start place : Nat} {form : Form Expr} {before after : List Expr}
    (hbehind : c.Behind row) (hstart : WrittenAt row start) (hplace : WrittenAt row place)
    (hchildren : form.children = before ++ after) (hbefore : Laid row start place before)
    (hafter : Laid row (place + 1) (c.last + 1) after) :
    ReadFrom row start (c.close start form) c := by
  have hlaid : Laid row start (c.last + 1) (c.close start form).children := by
    show Laid row start (c.last + 1) form.children
    rw [hchildren]
    exact hbefore.append (hafter.mono (Nat.le_succ _) (Nat.le_refl _))
  have hle := hbefore.le
  have hlt := hafter.le
  refine ⟨tiled_iff.mpr ⟨⟨?_, hstart, hbehind.written, hlaid.within, hlaid.ordered, place, hplace, ?_,
    ?_⟩, hlaid.tiled⟩, rfl, rfl, hbehind⟩
  · show start < c.last + 1
    omega
  · exact TokenRange.contains_iff.mpr ⟨hle, hlt⟩
  · intro child hchild
    replace hchild : child ∈ before ++ after := hchildren ▸ hchild
    refine TokenRange.contains_eq_false_iff.mpr ?_
    rcases List.mem_append.mp hchild with hchild | hchild
    · exact .inr (hbefore.within child hchild).2
    · exact .inl (hafter.within child hchild).1

/-- An expression that begins with a lexeme of its own. -/
theorem readFrom_close_first {c : Cursor} {start : Nat} {form : Form Expr} (hbehind : c.Behind row)
    (hstart : WrittenAt row start) (hparts : Laid row (start + 1) (c.last + 1) form.children) :
    ReadFrom row start (c.close start form) c :=
  readFrom_close hbehind hstart hstart (List.nil_append _).symm (.nil (Nat.le_refl _)) hparts

/-- An expression that goes on with what has been read, by a lexeme of its own. -/
theorem readFrom_close_after {c d : Cursor} {left : Expr} {start place : Nat} {form : Form Expr}
    {after : List Expr} (hleft : ReadFrom row start left c) (hbehind : d.Behind row)
    (hle : c.index ≤ place) (hplace : WrittenAt row place) (hchildren : form.children = left :: after)
    (hafter : Laid row (place + 1) (d.last + 1) after) :
    ReadFrom row start (d.close left.range.start form) d := by
  rw [hleft.start]
  exact readFrom_close hbehind hleft.written hplace hchildren
    ((hleft.laid_index (Nat.le_refl _)).mono (Nat.le_refl _) hle) hafter

/-- The lexeme with this index is one of these expressions or separates them. -/
def Covered (row : List Lexeme) (es : List Expr) (index : Nat) : Prop :=
  (∃ e ∈ es, e.range.contains index = true) ∨ SeparatorAt row index

/-- How a call of each of the functions that read lays out what it reads. -/
def Task.LaysOut (row : List Lexeme) : (task : Task) → Cursor → task.Result → Cursor → Prop
  | expression _, c, e, c' | operand, c, e, c' => ReadFrom row c.settle.index e c'
  | continuation _ left, c, e, c' => ∀ start, ReadFrom row start left c → ReadFrom row start e c'
  | header, c, e, c' => Laid row c.index c'.last [e] ∧ c'.Behind row
  -- Without a branch nothing is taken, and what was taken before counts.
  | alternative, c, branch, c' =>
    c.Behind row → Laid row (c.last + 1) (c'.last + 1) (Option.toList branch) ∧ c'.Behind row
  | statements _, c, es, c' =>
    Laid row c.index c'.index es ∧
      ∀ index, c.index ≤ index → index < c'.index → Covered row es index
  | arguments _, c, given, c' | argumentsFrom _, c, given, c' =>
    Laid row c.index c'.last (List.filterMap Argument.value given) ∧ c'.Behind row
  | parameters, c, given, c' | parametersFrom, c, given, c' =>
    Laid row c.index c'.last (List.filterMap Parameter.fallback given) ∧ c'.Behind row
  | argument _, c, given, c' => Laid row c.index c'.index (Argument.value given).toList
  | argumentValue _, c, value, c' | fallback, c, value, c' =>
    Laid row c.index c'.index (Option.toList value)

theorem readFrom_readName {start : Nat} {first : Lexeme} {c c' : Cursor} {e : Expr}
    (hc : c.Behind row) (hstart : WrittenAt row start) (hle : start ≤ c.last)
    (h : readName start first c = .ok (e, c')) : ReadFrom row start e c' := by
  rcases readName_eq_ok_iff.mp h with ⟨-, -, rfl, rfl⟩ | ⟨hcolons, name, hname, rfl, rfl⟩
  · exact readFrom_close_first hc hstart (.nil (Nat.succ_le_succ hle))
  · have htrivia : c.head.isTrivia = false := by
      rcases hcolons with hkind | hkind
      · exact Lexeme.isTrivia_of_kind hkind rfl
      · exact Lexeme.isTrivia_of_kind hkind rfl
    obtain ⟨-, hbehind, hlast⟩ := hc.inRow.advance htrivia
    have took := hbehind.inRow.took (isTrivia_of_memberName? hname)
    refine readFrom_close_first took.behind hstart (.nil ?_)
    have hlt := hc.last_lt
    have hlt' := hbehind.last_lt
    have hle' := took.le
    rw [took.last]
    omega

theorem readFrom_readMember {left e : Expr} {slot : Bool} {start place : Nat} {c c₁ c' : Cursor}
    (hleft : ReadFrom row start left c) (took : Took row c place c₁)
    (h : readMember left slot c₁ = .ok (e, c')) : ReadFrom row start e c' := by
  obtain ⟨name, hname, rfl, rfl⟩ := readMember_eq_ok_iff.mp h
  have hinside := took.behind.skipNewlines.inRow
  obtain ⟨-, hbehind, hlast⟩ := hinside.advance (isTrivia_of_memberName? hname)
  refine readFrom_close_after hleft hbehind took.le took.written rfl (.nil ?_)
  have hlt := took.skipNewlines.lt_index
  omega

/-- A branch behind `else` lies behind all that was taken before the `else`. -/
theorem laid_elseBranch {c c' : Cursor} {branch : Expr} (hbehind : c.Behind row)
    (htrivia : c.beforeElse.head.isTrivia = false)
    (hbranch : ReadFrom row c.beforeElse.advance.skipNewlines.settle.index branch c') :
    Laid row (c.last + 1) (c'.last + 1) [branch] ∧ c'.Behind row := by
  have hreach := reaches_beforeElse c
  obtain ⟨-, htaken, hlast⟩ := (hbehind.inRow.of_reaches hreach).advance htrivia
  have hlt := hbehind.last_lt
  have hle := hreach.index_le
  have hlt' := htaken.skipNewlines.last_lt_settle
  have hskip : c.beforeElse.advance.skipNewlines.last = c.beforeElse.index := hlast
  refine ⟨hbranch.laid ?_, hbranch.behind⟩
  omega

section Statement
variable {c c₁ c₂ : Cursor} {first : Expr} {others : List Expr}
  (hfirst : ReadFrom row c.skipSeparators.settle.index first c₁)
include hfirst

theorem laid_statement (hothers : Laid row c₁.index c₂.index others) :
    Laid row c.index c₂.index (first :: others) := by
  have hreach := (reaches_skipSeparators c).trans (reaches_settle c.skipSeparators)
  exact (hfirst.laid_index hreach.index_le).append hothers

/-- Separators, the first expression, the line breaks behind it, and then the others. -/
theorem covered_statement (hc : c.In row)
    (hothers : ∀ index, c₁.index ≤ index → index < c₂.index → Covered row others index)
    {index : Nat} (hle : c.index ≤ index) (hlt : index < c₂.index) :
    Covered row (first :: others) index := by
  by_cases hseparators : index < c.skipSeparators.index
  · exact .inr (hc.of_skipSeparators hle hseparators)
  by_cases hbefore : index < c.skipSeparators.settle.index
  · have hinside := hc.of_reaches (reaches_skipSeparators c)
    exact .inr (hinside.of_settle (Nat.le_of_not_lt hseparators) hbefore).separatorAt
  by_cases hin : index < c₁.last + 1
  · refine .inl ⟨first, List.mem_cons_self, TokenRange.contains_iff.mpr ?_⟩
    rw [hfirst.start, hfirst.stop]
    exact ⟨Nat.le_of_not_lt hbefore, hin⟩
  by_cases hbreak : index < c₁.index
  · exact .inr (hfirst.behind.breaks index (Nat.le_of_not_lt hin) hbreak).separatorAt
  · rcases hothers index (Nat.le_of_not_lt hbreak) hlt with ⟨e, he, hcontains⟩ | hseparator
    · exact .inl ⟨e, List.mem_cons_of_mem first he, hcontains⟩
    · exact .inr hseparator

end Statement

/-- **What is read is laid out as the text is.** -/
theorem Reads.laysOut {task : Task} {c c' : Cursor} {result : task.Result}
    (h : Reads task c result c') (hc : c.In row) : task.LaysOut row c result c' := by
  have hopen {opening : Opening} {c : Cursor} (hc : c.In row)
      (h : Opening.ofLexeme? c.settle.head = some opening) :
      Took row c c.settle.index c.settle.advance := hc.took (Opening.isTrivia_eq_false h)
  have hgo {step : Continuation} {c : Cursor} (hc : c.In row)
      (h : Continuation.ofKind? c.settle.head.kind = some step) :
      Took row c c.settle.index c.settle.advance := hc.took (Continuation.isTrivia_eq_false h)
  have hkind {c : Cursor} {kind : Kind} (hc : c.In row) (h : c.settle.head.kind = kind)
      (hkind : kind.isTrivia = false) : Took row c c.settle.index c.settle.advance :=
    hc.took (Lexeme.isTrivia_of_kind h hkind)
  have hsplit {α : Type} (f : α → Option Expr) (a : α) (rest : List α) :
      (a :: rest).filterMap f = (f a).toList ++ rest.filterMap f := by
    simp only [List.filterMap_eq_flatMap_toList, List.flatMap_cons]
  induction h with
  | expression _ _ ihleft ihmore =>
    have hleft := ihleft hc
    exact ihmore hleft.behind.inRow _ hleft
  | done => exact fun start hleft => hleft.settle
  | call hstep _ _ _ ihgiven ihmore | index hstep _ _ _ ihgiven ihmore =>
    intro start hleft
    have took := (hgo hc hstep).enter .round
    obtain ⟨hlaid, hbehind⟩ := ihgiven took.behind.inRow
    exact ihmore hbehind.inRow start (readFrom_close_after hleft hbehind took.le took.written rfl
      (hlaid.mono took.lt_index (Nat.le_succ _)))
  | doubleIndex hstep _ _ hclose _ ihgiven ihmore =>
    intro start hleft
    have took := (hgo hc hstep).enter .round
    obtain ⟨hlaid, hbehind⟩ := ihgiven took.behind.inRow
    have closed := hkind hbehind.inRow hclose rfl
    refine ihmore closed.behind.inRow start (readFrom_close_after hleft closed.behind took.le
      took.written rfl (hlaid.mono took.lt_index ?_))
    have hlt := hbehind.last_lt
    have hle := closed.le
    rw [closed.last]
    omega
  | member hstep _ hmember _ ihmore =>
    intro start hleft
    have hwhole := readFrom_readMember hleft (hgo hc hstep) hmember
    exact ihmore hwhole.behind.inRow start hwhole
  | between hstep _ _ _ ihright ihmore =>
    intro start hleft
    have took := (hgo hc hstep).skipNewlines
    have hright := ihright took.behind.inRow
    exact ihmore hright.behind.inRow start (readFrom_close_after hleft hright.behind took.le
      took.written (Form.children_between ..) (hright.laid took.lt_settle))
  | leaf hopening =>
    have took := hopen hc hopening
    refine readFrom_close_first took.behind took.written ?_
    rw [(children_leaf hopening).1, took.last]
    exact .nil (Nat.le_refl _)
  | name hopening hname =>
    have took := hopen hc hopening
    exact readFrom_readName took.behind took.written (Nat.le_of_eq took.last.symm) hname
  | paren hopening _ hclose ihinner =>
    have took := (hopen hc hopening).enter .round
    have hinner := ihinner took.behind.inRow
    have closed := (hkind hinner.behind.inRow hclose rfl).leave
    refine readFrom_close_first closed.behind took.written ?_
    exact (hinner.laid_index took.lt_settle).mono (Nat.le_refl _)
      (Nat.le_succ_of_le (closed.last ▸ closed.le))
  | @block body c c₁ hopening hbody ihbody =>
    have took := (hopen hc hopening).enter .brace
    obtain ⟨hlaid, -⟩ := ihbody took.behind.inRow
    have hinside := took.behind.inRow.of_reaches hbody.reaches
    obtain ⟨-, hbehind, hlast⟩ :=
      hinside.advance (Lexeme.isTrivia_of_kind (hbody.head_of_statements rfl) rfl)
    refine readFrom_close_first hbehind.leave took.written ?_
    exact hlaid.mono took.lt_index (Nat.le_succ_of_le (Nat.le_of_eq hlast.symm))
  | sign hopening _ ihinner | tilde hopening _ ihinner | repeatLoop hopening _ ihinner =>
    have took := (hopen hc hopening).skipNewlines
    have hinner := ihinner took.behind.inRow
    exact readFrom_close_first hinner.behind took.written (hinner.laid took.lt_settle)
  | function hopening hparen _ _ ihgiven ihbody =>
    have took := hopen hc hopening
    have paren := (hkind took.behind.inRow hparen rfl).enter .round
    obtain ⟨hgiven, hbehind⟩ := ihgiven paren.behind.inRow
    have hbody := ihbody hbehind.skipNewlines.inRow
    have hlt := took.lt_index
    have hle := paren.le
    have hlt' := paren.lt_index
    refine readFrom_close_first hbody.behind took.written (.append (hgiven.mono ?_ (Nat.le_succ _))
      (hbody.laid hbehind.skipNewlines.last_lt_settle))
    omega
  | conditional hopening _ _ _ ihcondition ihconsequent ihalternative =>
    have took := hopen hc hopening
    obtain ⟨hcondition, hbehind⟩ := ihcondition took.behind.inRow
    have hconsequent := ihconsequent hbehind.inRow
    obtain ⟨halternative, hbehind'⟩ := ihalternative hconsequent.behind.inRow hconsequent.behind
    refine readFrom_close_first hbehind' took.written (.append (l := [_, _]) (.append (l := [_])
      (hcondition.mono took.lt_index (Nat.le_refl _)) (hconsequent.laid ?_)) halternative)
    exact Nat.le_of_lt hbehind.last_lt_settle
  | forLoop hopening hparen hinside hcounter hin _ hclose _ ihsequence ihbody =>
    subst hinside
    have took := hopen hc hopening
    have paren := (hkind took.behind.inRow hparen rfl).enter .round
    have counter := hkind paren.behind.inRow hcounter rfl
    have inWord := hkind counter.behind.inRow hin rfl
    have hsequence := ihsequence inWord.behind.inRow
    have closed := (hkind hsequence.behind.inRow hclose rfl).leave.skipNewlines
    have hbody := ihbody closed.behind.inRow
    refine readFrom_close_first hbody.behind took.written (.append (l := [_])
      (hsequence.laid_index ?_) (hbody.laid (Nat.le_trans closed.le (Nat.le_of_lt closed.lt_settle))))
    have hlt := took.lt_index
    have hle := paren.le
    have hlt₁ := paren.lt_index
    have hle₁ := counter.le
    have hlt₂ := counter.lt_index
    have hle₂ := inWord.le
    have hlt₃ := inWord.lt_settle
    omega
  | whileLoop hopening _ _ ihcondition ihbody =>
    have took := hopen hc hopening
    obtain ⟨hcondition, hbehind⟩ := ihcondition took.behind.inRow
    have hbody := ihbody hbehind.inRow
    exact readFrom_close_first hbody.behind took.written (.append (l := [_])
      (hcondition.mono took.lt_index (Nat.le_of_lt hbehind.last_lt_settle))
      (hbody.laid (Nat.le_refl _)))
  | header hparen _ hclose ihcondition =>
    have paren := (hkind hc hparen rfl).enter .round
    have hcondition := ihcondition paren.behind.inRow
    have closed := (hkind hcondition.behind.inRow hclose rfl).leave.skipNewlines
    refine ⟨(hcondition.laid_index ?_).mono (Nat.le_refl _) (closed.last ▸ closed.le), closed.behind⟩
    exact Nat.le_trans paren.le (Nat.le_of_lt paren.lt_settle)
  | elseBranch helse _ ihbranch =>
    have hinside := hc.of_reaches (reaches_beforeElse _)
    have htrivia := Lexeme.isTrivia_of_kind helse rfl
    have hbranch := ihbranch (hinside.advance htrivia).2.1.skipNewlines.inRow
    exact fun hbehind => laid_elseBranch hbehind htrivia hbranch
  | noElse => exact fun hbehind => ⟨.nil (Nat.le_refl _), hbehind⟩
  | noStatements =>
    exact ⟨.nil (reaches_skipSeparators _).index_le,
      fun index hle hlt => .inr (hc.of_skipSeparators hle hlt)⟩
  | statement _ _ _ _ ihfirst ihothers =>
    have hfirst := ihfirst (hc.of_reaches (reaches_skipSeparators _))
    obtain ⟨hothers, hcovered⟩ := ihothers hfirst.behind.inRow
    exact ⟨laid_statement hfirst hothers,
      fun index hle hlt => covered_statement hfirst hc hcovered hle hlt⟩
  | noArguments hclose =>
    have closed := (hc.took (Closer.isTrivia_eq_false _ hclose)).leave
    exact ⟨.nil (closed.last ▸ closed.le), closed.behind⟩
  | someArguments _ _ ihgiven | someParameters _ _ ihgiven =>
    obtain ⟨hgiven, hbehind⟩ := ihgiven (hc.of_reaches (reaches_settle _))
    exact ⟨hgiven.mono (reaches_settle _).index_le (Nat.le_refl _), hbehind⟩
  | lastArgument hfirst hclose ihfirst =>
    have closed := ((hc.of_reaches hfirst.reaches).took (Closer.isTrivia_eq_false _ hclose)).leave
    refine ⟨?_, closed.behind⟩
    rw [hsplit, List.filterMap_nil, List.append_nil]
    exact (ihfirst hc).mono (Nat.le_refl _) (closed.last ▸ closed.le)
  | moreArguments hfirst hcomma _ ihfirst ihothers =>
    have comma := hkind (hc.of_reaches hfirst.reaches) hcomma rfl
    obtain ⟨hothers, hbehind⟩ := ihothers comma.behind.inRow
    refine ⟨?_, hbehind⟩
    rw [hsplit]
    exact (ihfirst hc).append
      (hothers.mono (Nat.le_trans comma.le (Nat.le_of_lt comma.lt_index)) (Nat.le_refl _))
  | @namedArgument closer name value c c₁ _ _ _ ihvalue =>
    have hreach := (reaches_settle_advance c).trans (reaches_settle_advance c.settle.advance)
    exact (ihvalue (hc.of_reaches hreach)).mono hreach.index_le (Nat.le_refl _)
  | plainArgument _ _ ihvalue =>
    exact (ihvalue (hc.of_reaches (reaches_settle _))).mono (reaches_settle _).index_le
      (Nat.le_refl _)
  | noValue | noFallback => exact .nil (reaches_settle _).index_le
  | @value closer value c c₁ _ _ ihvalue =>
    have hreach := reaches_settle c
    have hvalue := ihvalue (hc.of_reaches hreach)
    exact hvalue.laid_index (hreach.trans (reaches_settle c.settle)).index_le
  | noParameters hclose =>
    have closed := (hkind hc hclose rfl).leave
    exact ⟨.nil (closed.last ▸ closed.le), closed.behind⟩
  | lastParameter hname hfallback hclose ihfallback =>
    have name := hkind hc hname rfl
    have hvalue := ihfallback name.behind.inRow
    have closed := (hkind (name.behind.inRow.of_reaches hfallback.reaches) hclose rfl).leave
    refine ⟨?_, closed.behind⟩
    rw [hsplit, List.filterMap_nil, List.append_nil]
    exact hvalue.mono (Nat.le_trans name.le (Nat.le_of_lt name.lt_index)) (closed.last ▸ closed.le)
  | moreParameters hname hfallback hcomma _ ihfallback ihothers =>
    have name := hkind hc hname rfl
    have hvalue := ihfallback name.behind.inRow
    have comma := hkind (name.behind.inRow.of_reaches hfallback.reaches) hcomma rfl
    obtain ⟨hothers, hbehind⟩ := ihothers comma.behind.inRow
    refine ⟨?_, hbehind⟩
    rw [hsplit]
    exact (hvalue.mono (Nat.le_trans name.le (Nat.le_of_lt name.lt_index)) (Nat.le_refl _)).append
      (hothers.mono (Nat.le_trans comma.le (Nat.le_of_lt comma.lt_index)) (Nat.le_refl _))
  | fallback hequal _ ihvalue =>
    have took := hkind hc hequal rfl
    exact (ihvalue took.behind.inRow).laid_index (Nat.le_trans took.le (Nat.le_of_lt took.lt_settle))

/-- **The expressions of a row** are laid out one behind the other, and whatever stands between them
separates them. -/
theorem laid_readAll {init : List Lexeme} (hinit : ∀ lexeme ∈ init, lexeme.kind ≠ .endOfInput)
    {es : List Expr} (h : readAll (init ++ [.endOfInput]) = .ok es) :
    Laid (init ++ [.endOfInput]) 0 init.length es ∧
      ∀ index < init.length, Covered (init ++ [.endOfInput]) es index := by
  obtain ⟨c, hreads, -, hindex⟩ := exists_reads_row hinit h
  obtain ⟨hlaid, hcovered⟩ := hreads.laysOut (in_ofLexemes _)
  exact ⟨hindex ▸ hlaid, fun index hlt => hcovered index (Nat.zero_le _) (hindex ▸ hlt)⟩

end Expr
end TypeDrift
