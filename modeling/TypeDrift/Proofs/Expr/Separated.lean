import TypeDrift.Proofs.Expr.Blocks
import TypeDrift.Proofs.Expr.Forked

/-! # Reading with a semicolon for a line break

A line break between two expressions of a row is a separator, and a semicolon separates as well.
This module puts a semicolon in the place of such a line break and shows that the same is read
(`Reads.separated`).

Two cursors go through the two rows, with the same indices.  Up to the line break they have the same
lexemes before them, and behind it they are the same cursor (`SeparatorSwap.Beside`).  Between
expressions it is passed with the separators.  Anywhere else a reader that passes it does so because
line breaks mean nothing there, and would stop at a semicolon; so it has to be shown that the line
break is met nowhere else.  What is read says so: the place lies in a block, outside of the
expressions in it (`Expr.Divided`).  A block lies between the places where its reader began and
stopped, so of the readers one behind the other that make up a call, only the one that has read the
block can meet the line break, and every other cursor lies before the place or behind it.
-/
namespace TypeDrift

open Cursor

namespace Expr

/-- The index lies in none of these expressions. -/
def Outside (place : Nat) (es : List Expr) : Prop := ∀ e ∈ es, e.range.contains place = false

/-- The index lies in a block, and in none of the expressions of that block. -/
def Divided (place : Nat) (es : List Expr) : Prop :=
  ∃ node ∈ preorderAll es, node.form.isBlock = true ∧ node.range.contains place = true ∧
    Outside place node.children

namespace Divided

variable {place lo hi start : Nat} {known es fs : List Expr} {c : Cursor}

theorem not_nil : ¬ Divided place [] := fun ⟨_, hnode, _⟩ => nomatch hnode

theorem of_append (h : Divided place (es ++ fs)) : Divided place es ∨ Divided place fs := by
  obtain ⟨node, hnode, hdivided⟩ := h
  exact (mem_preorderAll_append.mp hnode).imp (⟨node, ·, hdivided⟩) (⟨node, ·, hdivided⟩)

theorem of_cons {e : Expr} (h : Divided place (e :: es)) : Divided place [e] ∨ Divided place es :=
  of_append h

theorem of_close {form : Form Expr} (h : Divided place [c.close start form])
    (hform : form.isBlock = false) : Divided place form.children := by
  obtain ⟨node, hnode, hblock, hdivided⟩ := h
  rcases mem_preorderAll_close.mp hnode with rfl | hnode
  · exact absurd hblock (Bool.eq_false_iff.mp hform)
  · exact ⟨node, hnode, hblock, hdivided⟩

theorem of_close_block {body : List Expr} (h : Divided place [c.close start (.block body)]) :
    start ≤ place ∧ Outside place body ∨ Divided place body := by
  obtain ⟨node, hnode, hblock, hcontains, houtside⟩ := h
  rcases mem_preorderAll_close.mp hnode with rfl | hnode
  · exact .inl ⟨(TokenRange.contains_iff.mp hcontains).1, houtside⟩
  · exact .inr ⟨node, hnode, hblock, hcontains, houtside⟩

/-- The block lies where it was read. -/
theorem within (h : Divided place es) (hblocks : BlocksWithin known lo hi es) :
    Divided place known ∨ lo ≤ place ∧ place < hi := by
  obtain ⟨node, hnode, hblock, hcontains, houtside⟩ := h
  refine (hblocks node hnode hblock).imp
    (⟨node, ·, hblock, hcontains, houtside⟩) fun ⟨hlo, hhi⟩ => ?_
  obtain ⟨hstart, hstop⟩ := TokenRange.contains_iff.mp hcontains
  exact ⟨Nat.le_trans hlo hstart, Nat.lt_of_lt_of_le hstop hhi⟩

end Divided

/-- Where a call can be made: arguments and parameters are read inside a bracket that ignores line
breaks, statements where a line break ends them, and the blocks of what a call goes on with were read
before. -/
def Task.Stands : Task → Cursor → Prop
  | arguments _, c | argumentsFrom _, c | argument _, c | argumentValue _, c | parameters, c
  | parametersFrom, c | fallback, c => c.brackets.head? = some .round
  | statements _, c => c.endsAtNewline = true
  | continuation _ left, c => BlocksWithin [] 0 c.index [left]
  | _, _ => True

end Expr

open Expr

/-- A line break in a row of lexemes, and a semicolon to stand in its place. -/
structure SeparatorSwap where
  /-- How many lexemes stand before it. -/
  place : Nat
  newline : Lexeme
  semicolon : Lexeme
  /-- The lexemes behind it. -/
  later : List Lexeme
  kind_newline : newline.kind = .newline
  kind_semicolon : semicolon.kind = .semicolon

namespace SeparatorSwap

variable (swap : SeparatorSwap)

/-- The line break, or the semicolon, is still to come. -/
def Ahead (c d : Cursor) : Prop :=
  ∃ ahead, c.rest = ahead ++ swap.newline :: swap.later ∧
    d = { c with rest := ahead ++ swap.semicolon :: swap.later } ∧
    c.index + ahead.length = swap.place

/-- Two cursors at one place in the two rows. -/
def Beside (c d : Cursor) : Prop := swap.Ahead c d ∨ d = c

/-- If the first place does not lie behind the line break, the second one does not either. -/
def Leads (c e : Cursor) : Prop := c.index ≤ swap.place → e.index ≤ swap.place

/-- If the line break lies between these indices, it divides a block in these expressions. -/
def Meets (lo hi : Nat) (es : List Expr) : Prop :=
  lo ≤ swap.place → swap.place < hi → Divided swap.place es

/-- What is asked of a call that meets the line break: it has read a block that the line break
divides, or a row of expressions that it divides itself. -/
def Admits : (task : Task) → Cursor → task.Result → Cursor → Prop
  | .statements _, c, es, c' => c.index ≤ swap.place → swap.place < c'.index →
    Divided swap.place es ∨ Outside swap.place es
  | task, c, result, c' => swap.Meets c.index c'.index (task.parts result)

/-- From wherever a reader stands in the one row, the same is read in the other. -/
def Keeps (task : Task) (c : Cursor) (result : task.Result) (c' : Cursor) : Prop :=
  ∀ ⦃d⦄, swap.Beside c d → ∃ d', swap.Beside c' d' ∧ Reads task d result d'

variable {swap} {c c' d e : Cursor}

/-! ## Who meets the line break -/

namespace Meets

variable {lo lo' mid hi hi' : Nat} {known es fs : List Expr}

theorem mono (h : swap.Meets lo hi es) (hlo : lo ≤ lo') (hhi : hi' ≤ hi) :
    swap.Meets lo' hi' es := fun hle hlt =>
  h (Nat.le_trans hlo hle) (Nat.lt_of_lt_of_le hlt hhi)

theorem of_close {start : Nat} {form : Form Expr} (h : swap.Meets lo hi [c.close start form])
    (hform : form.isBlock = false) : swap.Meets lo hi form.children :=
  fun hle hlt => (h hle hlt).of_close hform

/-- Before the last of several readers only the others can meet it. -/
theorem left (h : swap.Meets lo hi (es ++ fs)) (hfs : BlocksWithin [] mid hi' fs)
    (hmid : mid ≤ hi) : swap.Meets lo mid es := fun hle hlt =>
  (h hle (Nat.lt_of_lt_of_le hlt hmid)).of_append.resolve_right fun hdivided =>
    (hdivided.within hfs).elim Divided.not_nil fun hwithin => absurd hlt (Nat.not_lt.mpr hwithin.1)

/-- Behind the first of several readers only the others can meet it. -/
theorem right (h : swap.Meets lo hi (es ++ fs)) (hes : BlocksWithin [] lo' mid es)
    (hmid : lo ≤ mid) : swap.Meets mid hi fs := fun hle hlt =>
  (h (Nat.le_trans hmid hle) hlt).of_append.resolve_left fun hdivided =>
    (hdivided.within hes).elim Divided.not_nil fun hwithin => absurd hwithin.2 (Nat.not_lt.mpr hle)

/-- Behind an expression that was there before only what follows it can meet it. -/
theorem behind {e : Expr} (h : swap.Meets lo hi (e :: es)) (he : BlocksWithin [] lo' lo [e]) :
    swap.Meets lo hi es := h.right he (Nat.le_refl _)

/-- Before what goes on with expressions only they can have met it. -/
theorem through (h : swap.Meets lo hi es) (hes : BlocksWithin known mid hi' es) (hmid : mid ≤ hi) :
    swap.Meets lo mid known := fun hle hlt =>
  ((h hle (Nat.lt_of_lt_of_le hlt hmid)).within hes).resolve_right fun hwithin =>
    absurd hlt (Nat.not_lt.mpr hwithin.1)

/-- Before the first reader it is not met. -/
theorem enter (h : swap.Meets c.index hi es) (hes : BlocksWithin [] e.index hi' es)
    (hhi : e.index ≤ hi) : swap.Leads c e := by
  intro hle
  by_cases hlt : swap.place < hi
  · exact ((h hle hlt).within hes).elim (absurd · Divided.not_nil) And.left
  · exact Nat.le_trans hhi (Nat.le_of_not_lt hlt)

/-- Behind the last reader it is not met. -/
theorem leave (h : swap.Meets lo e.index es) (hes : BlocksWithin [] lo' c.index es)
    (hlo : lo ≤ c.index) : swap.Leads c e := fun hle => Nat.le_of_not_lt fun hlt =>
  ((h (Nat.le_trans hlo hle) hlt).within hes).elim Divided.not_nil fun hwithin =>
    absurd hwithin.2 (Nat.not_lt.mpr hle)

/-- Where nothing is read it is not met. -/
theorem leads (h : swap.Meets c.index e.index []) : swap.Leads c e :=
  h.leave (BlocksWithin.nil : BlocksWithin [] 0 c.index []) (Nat.le_refl _)

/-- What goes on with an expression meets it in what is put behind that expression. -/
theorem part {power start : Nat} {left whole : Expr} {form : Form Expr} {parts : List Expr}
    (h : swap.Meets c.index c'.index [whole])
    (hmore : Reads (.continuation power (e.close start form)) e whole c')
    (hleft : BlocksWithin [] 0 c.index [left]) (hchildren : form.children = left :: parts)
    (hform : form.isBlock = false) : swap.Meets c.index e.index parts := by
  have hread := (h.through hmore.blocks hmore.reaches.index_le).of_close hform
  rw [hchildren] at hread
  exact hread.behind hleft

section Row
variable {start : Nat} {body : List Expr} (h : swap.Meets c.index hi [c'.close start (.block body)])
include h

/-- It does not stand in front of a block. -/
theorem before_block (hbody : BlocksWithin [] lo hi' body) (hlo : start ≤ lo) (hhi : start ≤ hi)
    (hstart : e.index = start) : swap.Leads c e := by
  intro hle
  rw [hstart]
  by_cases hlt : swap.place < hi
  · rcases (h hle hlt).of_close_block with ⟨hstart, -⟩ | hdivided
    · exact hstart
    · exact (hdivided.within hbody).elim (absurd · Divided.not_nil) fun hwithin =>
        Nat.le_trans hlo hwithin.1
  · exact Nat.le_trans hhi (Nat.le_of_not_lt hlt)

/-- Inside a block it divides that block or one in it. -/
theorem of_block {terminator : Kind} (hinside : c.Reaches d) (hhi : e.index ≤ hi) :
    swap.Admits (.statements terminator) d body e := fun hle hlt =>
  (h (Nat.le_trans hinside.index_le hle) (Nat.lt_of_lt_of_le hlt hhi)).of_close_block.elim
    (fun hdivides => .inr hdivides.2) .inl

end Row
end Meets

namespace Admits

variable {terminator : Kind} {first : Expr} {others : List Expr} {c₁ : Cursor}
  (h : swap.Admits (.statements terminator) c (first :: others) c')
include h

/-- Where the first expression of a row is read, it divides a block in it. -/
theorem of_first (hstart : c.Reaches d) (hrange : first.range = ⟨d.index, c₁.index⟩)
    (hothers : BlocksWithin [] c₁.index c'.index others) (hle : c₁.index ≤ c'.index) :
    swap.Meets d.index c₁.index [first] := by
  intro hlo hlt
  have hbefore : ¬ Divided swap.place others := fun hdivided =>
    (hdivided.within hothers).elim Divided.not_nil fun hwithin =>
      absurd hlt (Nat.not_lt.mpr hwithin.1)
  rcases h (Nat.le_trans hstart.index_le hlo) (Nat.lt_of_lt_of_le hlt hle) with hdivided | houtside
  · exact hdivided.of_cons.resolve_right hbefore
  · have hcontains : first.range.contains swap.place = true :=
      TokenRange.contains_iff.mpr (hrange ▸ ⟨hlo, hlt⟩)
    exact absurd (houtside first List.mem_cons_self) (by simp [hcontains])

/-- Behind the first expression of a row it divides the others, or a block in them. -/
theorem of_others {lo : Nat} (hreach : c.Reaches c₁) (hfirst : BlocksWithin [] lo c₁.index [first]) :
    swap.Admits (.statements terminator) c₁ others c' := by
  intro hle hlt
  have hbehind : ¬ Divided swap.place [first] := fun hdivided =>
    (hdivided.within hfirst).elim Divided.not_nil fun hwithin =>
      absurd hwithin.2 (Nat.not_lt.mpr hle)
  exact (h (Nat.le_trans hreach.index_le hle) hlt).imp
    (fun hdivided => hdivided.of_cons.resolve_left hbehind)
    fun houtside e he => houtside e (List.mem_cons_of_mem _ he)

end Admits

/-- Two places that lie between two others. -/
theorem Leads.between {c₁ e₁ : Cursor} (h : swap.Leads c e) (hfrom : c.Reaches c₁)
    (hto : e₁.Reaches e) : swap.Leads c₁ e₁ := fun hle =>
  Nat.le_trans hto.index_le (h (Nat.le_trans hfrom.index_le hle))

/-! ## Moving along both rows -/

namespace Ahead

variable (h : swap.Ahead c d)
include h

theorem le : c.index ≤ swap.place := by
  obtain ⟨ahead, -, -, hplace⟩ := h
  omega

theorem enter (bracket : Bracket) : swap.Ahead (c.enter bracket) (d.enter bracket) := by
  obtain ⟨ahead, hrest, rfl, hplace⟩ := h
  exact ⟨ahead, hrest, rfl, hplace⟩

theorem leave : swap.Ahead c.leave d.leave := by
  obtain ⟨ahead, hrest, rfl, hplace⟩ := h
  exact ⟨ahead, hrest, rfl, hplace⟩

/-- Both meet the same lexeme, or one meets the line break and the other the semicolon. -/
theorem head_or : d.head = c.head ∧ c.index < swap.place ∨
    c.head = swap.newline ∧ d.head = swap.semicolon := by
  obtain ⟨ahead, hrest, rfl, hplace⟩ := h
  cases ahead with
  | nil => exact .inr ⟨by rw [head, hrest]; rfl, rfl⟩
  | cons lexeme ahead =>
    rw [List.length_cons] at hplace
    exact .inl ⟨by rw [head, head, hrest]; rfl, by omega⟩

/-- Both take the same lexeme, if it is no line break. -/
theorem advance (hnewline : c.head.kind ≠ .newline) :
    d.head = c.head ∧ swap.Ahead c.advance d.advance := by
  have hhead : d.head = c.head := by
    refine h.head_or.elim And.left fun hat => absurd ?_ hnewline
    rw [hat.1]
    exact swap.kind_newline
  refine ⟨hhead, ?_⟩
  by_cases hend : c.head.kind = .endOfInput
  · rwa [advance_of_end hend, advance_of_end (hhead ▸ hend)]
  rw [advance_eq hend, advance_eq (hhead ▸ hend)]
  obtain ⟨ahead, hrest, rfl, hplace⟩ := h
  cases ahead with
  | nil =>
    rw [head, hrest] at hnewline
    exact absurd swap.kind_newline hnewline
  | cons lexeme ahead =>
    rw [List.length_cons] at hplace
    refine ⟨ahead, by rw [hrest]; rfl, rfl, ?_⟩
    show c.index + 1 + ahead.length = swap.place
    omega

/-- Both skip the same lexemes, or reach the place, and go on skipping there. -/
theorem skipWhile (p : Lexeme → Bool) : swap.Ahead (c.skipWhile p) (d.skipWhile p) ∨
    c.skipWhile p = { c with index := swap.place, rest := swap.newline :: swap.later }.skipWhile p ∧
    d.skipWhile p =
      { c with index := swap.place, rest := swap.semicolon :: swap.later }.skipWhile p := by
  obtain ⟨ahead, hrest, hd, hplace⟩ := h
  have hrest' : d.rest = ahead ++ swap.semicolon :: swap.later := congrArg Cursor.rest hd
  rcases all_or_exists_stop p ahead with hskipped | ⟨passed, stop, behind, rfl, hskipped, hstop⟩
  · refine .inr ⟨hplace ▸ skipWhile_of_append hrest hskipped, ?_⟩
    rw [skipWhile_of_append hrest' hskipped, hd, ← hplace]
  · rw [List.append_assoc] at hrest hrest'
    rw [List.length_append] at hplace
    rw [skipWhile_of_stop hrest hskipped hstop, skipWhile_of_stop hrest' hskipped hstop, hd]
    exact .inl ⟨stop :: behind, rfl, rfl, by rw [← hplace, Nat.add_assoc]⟩

/-- Line breaks are skipped up to the place, or the one skips over it where the other stops. -/
theorem skipNewlines : swap.Ahead c.skipNewlines d.skipNewlines ∨
    swap.place < c.skipNewlines.index ∧ d.skipNewlines.head = swap.semicolon := by
  refine (h.skipWhile _).imp_right fun ⟨hc, hd⟩ => ?_
  rw [Cursor.skipNewlines, Cursor.skipNewlines, hc, hd, Cursor.skipWhile,
    List.takeWhile_cons_of_pos (by simp [swap.kind_newline]), List.length_cons,
    skipWhile_of_head (by simp [head, swap.kind_semicolon])]
  exact ⟨by simp only; omega, rfl⟩

/-- Separators are skipped in both rows alike. -/
theorem skipSeparators : swap.Beside c.skipSeparators d.skipSeparators := by
  refine (h.skipWhile _).imp_right fun ⟨hc, hd⟩ => ?_
  rw [Cursor.skipSeparators, Cursor.skipSeparators, hc, hd, Cursor.skipWhile, Cursor.skipWhile]
  simp [swap.kind_newline, swap.kind_semicolon]

theorem settle : swap.Ahead c.settle d.settle ∨
    swap.place < c.settle.index ∧ d.settle.head = swap.semicolon := by
  have hends : d.endsAtNewline = c.endsAtNewline := by
    obtain ⟨ahead, -, rfl, -⟩ := h
    rfl
  unfold Cursor.settle
  rw [hends]
  split
  · exact .inl h
  · exact h.skipNewlines

theorem beforeElse : swap.Ahead c.beforeElse d.beforeElse ∨
    swap.place < c.beforeElse.index ∧ d.beforeElse.head = swap.semicolon := by
  have hbrackets : d.brackets = c.brackets := by
    obtain ⟨ahead, -, rfl, -⟩ := h
    rfl
  unfold Cursor.beforeElse
  rw [hbrackets]
  split
  · exact .inl h
  · exact h.skipNewlines

/-- Where no equals sign comes behind the next lexeme, none comes behind a semicolon. -/
theorem secondKind?_ne (hsecond : c.secondKind? ≠ some .equalAssign) :
    d.secondKind? ≠ some .equalAssign := by
  obtain ⟨ahead, hrest, rfl, hplace⟩ := h
  rw [Cursor.secondKind?, hrest] at hsecond
  rw [Cursor.secondKind?]
  cases ahead with
  | nil => exact hsecond
  | cons lexeme ahead =>
    simp only [List.cons_append, List.tail_cons, List.find?_append] at hsecond ⊢
    cases hfind : ahead.find? fun lexeme => lexeme.kind != .newline with
    | none => simp [swap.kind_semicolon]
    | some second =>
      rw [hfind] at hsecond
      exact hsecond

end Ahead

namespace Beside

variable (h : swap.Beside c d)
include h

theorem index : d.index = c.index := by
  rcases h with ⟨ahead, -, rfl, -⟩ | rfl <;> rfl

theorem brackets : d.brackets = c.brackets := by
  rcases h with ⟨ahead, -, rfl, -⟩ | rfl <;> rfl

/-- An expression is closed at the same indices. -/
theorem close {start start' : Nat} (hstart : start' = start) (form : Form Expr) :
    d.close start' form = c.close start form := by
  subst hstart
  rcases h with ⟨ahead, -, rfl, -⟩ | rfl <;> rfl

theorem enter (bracket : Bracket) : swap.Beside (c.enter bracket) (d.enter bracket) :=
  h.imp (fun h => h.enter bracket) (congrArg fun c => Cursor.enter c bracket)

theorem leave : swap.Beside c.leave d.leave := h.imp (fun h => h.leave) (congrArg Cursor.leave)

theorem head_or : d.head = c.head ∨ c.head = swap.newline ∧ d.head = swap.semicolon :=
  h.elim (fun h => h.head_or.imp_left And.left) fun h => .inl (congrArg Cursor.head h)

theorem advance (hnewline : c.head.kind ≠ .newline) :
    d.head = c.head ∧ swap.Beside c.advance d.advance := by
  rcases h with h | rfl
  · exact (h.advance hnewline).imp_right .inl
  · exact ⟨rfl, .inr rfl⟩

theorem skipNewlines (hle : swap.Leads c c.skipNewlines) :
    swap.Beside c.skipNewlines d.skipNewlines := by
  rcases h with h | rfl
  · exact .inl (h.skipNewlines.resolve_right fun hpast => Nat.not_le.mpr hpast.1 (hle h.le))
  · exact .inr rfl

theorem skipSeparators : swap.Beside c.skipSeparators d.skipSeparators :=
  h.elim (fun h => h.skipSeparators) fun h => .inr (congrArg Cursor.skipSeparators h)

theorem settle (hle : swap.Leads c c.settle) : swap.Beside c.settle d.settle := by
  rcases h with h | rfl
  · exact .inl (h.settle.resolve_right fun hpast => Nat.not_le.mpr hpast.1 (hle h.le))
  · exact .inr rfl

theorem beforeElse (hle : swap.Leads c c.beforeElse) :
    swap.Beside c.beforeElse d.beforeElse := by
  rcases h with h | rfl
  · exact .inl (h.beforeElse.resolve_right fun hpast => Nat.not_le.mpr hpast.1 (hle h.le))
  · exact .inr rfl

/-- No `else` comes behind a semicolon. -/
theorem beforeElse_ne (helse : c.beforeElse.head.kind ≠ .keyword .elseWord) :
    d.beforeElse.head.kind ≠ .keyword .elseWord := by
  have hsemicolon : swap.semicolon.kind ≠ .keyword .elseWord := by simp [swap.kind_semicolon]
  rcases h with h | rfl
  · rcases h.beforeElse with hbefore | ⟨-, hhead⟩
    · rcases hbefore.head_or with ⟨hhead, -⟩ | ⟨-, hhead⟩
      · rwa [hhead]
      · rwa [hhead]
    · rwa [hhead]
  · exact helse

/-- No name of an argument comes in front of a semicolon, and none is followed by an equals sign
behind one. -/
theorem plain
    (hplain : argumentName? c.head = none ∨ c.secondKind? ≠ some .equalAssign) :
    argumentName? d.head = none ∨ d.secondKind? ≠ some .equalAssign := by
  rcases h with h | rfl
  · rcases h.head_or with ⟨hhead, -⟩ | ⟨-, hhead⟩
    · exact hplain.imp (fun hnone => by rwa [hhead]) h.secondKind?_ne
    · rw [hhead, argumentName?, swap.kind_semicolon]
      exact .inl rfl
  · exact hplain

/-- Both take the same lexeme behind the line breaks that mean nothing. -/
theorem taken (htrivia : c.settle.head.isTrivia = false) (hle : swap.Leads c c.settle) :
    d.settle.head = c.settle.head ∧ d.settle.index = c.settle.index ∧
      swap.Beside c.settle.advance d.settle.advance := by
  have hsettle := h.settle hle
  obtain ⟨hhead, htaken⟩ := hsettle.advance (kind_ne_of_not_isTrivia htrivia).1
  exact ⟨hhead, hsettle.index, htaken⟩

/-- Both take the same lexeme, on the way to a place that is known. -/
theorem takes (htrivia : c.settle.head.isTrivia = false) (hle : swap.Leads c e)
    (hto : c.settle.advance.Reaches e) :
    d.settle.head = c.settle.head ∧ d.settle.index = c.settle.index ∧
      swap.Beside c.settle.advance d.settle.advance :=
  h.taken htrivia (hle.between (.refl c) ((reaches_advance _).trans hto))

end Beside

namespace Keeps

variable {task : Task} {result : task.Result} (hd : swap.Beside c d)
  (htrivia : c.settle.head.isTrivia = false)
include hd htrivia

/-- Both take the same lexeme, and go on inside a bracket. -/
theorem inside {bracket : Bracket}
    (h : swap.Keeps task (c.settle.advance.enter bracket) result c')
    (hle : swap.Leads c (c.settle.advance.enter bracket)) :
    d.settle.head = c.settle.head ∧ d.settle.index = c.settle.index ∧
      ∃ d', swap.Beside c' d' ∧ Reads task (d.settle.advance.enter bracket) result d' := by
  obtain ⟨hhead, hindex, htaken⟩ := hd.takes htrivia hle (.refl _)
  exact ⟨hhead, hindex, h (htaken.enter bracket)⟩

/-- Both take the same lexeme, and go on behind line breaks. -/
theorem ahead (h : swap.Keeps task c.settle.advance.skipNewlines result c')
    (hle : swap.Leads c c.settle.advance.skipNewlines) :
    d.settle.head = c.settle.head ∧ d.settle.index = c.settle.index ∧
      ∃ d', swap.Beside c' d' ∧ Reads task d.settle.advance.skipNewlines result d' := by
  obtain ⟨hhead, hindex, htaken⟩ := hd.takes htrivia hle (reaches_skipNewlines _)
  exact ⟨hhead, hindex, h (htaken.skipNewlines (hle.between (reaches_settle_advance c) (.refl _)))⟩

end Keeps
end SeparatorSwap

namespace Expr

open SeparatorSwap

variable {swap : SeparatorSwap} {c c' d : Cursor}

/-- A separator ends no argument. -/
theorem Closer.separator_goes_on (closer : Closer) {kind : Kind}
    (h : kind = .newline ∨ kind = .semicolon) : ¬(kind = .comma ∨ kind = closer.kind) := by
  rcases h with rfl | rfl <;> cases closer <;> decide

theorem readName_separated {start : Nat} {first : Lexeme} {e : Expr} (hd : swap.Beside c d)
    (hle : swap.Leads c c') (h : readName start first c = .ok (e, c')) :
    ∃ d', swap.Beside c' d' ∧ readName start first d = .ok (e, d') := by
  rcases readName_eq_ok_iff.mp h with ⟨hdouble, htriple, rfl, rfl⟩ | ⟨hcolons, name, hname, rfl, rfl⟩
  · have hplain : d.head.kind ≠ .doubleColon ∧ d.head.kind ≠ .tripleColon := by
      rcases hd.head_or with hhead | ⟨-, hhead⟩
      · rw [hhead]
        exact ⟨hdouble, htriple⟩
      · rw [hhead, swap.kind_semicolon]
        exact ⟨by decide, by decide⟩
    exact ⟨d, hd, readName_eq_ok_iff.mpr (.inl ⟨hplain.1, hplain.2, rfl, (hd.close rfl _).symm⟩)⟩
  · have hnewline : c.head.kind ≠ .newline := by
      rcases hcolons with hkind | hkind <;> rw [hkind] <;> decide
    obtain ⟨hhead, hbehind⟩ := hd.advance hnewline
    obtain ⟨hhead', -, htaken⟩ := hbehind.takes (isTrivia_of_memberName? hname)
      (hle.between (reaches_advance c) (.refl _)) (.refl _)
    exact ⟨_, htaken, readName_eq_ok_iff.mpr (.inr ⟨by rwa [hhead], name, by rwa [hhead'], rfl, by
      rw [hhead]; exact (htaken.close rfl _).symm⟩)⟩

theorem readMember_separated {left e : Expr} {slot : Bool} (hd : swap.Beside c d)
    (hle : swap.Leads c c') (h : readMember left slot c = .ok (e, c')) :
    ∃ d', swap.Beside c' d' ∧ readMember left slot d = .ok (e, d') := by
  obtain ⟨name, hname, rfl, rfl⟩ := readMember_eq_ok_iff.mp h
  have hskip := hd.skipNewlines (hle.between (.refl c) (reaches_advance _))
  obtain ⟨hhead, htaken⟩ :=
    hskip.advance (kind_ne_of_not_isTrivia (isTrivia_of_memberName? hname)).1
  exact ⟨_, htaken, readMember_eq_ok_iff.mpr ⟨name, by rwa [hhead], rfl, (htaken.close rfl _).symm⟩⟩

/-- An expression ends in front of a semicolon as it does in front of a line break. -/
theorem expectEnd_separated {terminator : Kind} (hd : swap.Beside c d)
    (h : expectEnd terminator c = .ok ()) : expectEnd terminator d = .ok () := by
  rw [expectEnd_eq_ok_iff] at h ⊢
  rcases hd.head_or with hhead | ⟨-, hhead⟩
  · rwa [hhead]
  · rw [hhead]
    exact .inr (.inl swap.kind_semicolon)

/-- Behind its separators a row goes on with something else. -/
theorem head_skipSeparators (c : Cursor) : c.skipSeparators.head.kind ≠ .newline := by
  intro hkind
  have hhead := List.head?_dropWhile_not
    (fun lexeme : Lexeme => lexeme.kind == .newline || lexeme.kind == .semicolon) c.rest
  have hcons := rest_eq_cons (c := c.skipSeparators) (by rw [hkind]; decide)
  change c.rest.dropWhile _ = _ at hcons
  rw [hcons] at hhead
  simp [hkind] at hhead

/-- The kind that comes behind a lexeme and the line breaks that follow it. -/
theorem secondKind?_of_kind {kind : Kind} (hend : c.head.kind ≠ .endOfInput)
    (h : c.advance.skipNewlines.head.kind = kind) (hkind : kind ≠ .endOfInput) :
    c.secondKind? = some kind := by
  rw [secondKind?_eq hend, rest_eq_cons (h ▸ hkind), List.head?_cons, Option.map_some, h]

/-- **Reading with a semicolon for a line break.**  Where the line break divides a block, or the row
of expressions that is read, the same is read in the row with the semicolon. -/
theorem Reads.separated {task : Task} {result : task.Result} (h : Reads task c result c')
    (hstands : task.Stands c) (hmeets : swap.Admits task c result c') :
    swap.Keeps task c result c' := by
  induction h with
  | expression hleft hmore ihleft ihmore =>
    intro d hd
    obtain ⟨d₁, hd₁, hleft'⟩ :=
      ihleft trivial (Meets.through hmeets hmore.blocks hmore.reaches.index_le) hd
    obtain ⟨d₂, hd₂, hmore'⟩ := ihmore (hleft.blocks.mono (Nat.zero_le _) (Nat.le_refl _))
      (Meets.mono hmeets hleft.reaches.index_le (Nat.le_refl _)) hd₁
    exact ⟨d₂, hd₂, .expression hleft' hmore'⟩
  | done hloose =>
    intro d hd
    have hsettle := hd.settle (Meets.leave hmeets hstands (Nat.le_refl _))
    refine ⟨_, hsettle, .done fun step hstep => ?_⟩
    rcases hsettle.head_or with hhead | ⟨-, hhead⟩
    · exact hloose step (by rwa [← hhead])
    · rw [hhead, swap.kind_semicolon] at hstep
      cases hstep
  | @call power left e given c c₁ c₂ hkind hpower hgiven hmore ihgiven ihmore =>
    intro d hd
    have hread := Meets.part hmeets hmore hstands rfl rfl
    have hreach : c.Reaches c₁ := .trans (reaches_settle_advance c) hgiven.reaches
    have hkeeps := ihgiven rfl (hread.mono (reaches_settle_advance c).index_le (Nat.le_refl _))
    obtain ⟨hhead, -, d₁, hd₁, hgiven'⟩ := hkeeps.inside hd (Continuation.isTrivia_eq_false hkind)
      (hread.enter hgiven.blocks hgiven.reaches.index_le)
    obtain ⟨d₂, hd₂, hmore'⟩ := ihmore (hstands.goes_on hgiven.blocks hreach.index_le rfl rfl)
      (Meets.mono hmeets hreach.index_le (Nat.le_refl _)) hd₁
    exact ⟨d₂, hd₂, .call (by rwa [hhead]) hpower hgiven' (hmore'.of_left (hd₁.close rfl _))⟩
  | @index power left e given c c₁ c₂ hkind hpower hgiven hmore ihgiven ihmore =>
    intro d hd
    have hread := Meets.part hmeets hmore hstands rfl rfl
    have hreach : c.Reaches c₁ := .trans (reaches_settle_advance c) hgiven.reaches
    have hkeeps := ihgiven rfl (hread.mono (reaches_settle_advance c).index_le (Nat.le_refl _))
    obtain ⟨hhead, -, d₁, hd₁, hgiven'⟩ := hkeeps.inside hd (Continuation.isTrivia_eq_false hkind)
      (hread.enter hgiven.blocks hgiven.reaches.index_le)
    obtain ⟨d₂, hd₂, hmore'⟩ := ihmore (hstands.goes_on hgiven.blocks hreach.index_le rfl rfl)
      (Meets.mono hmeets hreach.index_le (Nat.le_refl _)) hd₁
    exact ⟨d₂, hd₂, .index (by rwa [hhead]) hpower hgiven' (hmore'.of_left (hd₁.close rfl _))⟩
  | @doubleIndex power left e given c c₁ c₂ hkind hpower hgiven hclose hmore ihgiven ihmore =>
    intro d hd
    have hread := Meets.part hmeets hmore hstands rfl rfl
    have hbehind := reaches_settle_advance c₁
    have hreach : c.Reaches c₁ := .trans (reaches_settle_advance c) hgiven.reaches
    have hkeeps := ihgiven rfl (hread.mono (reaches_settle_advance c).index_le hbehind.index_le)
    obtain ⟨hhead, -, d₁, hd₁, hgiven'⟩ := hkeeps.inside hd (Continuation.isTrivia_eq_false hkind)
      (hread.enter hgiven.blocks (hgiven.reaches.trans hbehind).index_le)
    obtain ⟨hhead₁, -, htaken₁⟩ := hd₁.takes (Lexeme.isTrivia_of_kind hclose rfl)
      (hread.leave hgiven.blocks hreach.index_le) (.refl _)
    obtain ⟨d₂, hd₂, hmore'⟩ := ihmore
      (hstands.goes_on (hgiven.blocks.mono (Nat.le_refl _) hbehind.index_le)
        (hreach.trans hbehind).index_le rfl rfl)
      (Meets.mono hmeets (hreach.trans hbehind).index_le (Nat.le_refl _)) htaken₁
    exact ⟨d₂, hd₂, .doubleIndex (by rwa [hhead]) hpower hgiven' (by rwa [hhead₁])
      (hmore'.of_left (htaken₁.close rfl _))⟩
  | @member power slot left whole e c c₁ c₂ hkind hpower hmember hmore ihmore =>
    intro d hd
    have hwhole : BlocksWithin [] 0 c.index [whole] :=
      (BlocksWithin.of_readMember hmember).through hstands
    have hin := (Meets.through hmeets hmore.blocks hmore.reaches.index_le).leave hwhole
      (Nat.le_refl _)
    have hmemberReach := reaches_readMember hmember
    have hreach := (reaches_settle_advance c).trans hmemberReach
    obtain ⟨hhead, -, htaken⟩ :=
      hd.takes (Continuation.isTrivia_eq_false hkind) hin hmemberReach
    obtain ⟨d₁, hd₁, hmember'⟩ := readMember_separated htaken
      (hin.between (reaches_settle_advance c) (.refl _)) hmember
    obtain ⟨d₂, hd₂, hmore'⟩ := ihmore (hwhole.mono (Nat.le_refl _) hreach.index_le)
      (Meets.mono hmeets hreach.index_le (Nat.le_refl _)) hd₁
    exact ⟨d₂, hd₂, .member (by rwa [hhead]) hpower hmember' hmore'⟩
  | @between power level left right e c c₁ c₂ hkind hpower hright hmore ihright ihmore =>
    intro d hd
    have hread := Meets.part hmeets hmore hstands (Form.children_between ..)
      (Form.isBlock_between ..)
    have hahead := (reaches_settle_advance c).trans (reaches_skipNewlines _)
    have hreach := hahead.trans hright.reaches
    have hkeeps := ihright trivial (hread.mono hahead.index_le (Nat.le_refl _))
    obtain ⟨hhead, hindex, d₁, hd₁, hright'⟩ := hkeeps.ahead hd
      (Continuation.isTrivia_eq_false hkind) (hread.enter hright.blocks hright.reaches.index_le)
    obtain ⟨d₂, hd₂, hmore'⟩ := ihmore (hstands.goes_on hright.blocks hreach.index_le
      (Form.children_between ..) (Form.isBlock_between ..))
      (Meets.mono hmeets hreach.index_le (Nat.le_refl _)) hd₁
    refine ⟨d₂, hd₂, .between (by rwa [hhead]) hpower hright' (hmore'.of_left ?_)⟩
    rw [hhead, hindex]
    exact hd₁.close rfl _
  | @leaf form c hopening =>
    intro d hd
    have hread := Meets.of_close hmeets (Opening.isBlock_leaf hopening)
    rw [(children_leaf hopening).1] at hread
    obtain ⟨hhead, hindex, htaken⟩ := hd.takes (Opening.isTrivia_eq_false hopening)
      hread.leads (.refl _)
    exact ⟨_, htaken, (Reads.leaf (by rwa [hhead])).of_result (htaken.close hindex form)⟩
  | @name e c c₁ hopening hname =>
    intro d hd
    have hbare : BlocksWithin [] 0 c.index [e] := .of_readName hname
    have hin : swap.Leads c c₁ := Meets.leave hmeets hbare (Nat.le_refl _)
    obtain ⟨hhead, hindex, htaken⟩ :=
      hd.takes (Opening.isTrivia_eq_false hopening) hin (reaches_readName hname)
    obtain ⟨d₁, hd₁, hname'⟩ := readName_separated htaken
      (hin.between (reaches_settle_advance c) (.refl _)) hname
    exact ⟨d₁, hd₁, .name (by rwa [hhead]) (by rwa [hhead, hindex])⟩
  | @paren inner c c₁ hopening hinner hclose ihinner =>
    intro d hd
    have hread : swap.Meets c.index c₁.settle.advance.leave.index [inner] :=
      Meets.of_close hmeets rfl
    have hbehind : c₁.Reaches c₁.settle.advance.leave := reaches_settle_advance c₁
    have hreach : c.Reaches c₁ := .trans (reaches_settle_advance c) hinner.reaches
    have hkeeps :=
      ihinner trivial (hread.mono (reaches_settle_advance c).index_le hbehind.index_le)
    obtain ⟨hhead, hindex, d₁, hd₁, hinner'⟩ := hkeeps.inside hd
      (Opening.isTrivia_eq_false hopening)
      (hread.enter hinner.blocks (hinner.reaches.trans hbehind).index_le)
    obtain ⟨hhead₁, -, htaken₁⟩ := hd₁.takes (Lexeme.isTrivia_of_kind hclose rfl)
      (hread.leave hinner.blocks hreach.index_le) (.refl _)
    exact ⟨_, htaken₁.leave, (Reads.paren (by rwa [hhead]) hinner' (by rwa [hhead₁])).of_result
      (htaken₁.leave.close hindex _)⟩
  | @block body c c₁ hopening hbody ihbody =>
    intro d hd
    have hread : swap.Meets c.index c₁.advance.leave.index
        [c₁.advance.leave.close c.settle.index (.block body)] := hmeets
    have hbrace := hbody.head_of_statements rfl
    have hbehind : c₁.Reaches c₁.advance.leave := reaches_advance c₁
    have hinside := Reaches.trans (reaches_advance c.settle) (hbody.reaches.trans hbehind)
    obtain ⟨hhead, hindex, htaken⟩ := hd.taken (Opening.isTrivia_eq_false hopening)
      (hread.before_block hbody.blocks (reaches_advance c.settle).index_le hinside.index_le rfl)
    obtain ⟨d₁, hd₁, hbody'⟩ := ihbody rfl
      (hread.of_block (reaches_settle_advance c) hbehind.index_le) (htaken.enter .brace)
    obtain ⟨-, htaken₁⟩ := hd₁.advance (by rw [hbrace]; decide)
    exact ⟨_, htaken₁.leave, (Reads.block (by rwa [hhead]) hbody').of_result
      (htaken₁.leave.close hindex _)⟩
  | @sign operator level inner c c₁ hopening hinner ihinner =>
    intro d hd
    have hread : swap.Meets c.index c₁.index [inner] := Meets.of_close hmeets rfl
    have hahead := (reaches_settle_advance c).trans (reaches_skipNewlines _)
    have hkeeps := ihinner trivial (hread.mono hahead.index_le (Nat.le_refl _))
    obtain ⟨hhead, hindex, d₁, hd₁, hinner'⟩ := hkeeps.ahead hd
      (Opening.isTrivia_eq_false hopening) (hread.enter hinner.blocks hinner.reaches.index_le)
    exact ⟨d₁, hd₁, (Reads.sign (by rwa [hhead]) hinner').of_result (hd₁.close hindex _)⟩
  | @tilde right c c₁ hopening hright ihright =>
    intro d hd
    have hread : swap.Meets c.index c₁.index [right] := Meets.of_close hmeets rfl
    have hahead := (reaches_settle_advance c).trans (reaches_skipNewlines _)
    have hkeeps := ihright trivial (hread.mono hahead.index_le (Nat.le_refl _))
    obtain ⟨hhead, hindex, d₁, hd₁, hright'⟩ := hkeeps.ahead hd
      (Opening.isTrivia_eq_false hopening) (hread.enter hright.blocks hright.reaches.index_le)
    exact ⟨d₁, hd₁, (Reads.tilde (by rwa [hhead]) hright').of_result (hd₁.close hindex _)⟩
  | @repeatLoop body c c₁ hopening hbody ihbody =>
    intro d hd
    have hread : swap.Meets c.index c₁.index [body] := Meets.of_close hmeets rfl
    have hahead := (reaches_settle_advance c).trans (reaches_skipNewlines _)
    have hkeeps := ihbody trivial (hread.mono hahead.index_le (Nat.le_refl _))
    obtain ⟨hhead, hindex, d₁, hd₁, hbody'⟩ := hkeeps.ahead hd
      (Opening.isTrivia_eq_false hopening) (hread.enter hbody.blocks hbody.reaches.index_le)
    exact ⟨d₁, hd₁, (Reads.repeatLoop (by rwa [hhead]) hbody').of_result (hd₁.close hindex _)⟩
  | @function given body c c₁ c₂ hopening hopen hgiven hbody ihgiven ihbody =>
    intro d hd
    have hread : swap.Meets c.index c₂.index (given.filterMap Parameter.fallback ++ [body]) :=
      Meets.of_close hmeets rfl
    have hahead := reaches_skipNewlines c₁
    have hparen := (reaches_settle_advance c).trans (reaches_settle_advance _)
    have hreach : c.Reaches c₁ := hparen.trans hgiven.reaches
    have hfirst := hread.left hbody.blocks hbody.reaches.index_le
    have hin := hfirst.enter hgiven.blocks (hgiven.reaches.trans hahead).index_le
    have hsecond := hread.right hgiven.blocks hreach.index_le
    have hout := hsecond.enter hbody.blocks hbody.reaches.index_le
    obtain ⟨hhead, hindex, htaken⟩ :=
      hd.takes (Opening.isTrivia_eq_false hopening) hin (reaches_settle_advance _)
    obtain ⟨hhead₁, -, htaken₁⟩ := htaken.takes (Lexeme.isTrivia_of_kind hopen rfl)
      (hin.between (reaches_settle_advance c) (.refl _)) (.refl _)
    obtain ⟨d₁, hd₁, hgiven'⟩ := ihgiven rfl (hfirst.mono hparen.index_le hahead.index_le)
      (htaken₁.enter .round)
    obtain ⟨d₂, hd₂, hbody'⟩ := ihbody trivial (hsecond.mono hahead.index_le (Nat.le_refl _))
      (hd₁.skipNewlines hout)
    exact ⟨d₂, hd₂, (Reads.function (by rwa [hhead]) (by rwa [hhead₁]) hgiven' hbody').of_result
      (hd₂.close hindex _)⟩
  | @conditional condition consequent alternative c c₁ c₂ c₃ hopening hcondition hconsequent
      halternative ihcondition ihconsequent ihalternative =>
    intro d hd
    have hread : swap.Meets c.index c₃.index ([condition] ++ ([consequent] ++ alternative.toList)) :=
      Meets.of_close hmeets rfl
    have hreach := (reaches_settle_advance c).trans hcondition.reaches
    have hbranches := hconsequent.reaches.trans halternative.reaches
    have hlate : BlocksWithin [] c₁.index c₃.index ([consequent] ++ alternative.toList) :=
      .append (hconsequent.blocks.reach (.refl _) halternative.reaches)
        (halternative.blocks.reach hconsequent.reaches (.refl _))
    have hfirst := hread.left hlate hbranches.index_le
    have hin := hfirst.enter hcondition.blocks hcondition.reaches.index_le
    have hrest := hread.right hcondition.blocks hreach.index_le
    have hsecond := hrest.left halternative.blocks halternative.reaches.index_le
    obtain ⟨hhead, hindex, htaken⟩ :=
      hd.takes (Opening.isTrivia_eq_false hopening) hin (.refl _)
    obtain ⟨d₁, hd₁, hcondition'⟩ := ihcondition trivial
      (hfirst.mono (reaches_settle_advance c).index_le (Nat.le_refl _)) htaken
    obtain ⟨d₂, hd₂, hconsequent'⟩ := ihconsequent trivial hsecond hd₁
    obtain ⟨d₃, hd₃, halternative'⟩ := ihalternative trivial
      (hrest.right hconsequent.blocks hconsequent.reaches.index_le) hd₂
    exact ⟨d₃, hd₃, (Reads.conditional (by rwa [hhead]) hcondition' hconsequent'
      halternative').of_result (hd₃.close hindex _)⟩
  | @forLoop sequence body c c₁ c₂ c₃ hopening hopen hinside hcounter hin hsequence hclose hbody
      ihsequence ihbody =>
    intro d hd
    subst hinside
    have hread : swap.Meets c.index c₃.index ([sequence] ++ [body]) := Meets.of_close hmeets rfl
    have hparen := (reaches_settle_advance c).trans (reaches_settle_advance _)
    have hword : (c.settle.advance.settle.advance.enter .round).Reaches _ :=
      (reaches_settle_advance _).trans (reaches_settle_advance _)
    have hbehind : c₂.Reaches c₂.settle.advance.leave := reaches_settle_advance c₂
    have hahead := hbehind.trans (reaches_skipNewlines _)
    have hreach := (Reaches.trans hparen hword).trans hsequence.reaches
    have hfirst := hread.left hbody.blocks hbody.reaches.index_le
    have hstart := hfirst.enter hsequence.blocks (hsequence.reaches.trans hahead).index_le
    have hsecond := hread.right hsequence.blocks hreach.index_le
    have hout := hsecond.enter hbody.blocks hbody.reaches.index_le
    obtain ⟨hhead, hindex, htaken⟩ := hd.takes (Opening.isTrivia_eq_false hopening) hstart
      (.trans (reaches_settle_advance _) hword)
    obtain ⟨hhead₁, -, htaken₁⟩ := htaken.takes (Lexeme.isTrivia_of_kind hopen rfl)
      (hstart.between (reaches_settle_advance c) (.refl _)) hword
    obtain ⟨hhead₂, -, htaken₂⟩ := (htaken₁.enter .round).takes
      (Lexeme.isTrivia_of_kind hcounter rfl) (hstart.between hparen (.refl _))
      (reaches_settle_advance _)
    obtain ⟨hhead₃, -, htaken₃⟩ := htaken₂.takes (Lexeme.isTrivia_of_kind hin rfl)
      (hstart.between (Reaches.trans hparen (reaches_settle_advance (enter _ .round))) (.refl _))
      (.refl _)
    obtain ⟨d₂, hd₂, hsequence'⟩ := ihsequence trivial
      (hfirst.mono (Reaches.trans hparen hword).index_le hahead.index_le) htaken₃
    obtain ⟨hhead₄, -, htaken₄⟩ := hd₂.takes (Lexeme.isTrivia_of_kind hclose rfl) hout
      (reaches_skipNewlines (leave _))
    obtain ⟨d₃, hd₃, hbody'⟩ := ihbody trivial (hsecond.mono hahead.index_le (Nat.le_refl _))
      (htaken₄.leave.skipNewlines (hout.between hbehind (.refl _)))
    refine ⟨d₃, hd₃, (Reads.forLoop (by rwa [hhead]) (by rwa [hhead₁]) rfl (by rwa [hhead₂])
      (by rwa [hhead₃]) hsequence' (by rwa [hhead₄]) hbody').of_result ?_⟩
    rw [hhead₂]
    exact hd₃.close hindex _
  | @whileLoop condition body c c₁ c₂ hopening hcondition hbody ihcondition ihbody =>
    intro d hd
    have hread : swap.Meets c.index c₂.index ([condition] ++ [body]) := Meets.of_close hmeets rfl
    have hreach := (reaches_settle_advance c).trans hcondition.reaches
    have hfirst := hread.left hbody.blocks hbody.reaches.index_le
    have hin := hfirst.enter hcondition.blocks hcondition.reaches.index_le
    obtain ⟨hhead, hindex, htaken⟩ :=
      hd.takes (Opening.isTrivia_eq_false hopening) hin (.refl _)
    obtain ⟨d₁, hd₁, hcondition'⟩ := ihcondition trivial
      (hfirst.mono (reaches_settle_advance c).index_le (Nat.le_refl _)) htaken
    obtain ⟨d₂, hd₂, hbody'⟩ :=
      ihbody trivial (hread.right hcondition.blocks hreach.index_le) hd₁
    exact ⟨d₂, hd₂, (Reads.whileLoop (by rwa [hhead]) hcondition' hbody').of_result
      (hd₂.close hindex _)⟩
  | @header condition c c₁ hopen hcondition hclose ihcondition =>
    intro d hd
    have hread : swap.Meets c.index c₁.settle.advance.leave.skipNewlines.index [condition] := hmeets
    have hbehind : c₁.Reaches c₁.settle.advance.leave := reaches_settle_advance c₁
    have hahead := hbehind.trans (reaches_skipNewlines _)
    have hreach : c.Reaches c₁ := .trans (reaches_settle_advance c) hcondition.reaches
    have hout := hread.leave hcondition.blocks hreach.index_le
    have hkeeps :=
      ihcondition trivial (hread.mono (reaches_settle_advance c).index_le hahead.index_le)
    obtain ⟨hhead, -, d₁, hd₁, hcondition'⟩ := hkeeps.inside hd (Lexeme.isTrivia_of_kind hopen rfl)
      (hread.enter hcondition.blocks (hcondition.reaches.trans hahead).index_le)
    obtain ⟨hhead₁, -, htaken₁⟩ := hd₁.takes (Lexeme.isTrivia_of_kind hclose rfl) hout
      (reaches_skipNewlines (leave _))
    exact ⟨_, htaken₁.leave.skipNewlines (hout.between hbehind (.refl _)),
      .header (by rwa [hhead]) hcondition' (by rwa [hhead₁])⟩
  | @elseBranch branch c c₁ helse hbranch ihbranch =>
    intro d hd
    have hread : swap.Meets c.index c₁.index [branch] := hmeets
    have hword := (reaches_beforeElse c).trans (reaches_advance _)
    have hahead := reaches_skipNewlines c.beforeElse.advance
    have hin := hread.enter hbranch.blocks hbranch.reaches.index_le
    have hbefore := hd.beforeElse (hin.between (.refl c) ((reaches_advance _).trans hahead))
    obtain ⟨hhead, htaken⟩ := hbefore.advance (by rw [helse]; decide)
    obtain ⟨d₁, hd₁, hbranch'⟩ := ihbranch trivial
      (hread.mono (hword.trans hahead).index_le (Nat.le_refl _))
      (htaken.skipNewlines (hin.between hword (.refl _)))
    exact ⟨d₁, hd₁, .elseBranch (by rwa [hhead]) hbranch'⟩
  | noElse helse => exact fun d hd => ⟨d, hd, .noElse (hd.beforeElse_ne helse)⟩
  | @noStatements terminator c hend =>
    intro d hd
    refine ⟨_, hd.skipSeparators, .noStatements ?_⟩
    rcases hd.skipSeparators.head_or with hhead | ⟨hhead, -⟩
    · rwa [hhead]
    · exact absurd (hhead ▸ swap.kind_newline) (head_skipSeparators c)
  | @statement terminator first others c c₁ c₂ hgo hfirst hend hothers ihfirst ihothers =>
    intro d hd
    have hskip := hd.skipSeparators
    have hahead := reaches_skipSeparators c
    have hends : c₁.endsAtNewline = true :=
      (endsAtNewline_congr (by simp [hfirst.brackets, Task.closes])).trans hstands
    obtain ⟨d₁, hd₁, hfirst'⟩ := ihfirst trivial
      (Admits.of_first hmeets hahead (hfirst.range_eq hstands) hothers.blocks
        hothers.reaches.index_le) hskip
    obtain ⟨d₂, hd₂, hothers'⟩ :=
      ihothers hends (Admits.of_others hmeets (hahead.trans hfirst.reaches) hfirst.blocks) hd₁
    refine ⟨d₂, hd₂, .statement ?_ hfirst' (expectEnd_separated hd₁ hend) hothers'⟩
    rcases hskip.head_or with hhead | ⟨hhead, -⟩
    · rwa [hhead]
    · exact absurd (hhead ▸ swap.kind_newline) (head_skipSeparators c)
  | @noArguments closer c hclose =>
    intro d hd
    obtain ⟨hhead, -, htaken⟩ := hd.takes (closer.isTrivia_eq_false hclose)
      (Meets.leads hmeets) (.refl _)
    exact ⟨_, htaken.leave, .noArguments (by rwa [hhead])⟩
  | @someArguments closer given c c₁ hgo hgiven ihgiven =>
    intro d hd
    have hread : swap.Meets c.index c₁.index (given.filterMap Argument.value) := hmeets
    have hsettle := hd.settle (hread.enter hgiven.blocks hgiven.reaches.index_le)
    obtain ⟨d₁, hd₁, hgiven'⟩ := ihgiven (by simpa [Task.Stands] using hstands)
      (hread.mono (reaches_settle c).index_le (Nat.le_refl _)) hsettle
    refine ⟨d₁, hd₁, .someArguments ?_ hgiven'⟩
    rcases hsettle.head_or with hhead | ⟨-, hhead⟩
    · rwa [hhead]
    · rw [hhead]
      exact fun hclose => closer.separator_goes_on (.inr swap.kind_semicolon) (.inr hclose)
  | @lastArgument closer first c c₁ hfirst hclose ihfirst =>
    intro d hd
    have hread : swap.Meets c.index c₁.settle.advance.leave.index
        (first.value.toList ++ [].filterMap Argument.value) :=
      filterMap_cons_eq_append Argument.value first [] ▸ hmeets
    rw [List.filterMap_nil, List.append_nil] at hread
    obtain ⟨d₁, hd₁, hfirst'⟩ :=
      ihfirst hstands (hread.mono (Nat.le_refl _) (reaches_settle_advance c₁).index_le) hd
    obtain ⟨hhead, -, htaken⟩ := hd₁.takes (closer.isTrivia_eq_false hclose)
      (hread.leave hfirst.blocks hfirst.reaches.index_le) (.refl _)
    exact ⟨_, htaken.leave, .lastArgument hfirst' (by rwa [hhead])⟩
  | @moreArguments closer first others c c₁ c₂ hfirst hcomma hothers ihfirst ihothers =>
    intro d hd
    have hread : swap.Meets c.index c₂.index
        (first.value.toList ++ others.filterMap Argument.value) :=
      filterMap_cons_eq_append Argument.value first others ▸ hmeets
    have hbehind := reaches_settle_advance c₁
    have hleft := hread.left hothers.blocks hothers.reaches.index_le
    have hrest := hread.right hfirst.blocks hfirst.reaches.index_le
    obtain ⟨d₁, hd₁, hfirst'⟩ :=
      ihfirst hstands (hleft.mono (Nat.le_refl _) hbehind.index_le) hd
    obtain ⟨hhead, -, htaken⟩ := hd₁.takes (Lexeme.isTrivia_of_kind hcomma rfl)
      (hrest.enter hothers.blocks hothers.reaches.index_le) (.refl _)
    obtain ⟨d₂, hd₂, hothers'⟩ := ihothers
      (by simpa [Task.Stands, Task.closes, hfirst.brackets] using hstands)
      (hrest.mono hbehind.index_le (Nat.le_refl _)) htaken
    exact ⟨d₂, hd₂, .moreArguments hfirst' (by rwa [hhead]) hothers'⟩
  | @namedArgument closer name value c c₁ hname hequal hvalue ihvalue =>
    intro d hd
    have hread : swap.Meets c.index c₁.index (Option.toList value) := hmeets
    have hround : c.settle.advance.brackets.head? = some .round := by
      simpa [Task.Stands] using hstands
    have hend := kind_ne_endOfInput_of_argumentName? hname
    have hsign := kind_of_secondKind? hend hequal
    rw [← settle_eq hround] at hsign
    have hbehind := reaches_settle_advance c.settle.advance
    have hreach := (reaches_settle_advance c).trans hbehind
    have hin := hread.enter hvalue.blocks hvalue.reaches.index_le
    obtain ⟨hhead, -, htaken⟩ := hd.takes (isTrivia_of_argumentName? hname) hin hbehind
    obtain ⟨hhead₁, -, htaken₁⟩ := htaken.takes (Lexeme.isTrivia_of_kind hsign rfl)
      (hin.between (reaches_settle_advance c) (.refl _)) (.refl _)
    obtain ⟨d₁, hd₁, hvalue'⟩ := ihvalue (by simpa [Task.Stands] using hstands)
      (hread.mono hreach.index_le (Nat.le_refl _)) htaken₁
    refine ⟨d₁, hd₁, .namedArgument (by rwa [hhead]) ?_ hvalue'⟩
    refine secondKind?_of_kind (by rwa [hhead]) ?_ (by decide)
    rw [← settle_eq (by rwa [htaken.brackets]), hhead₁, hsign]
  | @plainArgument closer value c c₁ hplain hvalue ihvalue =>
    intro d hd
    have hread : swap.Meets c.index c₁.index (Option.toList value) := hmeets
    have hsettle := hd.settle (hread.enter hvalue.blocks hvalue.reaches.index_le)
    obtain ⟨d₁, hd₁, hvalue'⟩ := ihvalue (by simpa [Task.Stands] using hstands)
      (hread.mono (reaches_settle c).index_le (Nat.le_refl _)) hsettle
    exact ⟨d₁, hd₁, .plainArgument (hsettle.plain hplain) hvalue'⟩
  | @noValue closer c hend =>
    intro d hd
    have hsettle := hd.settle (Meets.leads hmeets)
    refine ⟨_, hsettle, .noValue ?_⟩
    rcases hsettle.head_or with hhead | ⟨hhead, -⟩
    · rwa [hhead]
    · rw [hhead] at hend
      exact absurd hend (closer.separator_goes_on (.inl swap.kind_newline))
  | @value closer value c c₁ hgo hvalue ihvalue =>
    intro d hd
    have hread : swap.Meets c.index c₁.index [value] := hmeets
    have hsettle := hd.settle (hread.enter hvalue.blocks hvalue.reaches.index_le)
    obtain ⟨d₁, hd₁, hvalue'⟩ := ihvalue trivial
      (hread.mono (reaches_settle c).index_le (Nat.le_refl _)) hsettle
    refine ⟨d₁, hd₁, .value ?_ hvalue'⟩
    rcases hsettle.head_or with hhead | ⟨-, hhead⟩
    · rwa [hhead]
    · rw [hhead]
      exact closer.separator_goes_on (.inr swap.kind_semicolon)
  | @noParameters c hclose =>
    intro d hd
    obtain ⟨hhead, -, htaken⟩ := hd.takes (Lexeme.isTrivia_of_kind hclose rfl)
      (Meets.leads hmeets) (.refl _)
    exact ⟨_, htaken.leave, .noParameters (by rwa [hhead])⟩
  | @someParameters given c c₁ hgo hgiven ihgiven =>
    intro d hd
    have hread : swap.Meets c.index c₁.index (given.filterMap Parameter.fallback) := hmeets
    have hsettle := hd.settle (hread.enter hgiven.blocks hgiven.reaches.index_le)
    obtain ⟨d₁, hd₁, hgiven'⟩ := ihgiven (by simpa [Task.Stands] using hstands)
      (hread.mono (reaches_settle c).index_le (Nat.le_refl _)) hsettle
    refine ⟨d₁, hd₁, .someParameters ?_ hgiven'⟩
    rcases hsettle.head_or with hhead | ⟨-, hhead⟩
    · rwa [hhead]
    · rw [hhead, swap.kind_semicolon]
      decide
  | @lastParameter fallback c c₁ hname hfallback hclose ihfallback =>
    intro d hd
    have hread : swap.Meets c.index c₁.settle.advance.leave.index
        (fallback.toList ++ [].filterMap Parameter.fallback) :=
      filterMap_cons_eq_append Parameter.fallback ⟨c.settle.head.name, fallback⟩ [] ▸ hmeets
    rw [List.filterMap_nil, List.append_nil] at hread
    have hbehind : c₁.Reaches c₁.settle.advance.leave := reaches_settle_advance c₁
    have hin := hread.enter hfallback.blocks (hfallback.reaches.trans hbehind).index_le
    have hreach := (reaches_settle_advance c).trans hfallback.reaches
    obtain ⟨hhead, -, htaken⟩ := hd.takes (Lexeme.isTrivia_of_kind hname rfl) hin (.refl _)
    obtain ⟨d₁, hd₁, hfallback'⟩ := ihfallback (by simpa [Task.Stands] using hstands)
      (hread.mono (reaches_settle_advance c).index_le hbehind.index_le) htaken
    obtain ⟨hhead₁, -, htaken₁⟩ := hd₁.takes (Lexeme.isTrivia_of_kind hclose rfl)
      (hread.leave hfallback.blocks hreach.index_le) (.refl _)
    have hread' := Reads.lastParameter (by rwa [hhead]) hfallback' (by rwa [hhead₁])
    rw [hhead] at hread'
    exact ⟨_, htaken₁.leave, hread'⟩
  | @moreParameters fallback others c c₁ c₂ hname hfallback hcomma hothers ihfallback ihothers =>
    intro d hd
    have hread : swap.Meets c.index c₂.index
        (fallback.toList ++ others.filterMap Parameter.fallback) :=
      filterMap_cons_eq_append Parameter.fallback ⟨c.settle.head.name, fallback⟩ others ▸ hmeets
    have hbehind := reaches_settle_advance c₁
    have hreach := (reaches_settle_advance c).trans hfallback.reaches
    have hleft := hread.left hothers.blocks hothers.reaches.index_le
    have hrest := hread.right hfallback.blocks hreach.index_le
    have hin := hleft.enter hfallback.blocks (hfallback.reaches.trans hbehind).index_le
    obtain ⟨hhead, -, htaken⟩ := hd.takes (Lexeme.isTrivia_of_kind hname rfl) hin (.refl _)
    obtain ⟨d₁, hd₁, hfallback'⟩ := ihfallback (by simpa [Task.Stands] using hstands)
      (hleft.mono (reaches_settle_advance c).index_le hbehind.index_le) htaken
    obtain ⟨hhead₁, -, htaken₁⟩ := hd₁.takes (Lexeme.isTrivia_of_kind hcomma rfl)
      (hrest.enter hothers.blocks hothers.reaches.index_le) (.refl _)
    obtain ⟨d₂, hd₂, hothers'⟩ := ihothers
      (by simpa [Task.Stands, Task.closes, hfallback.brackets] using hstands)
      (hrest.mono hbehind.index_le (Nat.le_refl _)) htaken₁
    have hread' := Reads.moreParameters (by rwa [hhead]) hfallback' (by rwa [hhead₁]) hothers'
    rw [hhead] at hread'
    exact ⟨d₂, hd₂, hread'⟩
  | @fallback value c c₁ hequal hvalue ihvalue =>
    intro d hd
    have hread : swap.Meets c.index c₁.index [value] := hmeets
    obtain ⟨hhead, -, htaken⟩ := hd.takes (Lexeme.isTrivia_of_kind hequal rfl)
      (hread.enter hvalue.blocks hvalue.reaches.index_le) (.refl _)
    obtain ⟨d₁, hd₁, hvalue'⟩ := ihvalue trivial
      (hread.mono (reaches_settle_advance c).index_le (Nat.le_refl _)) htaken
    exact ⟨d₁, hd₁, .fallback (by rwa [hhead]) hvalue'⟩
  | @noFallback c hequal =>
    intro d hd
    have hsettle := hd.settle (Meets.leads hmeets)
    refine ⟨_, hsettle, .noFallback ?_⟩
    rcases hsettle.head_or with hhead | ⟨-, hhead⟩
    · rwa [hhead]
    · rw [hhead, swap.kind_semicolon]
      decide

/-- A whole row and the row with a semicolon for one of its line breaks. -/
theorem readAll_separated {earlier later : List Lexeme} {newline semicolon : Lexeme}
    {es : List Expr} (hnewline : newline.kind = .newline) (hsemicolon : semicolon.kind = .semicolon)
    (h : readAll (earlier ++ newline :: later) = .ok es)
    (hplace : Divided earlier.length es ∨ Outside earlier.length es) :
    readAll (earlier ++ semicolon :: later) = .ok es := by
  obtain ⟨c, hreads⟩ := readAll_eq_ok_iff.mp h
  let swap : SeparatorSwap :=
    ⟨earlier.length, newline, semicolon, later, hnewline, hsemicolon⟩
  have hstart : swap.Beside (.ofLexemes (earlier ++ newline :: later))
      (.ofLexemes (earlier ++ semicolon :: later)) :=
    .inl ⟨earlier, rfl, rfl, Nat.zero_add _⟩
  obtain ⟨d, -, hreads'⟩ := hreads.separated rfl (fun _ _ => hplace) hstart
  exact readAll_eq_ok_iff.mpr ⟨d, hreads'⟩

end Expr
end TypeDrift
