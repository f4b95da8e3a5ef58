import TypeDrift.Proofs.Text.Coordinates
import TypeDrift.Text.Lines

/-! # Lines and places

The lines of a text, as an editor shows them, end at line feeds alone; places count a carriage return
as the end of a line, too, if no line feed follows it.  So there are two ways to number lines.  By
the one, any place of a text is found again: the line with its number goes on from its column with
what stands there in the text (`getElem?_lines`).  By the other, a place has as many lines more as
carriage returns stand alone before it (`lineBreaks_eq`), and where there is none, the two agree
(`lastLine_eq_openLine`).
-/
namespace TypeDrift.Text

/-- How many carriage returns of a text have no line feed behind them. -/
def loneReturns : List Char → Nat
  | '\r' :: '\n' :: rest => loneReturns rest
  | c :: rest => (if c = '\r' then 1 else 0) + loneReturns rest
  | [] => 0

/-- What stands behind the last line feed of a text. -/
def openLine (text : List Char) : List Char := text.rtakeWhile (· != '\n')

/-- The place just behind a text, if lines end at line feeds alone. -/
def fedPlace (before : List Char) : Position :=
  ⟨before.count '\n' + 1, (openLine before).length + 1⟩

/-- Every line break holds a line feed or is a carriage return that stands alone. -/
theorem lineBreaks_eq (text : List Char) :
    lineBreaks text = text.count '\n' + loneReturns text := by
  fun_induction lineBreaks text with
  | case1 rest ih =>
    rw [ih, loneReturns, List.count_cons_of_ne (by decide), List.count_cons_self]
    omega
  | case2 c rest hpair ih =>
    have hlone : loneReturns (c :: rest) = (if c = '\r' then 1 else 0) + loneReturns rest := by
      rw [loneReturns]
      exact hpair
    rw [ih, hlone, List.count_cons]
    by_cases hfeed : c = '\n'
    · subst hfeed
      simp [isBreak]
      omega
    · by_cases hreturn : c = '\r'
      · subst hreturn
        simp [isBreak]
        omega
      · simp [isBreak, hfeed, hreturn]
  | case3 => rfl

theorem loneReturns_append {a b : List Char} (h : Splits a b) :
    loneReturns (a ++ b) = loneReturns a + loneReturns b := by
  have hbreaks := lineBreaks_append h
  simp only [lineBreaks_eq, List.count_append] at hbreaks
  omega

/-! ## The last line of a text -/

/-- A first character belongs to the end of a text for which `p` holds if all the others do. -/
theorem rtakeWhile_cons (p : Char → Bool) (c : Char) (text : List Char) :
    (c :: text).rtakeWhile p =
      if p c = true ∧ text.rtakeWhile p = text then c :: text else text.rtakeWhile p := by
  induction text using List.reverseRecOn with
  | nil => cases hc : p c <;> simp [List.rtakeWhile, hc]
  | append_singleton text last ih =>
    rw [← List.cons_append, List.rtakeWhile_concat, List.rtakeWhile_concat, ih]
    cases p last with
    | false => simp
    | true =>
      simp only [if_true, List.append_left_inj]
      split <;> rfl

theorem rtakeWhile_cons_of_neg {p : Char → Bool} {c : Char} (h : p c = false) (text : List Char) :
    (c :: text).rtakeWhile p = text.rtakeWhile p := by
  rw [rtakeWhile_cons, if_neg (by simp [h])]

theorem openLine_newline (text : List Char) : openLine ('\n' :: text) = openLine text :=
  rtakeWhile_cons_of_neg rfl text

theorem openLine_eq_self_iff {text : List Char} : openLine text = text ↔ '\n' ∉ text := by
  rw [openLine, List.rtakeWhile_eq_self_iff]
  simp only [bne_iff_ne, List.forall_mem_ne']

theorem openLine_cons {c : Char} (hc : c ≠ '\n') (text : List Char) :
    openLine (c :: text) = if '\n' ∈ text then openLine text else c :: text := by
  have hcons := rtakeWhile_cons (· != '\n') c text
  simp only [bne_iff_ne, hc, ne_eq, not_false_eq_true, true_and] at hcons
  by_cases hmem : '\n' ∈ text
  · rw [if_pos hmem]
    exact hcons.trans (if_neg fun h => openLine_eq_self_iff.mp h hmem)
  · rw [if_neg hmem]
    exact hcons.trans (if_pos (openLine_eq_self_iff.mpr hmem))

/-- Where no carriage return stands alone, what stands behind the last line feed stands behind the
last line break. -/
theorem lastLine_eq_openLine {text : List Char} (h : loneReturns text = 0) :
    lastLine text = openLine text := by
  fun_induction loneReturns text with
  | case1 rest ih =>
    have hlast : lastLine ('\r' :: '\n' :: rest) = lastLine rest :=
      (rtakeWhile_cons_of_neg rfl _).trans (rtakeWhile_cons_of_neg rfl rest)
    rw [hlast, ih h, openLine_cons (by decide), if_pos List.mem_cons_self, openLine_newline]
  | case2 c rest hpair ih =>
    obtain ⟨hc, hrest⟩ := Nat.add_eq_zero_iff.mp h
    have hreturn : c ≠ '\r' := by simpa using hc
    have hsame : lastLine rest = openLine rest := ih hrest
    unfold lastLine openLine at hsame ⊢
    rw [rtakeWhile_cons, rtakeWhile_cons, hsame]
    simp [isBreak, hreturn]
  | case3 => rfl

/-- **Where no carriage return stands alone, lines are numbered alike.** -/
theorem fedPlace_eq_behind {before : List Char} (h : loneReturns before = 0) :
    fedPlace before = ⟨lineBreaks before + 1, (lastLine before).length + 1⟩ := by
  rw [fedPlace, lineBreaks_eq, lastLine_eq_openLine h, h, Nat.add_zero]

/-! ## The line of a place -/

/-- A character that does not end a line is put in front of the first line. -/
theorem lines_cons {c : Char} {text : List Char} (hfeed : c ≠ '\n')
    (hpair : ∀ rest, c = '\r' → text = '\n' :: rest → False) :
    lines (c :: text) =
      match lines text with
      | [] => [[c]]
      | line :: more => (c :: line) :: more := by
  generalize hwhole : c :: text = whole
  fun_cases lines whole with
  | case1 => cases hwhole
  | case2 rest => exact absurd (List.cons.inj hwhole).1 hfeed
  | case3 rest => exact (hpair rest (List.cons.inj hwhole).1 (List.cons.inj hwhole).2).elim
  | case4 d rest _ _ hrest =>
    obtain ⟨rfl, rfl⟩ := List.cons.inj hwhole
    rw [hrest]
  | case5 d rest _ _ line more hrest =>
    obtain ⟨rfl, rfl⟩ := List.cons.inj hwhole
    rw [hrest]

/-- A text in which anything stands has a line. -/
theorem exists_lines (c : Char) (text : List Char) :
    ∃ first more, lines (c :: text) = first :: more := by
  generalize htext : c :: text = whole
  fun_cases lines whole with
  | case1 => cases htext
  | case2 rest => exact ⟨_, _, rfl⟩
  | case3 rest => exact ⟨_, _, rfl⟩
  | case4 d rest _ _ hrest => exact ⟨_, _, rfl⟩
  | case5 d rest _ _ line more hrest => exact ⟨_, _, rfl⟩

/-- What comes up to the first line break stands at the beginning of the first line. -/
theorem takeWhile_isPrefix {text first : List Char} {more : List (List Char)}
    (h : lines text = first :: more) : text.takeWhile (!isBreak ·) <+: first := by
  fun_induction lines text generalizing first more with
  | case1 => cases h
  | case2 rest ih => exact List.nil_prefix
  | case3 rest ih => exact List.nil_prefix
  | case4 c rest hfeed hpair hrest ih =>
    cases h
    cases rest with
    | nil => exact List.takeWhile_prefix _
    | cons d rest =>
      obtain ⟨line, others, hlines⟩ := exists_lines d rest
      cases hrest.symm.trans hlines
  | case5 c rest hfeed hpair line others hrest ih =>
    cases h
    rw [List.takeWhile_cons]
    split
    · exact List.cons_prefix_cons.mpr ⟨rfl, ih hrest⟩
    · exact List.nil_prefix

/-- **The line of a place goes on from its column** with what stands there: as many lines end before
it as there are line feeds, and its column counts what stands behind the last of them. -/
theorem getElem?_lines {before rest first : List Char} {more : List (List Char)}
    (hrest : lines rest = first :: more) (hhead : ∀ c ∈ rest.head?, isBreak c = false) :
    (lines (before ++ rest))[before.count '\n']? = some (openLine before ++ first) := by
  fun_induction loneReturns before with
  | case1 before ih =>
    rw [List.count_cons_of_ne (by decide), List.count_cons_self, openLine_cons (by decide),
      if_pos List.mem_cons_self, openLine_newline, ← ih]
    rfl
  | case2 c before hpair ih =>
    by_cases hfeed : c = '\n'
    · subst hfeed
      rw [List.count_cons_self, openLine_newline, ← ih]
      rfl
    -- The character does not end a line together with what comes behind it.
    have hpair' : ∀ more, c = '\r' → before ++ rest = '\n' :: more → False := by
      intro more hreturn hmore
      cases before with
      | nil =>
        have hbreak := hhead '\n' (by rw [← List.nil_append rest, hmore]; rfl)
        cases hbreak
      | cons d before =>
        obtain ⟨rfl, -⟩ := List.cons.inj hmore
        exact hpair before hreturn rfl
    rw [List.cons_append, lines_cons hfeed hpair', List.count_cons_of_ne hfeed, openLine_cons hfeed]
    split
    · next hnil => simp [hnil] at ih
    · next line others hlines =>
      rw [hlines] at ih
      by_cases hmem : '\n' ∈ before
      · obtain ⟨count, hcount⟩ := Nat.exists_eq_add_one.mpr (List.count_pos_iff.mpr hmem)
        rw [hcount, List.getElem?_cons_succ] at ih ⊢
        rw [if_pos hmem, ih]
      · rw [List.count_eq_zero.mpr hmem, openLine_eq_self_iff.mpr hmem] at ih
        rw [List.count_eq_zero.mpr hmem, if_neg hmem]
        cases ih
        rfl
  | case3 => simp [hrest, openLine]

end TypeDrift.Text
