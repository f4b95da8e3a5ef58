import Mathlib.Data.List.Infix
import TypeDrift.Proofs.Token.Piece

/-! # What quotes enclose

A quoted text is found by a search for its end and decoded by a recursion.  Here both are said
without the search and the recursion.

In a text with escapes, a backslash takes the next character out of the reading, and may itself be
taken out by the one before (`opensEscape`).  The body of a quoted text has no quote but behind
such a backslash (`Encloses`), and its contents are those that the rules for the single escapes
make of it (`Decodes`).  Where the steps of a text are decoded and not its characters, the line
feeds of the line breaks of two characters are left out, and nothing else (`decodes_steps_iff`).

In a raw text, the first occurrence of the mark is the end.  A mark that holds its first character
once only cannot begin in the body and end in the mark behind it (`splitAtMark_of_not_infix`).
-/
namespace TypeDrift

open Text

/-! ## Line breaks of two characters -/

namespace Text

theorem steps_pair (rest : List Char) : steps ('\r' :: '\n' :: rest) = '\r' :: steps rest := rfl

theorem steps_cons_cases (c : Char) (rest : List Char) :
    (∃ later, c = '\r' ∧ rest = '\n' :: later) ∨ steps (c :: rest) = c :: steps rest := by
  by_cases hpair : ∃ later, c = '\r' ∧ rest = '\n' :: later
  · exact .inl hpair
  · refine .inr ?_
    rw [steps]
    exact fun later hc hrest => hpair ⟨later, hc, hrest⟩

theorem length_steps_le (text : List Char) : (steps text).length ≤ text.length := by
  fun_induction steps text with
  | case1 rest ih => exact Nat.le_succ_of_le (Nat.succ_le_succ ih)
  | case2 c rest hpair ih => exact Nat.succ_le_succ ih
  | case3 => exact Nat.le_refl _

theorem steps_eq_self_of_length {text : List Char} (h : (steps text).length = text.length) :
    steps text = text := by
  fun_induction steps text with
  | case1 rest ih =>
    have hle := length_steps_le rest
    simp only [List.length_cons] at h
    omega
  | case2 c rest hpair ih => exact congrArg (c :: ·) (ih (Nat.succ.inj h))
  | case3 => rfl

/-- The steps of a text are its characters where no line break has two of them. -/
theorem steps_eq_self_iff {text : List Char} : steps text = text ↔ ¬['\r', '\n'] <:+: text := by
  fun_induction steps text with
  | case1 rest ih =>
    refine ⟨fun h => ?_, fun h => absurd ⟨[], rest, rfl⟩ h⟩
    have hlength := congrArg List.length h
    have hle := length_steps_le rest
    simp only [List.length_cons] at hlength
    omega
  | case2 c rest hpair ih =>
    have hhead : ¬['\r', '\n'] <+: c :: rest := by
      rintro ⟨more, hmore⟩
      obtain ⟨hc, hrest⟩ := List.cons.inj hmore
      exact hpair more hc.symm hrest.symm
    rw [List.infix_cons_iff, not_or, and_iff_right hhead, ← ih, List.cons.injEq, and_iff_right rfl]
  | case3 => simp

end Text

namespace Quoted

/-! ## Escapes -/

/-- A backslash opens an escape unless it is taken out of the reading itself. -/
def escapeStep (opened : Bool) (c : Char) : Bool := !opened && c == '\\'

/-- Whether a text ends in a backslash that takes the next character out of the reading. -/
def opensEscape (text : List Char) : Bool := text.foldl escapeStep false

theorem opensEscape_cons {c : Char} (h : c ≠ '\\') (rest : List Char) :
    opensEscape (c :: rest) = opensEscape rest := by
  have hstep : escapeStep false c = false := by simpa [escapeStep] using h
  rw [opensEscape, List.foldl_cons, hstep]
  rfl

/-- Neither character of a line break opens an escape. -/
theorem foldl_escapeStep_steps (text : List Char) (opened : Bool) :
    (steps text).foldl escapeStep opened = text.foldl escapeStep opened := by
  have hbreak (opened : Bool) {c : Char} (hc : isBreak c = true) : escapeStep opened c = false := by
    have hne : (c == '\\') = false := by
      rw [beq_eq_false_iff_ne]
      rintro rfl
      cases hc
    rw [escapeStep, hne, Bool.and_false]
  fun_induction steps text generalizing opened with
  | case1 rest ih =>
    simp only [List.foldl_cons, ih, hbreak _ (show isBreak '\r' = true from rfl),
      hbreak _ (show isBreak '\n' = true from rfl)]
  | case2 c rest hpair ih => simp only [List.foldl_cons, ih]
  | case3 => rfl

theorem opensEscape_steps (text : List Char) : opensEscape (steps text) = opensEscape text :=
  foldl_escapeStep_steps text false

/-- What stands between two quotes: a quote within it is taken out of the reading by a backslash,
and the one behind it is not. -/
structure Encloses (quote : Char) (body : List Char) : Prop where
  inside : ∀ before after, body = before ++ quote :: after → opensEscape before = true
  closed : opensEscape body = false

theorem encloses_of_split {quote : Char} (hquote : quote ≠ '\\') {cs body left : List Char}
    (h : split quote cs = .ok (body, left)) : Encloses quote body := by
  fun_induction split quote cs generalizing body left with
  | case1 => cases h
  | case2 => cases h
  | case3 c tail inner left' hinner ih =>
    cases h
    obtain ⟨hinside, hclosed⟩ := ih hinner
    refine ⟨fun before after hbody => ?_, hclosed⟩
    -- The backslash is no quote; the character behind it may be one; then the rest begins.
    cases before with
    | nil => exact absurd (List.cons.inj hbody).1.symm hquote
    | cons d before =>
      obtain ⟨rfl, hrest⟩ := List.cons.inj hbody
      cases before with
      | nil => rfl
      | cons e before => exact hinside before after (List.cons.inj hrest).2
  | case4 => cases h
  | case5 =>
    cases h
    exact ⟨fun before after hbody => absurd hbody.symm (by simp), rfl⟩
  | case6 c tail hend hescape hc inner left' hinner ih =>
    cases h
    obtain ⟨hinside, hclosed⟩ := ih hinner
    have hne := ne_backslash hend hescape
    refine ⟨fun before after hbody => ?_, (opensEscape_cons hne inner).trans hclosed⟩
    cases before with
    | nil => exact absurd (List.cons.inj hbody).1 hc
    | cons d before =>
      obtain ⟨rfl, hrest⟩ := List.cons.inj hbody
      exact (opensEscape_cons hne before).trans (hinside before after hrest)
  | case7 => cases h

/-! ## Contents -/

/-- The contents that a quoted text stands for: a backslash and the character behind it stand for
a line feed, a carriage return, a tab or the null character where that is `n`, `r`, `t` or `0`,
and for that character otherwise; every other character stands for itself. -/
inductive Decodes : List Char → List Char → Prop
  | nil : Decodes [] []
  | lineFeed {text contents : List Char} (h : Decodes text contents) :
    Decodes ('\\' :: 'n' :: text) ('\n' :: contents)
  | carriageReturn {text contents : List Char} (h : Decodes text contents) :
    Decodes ('\\' :: 'r' :: text) ('\r' :: contents)
  | tab {text contents : List Char} (h : Decodes text contents) :
    Decodes ('\\' :: 't' :: text) ('\t' :: contents)
  | null {text contents : List Char} (h : Decodes text contents) :
    Decodes ('\\' :: '0' :: text) ('\x00' :: contents)
  | itself {c : Char} {text contents : List Char} (hc : c ∉ ['n', 'r', 't', '0'])
    (h : Decodes text contents) : Decodes ('\\' :: c :: text) (c :: contents)
  | plain {c : Char} {text contents : List Char} (hc : c ≠ '\\') (h : Decodes text contents) :
    Decodes (c :: text) (c :: contents)

theorem decode_cons_of_ne {c : Char} (hc : c ≠ '\\') (rest : List Char) :
    decode (c :: rest) = c :: decode rest :=
  decode_cons fun _ _ hslash _ => hc hslash

theorem escape_of_notMem {c : Char} (hc : c ∉ ['n', 'r', 't', '0']) : escape c = c := by
  simp only [List.mem_cons, List.not_mem_nil, or_false, not_or] at hc
  rw [escape, if_neg hc.1, if_neg hc.2.1, if_neg hc.2.2.1, if_neg hc.2.2.2]

theorem Decodes.escape {text contents : List Char} (c : Char) (h : Decodes text contents) :
    Decodes ('\\' :: c :: text) (Quoted.escape c :: contents) := by
  by_cases hc : c ∈ ['n', 'r', 't', '0']
  · simp only [List.mem_cons, List.not_mem_nil, or_false] at hc
    rcases hc with rfl | rfl | rfl | rfl
    · exact h.lineFeed
    · exact h.carriageReturn
    · exact h.tab
    · exact h.null
  · rw [escape_of_notMem hc]
    exact h.itself hc

theorem eq_decode_of_decodes {text contents : List Char} (h : Decodes text contents) :
    contents = decode text := by
  induction h with
  | nil => rfl
  | lineFeed _ ih | carriageReturn _ ih | tab _ ih | null _ ih => rw [decode, ← ih]; rfl
  | itself hc _ ih => rw [decode, ← ih, escape_of_notMem hc]
  | plain hc _ ih => rw [decode_cons_of_ne hc, ← ih]

theorem decodes_decode {text : List Char} (h : opensEscape text = false) :
    Decodes text (decode text) := by
  induction text using escapes_induction with
  | nil => exact .nil
  | slash => cases h
  | escape c rest ih => exact (ih h).escape c
  | plain c rest hc ih =>
    rw [decode_cons_of_ne hc]
    exact (ih (opensEscape_cons hc rest ▸ h)).plain hc

/-- A text that does not end within an escape stands for one text. -/
theorem decodes_iff {text contents : List Char} (h : opensEscape text = false) :
    Decodes text contents ↔ contents = decode text :=
  ⟨eq_decode_of_decodes, fun heq => heq ▸ decodes_decode h⟩

/-- A text and its steps have the same number of escapes. -/
theorem length_decode_steps (text : List Char) :
    (decode text).length + (steps text).length = (decode (steps text)).length + text.length := by
  have hfeed (rest : List Char) : decode ('\n' :: rest) = '\n' :: decode rest :=
    decode_cons_of_ne (by decide) rest
  have hfeeds (rest : List Char) : steps ('\n' :: rest) = '\n' :: steps rest := rfl
  induction text using escapes_induction with
  | nil | slash => rfl
  | escape c rest ih =>
    have hslash : steps ('\\' :: c :: rest) = '\\' :: steps (c :: rest) := rfl
    rcases steps_cons_cases c rest with ⟨later, rfl, rfl⟩ | hsteps
    · rw [hfeed, hfeeds, hfeed] at ih
      rw [hslash, steps_pair, decode, decode, hfeed]
      simp only [List.length_cons] at ih ⊢
      omega
    · rw [hslash, hsteps, decode, decode]
      simp only [List.length_cons]
      omega
  | plain c rest hc ih =>
    rcases steps_cons_cases c rest with ⟨later, rfl, rfl⟩ | hsteps
    · rw [hfeed, hfeeds, hfeed] at ih
      rw [steps_pair, decode_cons_of_ne hc, decode_cons_of_ne hc, hfeed]
      simp only [List.length_cons] at ih ⊢
      omega
    · rw [hsteps, decode_cons_of_ne hc, decode_cons_of_ne hc]
      simp only [List.length_cons]
      omega

/-- **Decoding the steps of a text** is decoding the text where no line break has two characters,
and only there. -/
theorem decodes_steps_iff {text : List Char} (h : opensEscape text = false) :
    Decodes text (decode (steps text)) ↔ ¬['\r', '\n'] <:+: text := by
  rw [decodes_iff h, ← steps_eq_self_iff]
  refine ⟨fun heq => steps_eq_self_of_length ?_, fun heq => by rw [heq]⟩
  have hlength := length_decode_steps text
  rw [heq] at hlength
  omega

/-! ## Marks -/

theorem not_infix_of_splitAtMark {mark : List Char} (hmark : mark ≠ []) {cs body left : List Char}
    (h : splitAtMark mark cs = some (body, left)) : ¬mark <:+: body := by
  induction cs generalizing body left with
  | nil => cases h
  | cons c cs ih =>
    rw [splitAtMark] at h
    split at h
    · cases h
      rwa [List.infix_nil]
    · next hfirst =>
      obtain ⟨⟨inner, left'⟩, hinner, heq⟩ := Option.map_eq_some_iff.mp h
      cases heq
      rw [List.infix_cons_iff, not_or]
      refine ⟨fun hprefix => hfirst (List.isPrefixOf_iff_prefix.mpr ?_), ih hinner⟩
      rw [← splitAtMark_append hinner, ← List.cons_append]
      exact hprefix.trans (List.prefix_append _ _)

/-- A mark that has its first character once only is found where it was put, however the body before
it ends. -/
theorem splitAtMark_of_not_infix {closing : Char} {mark : List Char} (hclosing : closing ∉ mark)
    {body : List Char} (hbody : ¬closing :: mark <:+: body) (more : List Char) :
    splitAtMark (closing :: mark) (body ++ (closing :: mark ++ more)) = some (body, more) := by
  induction body with
  | nil =>
    have hfirst : (closing :: mark).isPrefixOf (closing :: (mark ++ more)) = true :=
      List.isPrefixOf_iff_prefix.mpr (List.prefix_append (closing :: mark) more)
    rw [List.nil_append, List.cons_append, splitAtMark, if_pos hfirst]
    simp
  | cons c body ih =>
    rw [List.infix_cons_iff, not_or] at hbody
    have hfirst : ¬(closing :: mark).isPrefixOf (c :: (body ++ (closing :: mark ++ more))) := by
      intro hfound
      obtain ⟨rfl, hmark⟩ := List.cons_prefix_cons.mp (List.isPrefixOf_iff_prefix.mp hfound)
      -- It would end in the body, or have the first character of the mark behind the body in it.
      rcases List.prefix_or_prefix_of_prefix hmark (List.prefix_append body _) with
        hin | ⟨beyond, rfl⟩
      · exact hbody.1 (List.cons_prefix_cons.mpr ⟨rfl, hin⟩)
      · cases beyond with
        | nil => exact hbody.1 (List.cons_prefix_cons.mpr ⟨rfl, by rw [List.append_nil]⟩)
        | cons d beyond =>
          have hd := (List.prefix_append_right_inj body).mp hmark
          obtain ⟨rfl, -⟩ := List.cons_prefix_cons.mp hd
          exact hclosing (List.mem_append_right body List.mem_cons_self)
    rw [List.cons_append, splitAtMark, if_neg hfirst, ih hbody.2]
    rfl

theorem splitAtMark_eq_none_iff {mark : List Char} (hmark : mark ≠ []) {cs : List Char} :
    splitAtMark mark cs = none ↔ ¬mark <:+: cs := by
  induction cs with
  | nil => exact iff_of_true rfl (by rwa [List.infix_nil])
  | cons c cs ih =>
    rw [splitAtMark, List.infix_cons_iff, not_or, ← ih]
    split
    · next hfirst =>
      refine ⟨fun hnone => ?_, fun h => absurd (List.isPrefixOf_iff_prefix.mp hfirst) h.1⟩
      cases hnone
    · next hfirst =>
      rw [Option.map_eq_none_iff]
      exact (and_iff_right fun h => hfirst (List.isPrefixOf_iff_prefix.mpr h)).symm

end Quoted
end TypeDrift
