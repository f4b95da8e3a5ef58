import Mathlib.Data.List.Find
import Mathlib.Data.List.TakeWhile
import TypeDrift.Proofs.Text.Coordinates
import TypeDrift.Proofs.Token.Reader

/-! # What pieces look like and what may follow them

`Piece.read` is one test after the other, and each reader behind a test has its own way of finding
the end.  Two facts hold of all of them.

A piece is of one of four shapes (`Piece.Shape`): a blank, a comment up to the end of its line, a line
break, or a token that neither begins nor ends with a character of a line break.  So no piece breaks
off within a line break of two characters.

A piece that is read at the end of a text is read just the same where the text goes on, if it goes
on with a character that no piece could take in (`Piece.read_append`).
-/
namespace TypeDrift

open Text

/-! ## Characters that end a piece -/

namespace Text

theorem takeWhile_append_stop {p : Char → Bool} {x : Char} (hx : p x = false)
    (cs more : List Char) : (cs ++ x :: more).takeWhile p = cs.takeWhile p := by
  induction cs with
  | nil => simp [hx]
  | cons c cs ih => simp only [List.cons_append, List.takeWhile_cons, ih]

theorem dropWhile_append_stop {p : Char → Bool} {x : Char} (hx : p x = false)
    (cs more : List Char) : (cs ++ x :: more).dropWhile p = cs.dropWhile p ++ x :: more := by
  induction cs with
  | nil => simp [hx]
  | cons c cs ih =>
    simp only [List.cons_append, List.dropWhile_cons, ih]
    split <;> rfl

end Text

/-- The characters between pieces: blanks, and those of line breaks. -/
def Piece.isStop (c : Char) : Bool := isBlank c || isBreak c

namespace Piece

theorem isStop_iff {c : Char} :
    isStop c = true ↔ c = ' ' ∨ c = '\t' ∨ c = '\x0c' ∨ c = '\n' ∨ c = '\r' := by
  simp [isStop, isBlank, isBreak, or_assoc]

/-- What holds of no stop holds of no blank and of no character of a line break. -/
theorem eq_false_of_isStop {p : Char → Bool} {c : Char} (h : isStop c = true)
    (hp : [' ', '\t', '\x0c', '\n', '\r'].all (fun d => !p d) = true) : p c = false := by
  simp only [List.all_cons, List.all_nil, Bool.and_true, Bool.and_eq_true, Bool.not_eq_true'] at hp
  rcases isStop_iff.mp h with rfl | rfl | rfl | rfl | rfl
  · exact hp.1
  · exact hp.2.1
  · exact hp.2.2.1
  · exact hp.2.2.2.1
  · exact hp.2.2.2.2

/-- A character of a class that holds no stop is none. -/
theorem isStop_eq_false {p : Char → Bool} {c : Char} (h : p c = true)
    (hp : [' ', '\t', '\x0c', '\n', '\r'].all (fun d => !p d) = true) : isStop c = false := by
  cases hstop : isStop c with
  | false => rfl
  | true => exact absurd h (by rw [eq_false_of_isStop hstop hp]; decide)

theorem isDigit_of_isStop {c : Char} (h : isStop c = true) : isDigit c = false :=
  eq_false_of_isStop h (by decide)

theorem isHexDigit_of_isStop {c : Char} (h : isStop c = true) : isHexDigit c = false :=
  eq_false_of_isStop h (by decide)

theorem isNameCharacter_of_isStop {c : Char} (h : isStop c = true) : isNameCharacter c = false :=
  eq_false_of_isStop h (by decide)

theorem ne_of_isStop {c d : Char} (h : isStop c = true) (hd : isStop d = false) : c ≠ d := by
  rintro rfl
  rw [h] at hd
  cases hd

theorem isBreak_of_not_isStop {c : Char} (h : isStop c = false) : isBreak c = false := by
  simp only [isStop, Bool.or_eq_false_iff] at h
  exact h.2

/-! ## The shapes of pieces -/

/-- A kind that a token with this text can have, if the token is no line break: the text tells the
operators between percent signs from `:=`. -/
def Fits (kind : Kind) (text : List Char) : Prop :=
  (kind ≠ .newline ∧ kind ≠ .endOfInput) ∧ (kind = .special → text.head? = some '%') ∧
    (kind = .colonAssign → text = [':', '='])

instance (kind : Kind) (text : List Char) : Decidable (Fits kind text) :=
  inferInstanceAs (Decidable (_ ∧ _))

/-- A kind of token that can go on over several lines: a name in backticks, or a string. -/
def Multiline (kind : Kind) : Prop := kind = .identifier ∨ ∃ contents, kind = .string contents

/-- A token that neither begins nor ends with a character of a line break, and is none. -/
structure Solid (kind : Kind) (text : List Char) : Prop where
  fits : Fits kind text
  head : ∀ c ∈ text.head?, isBreak c = false
  last : ∀ c ∈ text.getLast?, isBreak c = false
  oneLine : Multiline kind ∨ ∀ c ∈ text, isBreak c = false

/-- The shapes of pieces. -/
inductive Shape : Piece → Prop where
  | blank {c : Char} {rest : List Char} (h : isBlank c = true) : Shape ⟨none, [c], rest⟩
  /-- A comment, up to the end of its line. -/
  | comment {body rest : List Char} (h : ∀ c ∈ body, isBreak c = false)
      (hrest : ∀ c ∈ rest.head?, isBreak c = true) : Shape ⟨none, '#' :: body, rest⟩
  /-- A line break, taken whole. -/
  | newline {text rest : List Char} (h : text = ['\n'] ∨ text = ['\r'] ∨ text = ['\r', '\n'])
      (hsplit : Splits text rest) : Shape ⟨some .newline, text, rest⟩
  | token {kind : Kind} {text rest : List Char} (h : Solid kind text) :
      Shape ⟨some kind, text, rest⟩

/-- A text is solid if all its characters are no stops. -/
theorem solid_of_forall {kind : Kind} {text : List Char}
    (hkind : Fits kind text) (h : ∀ c ∈ text, isStop c = false) :
    Solid kind text :=
  ⟨hkind, fun c hc => isBreak_of_not_isStop (h c (List.mem_of_mem_head? hc)),
    fun c hc => isBreak_of_not_isStop (h c (List.mem_of_mem_getLast? hc)),
    .inr fun c hc => isBreak_of_not_isStop (h c hc)⟩

/-- A text between two characters that are no stops is solid, whatever stands between them, if its
kind lets it go on over several lines. -/
theorem solid_of_delimited {kind : Kind} {c d : Char} {body : List Char}
    (hkind : Fits kind (c :: (body ++ [d]))) (hc : isStop c = false) (hd : isStop d = false)
    (hbody : Multiline kind ∨ ∀ x ∈ body, isBreak x = false) : Solid kind (c :: (body ++ [d])) := by
  have hfirst := isBreak_of_not_isStop hc
  have hlast := isBreak_of_not_isStop hd
  refine ⟨hkind, fun x hx => ?_, fun x hx => ?_, hbody.imp_right fun hbody => ?_⟩
  · rwa [← Option.some.inj hx]
  · rw [← List.cons_append, List.getLast?_concat] at hx
    rwa [← Option.some.inj hx]
  · exact List.forall_mem_cons.mpr
      ⟨hfirst, List.forall_mem_append.mpr ⟨hbody, List.forall_mem_singleton.mpr hlast⟩⟩

end Piece

/-! ## Numerals -/

namespace Exponent

theorem takeSign_append_stop {x : Char} (hx : Piece.isStop x = true) (cs more : List Char) :
    takeSign (cs ++ x :: more) = ((takeSign cs).1, (takeSign cs).2 ++ x :: more) := by
  cases cs with
  | nil =>
    have hsign := Piece.eq_false_of_isStop (p := fun c => c == '+' || c == '-') hx (by decide)
    simp [takeSign, hsign]
  | cons c cs =>
    simp only [List.cons_append, takeSign]
    split <;> rfl

theorem isStop_of_takeSign {cs : List Char} {c : Char} (h : (takeSign cs).1 = some c) :
    Piece.isStop c = false := by
  cases cs with
  | nil => cases h
  | cons d cs =>
    simp only [takeSign] at h
    split at h
    · next hsign =>
      cases h
      exact Piece.isStop_eq_false (p := fun c => c == '+' || c == '-') hsign (by decide)
    · cases h

theorem readAll_append_stop {x : Char} (hx : Piece.isStop x = true) {cs left : List Char}
    {exponents : List Exponent} (more : List Char) (h : readAll cs = some (exponents, left)) :
    readAll (cs ++ x :: more) = some (exponents, left ++ x :: more) := by
  fun_induction readAll cs generalizing exponents left with
  | case1 =>
    cases h
    have hletter := Piece.eq_false_of_isStop (p := fun c => c == 'e' || c == 'E') hx (by decide)
    rw [List.nil_append, readAll, hletter]
    simp
  | case2 => cases h
  | case3 c tail hletter signed digits =>
    rename_i hdigits ih
    obtain ⟨⟨inner, left'⟩, hinner, heq⟩ := Option.map_eq_some_iff.1 h
    cases heq
    have hdigit := Piece.isDigit_of_isStop hx
    rw [List.cons_append, readAll, if_pos hletter]
    simp only [takeSign_append_stop hx, takeWhile_append_stop hdigit, dropWhile_append_stop hdigit]
    rw [if_neg hdigits, ih hinner]
    rfl
  | case4 c tail hletter =>
    cases h
    rw [List.cons_append, readAll, if_neg hletter]

theorem isStop_of_mem_text {cs left : List Char} {exponents : List Exponent}
    (h : readAll cs = some (exponents, left)) :
    ∀ c ∈ exponents.flatMap text, Piece.isStop c = false := by
  fun_induction readAll cs generalizing exponents left with
  | case1 => cases h; simp
  | case2 => cases h
  | case3 c tail hletter signed digits =>
    rename_i hdigits ih
    obtain ⟨⟨inner, left'⟩, hinner, heq⟩ := Option.map_eq_some_iff.1 h
    cases heq
    intro d hd
    simp only [List.flatMap_cons, List.mem_append, text, List.mem_cons, Option.mem_toList] at hd
    rcases hd with (rfl | hsign | hdigit) | hd
    · exact Piece.isStop_eq_false (p := fun c => c == 'e' || c == 'E') hletter (by decide)
    · exact isStop_of_takeSign hsign
    · exact Piece.isStop_eq_false (List.mem_takeWhile_imp hdigit) (by decide)
    · exact ih hinner d hd
  | case4 => cases h; simp

end Exponent

namespace Decimal

theorem readFraction_append_stop {x : Char} (hx : Piece.isStop x = true) (cs more : List Char) :
    readFraction (cs ++ x :: more) = ((readFraction cs).1, (readFraction cs).2 ++ x :: more) := by
  have hdigit := Piece.isDigit_of_isStop hx
  cases cs with
  | nil =>
    have hpoint := Piece.eq_false_of_isStop (p := fun c => c == '.') hx (by decide)
    simp [readFraction, hpoint]
  | cons c cs =>
    simp only [List.cons_append, readFraction, takeWhile_append_stop hdigit,
      dropWhile_append_stop hdigit]
    split <;> rfl

theorem isStop_of_readFraction {cs digits : List Char} (h : (readFraction cs).1 = some digits) :
    ∀ c ∈ digits, Piece.isStop c = false := by
  cases cs with
  | nil => cases h
  | cons d cs =>
    simp only [readFraction] at h
    split at h
    · cases h
      intro c hc
      exact Piece.isStop_eq_false (List.mem_takeWhile_imp hc) (by decide)
    · cases h

theorem read_append_stop {x : Char} (hx : Piece.isStop x = true) {cs left : List Char}
    {decimal : Decimal} (more : List Char) (h : read cs = some (decimal, left)) :
    read (cs ++ x :: more) = some (decimal, left ++ x :: more) := by
  have hdigit := Piece.isDigit_of_isStop hx
  obtain ⟨⟨exponents, left'⟩, hexp, heq⟩ := Option.map_eq_some_iff.1 h
  cases heq
  simp only [read, takeWhile_append_stop hdigit, dropWhile_append_stop hdigit,
    readFraction_append_stop hx, Exponent.readAll_append_stop hx more hexp]
  rfl

theorem isStop_of_mem_text {cs left : List Char} {decimal : Decimal}
    (h : read cs = some (decimal, left)) : ∀ c ∈ decimal.text, Piece.isStop c = false := by
  obtain ⟨⟨exponents, left'⟩, hexp, heq⟩ := Option.map_eq_some_iff.1 h
  cases heq
  intro c hc
  simp only [text, List.mem_append] at hc
  rcases hc with (hwhole | hfraction) | hexponents
  · exact Piece.isStop_eq_false (List.mem_takeWhile_imp hwhole) (by decide)
  · cases hpart : (readFraction (cs.dropWhile isDigit)).1 with
    | none =>
      rw [hpart] at hfraction
      cases hfraction
    | some digits =>
      rw [hpart] at hfraction
      rcases List.mem_cons.mp hfraction with rfl | hdigit
      · rfl
      · exact isStop_of_readFraction hpart c hdigit
  · exact Exponent.isStop_of_mem_text hexp c hexponents

end Decimal

/-! ## Quoted text -/

namespace Quoted

theorem split_cons {quote c : Char} (h : c ≠ '\\') (rest : List Char) :
    split quote (c :: rest) =
      if c = quote then .ok ([], rest)
      else
        match split quote rest with
        | .ok (body, left) => .ok (c :: body, left)
        | .error unclosed => .error unclosed :=
  split.eq_4 quote c rest (fun hc _ => h hc) fun _ _ hc _ => h hc

theorem decode_cons {c : Char} {rest : List Char}
    (h : ∀ d tail, c = '\\' → rest = d :: tail → False) : decode (c :: rest) = c :: decode rest :=
  decode.eq_2 c rest h

theorem ne_backslash {c : Char} {rest : List Char} (hend : c = '\\' → rest = [] → False)
    (hescape : ∀ d tail, c = '\\' → rest = d :: tail → False) : c ≠ '\\' := by
  intro hc
  cases rest with
  | nil => exact hend hc rfl
  | cons d tail => exact hescape d tail hc rfl

/-- Induction along a text with escapes. A backslash at the end is none that opens an escape. -/
theorem escapes_induction {motive : List Char → Prop} (nil : motive []) (slash : motive ['\\'])
    (escape : ∀ c rest, motive rest → motive ('\\' :: c :: rest))
    (plain : ∀ c rest, c ≠ '\\' → motive rest → motive (c :: rest)) (text : List Char) :
    motive text := by
  fun_induction decode text with
  | case1 c rest ih => exact escape c rest ih
  | case2 c rest hescape ih =>
    by_cases hc : c = '\\'
    · subst hc
      cases rest with
      | nil => exact slash
      | cons d tail => exact (hescape d tail rfl rfl).elim
    · exact plain c rest hc ih
  | case3 => exact nil

/-- The quote that closes a text closes it whatever comes behind. -/
theorem split_body_append {quote : Char} {cs body left : List Char} (more : List Char)
    (h : split quote cs = .ok (body, left)) :
    split quote (body ++ quote :: more) = .ok (body, more) := by
  fun_induction split quote cs generalizing body left with
  | case1 => cases h
  | case2 => cases h
  | case3 c tail inner left' hinner ih =>
    cases h
    simp only [List.cons_append, split, ih hinner]
  | case4 => cases h
  | case5 tail hend hescape =>
    cases h
    rw [List.nil_append, split_cons (ne_backslash hend hescape), if_pos rfl]
  | case6 c tail hend hescape hquote inner left' hinner ih =>
    cases h
    rw [List.cons_append, split_cons (ne_backslash hend hescape), if_neg hquote, ih hinner]
  | case7 => cases h

theorem split_append_more {quote : Char} {cs body left : List Char} (more : List Char)
    (h : split quote cs = .ok (body, left)) :
    split quote (cs ++ more) = .ok (body, left ++ more) := by
  rw [← split_append h, List.append_assoc]
  exact split_body_append (left ++ more) h

theorem length_le_of_splitAtMark {mark cs body left : List Char}
    (h : splitAtMark mark cs = some (body, left)) : mark.length ≤ cs.length := by
  have happend := congrArg List.length (splitAtMark_append h)
  simp only [List.length_append] at happend
  omega

theorem isPrefixOf_append_more {mark cs : List Char} (more : List Char)
    (h : mark.length ≤ cs.length) : mark.isPrefixOf (cs ++ more) = mark.isPrefixOf cs := by
  rw [Bool.eq_iff_iff, List.isPrefixOf_iff_prefix, List.isPrefixOf_iff_prefix]
  exact ⟨fun hpre => List.prefix_of_prefix_length_le hpre (List.prefix_append cs more) h,
    fun hpre => hpre.trans (List.prefix_append cs more)⟩

theorem splitAtMark_append_more {mark cs body left : List Char} (more : List Char)
    (h : splitAtMark mark cs = some (body, left)) :
    splitAtMark mark (cs ++ more) = some (body, left ++ more) := by
  induction cs generalizing body left with
  | nil => cases h
  | cons c cs ih =>
    have hlength := length_le_of_splitAtMark h
    rw [List.cons_append, splitAtMark, ← List.cons_append, isPrefixOf_append_more more hlength]
    rw [splitAtMark] at h
    split at h
    · next found =>
      cases h
      rw [if_pos found, List.drop_append_of_le_length hlength]
    · next found =>
      obtain ⟨⟨inner, left'⟩, hinner, heq⟩ := Option.map_eq_some_iff.1 h
      cases heq
      rw [if_neg found, ih hinner]
      rfl

end Quoted

/-! ## The readers -/

namespace Piece

/-- A piece with more text behind it. -/
def extend (piece : Piece) (more : List Char) : Piece :=
  { piece with rest := piece.rest ++ more }

section Stop
variable {x : Char} (hx : isStop x = true) (more : List Char)
include hx

theorem closeNumeral_append (text : List Char) (whole : Bool) (plain : Kind) (rest : List Char) :
    closeNumeral text whole plain (rest ++ x :: more) =
      (closeNumeral text whole plain rest).extend (x :: more) := by
  cases rest with
  | nil =>
    rw [List.nil_append, closeNumeral, if_neg (ne_of_isStop hx (by decide)),
      if_neg (ne_of_isStop hx (by decide))]
    rfl
  | cons c rest =>
    simp only [List.cons_append, closeNumeral]
    split
    · rfl
    · split <;> rfl

theorem readDecimal_append {cs : List Char} {piece : Piece} (h : readDecimal cs = .ok piece) :
    readDecimal (cs ++ x :: more) = .ok (piece.extend (x :: more)) := by
  unfold readDecimal at h ⊢
  cases hread : Decimal.read cs with
  | none => rw [hread] at h; cases h
  | some found =>
    rw [hread] at h
    cases h
    rw [Decimal.read_append_stop hx more hread]
    exact congrArg Except.ok (closeNumeral_append hx more _ _ _ _)

theorem readHexadecimal_append {letter : Char} {rest : List Char} {piece : Piece}
    (h : readHexadecimal letter rest = .ok piece) :
    readHexadecimal letter (rest ++ x :: more) = .ok (piece.extend (x :: more)) := by
  have hdigit := isHexDigit_of_isStop hx
  simp only [readHexadecimal, takeWhile_append_stop hdigit, dropWhile_append_stop hdigit] at h ⊢
  split at h
  · cases h
  · next hdigits =>
    cases h
    rw [if_neg hdigits, closeNumeral_append hx more]

theorem readNumeral_append {c : Char} {rest : List Char} {piece : Piece}
    (h : readNumeral c rest = .ok piece) :
    readNumeral c (rest ++ x :: more) = .ok (piece.extend (x :: more)) := by
  cases rest with
  | nil =>
    have hletter : ¬(c = '0' ∧ (x = 'x' ∨ x = 'X')) := fun hc =>
      hc.2.elim (ne_of_isStop hx (by decide)) (ne_of_isStop hx (by decide))
    rw [List.nil_append, readNumeral, if_neg hletter]
    exact readDecimal_append hx more h
  | cons d rest =>
    simp only [List.cons_append, readNumeral] at h ⊢
    split at h
    · next hhex =>
      rw [if_pos hhex]
      exact readHexadecimal_append hx more h
    · next hhex =>
      rw [if_neg hhex]
      exact readDecimal_append hx more h

theorem readName_append (c : Char) (rest : List Char) :
    readName c (rest ++ x :: more) = (readName c rest).extend (x :: more) := by
  have hname := isNameCharacter_of_isStop hx
  simp only [readName, takeWhile_append_stop hname, dropWhile_append_stop hname]
  rfl

omit hx in
theorem isStop_of_mem_spelling {spelling : List Char × Kind} (h : spelling ∈ spellings) :
    ∀ c ∈ spelling.1, isStop c = false := by
  have hall : (spellings.all fun spelling => spelling.1.all (!isStop ·)) = true := by decide
  intro c hc
  have hstop := List.all_eq_true.mp (List.all_eq_true.mp hall spelling h) c hc
  simpa using hstop

/-- A text without stops begins a longer text only if it begins what stands before the first
stop. -/
theorem isPrefixOf_append_stop {mark : List Char} (hmark : ∀ c ∈ mark, isStop c = false)
    (cs : List Char) : mark.isPrefixOf (cs ++ x :: more) = mark.isPrefixOf cs := by
  induction mark generalizing cs with
  | nil => rfl
  | cons m mark ih =>
    have hm : m ≠ x := (ne_of_isStop hx (hmark m List.mem_cons_self)).symm
    cases cs with
    | nil => simp [List.isPrefixOf, hm]
    | cons c cs =>
      simp only [List.cons_append, List.isPrefixOf,
        ih (fun d hd => hmark d (List.mem_cons_of_mem m hd))]

theorem readOperator_append {c : Char} {rest : List Char} {piece : Piece}
    (h : readOperator c rest = .ok piece) :
    readOperator c (rest ++ x :: more) = .ok (piece.extend (x :: more)) := by
  have hfind : spellings.find? (fun spelling => spelling.1.isPrefixOf (c :: (rest ++ x :: more))) =
      spellings.find? fun spelling => spelling.1.isPrefixOf (c :: rest) :=
    List.find?_congr fun spelling hmem =>
      isPrefixOf_append_stop hx more (isStop_of_mem_spelling hmem) (c :: rest)
  unfold readOperator at h ⊢
  rw [hfind]
  split at h
  · next spelling kind hfound =>
    cases h
    have hpre := List.find?_some hfound
    have hlength := (List.isPrefixOf_iff_prefix.mp hpre).length_le
    rw [← List.cons_append, List.drop_append_of_le_length hlength]
    rfl
  · cases h

omit hx in
theorem readComment_append (hbreak : isBreak x = true) (rest : List Char) :
    readComment (rest ++ x :: more) = (readComment rest).extend (x :: more) := by
  have hstop : (!isBreak x) = false := by rw [hbreak]; rfl
  simp only [readComment, takeWhile_append_stop (p := (!isBreak ·)) hstop,
    dropWhile_append_stop (p := (!isBreak ·)) hstop]
  rfl

end Stop

theorem readString_append {quote : Char} {rest : List Char} {piece : Piece} (more : List Char)
    (h : readString quote rest = .ok piece) :
    readString quote (rest ++ more) = .ok (piece.extend more) := by
  unfold readString at h ⊢
  split at h
  · next body left hsplit =>
    cases h
    rw [Quoted.split_append_more more hsplit]
    rfl
  · cases h
  · cases h

theorem readQuotedName_append {rest : List Char} {piece : Piece} (more : List Char)
    (h : readQuotedName rest = .ok piece) :
    readQuotedName (rest ++ more) = .ok (piece.extend more) := by
  unfold readQuotedName at h ⊢
  split at h
  · next body left hsplit =>
    cases h
    rw [Quoted.split_append_more more hsplit]
    rfl
  · cases h

theorem takeWhile_append_of_dropWhile {p : Char → Bool} {cs tail : List Char} {c : Char}
    (more : List Char) (h : cs.dropWhile p = c :: tail) :
    (cs ++ more).takeWhile p = cs.takeWhile p ∧
      (cs ++ more).dropWhile p = c :: (tail ++ more) := by
  induction cs with
  | nil => cases h
  | cons d cs ih =>
    rw [List.dropWhile_cons] at h
    simp only [List.cons_append, List.takeWhile_cons, List.dropWhile_cons]
    cases hd : p d with
    | true =>
      rw [hd, if_pos rfl] at h
      simp [ih h]
    | false =>
      rw [hd, if_neg Bool.false_ne_true] at h
      cases h
      simp

theorem readRawString_append {letter quote : Char} {rest : List Char} {piece : Piece}
    (more : List Char) (h : readRawString letter quote rest = .ok piece) :
    readRawString letter quote (rest ++ more) = .ok (piece.extend more) := by
  unfold readRawString at h ⊢
  simp only at h ⊢
  split at h
  · cases h
  · next opening closing inner hopen =>
    split at h
    · cases h
    · next body left hbody =>
      cases h
      cases hdrop : rest.dropWhile (· == '-') with
      | nil =>
        rw [hdrop] at hopen
        cases hopen
      | cons c tail =>
        -- The dashes end at the opening bracket, and the body at its mark, in both texts.
        obtain ⟨htake, hdrop'⟩ := takeWhile_append_of_dropWhile more hdrop
        rw [hdrop] at hopen
        obtain ⟨_, hclosing, heq⟩ := Option.map_eq_some_iff.1 hopen
        cases heq
        have hopen' : openBracket? (opening :: (inner ++ more)) =
            some (opening, closing, inner ++ more) := by
          rw [openBracket?, hclosing]
          rfl
        rw [htake, hdrop', hopen']
        simp only
        rw [Quoted.splitAtMark_append_more more hbody]
        rfl

theorem readSpecial_append {rest : List Char} {piece : Piece} (more : List Char)
    (h : readSpecial rest = .ok piece) : readSpecial (rest ++ more) = .ok (piece.extend more) := by
  unfold readSpecial at h ⊢
  simp only at h ⊢
  split at h
  · next c left hdrop =>
    obtain ⟨htake, hdrop'⟩ := takeWhile_append_of_dropWhile more hdrop
    rw [htake, hdrop']
    split at h
    · next hc =>
      cases h
      simp only [hc, if_true]
      rfl
    · cases h
  · cases h

theorem readBreak_append {c : Char} {rest : List Char} (more : List Char)
    (h : Splits (readBreak c rest).text ((readBreak c rest).rest ++ more)) :
    readBreak c (rest ++ more) = (readBreak c rest).extend more := by
  cases rest with
  | nil =>
    cases more with
    | nil => rfl
    | cons x more =>
      have hpair : ¬(c = '\r' ∧ x = '\n') := fun ⟨hc, hx⟩ => h (by simp [readBreak, hc, hx])
      rw [List.nil_append, readBreak, if_neg hpair]
      rfl
  | cons d rest =>
    simp only [List.cons_append, readBreak]
    split <;> rfl

/-- **A piece at the end of a text stays what it is** where the text goes on with a stop.  A comment
goes on to the end of its line, and a line break may be completed: these two are excluded. -/
theorem read_append_stop {c : Char} {rest : List Char} {piece : Piece} {x : Char}
    (hx : isStop x = true) (more : List Char) (h : read c rest = .ok piece)
    (hgap : piece.kind = none → isBreak x = true)
    (hsplit : Splits piece.text (piece.rest ++ x :: more)) :
    read c (rest ++ x :: more) = .ok (piece.extend (x :: more)) := by
  have hheadDigit : headIs isDigit (rest ++ x :: more) = headIs isDigit rest := by
    cases rest with
    | nil => simpa [headIs] using isDigit_of_isStop hx
    | cons d rest => rfl
  refine readBy_iff.mp ?_
  -- The tests look at no more than two characters, which both texts share.
  cases readBy_iff.mpr h with
  | blank hc h =>
    cases h
    exact .blank hc rfl
  | lineBreak hc h =>
    cases h
    exact .lineBreak hc (congrArg Except.ok (readBreak_append _ hsplit))
  | comment hc h =>
    cases h
    exact .comment hc (congrArg Except.ok (readComment_append more (hgap rfl) rest))
  | string hc h => exact .string hc (readString_append _ h)
  | quotedName hc h => exact .quotedName hc (readQuotedName_append _ h)
  | numeral hc h => exact .numeral hc (readNumeral_append hx more h)
  | fraction hc hdigit h =>
    exact .fraction hc (hheadDigit.trans hdigit) (readDecimal_append hx more h)
  | rawString hc hquote hrest hraw =>
    subst hrest
    exact .rawString hc hquote rfl (readRawString_append _ hraw)
  | name hc hpoint hletter h =>
    cases h
    refine .name hc (fun hdot => hheadDigit.trans (hpoint hdot)) (fun hraw => ?_)
      (congrArg Except.ok (readName_append hx more c rest))
    cases rest with
    | nil =>
      rintro quote ⟨⟩ (rfl | rfl) <;> exact absurd hx (by decide)
    | cons d rest => exact hletter hraw
  | special hc h => exact .special hc (readSpecial_append _ h)
  | operator hc h => exact .operator hc (readOperator_append hx more h)

/-! ## What the readers read -/

theorem closeNumeral_shape {text : List Char} (h : ∀ c ∈ text, isStop c = false) (whole : Bool)
    {plain : Kind} (hplain : ∀ text, Fits plain text) (rest : List Char) :
    Shape (closeNumeral text whole plain rest) := by
  have hsuffix {d : Char} (hd : isStop d = false) : ∀ c ∈ text ++ [d], isStop c = false := by
    intro c hc
    rcases List.mem_append.mp hc with hc | hc
    · exact h c hc
    · rw [List.mem_singleton.mp hc]
      exact hd
  cases rest with
  | nil => exact .token (solid_of_forall (hplain text) h)
  | cons d rest =>
    simp only [closeNumeral]
    split
    · exact .token (solid_of_forall (by cases whole <;> simp [Fits]) (hsuffix (by decide)))
    · split
      · exact .token (solid_of_forall (by simp [Fits]) (hsuffix (by decide)))
      · exact .token (solid_of_forall (hplain text) h)

theorem readDecimal_shape {cs : List Char} {piece : Piece} (h : readDecimal cs = .ok piece) :
    Shape piece := by
  unfold readDecimal at h
  split at h
  · cases h
  · next decimal left hread =>
    cases h
    exact closeNumeral_shape (Decimal.isStop_of_mem_text hread) _ (fun _ => by split <;> simp [Fits]) _

theorem readHexadecimal_shape {letter : Char} {rest : List Char} {piece : Piece}
    (hletter : isStop letter = false) (h : readHexadecimal letter rest = .ok piece) :
    Shape piece := by
  simp only [readHexadecimal] at h
  split at h
  · cases h
  · cases h
    refine closeNumeral_shape (fun c hc => ?_) _ (by simp [Fits]) _
    rcases List.mem_cons.mp hc with rfl | hc
    · decide
    rcases List.mem_cons.mp hc with rfl | hc
    · exact hletter
    · exact isStop_eq_false (List.mem_takeWhile_imp hc) (by decide)

theorem readNumeral_shape {c : Char} {rest : List Char} {piece : Piece}
    (h : readNumeral c rest = .ok piece) : Shape piece := by
  cases rest with
  | nil => exact readDecimal_shape h
  | cons d rest =>
    simp only [readNumeral] at h
    split at h
    · next hhex =>
      refine readHexadecimal_shape ?_ h
      rcases hhex.2 with rfl | rfl <;> decide
    · exact readDecimal_shape h

theorem readString_shape {quote : Char} {rest : List Char} {piece : Piece}
    (hquote : isStop quote = false) (h : readString quote rest = .ok piece) : Shape piece := by
  unfold readString at h
  split at h
  · cases h
    exact .token (solid_of_delimited (by simp [Fits]) hquote hquote (.inl (.inr ⟨_, rfl⟩)))
  · cases h
  · cases h

theorem readQuotedName_shape {rest : List Char} {piece : Piece}
    (h : readQuotedName rest = .ok piece) : Shape piece := by
  unfold readQuotedName at h
  split at h
  · cases h
    exact .token (solid_of_delimited (by simp [Fits]) (by decide) (by decide) (.inl (.inl rfl)))
  · cases h

theorem readRawString_shape {letter quote : Char} {rest : List Char} {piece : Piece}
    (hletter : isStop letter = false) (hquote : isStop quote = false)
    (h : readRawString letter quote rest = .ok piece) : Shape piece := by
  simp only [readRawString] at h
  split at h
  · cases h
  · next opening closing inner hopen =>
    split at h
    · cases h
    · next body left hbody =>
      cases h
      have hsolid : Solid (.string (String.ofList body)) (letter ::
          ((quote :: (rest.takeWhile (· == '-') ++
            opening :: (body ++ closing :: rest.takeWhile (· == '-')))) ++ [quote])) :=
        solid_of_delimited (by simp [Fits]) hletter hquote (.inl (.inr ⟨_, rfl⟩))
      simpa using Shape.token hsolid

theorem readSpecial_shape {rest : List Char} {piece : Piece}
    (h : readSpecial rest = .ok piece) : Shape piece := by
  simp only [readSpecial] at h
  split at h
  · split at h
    · cases h
      refine .token (solid_of_delimited (by simp [Fits]) (by decide) (by decide) (.inr ?_))
      intro c hc
      have hgoes := List.mem_takeWhile_imp hc
      simp only [Bool.not_eq_true', Bool.or_eq_false_iff] at hgoes
      exact hgoes.2
    · cases h
  · cases h

theorem kindOfName_fits (name : String) (text : List Char) : Fits (kindOfName name) text := by
  unfold kindOfName
  split <;> simp [Fits]

theorem readName_shape {c : Char} (hc : isStop c = false) (rest : List Char) :
    Shape (readName c rest) := by
  refine .token (solid_of_forall (kindOfName_fits _ _) fun d hd => ?_)
  rcases List.mem_cons.mp hd with rfl | hd
  · exact hc
  · exact isStop_eq_false (List.mem_takeWhile_imp hd) (by decide)

theorem fits_of_mem_spelling {spelling : List Char × Kind} (h : spelling ∈ spellings) :
    Fits spelling.2 spelling.1 := by
  revert spelling
  decide

theorem readOperator_shape {c : Char} {rest : List Char} {piece : Piece}
    (h : readOperator c rest = .ok piece) : Shape piece := by
  unfold readOperator at h
  split at h
  · next spelling kind hfound =>
    cases h
    have hmem := List.mem_of_find?_eq_some hfound
    exact .token (solid_of_forall (fits_of_mem_spelling hmem) (isStop_of_mem_spelling hmem))
  · cases h

theorem readBreak_shape {c : Char} (hc : isBreak c = true) (rest : List Char) :
    Shape (readBreak c rest) := by
  have hcases : c = '\n' ∨ c = '\r' := by simpa [isBreak] using hc
  cases rest with
  | nil =>
    refine .newline ?_ fun h => by cases h.2
    rcases hcases with rfl | rfl <;> simp
  | cons d rest =>
    simp only [readBreak]
    split
    · next hpair => exact .newline (by simp [hpair]) (splits_of_last (a := [c]) _ (by simp [hpair]))
    · next hpair =>
      refine .newline ?_ fun h => ?_
      · rcases hcases with rfl | rfl <;> simp
      · exact hpair ⟨Option.some.inj h.1, Option.some.inj h.2⟩

theorem readComment_shape (rest : List Char) : Shape (readComment rest) := by
  refine .comment (fun c hc => ?_) fun c hc => ?_
  · simpa using List.mem_takeWhile_imp hc
  · have hhead := List.head?_dropWhile_not (!isBreak ·) rest
    rw [hc] at hhead
    simpa using hhead

theorem read_shape {c : Char} {rest : List Char} {piece : Piece} (h : read c rest = .ok piece) :
    Shape piece := by
  cases readBy_iff.mpr h with
  | blank hc h =>
    cases h
    exact .blank hc
  | lineBreak hc h =>
    cases h
    exact readBreak_shape hc rest
  | comment _ h =>
    cases h
    exact readComment_shape rest
  | string hc h => exact readString_shape (by rcases hc with rfl | rfl <;> decide) h
  | quotedName _ h => exact readQuotedName_shape h
  | numeral _ h => exact readNumeral_shape h
  | fraction _ _ h => exact readDecimal_shape h
  | rawString hc hquote _ h =>
    exact readRawString_shape (by rcases hc with rfl | rfl <;> decide)
      (by rcases hquote with rfl | rfl <;> decide) h
  | name hc _ _ h =>
    cases h
    exact readName_shape (isStop_eq_false hc (by decide)) rest
  | special _ h => exact readSpecial_shape h
  | operator _ h => exact readOperator_shape h

/-- No piece breaks off within a line break. -/
theorem Shape.splits {piece : Piece} (h : Shape piece) : Splits piece.text piece.rest := by
  rintro ⟨hlast, hhead⟩
  cases h with
  | blank h =>
    cases Option.some.inj hlast
    cases h
  | comment h _ =>
    have hmem := List.mem_of_getLast? hlast
    rcases List.mem_cons.mp hmem with hbad | hmem
    · cases hbad
    · cases h _ hmem
  | newline _ hsplit => exact hsplit ⟨hlast, hhead⟩
  | token h => cases h.last _ hlast

end Piece
end TypeDrift
