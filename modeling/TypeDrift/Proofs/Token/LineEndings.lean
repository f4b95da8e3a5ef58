import TypeDrift.Proofs.Expr.Relabel
import TypeDrift.Proofs.Text.LineEndings
import TypeDrift.Proofs.Token.Append

/-! # Scanning a text with other line endings

A text whose line feeds are written otherwise is scanned as the same tokens at the same places
(`Token.scanFrom_write`).  Only a string or a name in backticks can hold a line break, so only their
texts may differ; they are compared up to the texts that run over more than one line
(`Relabelling.oneLine`).

Most readers stop at a line break or do not get as far as one.  The readers of quoted texts go over
it, and so do not depend on how many characters it has.
-/
namespace TypeDrift

open Text

/-! ## Texts that run over more than one line -/

namespace Relabelling

/-- A text, or one line break instead of a text that runs over more than one line. -/
def oneLineText (text : String) : String := if text.toList.any isBreak then "\n" else text

theorem any_isBreak_unquoted (text : String) :
    (Lexeme.unquoted text).toList.any isBreak = text.toList.any isBreak := by
  unfold Lexeme.unquoted
  split
  · next rest hrest =>
    split
    · next hlast =>
      obtain ⟨init, rfl⟩ : ∃ init, rest = init ++ ['`'] :=
        ⟨rest.dropLast, (List.dropLast_append_getLast? _ hlast).symm⟩
      have htick : isBreak '`' = false := rfl
      simp [hrest, htick]
    · rfl
  · rfl

/-- All texts that run over more than one line are taken for the same one. -/
def oneLine : Relabelling where
  text := oneLineText
  unquoted_text written := by
    unfold oneLineText
    rw [any_isBreak_unquoted]
    split
    · decide
    · rfl

end Relabelling

/-- A text on one line is the same only as itself. -/
theorem Relabelling.eq_of_oneLineText_eq {text text' : String}
    (htext : ∀ c ∈ text.toList, isBreak c = false) (h : oneLineText text' = oneLineText text) :
    text' = text := by
  have hone : text.toList.any isBreak = false := List.any_eq_false.mpr fun c hc => by
    simpa using htext c hc
  rw [oneLineText, oneLineText, hone, if_neg Bool.false_ne_true] at h
  split at h
  · rw [← h] at hone
    cases hone
  · exact h

/-- Two rows of characters are the same but for the characters of their line breaks. -/
def Text.SameLines : List Char → List Char → Prop :=
  List.Forall₂ fun c d => c = d ∨ isBreak c = true ∧ isBreak d = true

theorem Text.SameLines.oneLineText_eq {a b : List Char} (h : SameLines a b) :
    Relabelling.oneLineText (String.ofList a) = Relabelling.oneLineText (String.ofList b) := by
  have hboth : a.any isBreak = b.any isBreak ∧ (a.any isBreak = false → a = b) := by
    induction h with
    | nil => exact ⟨rfl, fun _ => rfl⟩
    | @cons c d a b hcd _ ih =>
      rcases hcd with rfl | ⟨hc, hd⟩
      · rw [List.any_cons, List.any_cons, ih.1]
        refine ⟨rfl, fun hany => ?_⟩
        rw [Bool.or_eq_false_iff] at hany
        rw [ih.2 (ih.1.trans hany.2)]
      · simp [hc, hd]
  unfold Relabelling.oneLineText
  rw [String.toList_ofList, String.toList_ofList, hboth.1]
  split
  · rfl
  · next hany => rw [hboth.2 (hboth.1.trans (by simpa using hany))]

namespace LineEnding

variable (ending : LineEnding)

theorem any_isBreak_write (cs : List Char) : (ending.write cs).any isBreak = cs.any isBreak := by
  induction cs with
  | nil => rfl
  | cons c cs ih =>
    by_cases hc : c = '\n'
    · obtain ⟨tail, htail⟩ := ending.exists_chars
      rw [hc, write_newline, htail]
      rfl
    · rw [write_cons ending hc, List.any_cons, List.any_cons, ih]

theorem oneLineText_write (cs : List Char) :
    Relabelling.oneLineText (String.ofList (ending.write cs)) =
      Relabelling.oneLineText (String.ofList cs) := by
  unfold Relabelling.oneLineText
  rw [String.toList_ofList, String.toList_ofList, any_isBreak_write]
  split
  · rfl
  · next hany =>
    rw [write_eq_self ending fun hmem => hany (List.any_eq_true.mpr ⟨'\n', hmem, rfl⟩)]

end LineEnding

/-- A piece of the same kind, with the line breaks of its text and of the text behind it written
otherwise. -/
def Piece.write (ending : LineEnding) (piece : Piece) : Piece :=
  ⟨piece.kind, ending.write piece.text, ending.write piece.rest⟩

variable (ending : LineEnding)

/-! ## Numerals -/

namespace Exponent

theorem takeSign_write (cs : List Char) :
    takeSign (ending.write cs) = ((takeSign cs).1, ending.write (takeSign cs).2) := by
  rcases ending.write_cases cs with rfl | ⟨rest, tail, rfl, hwrite⟩ | ⟨c, rest, hc, rfl, hwrite⟩
  · rfl
  · have hsame : ending.write ('\n' :: rest) = '\r' :: tail := hwrite
    rw [hwrite]
    show (none, '\r' :: tail) = (none, ending.write ('\n' :: rest))
    rw [hsame]
  · rw [hwrite]
    simp only [takeSign]
    split
    · rfl
    · rw [hwrite]

theorem readAll_write (cs : List Char) :
    readAll (ending.write cs) =
      (readAll cs).map fun found => (found.1, ending.write found.2) := by
  fun_induction readAll cs with
  | case1 =>
    rw [LineEnding.write_nil, readAll]
    rfl
  | case2 c rest hletter signed digits hdigits =>
    have hc : c ≠ '\n' := by
      rintro rfl
      cases hletter
    rw [ending.write_cons hc, readAll, if_pos hletter]
    simp only [takeSign_write, ending.takeWhile_write (p := isDigit) rfl rfl]
    rw [if_pos hdigits]
    rfl
  | case3 c rest hletter signed digits hdigits ih =>
    have hc : c ≠ '\n' := by
      rintro rfl
      cases hletter
    rw [ending.write_cons hc, readAll, if_pos hletter]
    simp only [takeSign_write, ending.takeWhile_write (p := isDigit) rfl rfl,
      ending.dropWhile_write (p := isDigit) rfl rfl]
    rw [if_neg hdigits, ih, Option.map_map, Option.map_map]
    rfl
  | case4 c rest hletter =>
    rcases ending.write_cases (c :: rest) with h | ⟨rest', tail, -, hwrite⟩ | ⟨d, rest', -, h, hwrite⟩
    · cases h
    · rw [hwrite, readAll, if_neg (by decide), Option.map_some, hwrite]
    · cases h
      rw [hwrite, readAll, if_neg hletter, Option.map_some, hwrite]

end Exponent

namespace Decimal

theorem readFraction_write (cs : List Char) :
    readFraction (ending.write cs) = ((readFraction cs).1, ending.write (readFraction cs).2) := by
  rcases ending.write_cases cs with rfl | ⟨rest, tail, rfl, hwrite⟩ | ⟨c, rest, hc, rfl, hwrite⟩
  · rfl
  · rw [hwrite]
    show (none, '\r' :: tail) = (none, ending.write ('\n' :: rest))
    rw [hwrite]
  · rw [hwrite]
    simp only [readFraction, ending.takeWhile_write (p := isDigit) rfl rfl,
      ending.dropWhile_write (p := isDigit) rfl rfl]
    split
    · rfl
    · rw [hwrite]

theorem read_write (cs : List Char) :
    read (ending.write cs) = (read cs).map fun found => (found.1, ending.write found.2) := by
  simp only [read, ending.takeWhile_write (p := isDigit) rfl rfl,
    ending.dropWhile_write (p := isDigit) rfl rfl, readFraction_write,
    Exponent.readAll_write, Option.map_map]
  rfl

end Decimal

namespace Piece

theorem notMem_of_isStop {cs : List Char} (h : ∀ c ∈ cs, isStop c = false) : '\n' ∉ cs :=
  fun hmem => absurd (h _ hmem) (by decide)

theorem closeNumeral_write {text : List Char} (htext : '\n' ∉ text) (whole : Bool) (plain : Kind)
    (rest : List Char) : closeNumeral text whole plain (ending.write rest) =
      (closeNumeral text whole plain rest).write ending := by
  have hsame := ending.write_eq_self htext
  have hsuffix {c : Char} (hc : c ≠ '\n') : ending.write (text ++ [c]) = text ++ [c] := by
    rw [LineEnding.write_append, hsame, ending.write_cons hc]
    rfl
  rcases ending.write_cases rest with rfl | ⟨rest, tail, rfl, hwrite⟩ | ⟨c, rest, -, rfl, hwrite⟩
  · rw [closeNumeral, write, hsame]
    rfl
  · rw [hwrite, closeNumeral, if_neg (by decide), if_neg (by decide), closeNumeral,
      if_neg (by decide), if_neg (by decide), write, hsame, hwrite]
  · rw [hwrite]
    simp only [closeNumeral]
    split
    · rw [write, hsuffix (by decide)]
    · split
      · rw [write, hsuffix (by decide)]
      · rw [write, hsame, hwrite]

theorem readDecimal_write (cs : List Char) :
    readDecimal (ending.write cs) = (readDecimal cs).map (Piece.write ending) := by
  unfold readDecimal
  rw [Decimal.read_write]
  cases hread : Decimal.read cs with
  | none => rfl
  | some found =>
    have htext := notMem_of_isStop (Decimal.isStop_of_mem_text hread)
    exact congrArg Except.ok (closeNumeral_write ending htext ..)

theorem readHexadecimal_write {letter : Char} (hletter : letter ≠ '\n') (rest : List Char) :
    readHexadecimal letter (ending.write rest) =
      (readHexadecimal letter rest).map (Piece.write ending) := by
  simp only [readHexadecimal,
    ending.takeWhile_write (p := isHexDigit) rfl rfl,
    ending.dropWhile_write (p := isHexDigit) rfl rfl]
  split
  · rfl
  · refine congrArg Except.ok (closeNumeral_write ending ?_ ..)
    rintro (_ | ⟨_, _ | ⟨_, hdigit⟩⟩)
    · exact hletter rfl
    · exact absurd (List.mem_takeWhile_imp hdigit) (by decide)

theorem readNumeral_write {c : Char} (hc : c ≠ '\n') (rest : List Char) :
    readNumeral c (ending.write rest) = (readNumeral c rest).map (Piece.write ending) := by
  have hdecimal := readDecimal_write ending (c :: rest)
  rw [ending.write_cons hc] at hdecimal
  rcases ending.write_cases rest with rfl | ⟨rest, tail, rfl, hwrite⟩ | ⟨x, rest, hx, rfl, hwrite⟩
  · exact hdecimal
  · rw [hwrite] at hdecimal ⊢
    rw [readNumeral, if_neg (by simp), readNumeral, if_neg (by simp), hdecimal]
  · rw [hwrite] at hdecimal ⊢
    simp only [readNumeral]
    split
    · exact readHexadecimal_write ending hx rest
    · exact hdecimal

/-! ## Names, operators and comments -/

theorem readName_write {c : Char} (hc : c ≠ '\n') (rest : List Char) :
    readName c (ending.write rest) = (readName c rest).write ending := by
  have hfree : '\n' ∉ c :: rest.takeWhile isNameCharacter := by
    rintro (_ | ⟨_, hmem⟩)
    · exact hc rfl
    · exact absurd (List.mem_takeWhile_imp hmem) (by decide)
  simp only [readName, ending.takeWhile_write (p := isNameCharacter) rfl rfl,
    ending.dropWhile_write (p := isNameCharacter) rfl rfl, write,
    ending.write_eq_self hfree]

theorem isBreak_of_mem_spelling {spelling : List Char × Kind} (h : spelling ∈ spellings) :
    ∀ c ∈ spelling.1, isBreak c = false :=
  fun c hc => isBreak_of_not_isStop (isStop_of_mem_spelling h c hc)

theorem readOperator_write {c : Char} (hc : c ≠ '\n') (rest : List Char) :
    readOperator c (ending.write rest) = (readOperator c rest).map (Piece.write ending) := by
  have hfind : spellings.find? (fun spelling => spelling.1.isPrefixOf (c :: ending.write rest)) =
      spellings.find? fun spelling => spelling.1.isPrefixOf (c :: rest) :=
    List.find?_congr fun spelling hmem => by
      rw [← ending.write_cons hc,
        ending.isPrefixOf_write (isBreak_of_mem_spelling hmem)]
  unfold readOperator
  rw [hfind]
  cases hfound : spellings.find? fun spelling => spelling.1.isPrefixOf (c :: rest) with
  | none => rfl
  | some spelling =>
    have hmark := isBreak_of_mem_spelling (List.mem_of_find?_eq_some hfound)
    have hprefix : spelling.1.isPrefixOf (c :: rest) = true := by simpa using List.find?_some hfound
    have hdrop := ending.drop_write hmark hprefix
    have hfree : '\n' ∉ spelling.1 := fun hmem => absurd (hmark _ hmem) (by decide)
    rw [ending.write_cons hc] at hdrop
    show Except.ok _ = Except.ok _
    rw [write, ending.write_eq_self hfree, hdrop]

theorem readComment_write (rest : List Char) :
    readComment (ending.write rest) = (readComment rest).write ending := by
  have hfree : '\n' ∉ '#' :: rest.takeWhile (!isBreak ·) := by
    rintro (_ | ⟨_, hmem⟩)
    exact absurd (List.mem_takeWhile_imp hmem) (by decide)
  simp only [readComment, ending.takeWhile_write (p := (!isBreak ·)) rfl rfl,
    ending.dropWhile_write (p := (!isBreak ·)) rfl rfl, write,
    ending.write_eq_self hfree]

theorem readSpecial_write (rest : List Char) :
    readSpecial (ending.write rest) = (readSpecial rest).map (Piece.write ending) := by
  simp only [readSpecial, ending.takeWhile_write (p := fun c => !(c == '%' || isBreak c)) rfl rfl,
    ending.dropWhile_write (p := fun c => !(c == '%' || isBreak c)) rfl rfl]
  have hfree : '\n' ∉ '%' :: (rest.takeWhile (fun c => !(c == '%' || isBreak c)) ++ ['%']) := by
    intro hmem
    rcases List.mem_append.mp ((List.mem_cons.mp hmem).resolve_left (by decide)) with hmem | hmem
    · exact absurd (List.mem_takeWhile_imp hmem) (by decide)
    · exact absurd (List.mem_singleton.mp hmem) (by decide)
  rcases ending.write_cases (rest.dropWhile fun c => !(c == '%' || isBreak c)) with
    hdrop | ⟨left, tail, hdrop, hwrite⟩ | ⟨c, left, -, hdrop, hwrite⟩
  · rw [hdrop]
    rfl
  · rw [hwrite, hdrop]
    rfl
  · rw [hwrite, hdrop]
    simp only
    split
    · exact congrArg Except.ok (by rw [write, ending.write_eq_self hfree])
    · rfl

end Piece

/-! ## Quoted texts -/

namespace Quoted

/-- The characters of a line break are taken one by one, whatever comes before them. -/
theorem split_chars {quote : Char} (hquote : isBreak quote = false) (cs : List Char) :
    split quote (ending.chars ++ cs) =
      (split quote cs).map fun found => (ending.chars ++ found.1, found.2) := by
  have htake {c : Char} (hc : isBreak c = true) (cs : List Char) :
      split quote (c :: cs) = (split quote cs).map fun found => (c :: found.1, found.2) := by
    have hslash : c ≠ '\\' := by
      rintro rfl
      cases hc
    have hne : c ≠ quote := by
      rintro rfl
      rw [hc] at hquote
      cases hquote
    rw [split_cons hslash, if_neg hne]
    cases split quote cs <;> rfl
  cases ending with
  | returnFeed =>
    show split quote ('\r' :: '\n' :: cs) = _
    rw [htake rfl, htake rfl]
    cases split quote cs <;> rfl
  | loneReturn => exact htake rfl cs

/-- Nor does it matter that a line break is taken out of the reading. -/
theorem split_escaped_chars {quote : Char} (hquote : isBreak quote = false) (cs : List Char) :
    split quote ('\\' :: (ending.chars ++ cs)) =
      (split quote cs).map fun found => ('\\' :: (ending.chars ++ found.1), found.2) := by
  cases ending with
  | returnFeed =>
    have hne : '\n' ≠ quote := by
      rintro rfl
      cases hquote
    show split quote ('\\' :: '\r' :: '\n' :: cs) = _
    rw [split, split_cons (by decide), if_neg hne]
    cases split quote cs <;> rfl
  | loneReturn =>
    show split quote ('\\' :: '\r' :: cs) = _
    rw [split]
    cases split quote cs <;> rfl

theorem split_write {quote : Char} (hquote : isBreak quote = false) (cs : List Char) :
    split quote (ending.write cs) =
      (split quote cs).map fun found => (ending.write found.1, ending.write found.2) := by
  have hfeed : quote ≠ '\n' := by
    rintro rfl
    cases hquote
  have hslash (cs : List Char) : ending.write ('\\' :: cs) = '\\' :: ending.write cs :=
    ending.write_cons (by decide) cs
  fun_induction split quote cs with
  | case1 => rfl
  | case2 => rfl
  | case3 c rest body left hsplit ih | case4 c rest unclosed hsplit ih =>
    rw [hsplit] at ih
    by_cases hc : c = '\n'
    · subst hc
      rw [hslash, ending.write_newline, split_escaped_chars ending hquote, ih]
      simp [Except.map, hslash]
    · rw [hslash, ending.write_cons hc, split, ih]
      simp [Except.map, hslash, ending.write_cons hc]
  | case5 rest hend hescape =>
    rw [ending.write_cons hfeed, split_cons (ne_backslash hend hescape), if_pos rfl]
    rfl
  | case6 c rest hend hescape hne body left hsplit ih
  | case7 c rest hend hescape hne unclosed hsplit ih =>
    rw [hsplit] at ih
    by_cases hc : c = '\n'
    · subst hc
      rw [ending.write_newline, split_chars ending hquote, ih]
      simp [Except.map]
    · rw [ending.write_cons hc, split_cons (ne_backslash hend hescape), if_neg hne, ih]
      simp [Except.map, ending.write_cons hc]

theorem splitAtMark_write {m : Char} {mark : List Char}
    (hmark : ∀ c ∈ m :: mark, isBreak c = false) (cs : List Char) :
    splitAtMark (m :: mark) (ending.write cs) =
      (splitAtMark (m :: mark) cs).map fun found => (ending.write found.1, ending.write found.2) := by
  have hskip {c : Char} (hc : isBreak c = true) (cs : List Char) :
      splitAtMark (m :: mark) (c :: cs) =
        (splitAtMark (m :: mark) cs).map fun found => (c :: found.1, found.2) := by
    have hne : (m == c) = false := by
      rw [beq_eq_false_iff_ne]
      rintro rfl
      rw [hmark m List.mem_cons_self] at hc
      cases hc
    rw [splitAtMark, List.isPrefixOf, hne, Bool.false_and, if_neg Bool.false_ne_true]
  induction cs with
  | nil => rfl
  | cons c cs ih =>
    by_cases hc : c = '\n'
    · subst hc
      have hchars : splitAtMark (m :: mark) (ending.chars ++ ending.write cs) =
          (splitAtMark (m :: mark) (ending.write cs)).map fun found =>
            (ending.chars ++ found.1, found.2) := by
        cases ending with
        | returnFeed =>
          show splitAtMark (m :: mark) ('\r' :: '\n' :: _) = _
          rw [hskip rfl, hskip rfl, Option.map_map]
          rfl
        | loneReturn => exact hskip rfl _
      rw [ending.write_newline, hchars, ih, hskip rfl, Option.map_map, Option.map_map]
      rfl
    · have hsame := ending.isPrefixOf_write hmark (c :: cs)
      rw [ending.write_cons hc] at hsame ⊢
      rw [splitAtMark, splitAtMark, hsame]
      split
      · next hfound =>
        have hdrop := ending.drop_write hmark hfound
        rw [ending.write_cons hc] at hdrop
        rw [hdrop]
        rfl
      · rw [ih, Option.map_map, Option.map_map]
        simp only [Function.comp_def, ending.write_cons hc]

/-- The contents of a string are the same but for its line breaks. -/
theorem sameLines_decode (cs : List Char) : SameLines (decode cs) (decode (cs.map returned)) := by
  fun_induction decode cs with
  | case1 c rest ih =>
    refine .cons ?_ ih
    by_cases hc : c = '\n'
    · subst hc
      exact .inr ⟨rfl, rfl⟩
    · rw [returned, if_neg hc]
      exact .inl rfl
  | case2 c rest hescape ih =>
    have hescape' : ∀ d tail, returned c = '\\' → rest.map returned = d :: tail → False := by
      intro d tail hc hrest
      cases rest with
      | nil => cases hrest
      | cons e rest =>
        unfold returned at hc
        split at hc
        · cases hc
        · exact hescape e rest hc rfl
    rw [List.map_cons, decode_cons hescape']
    refine .cons ?_ ih
    by_cases hc : c = '\n'
    · subst hc
      exact .inr ⟨rfl, rfl⟩
    · rw [returned, if_neg hc]
      exact .inl rfl
  | case3 => exact .nil

end Quoted

/-! ## Pieces -/

/-- Two outcomes agree: the same failure, or results that are related. -/
def Agree {ε α β : Type} (R : α → β → Prop) : Except ε α → Except ε β → Prop
  | .ok a, .ok b => R a b
  | .error e, .error e' => e = e'
  | _, _ => False

theorem Agree.cases {ε α β : Type} {R : α → β → Prop} {x : Except ε α} {y : Except ε β}
    (h : Agree R x y) :
    (∃ e, x = .error e ∧ y = .error e) ∨ ∃ a b, x = .ok a ∧ y = .ok b ∧ R a b := by
  cases x with
  | error e =>
    cases y with
    | error e' => exact .inl ⟨e, rfl, congrArg Except.error (show e = e' from h).symm⟩
    | ok b => exact h.elim
  | ok a =>
    cases y with
    | error e' => exact h.elim
    | ok b => exact .inr ⟨a, b, rfl, rfl, h⟩

theorem Agree.of_map {ε α β : Type} {R : α → β → Prop} {f : α → β} {x : Except ε α}
    {y : Except ε β} (h : y = x.map f) (hR : ∀ a, x = .ok a → R a (f a)) : Agree R x y := by
  subst h
  cases x with
  | error e => exact rfl
  | ok a => exact hR a rfl

namespace Piece

/-- A piece, and the same one where the line breaks are written otherwise. -/
structure Rewritten (ending : LineEnding) (piece piece' : Piece) : Prop where
  kind : piece'.kind.map (Kind.relabel .oneLine) = piece.kind.map (Kind.relabel .oneLine)
  text : piece'.text = ending.write piece.text
  rest : piece'.rest = ending.write piece.rest

theorem rewritten_write (piece : Piece) : Rewritten ending piece (piece.write ending) :=
  ⟨rfl, rfl, rfl⟩

theorem agree_of_map {x y : Except Cause Piece} (h : y = x.map (Piece.write ending)) :
    Agree (Rewritten ending) x y := .of_map h fun piece _ => rewritten_write ending piece

theorem write_delimited {c d : Char} (hc : c ≠ '\n') (hd : d ≠ '\n') (body : List Char) :
    ending.write (c :: (body ++ [d])) = c :: (ending.write body ++ [d]) := by
  rw [ending.write_cons hc, ending.write_append, ending.write_cons hd, ending.write_nil]

theorem readQuotedName_write (rest : List Char) :
    readQuotedName (ending.write rest) = (readQuotedName rest).map (Piece.write ending) := by
  unfold readQuotedName
  rw [Quoted.split_write ending (by decide)]
  cases Quoted.split '`' rest with
  | error unclosed => rfl
  | ok found =>
    refine congrArg Except.ok ?_
    rw [write, write_delimited ending (by decide) (by decide)]

theorem readString_write {quote : Char} (hquote : isBreak quote = false) {rest : List Char}
    (hfree : '\r' ∉ rest) :
    Agree (Rewritten ending) (readString quote rest) (readString quote (ending.write rest)) := by
  have hfeed : quote ≠ '\n' := by
    rintro rfl
    cases hquote
  unfold readString
  rw [Quoted.split_write ending hquote]
  cases hsplit : Quoted.split quote rest with
  | error unclosed => cases unclosed <;> exact rfl
  | ok found =>
    have hbody : '\r' ∉ found.1 := fun hmem =>
      hfree (Quoted.split_append hsplit ▸ List.mem_append_left _ hmem)
    refine ⟨?_, (write_delimited ending hfeed hfeed found.1).symm, rfl⟩
    have hsame := (Quoted.sameLines_decode (steps found.1)).oneLineText_eq
    rw [← ending.steps_write hbody] at hsame
    exact congrArg (fun text => some (Kind.string text)) hsame.symm

theorem isBreak_of_closingBracket? {c closing : Char} (h : closingBracket? c = some closing) :
    isBreak closing = false ∧ c ≠ '\n' := by
  unfold closingBracket? at h
  split at h
  · next hc => cases h; exact ⟨rfl, by rw [hc]; decide⟩
  · split at h
    · next hc => cases h; exact ⟨rfl, by rw [hc]; decide⟩
    · split at h
      · next hc => cases h; exact ⟨rfl, by rw [hc]; decide⟩
      · cases h

theorem openBracket?_write (cs : List Char) :
    openBracket? (ending.write cs) =
      (openBracket? cs).map fun found => (found.1, found.2.1, ending.write found.2.2) := by
  rcases ending.write_cases cs with rfl | ⟨rest, tail, rfl, hwrite⟩ | ⟨c, rest, -, rfl, hwrite⟩
  · rfl
  · rw [hwrite]
    rfl
  · rw [hwrite, openBracket?, openBracket?, Option.map_map]
    rfl

theorem readRawString_write {letter quote : Char} (hletter : letter ≠ '\n')
    (hquote : isBreak quote = false) (rest : List Char) :
    Agree (Rewritten ending) (readRawString letter quote rest)
      (readRawString letter quote (ending.write rest)) := by
  simp only [readRawString, ending.takeWhile_write (p := (· == '-')) rfl rfl,
    ending.dropWhile_write (p := (· == '-')) rfl rfl, openBracket?_write]
  cases hopen : openBracket? (rest.dropWhile (· == '-')) with
  | none => exact rfl
  | some found =>
    obtain ⟨opening, closing, inner⟩ := found
    have hdashes : ∀ c ∈ rest.takeWhile (· == '-'), c = '-' := fun c hc => by
      simpa using List.mem_takeWhile_imp hc
    obtain ⟨hclosing, hopening⟩ : isBreak closing = false ∧ opening ≠ '\n' := by
      cases hrest : rest.dropWhile (· == '-') with
      | nil =>
        rw [hrest] at hopen
        cases hopen
      | cons c cs =>
        rw [hrest] at hopen
        obtain ⟨closing', hclosing', heq⟩ := Option.map_eq_some_iff.mp hopen
        cases heq
        exact isBreak_of_closingBracket? hclosing'
    have hmark : ∀ c ∈ closing :: (rest.takeWhile (· == '-') ++ [quote]), isBreak c = false := by
      intro c hc
      rcases List.mem_cons.mp hc with rfl | hc
      · exact hclosing
      · rcases List.mem_append.mp hc with hc | hc
        · rw [hdashes c hc]
          rfl
        · rwa [List.mem_singleton.mp hc]
    simp only [Option.map_some, Quoted.splitAtMark_write ending hmark]
    cases Quoted.splitAtMark (closing :: (rest.takeWhile (· == '-') ++ [quote])) inner with
    | none => exact rfl
    | some found =>
      obtain ⟨body, left⟩ := found
      refine ⟨?_, ?_, rfl⟩
      · exact congrArg (fun text => some (Kind.string text)) (ending.oneLineText_write body)
      · have hfeed : quote ≠ '\n' := by
          rintro rfl
          cases hquote
        have hfree : '\n' ∉ rest.takeWhile (· == '-') := fun hmem =>
          absurd (hdashes _ hmem) (by decide)
        have hsame : '\n' ∉ closing :: (rest.takeWhile (· == '-') ++ [quote]) := fun hmem =>
          absurd (hmark _ hmem) (by decide)
        rw [ending.write_cons hletter, ending.write_cons hfeed, ending.write_append,
          ending.write_cons hopening, ending.write_append, ending.write_eq_self hfree,
          ending.write_eq_self hsame]

/-- **A piece is read as the same one** where line breaks are written otherwise. -/
theorem read_write {c : Char} (hc : c ≠ '\n') {rest : List Char} (hfree : '\r' ∉ c :: rest) :
    Agree (Rewritten ending) (read c rest) (read c (ending.write rest)) := by
  obtain ⟨hreturn, hrest⟩ := not_or.mp (mt List.mem_cons.mpr hfree)
  have hheadDigit : headIs isDigit (ending.write rest) = headIs isDigit rest :=
    ending.head?_any_write rfl rfl rest
  cases readBy_read c rest with
  | blank hblank h =>
    rw [← h, readBy_iff.mp (.blank hblank rfl)]
    exact ⟨rfl, (ending.write_cons hc []).symm, rfl⟩
  | lineBreak hbreak h => simp [isBreak, hc, Ne.symm hreturn] at hbreak
  | comment hcomment h =>
    rw [← h, readBy_iff.mp (.comment hcomment rfl)]
    exact agree_of_map ending (congrArg Except.ok (readComment_write ending rest))
  | string hquote h =>
    rw [← h, readBy_iff.mp (.string hquote rfl)]
    exact readString_write ending (by rcases hquote with rfl | rfl <;> decide) hrest
  | quotedName htick h =>
    rw [← h, readBy_iff.mp (.quotedName htick rfl)]
    exact agree_of_map ending (readQuotedName_write ending rest)
  | numeral hdigit h =>
    rw [← h, readBy_iff.mp (.numeral hdigit rfl)]
    exact agree_of_map ending (readNumeral_write ending hc rest)
  | fraction hpoint hdigit h =>
    rw [← h, readBy_iff.mp (.fraction hpoint (hheadDigit.trans hdigit) rfl), ← ending.write_cons hc]
    exact agree_of_map ending (readDecimal_write ending (c :: rest))
  | @rawString quote inner hletter hquote hinner h =>
    have hfeed : quote ≠ '\n' := by rcases hquote with rfl | rfl <;> decide
    subst hinner
    rw [← h, ending.write_cons hfeed, readBy_iff.mp (.rawString hletter hquote rfl rfl)]
    exact readRawString_write ending hc (by rcases hquote with rfl | rfl <;> rfl) inner
  | name hbegins hpoint hletter h =>
    rw [← h, readBy_iff.mp (.name hbegins (fun hdot => hheadDigit.trans (hpoint hdot)) ?_ rfl)]
    · exact agree_of_map ending (congrArg Except.ok (readName_write ending hc rest))
    · rcases ending.write_cases rest with
        rfl | ⟨rest, tail, rfl, hwrite⟩ | ⟨q, rest, -, rfl, hwrite⟩
      · exact hletter
      · rw [hwrite]
        rintro - quote ⟨⟩ (hquote | hquote) <;> cases hquote
      · rw [hwrite]
        exact hletter
  | special hspecial h =>
    rw [← h, readBy_iff.mp (.special hspecial rfl)]
    exact agree_of_map ending (readSpecial_write ending rest)
  | operator hoperator h =>
    rw [← h, readBy_iff.mp (.operator hoperator rfl)]
    exact agree_of_map ending (readOperator_write ending hc rest)

/-- **The piece at the beginning of a text** is the same one where line breaks are written otherwise,
a line break included. -/
theorem exists_read_write {c : Char} {rest : List Char} (hfree : '\r' ∉ c :: rest) :
    ∃ c' rest', ending.write (c :: rest) = c' :: rest' ∧
      Agree (Rewritten ending) (read c rest) (read c' rest') := by
  by_cases hc : c = '\n'
  · subst hc
    have hread : ∃ text, read '\n' rest = .ok ⟨some .newline, ['\n'], rest⟩ ∧
        ending.chars = '\r' :: text ∧
        read '\r' (text ++ ending.write rest) =
          .ok ⟨some .newline, ending.chars, ending.write rest⟩ := by
      have hfeed : readBreak '\n' rest = ⟨some .newline, ['\n'], rest⟩ := by
        cases rest with
        | nil => rfl
        | cons x rest => rw [readBreak, if_neg (by simp)]
      cases ending with
      | returnFeed =>
        exact ⟨['\n'], congrArg Except.ok hfeed, rfl, rfl⟩
      | loneReturn =>
        refine ⟨[], congrArg Except.ok hfeed, rfl, congrArg Except.ok ?_⟩
        rcases LineEnding.loneReturn.write_cases rest with
          rfl | ⟨rest, tail, rfl, hwrite⟩ | ⟨d, rest, hd, rfl, hwrite⟩
        · rfl
        · rw [hwrite]
          rfl
        · rw [hwrite]
          exact if_neg fun h => hd h.2
    obtain ⟨text, hread, hchars, hread'⟩ := hread
    refine ⟨'\r', text ++ ending.write rest, by rw [ending.write_newline, hchars]; rfl, ?_⟩
    rw [hread, hread']
    exact ⟨rfl, (List.append_nil _).symm, rfl⟩
  · exact ⟨c, ending.write rest, ending.write_cons hc rest, read_write ending hc hfree⟩

end Piece

/-! ## Tokens -/

namespace Token

/-- A token with its texts replaced, at the same place. -/
def relabel (labels : Relabelling) (token : Token) : Token :=
  ⟨token.toLexeme.relabel labels, token.span⟩

/-- The same tokens at the same places, but for the texts that run over more than one line. -/
def SameLines (tokens tokens' : List Token) : Prop :=
  tokens'.map (relabel .oneLine) = tokens.map (relabel .oneLine)

theorem SameLines.append {a a' b b' : List Token} (ha : SameLines a a') (hb : SameLines b b') :
    SameLines (a ++ b) (a' ++ b') := by
  rw [SameLines, List.map_append, List.map_append, ha, hb]

theorem SameLines.lexemes {tokens tokens' : List Token} (h : SameLines tokens tokens') :
    (tokens'.map toLexeme).map (Lexeme.relabel .oneLine) =
      (tokens.map toLexeme).map (Lexeme.relabel .oneLine) := by
  have hlexemes := congrArg (List.map toLexeme) h
  simpa [relabel, Function.comp_def] using hlexemes

theorem SameLines.spans {tokens tokens' : List Token} (h : SameLines tokens tokens') :
    tokens'.map span = tokens.map span := by
  have hspans := congrArg (List.map span) h
  simpa [relabel, Function.comp_def] using hspans

theorem ofPiece_rewritten {piece piece' : Piece} (h : piece.Rewritten ending piece')
    (hfree : '\r' ∉ piece.text) (place : Position) :
    SameLines (ofPiece place piece) (ofPiece place piece') := by
  obtain ⟨kind, text, rest⟩ := piece
  obtain ⟨kind', text', rest'⟩ := piece'
  obtain ⟨hkinds, rfl, rfl⟩ := h
  have hkinds : kind'.map (Kind.relabel .oneLine) = kind.map (Kind.relabel .oneLine) := hkinds
  cases kind with
  | none =>
    rw [Option.map_eq_none_iff.mp hkinds]
    rfl
  | some kind =>
    obtain ⟨kind', rfl, hkind⟩ := Option.map_eq_some_iff.mp hkinds
    by_cases hnewline : kind = .newline
    · subst hnewline
      rw [(Kind.relabel_eq_iff _ rfl).mp hkind]
      rfl
    · have hnewline' : kind' ≠ .newline := fun h =>
        hnewline ((Kind.relabel_eq_iff .oneLine rfl).mp (by rw [← hkind, h]; rfl))
      rw [ofPiece_token place hnewline, ofPiece_token place hnewline']
      simp only [SameLines, List.map_cons, List.map_nil, relabel, Lexeme.relabel]
      rw [hkind, ending.last_write hfree place]
      exact congrArg (fun text => [(⟨⟨_, text⟩, _⟩ : Token)]) (ending.oneLineText_write text)

theorem scanFrom_write_cons {place : Position} {c : Char} {rest : List Char} {piece : Piece}
    (hfree : '\r' ∉ c :: rest) (hpiece : Piece.read c rest = .ok piece) :
    ∃ first, SameLines (ofPiece place piece) first ∧
      scanFrom place (ending.write (c :: rest)) =
        (scanFrom (place.after piece.text) (ending.write piece.rest)).map (first ++ ·) := by
  have happend := Piece.read_append hpiece
  have htext : '\r' ∉ piece.text := fun hmem => hfree (happend ▸ List.mem_append_left _ hmem)
  obtain ⟨c', rest', hwrite, hagree⟩ := Piece.exists_read_write ending hfree
  rcases hagree.cases with ⟨cause, hcause, -⟩ | ⟨piece, piece', hread, hread', hrewritten⟩
  · rw [hpiece] at hcause
    cases hcause
  · obtain rfl := Except.ok.inj (hread.symm.trans hpiece)
    refine ⟨_, ofPiece_rewritten ending hrewritten htext place, ?_⟩
    rw [hwrite, scanFrom_of_ok place hread', hrewritten.text, hrewritten.rest,
      ending.after_write htext]

/-- Only a name in backticks or a string goes on over several lines, and a line break. -/
theorem multiline_of_scanFrom {place : Position} {cs : List Char} {tokens : List Token}
    (h : scanFrom place cs = .ok tokens) :
    ∀ token ∈ tokens, Piece.Multiline token.kind ∨ token.kind = .newline ∨
      ∀ c ∈ token.text.toList, isBreak c = false := by
  refine scanFrom_induction (motive := fun _ _ tokens => ∀ token ∈ tokens,
    Piece.Multiline token.kind ∨ token.kind = .newline ∨
      ∀ c ∈ token.text.toList, isBreak c = false) ?_ ?_ h
  · intro place token htoken
    obtain rfl := List.mem_singleton.mp htoken
    exact .inr (.inr nofun)
  · intro place c rest piece tokens hpiece _ ih
    refine List.forall_mem_append.mpr ⟨fun token htoken => ?_, ih⟩
    cases Piece.read_shape hpiece with
    | blank | comment => cases htoken
    | newline =>
      obtain rfl := List.mem_singleton.mp htoken
      exact .inr (.inl rfl)
    | token hsolid =>
      rw [ofPiece_token _ hsolid.fits.1.1] at htoken
      obtain rfl := List.mem_singleton.mp htoken
      exact hsolid.oneLine.imp_right fun hone => .inr (by rwa [String.toList_ofList])

/-- What is the same but for texts that run over more than one line is described alike: such texts
are not shown. -/
theorem described_eq_of_relabel {token : Token} {lexeme : Lexeme}
    (hlines : Piece.Multiline token.kind ∨ token.kind = .newline ∨
      ∀ c ∈ token.text.toList, isBreak c = false)
    (h : lexeme.relabel .oneLine = token.toLexeme.relabel .oneLine) :
    lexeme.described = token.described := by
  obtain ⟨⟨kind, text⟩, span⟩ := token
  obtain ⟨kind', text'⟩ := lexeme
  obtain ⟨hkind, htext⟩ := Lexeme.mk.inj h
  by_cases hplain : kind.isString = false
  · obtain rfl : kind' = kind := by
      rwa [(Kind.relabel_eq_iff .oneLine hplain).mpr rfl, Kind.relabel_eq_iff _ hplain] at hkind
    rcases hlines with (rfl | ⟨contents, rfl⟩) | rfl | hlines
    · rfl
    · cases hplain
    · rfl
    · obtain rfl := Relabelling.eq_of_oneLineText_eq hlines htext
      rfl
  · obtain ⟨contents, rfl⟩ : ∃ contents, kind = .string contents := by
      cases kind <;> simp [Kind.isString] at hplain ⊢
    obtain ⟨contents', rfl⟩ : ∃ contents', kind' = .string contents' := by
      cases kind' <;> simp [Kind.relabel] at hkind ⊢
    rfl

/-- **A text is scanned as the same tokens at the same places** where its line breaks are written
otherwise; or it fails for the same reason at the same place. -/
theorem scanFrom_write (place : Position) {cs : List Char} (hfree : '\r' ∉ cs) :
    Agree SameLines (scanFrom place cs) (scanFrom place (ending.write cs)) := by
  have hbehind {c : Char} {rest : List Char} {piece : Piece} (hfree : '\r' ∉ c :: rest)
      (hpiece : Piece.read c rest = .ok piece) : '\r' ∉ piece.rest := fun hmem =>
    hfree (Piece.read_append hpiece ▸ List.mem_append_right _ hmem)
  fun_induction scanFrom place cs with
  | case1 place =>
    rw [ending.write_nil, scanFrom_nil]
    exact rfl
  | case2 place c rest cause hpiece =>
    obtain ⟨c', rest', hwrite, hagree⟩ := Piece.exists_read_write ending hfree
    rcases hagree.cases with ⟨cause', hread, hread'⟩ | ⟨piece, -, hread, -⟩
    · obtain rfl := Except.error.inj (hread.symm.trans hpiece)
      rw [hwrite, scanFrom_of_error place hread']
      exact rfl
    · rw [hpiece] at hread
      cases hread
  | case3 place c rest piece hpiece fault hfault ih =>
    obtain ⟨first, -, hscan⟩ := scanFrom_write_cons ending hfree hpiece
    rcases (ih (hbehind hfree hpiece)).cases with ⟨fault', hlater, hlater'⟩ | ⟨tokens, -, hlater, -⟩
    · obtain rfl := Except.error.inj (hlater.symm.trans hfault)
      rw [hscan, hlater']
      exact rfl
    · rw [hfault] at hlater
      cases hlater
  | case4 place c rest piece hpiece tokens htokens ih =>
    obtain ⟨first, hfirst, hscan⟩ := scanFrom_write_cons ending hfree hpiece
    rcases (ih (hbehind hfree hpiece)).cases with
      ⟨fault, hlater, -⟩ | ⟨tokens', later, hlater, hlater', hsame⟩
    · rw [htokens] at hlater
      cases hlater
    · obtain rfl := Except.ok.inj (hlater.symm.trans htokens)
      rw [hscan, hlater']
      exact hfirst.append hsame

theorem scan_rewrite {source : String} (hfree : '\r' ∉ source.toList) :
    Agree SameLines (scan source) (scan (ending.rewrite source)) := by
  rw [scan, scan, LineEnding.rewrite, String.toList_ofList]
  exact scanFrom_write ending .start hfree

end Token
end TypeDrift
