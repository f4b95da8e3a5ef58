import TypeDrift.Proofs.Token.Append
import TypeDrift.Proofs.Token.RawString

/-! # Tokens cut out of their text

What a piece is depends on its own text and on nothing behind it: it is read from its own text as
well as from a text that goes on behind it (`Piece.read_alone`).  For each reader this is a fact
about the ways in which it finds the end, and that its test holds of the shorter text, too.

So the text of a token, with nothing behind it, is that token again (`Lexeme.ReadsAlone`).  A
blank ends every token; lexemes of this kind can be put together with blanks between them, and are
scanned as what they are (`Token.exists_scanFrom_intercalate`).
-/
namespace TypeDrift

open Text

namespace Piece

/-! ## Pieces read from their own text -/

/-- A piece with nothing behind it. -/
def alone (piece : Piece) : Piece := { piece with rest := [] }

/-- The suffix of a numeral, or none. -/
def IsNumeralSuffix (text : List Char) : Prop := text = [] ∨ text = ['L'] ∨ text = ['i']

theorem IsNumeralSuffix.ends {text : List Char} (h : IsNumeralSuffix text) : Decimal.Ends text := by
  rcases h with rfl | rfl | rfl <;> rintro c ⟨⟩ <;> decide

theorem IsNumeralSuffix.head_not_hexDigit {text : List Char} (h : IsNumeralSuffix text) :
    ∀ c ∈ text.head?, isHexDigit c = false := by
  rcases h with rfl | rfl | rfl <;> rintro c ⟨⟩ <;> decide

/-- A numeral is closed by the suffix that follows it, whatever comes behind that. -/
theorem exists_suffix_closeNumeral (text : List Char) (whole : Bool) (plain : Kind)
    (rest : List Char) : ∃ suffix, IsNumeralSuffix suffix ∧
      (closeNumeral text whole plain rest).text = text ++ suffix ∧
      closeNumeral text whole plain suffix = (closeNumeral text whole plain rest).alone := by
  cases rest with
  | nil => exact ⟨[], .inl rfl, (List.append_nil _).symm, rfl⟩
  | cons c rest =>
    by_cases hinteger : c = 'L'
    · subst hinteger
      exact ⟨['L'], .inr (.inl rfl), rfl, rfl⟩
    by_cases hcomplex : c = 'i'
    · subst hcomplex
      exact ⟨['i'], .inr (.inr rfl), rfl, rfl⟩
    have hplain : closeNumeral text whole plain (c :: rest) = ⟨some plain, text, c :: rest⟩ := by
      rw [closeNumeral, if_neg hinteger, if_neg hcomplex]
    rw [hplain]
    exact ⟨[], .inl rfl, (List.append_nil _).symm, rfl⟩

theorem readDecimal_text_append {decimal : Decimal} (h : decimal.Proper) {suffix : List Char}
    (hsuffix : IsNumeralSuffix suffix) :
    readDecimal (decimal.text ++ suffix) =
      .ok (closeNumeral decimal.text (!decimal.isFractional || decimal.isWhole)
        (if decimal.isFractional then .float else .integer) suffix) := by
  rw [readDecimal, Decimal.read_text_append h hsuffix.ends]

theorem readDecimal_alone {cs : List Char} {piece : Piece} (h : readDecimal cs = .ok piece) :
    ∃ decimal left suffix, Decimal.read cs = some (decimal, left) ∧ IsNumeralSuffix suffix ∧
      piece.text = decimal.text ++ suffix ∧ readDecimal piece.text = .ok piece.alone := by
  unfold readDecimal at h
  split at h
  · cases h
  · next decimal left hread =>
    cases h
    obtain ⟨suffix, hsuffix, htext, halone⟩ := exists_suffix_closeNumeral decimal.text
      (!decimal.isFractional || decimal.isWhole) (if decimal.isFractional then .float else .integer)
      left
    refine ⟨decimal, left, suffix, hread, hsuffix, htext, ?_⟩
    rw [htext, readDecimal_text_append (Decimal.proper_of_read hread) hsuffix, halone]

theorem readHexadecimal_digits_append {letter : Char} {digits suffix : List Char}
    (hne : digits ≠ []) (hdigits : ∀ c ∈ digits, isHexDigit c = true)
    (hsuffix : IsNumeralSuffix suffix) :
    readHexadecimal letter (digits ++ suffix) =
      .ok (closeNumeral ('0' :: letter :: digits) true .integer suffix) := by
  obtain ⟨htake, hdrop⟩ := takeWhile_eq_of_append hdigits hsuffix.head_not_hexDigit
  simp only [readHexadecimal, htake, hdrop, List.isEmpty_iff, if_neg hne]

theorem readHexadecimal_alone {letter : Char} {rest : List Char} {piece : Piece}
    (h : readHexadecimal letter rest = .ok piece) :
    ∃ digits suffix, digits ≠ [] ∧ (∀ c ∈ digits, isHexDigit c = true) ∧ IsNumeralSuffix suffix ∧
      piece.text = '0' :: letter :: (digits ++ suffix) ∧
      readHexadecimal letter (digits ++ suffix) = .ok piece.alone := by
  simp only [readHexadecimal, List.isEmpty_iff] at h
  split at h
  · cases h
  · next hne =>
    cases h
    have hdigits : ∀ c ∈ rest.takeWhile isHexDigit, isHexDigit c = true :=
      fun _ => List.mem_takeWhile_imp
    obtain ⟨suffix, hsuffix, htext, halone⟩ := exists_suffix_closeNumeral
      ('0' :: letter :: rest.takeWhile isHexDigit) true .integer (rest.dropWhile isHexDigit)
    refine ⟨_, suffix, hne, hdigits, hsuffix, htext, ?_⟩
    rw [readHexadecimal_digits_append hne hdigits hsuffix, halone]

/-- A numeral is hexadecimal if a zero and the letter `x` begin it. -/
def BeginsHexadecimal (c : Char) (rest : List Char) : Prop :=
  c = '0' ∧ ∃ letter ∈ rest.head?, letter = 'x' ∨ letter = 'X'

theorem readNumeral_of_hexadecimal {letter : Char} (h : letter = 'x' ∨ letter = 'X')
    (rest : List Char) : readNumeral '0' (letter :: rest) = readHexadecimal letter rest :=
  if_pos ⟨rfl, h⟩

theorem readNumeral_of_decimal {c : Char} {rest : List Char} (h : ¬BeginsHexadecimal c rest) :
    readNumeral c rest = readDecimal (c :: rest) := by
  cases rest with
  | nil => rfl
  | cons letter rest => exact if_neg fun hletter => h ⟨hletter.1, letter, rfl, hletter.2⟩

theorem readNumeral_alone {c : Char} {rest tail : List Char} {piece : Piece}
    (h : readNumeral c rest = .ok piece) (htext : piece.text = c :: tail)
    (hrest : tail ++ piece.rest = rest) : readNumeral c tail = .ok piece.alone := by
  by_cases hhex : BeginsHexadecimal c rest
  · obtain ⟨rfl, letter, hhead, hletter⟩ := hhex
    obtain ⟨inner, rfl⟩ := List.head?_eq_some_iff.mp hhead
    rw [readNumeral_of_hexadecimal hletter] at h
    obtain ⟨digits, suffix, -, -, -, htext', halone⟩ := readHexadecimal_alone h
    obtain rfl : tail = letter :: (digits ++ suffix) := (List.cons.inj (htext.symm.trans htext')).2
    rwa [readNumeral_of_hexadecimal hletter]
  · have hhex' : ¬BeginsHexadecimal c tail := by
      rintro ⟨hc, letter, hhead, hletter⟩
      refine hhex ⟨hc, letter, ?_, hletter⟩
      rw [← hrest, List.head?_append, hhead]
      rfl
    rw [readNumeral_of_decimal hhex] at h
    obtain ⟨-, -, -, -, -, -, halone⟩ := readDecimal_alone h
    rwa [readNumeral_of_decimal hhex', ← htext]

/-- A numeral that is read with a digit in front or behind its point has a digit. -/
theorem digits_ne_nil_of_read {c : Char} {rest left : List Char} {decimal : Decimal}
    (h : Decimal.read (c :: rest) = some (decimal, left))
    (hc : isDigit c = true ∨ c = '.' ∧ headIs isDigit rest = true) :
    decimal.whole ++ decimal.fraction.getD [] ≠ [] := by
  obtain ⟨⟨exponents, left⟩, -, heq⟩ := Option.map_eq_some_iff.mp h
  cases heq
  rcases hc with hdigit | ⟨rfl, hhead⟩
  · simp [List.takeWhile_cons_of_pos hdigit]
  · cases rest with
    | nil => cases hhead
    | cons d rest =>
      have hd : isDigit d = true := hhead
      have hpoint : ('.' :: d :: rest).dropWhile isDigit = '.' :: d :: rest :=
        List.dropWhile_cons_of_neg (by decide)
      simp [hpoint, Decimal.readFraction, List.takeWhile_cons_of_pos hd]

/-- Where a point is read with a digit behind it, that digit is taken with the point. -/
theorem headIs_digit_of_point {c : Char} {rest left tail suffix : List Char} {decimal : Decimal}
    (h : Decimal.read (c :: rest) = some (decimal, left)) (hc : c = '.')
    (hrest : headIs isDigit rest = true) (htext : decimal.text ++ suffix = '.' :: tail) :
    headIs isDigit tail = true := by
  have hdigits := digits_ne_nil_of_read h (.inr ⟨hc, hrest⟩)
  have hproper := Decimal.proper_of_read h
  cases hwhole : decimal.whole with
  | cons d whole =>
    -- A numeral with a whole part does not begin with its point.
    have hd := hproper.whole d (hwhole ▸ List.mem_cons_self)
    rw [Decimal.text, hwhole] at htext
    rw [(List.cons.inj htext).1] at hd
    cases hd
  | nil =>
    rw [hwhole] at hdigits
    cases hfraction : decimal.fraction with
    | none => exact absurd (by rw [hfraction]; rfl) hdigits
    | some digits =>
      cases digits with
      | nil => exact absurd (by rw [hfraction]; rfl) hdigits
      | cons d digits =>
        have hd := hproper.fraction _ hfraction d List.mem_cons_self
        rw [Decimal.text, hwhole, hfraction] at htext
        rw [← (List.cons.inj htext).2]
        exact hd

theorem readString_alone {quote : Char} {rest tail : List Char} {piece : Piece}
    (h : readString quote rest = .ok piece) (htext : piece.text = quote :: tail) :
    readString quote tail = .ok piece.alone := by
  unfold readString at h
  split at h
  · next body left hsplit =>
    cases h
    obtain rfl : body ++ [quote] = tail := (List.cons.inj htext).2
    rw [readString, Quoted.split_body_append [] hsplit]
    rfl
  · cases h
  · cases h

theorem readQuotedName_alone {rest tail : List Char} {piece : Piece}
    (h : readQuotedName rest = .ok piece) (htext : piece.text = '`' :: tail) :
    readQuotedName tail = .ok piece.alone := by
  unfold readQuotedName at h
  split at h
  · next body left hsplit =>
    cases h
    obtain rfl : body ++ ['`'] = tail := (List.cons.inj htext).2
    rw [readQuotedName, Quoted.split_body_append [] hsplit]
    rfl
  · cases h

theorem readName_alone {c : Char} {rest tail : List Char}
    (htext : (readName c rest).text = c :: tail) : readName c tail = (readName c rest).alone := by
  obtain rfl : rest.takeWhile isNameCharacter = tail := (List.cons.inj htext).2
  have hall : ∀ d ∈ rest.takeWhile isNameCharacter, isNameCharacter d = true :=
    fun _ => List.mem_takeWhile_imp
  simp only [readName, alone, List.takeWhile_eq_self_iff.mpr hall,
    List.dropWhile_eq_nil_iff.mpr hall]

theorem readSpecial_alone {rest tail : List Char} {piece : Piece}
    (h : readSpecial rest = .ok piece) (htext : piece.text = '%' :: tail) :
    readSpecial tail = .ok piece.alone := by
  simp only [readSpecial] at h
  split at h
  · split at h
    · cases h
      obtain rfl := (List.cons.inj htext).2
      have hall : ∀ d ∈ rest.takeWhile fun d => !(d == '%' || isBreak d),
          (!(d == '%' || isBreak d)) = true := fun _ => List.mem_takeWhile_imp
      have hends : ∀ d ∈ ['%'].head?, (!(d == '%' || isBreak d)) = false := by simp
      obtain ⟨htake, hdrop⟩ := takeWhile_eq_of_append hall hends
      simp only [readSpecial, htake, hdrop, if_true]
      rfl
    · cases h
  · cases h

/-- Every spelling is the longest one that fits it. -/
theorem find?_spelling {spelling : List Char × Kind} (h : spelling ∈ spellings) :
    spellings.find? (fun other => other.1.isPrefixOf spelling.1) = some spelling := by
  revert spelling
  decide

theorem readOperator_alone {c : Char} {rest tail : List Char} {piece : Piece}
    (h : readOperator c rest = .ok piece) (htext : piece.text = c :: tail) :
    readOperator c tail = .ok piece.alone := by
  unfold readOperator at h
  split at h
  · next spelling kind hfound =>
    cases h
    have hagain := find?_spelling (List.mem_of_find?_eq_some hfound)
    obtain rfl : spelling = c :: tail := htext
    simp only [readOperator, hagain, List.drop_length]
    rfl
  · cases h

theorem readRawString_alone {letter quote : Char} {rest tail : List Char} {piece : Piece}
    (hletter : letter = 'r' ∨ letter = 'R') (hquote : quote = '"' ∨ quote = '\'')
    (h : readRawString letter quote rest = .ok piece) (htext : piece.text = letter :: tail) :
    ∃ inner, tail = quote :: inner ∧ readRawString letter quote inner = .ok piece.alone := by
  obtain ⟨quotes, body, rfl, rfl, hbody, hpiece⟩ := exists_rawQuotes hletter hquote h
  have hagain := quotes.readRawString_body hbody []
  rw [List.append_nil] at hagain
  rw [hpiece] at htext ⊢
  have htail := (List.cons.inj ((quotes.text_eq body).symm.trans htext)).2
  exact ⟨_, htail.symm, hagain⟩

theorem readBreak_alone {c : Char} {rest tail : List Char}
    (htext : (readBreak c rest).text = c :: tail) :
    readBreak c tail = (readBreak c rest).alone := by
  cases rest with
  | nil =>
    obtain rfl : [] = tail := (List.cons.inj htext).2
    rfl
  | cons x rest =>
    simp only [readBreak] at htext ⊢
    split at htext
    · next hpair =>
      obtain rfl : [x] = tail := (List.cons.inj htext).2
      rw [if_pos hpair]
      exact if_pos hpair
    · next hpair =>
      obtain rfl : [] = tail := (List.cons.inj htext).2
      rw [if_neg hpair]
      rfl

theorem readComment_alone {rest tail : List Char} (htext : (readComment rest).text = '#' :: tail) :
    readComment tail = (readComment rest).alone := by
  obtain rfl : rest.takeWhile (!isBreak ·) = tail := (List.cons.inj htext).2
  have hall : ∀ d ∈ rest.takeWhile (!isBreak ·), (!isBreak d) = true :=
    fun _ => List.mem_takeWhile_imp
  simp only [readComment, alone, List.takeWhile_eq_self_iff.mpr hall,
    List.dropWhile_eq_nil_iff.mpr hall]

/-- **A piece is read from its own text.** -/
theorem read_alone {c : Char} {rest : List Char} {piece : Piece} (h : read c rest = .ok piece) :
    ∃ tail, piece.text = c :: tail ∧ read c tail = .ok piece.alone := by
  have happend := read_append h
  obtain ⟨d, tail, htext⟩ := List.exists_cons_of_ne_nil (read_text_ne_nil h)
  rw [htext, List.cons_append] at happend
  obtain ⟨rfl, hrest⟩ := List.cons.inj happend
  refine ⟨tail, htext, readBy_iff.mp ?_⟩
  -- What holds of the first character of the shorter text holds of that of the longer one.
  have hhead : ∀ x ∈ tail.head?, x ∈ rest.head? := by
    intro x hx
    rw [← hrest, List.head?_append, Option.mem_def.mp hx]
    rfl
  cases readBy_iff.mpr h with
  | blank hc h =>
    cases h
    obtain rfl : [] = tail := (List.cons.inj htext).2
    exact .blank hc rfl
  | lineBreak hc h =>
    cases h
    exact .lineBreak hc (congrArg Except.ok (readBreak_alone htext))
  | comment hc h =>
    subst hc
    cases h
    exact .comment rfl (congrArg Except.ok (readComment_alone htext))
  | string hc h => exact .string hc (readString_alone h htext)
  | quotedName hc h =>
    subst hc
    exact .quotedName rfl (readQuotedName_alone h htext)
  | numeral hc h => exact .numeral hc (readNumeral_alone h htext hrest)
  | fraction hc hdigit h =>
    obtain ⟨decimal, left, suffix, hread, -, htext', halone⟩ := readDecimal_alone h
    rw [htext] at htext' halone
    refine .fraction hc ?_ halone
    exact headIs_digit_of_point hread hc hdigit (htext'.symm.trans (by rw [hc]))
  | rawString hc hquote _ h =>
    obtain ⟨inner, htail, halone⟩ := readRawString_alone hc hquote h htext
    exact .rawString hc hquote htail halone
  | name hc hpoint hletter h =>
    cases h
    have hplain : d = '.' → headIs isDigit tail = false := fun hdot => by
      have hdigit := hpoint hdot
      cases tail with
      | nil => rfl
      | cons x tail =>
        rw [← hrest] at hdigit
        exact hdigit
    exact .name hc hplain (fun hraw quote hquote => hletter hraw quote (hhead quote hquote))
      (congrArg Except.ok (readName_alone htext))
  | special hc h =>
    subst hc
    exact .special rfl (readSpecial_alone h htext)
  | operator hc h => exact .operator hc (readOperator_alone h htext)

end Piece

/-! ## Tokens read from their own lexemes -/

/-- The text of the lexeme, with nothing behind it, is read as the lexeme. -/
def Lexeme.ReadsAlone (lexeme : Lexeme) : Prop :=
  lexeme.kind ≠ .newline ∧ ∃ c tail, lexeme.text.toList = c :: tail ∧
    Piece.read c tail = .ok ⟨some lexeme.kind, c :: tail, []⟩

namespace Token

theorem readsAlone_of_mem_ofPiece {place : Position} {c : Char} {rest : List Char} {piece : Piece}
    {token : Token} (hpiece : Piece.read c rest = .ok piece) (h : token ∈ ofPiece place piece)
    (hkind : token.kind ≠ .newline) : token.toLexeme.ReadsAlone := by
  obtain ⟨tail, htext, halone⟩ := Piece.read_alone hpiece
  obtain ⟨_ | kind, text, left⟩ := piece
  · cases h
  · have hnewline : kind ≠ .newline := by
      rintro rfl
      obtain rfl := List.mem_singleton.mp h
      exact hkind rfl
    obtain rfl : text = c :: tail := htext
    rw [ofPiece_token place hnewline] at h
    obtain rfl := List.mem_singleton.mp h
    exact ⟨hkind, c, tail, String.toList_ofList, halone⟩

theorem readsAlone_of_scanFrom {place : Position} {cs : List Char} {tokens : List Token}
    (h : scanFrom place cs = .ok tokens) :
    ∀ token ∈ tokens, token.isTrivia = false → token.toLexeme.ReadsAlone := by
  refine scanFrom_induction (motive := fun _ _ tokens =>
    ∀ token ∈ tokens, token.isTrivia = false → token.toLexeme.ReadsAlone) ?_ ?_ h
  · rintro place token htoken htrivia
    obtain rfl := List.mem_singleton.mp htoken
    cases htrivia
  · rintro place c rest piece tokens hpiece - ih token htoken htrivia
    rcases List.mem_append.mp htoken with hfirst | hlater
    · refine readsAlone_of_mem_ofPiece hpiece hfirst fun hnewline => ?_
      rw [Lexeme.isTrivia, hnewline] at htrivia
      cases htrivia
    · exact ih token hlater htrivia

theorem scanFrom_blank (place : Position) (rest : List Char) :
    scanFrom place (' ' :: rest) = scanFrom (place.after [' ']) rest := by
  have hread : Piece.read ' ' rest = .ok ⟨none, [' '], rest⟩ := rfl
  rw [scanFrom_of_ok place hread]
  cases scanFrom (place.after [' ']) rest <;> rfl

/-- A lexeme at the end of a text. -/
theorem scanFrom_lexeme (place : Position) {lexeme : Lexeme} (h : lexeme.ReadsAlone) :
    scanFrom place lexeme.text.toList =
      .ok [⟨lexeme, ⟨place, place.last lexeme.text.toList⟩⟩,
        endAt (place.after lexeme.text.toList)] := by
  obtain ⟨kind, text⟩ := lexeme
  obtain ⟨hkind, c, tail, htext, hread⟩ := h
  have hspelled : String.ofList (c :: tail) = text := htext ▸ String.ofList_toList
  simp only [htext]
  rw [scanFrom_of_ok place hread, scanFrom_nil, ofPiece_token place hkind, hspelled]
  rfl

/-- A lexeme with a blank behind it. -/
theorem scanFrom_lexeme_blank (place : Position) {lexeme : Lexeme} (h : lexeme.ReadsAlone)
    (rest : List Char) :
    scanFrom place (lexeme.text.toList ++ ' ' :: rest) =
      (scanFrom ((place.after lexeme.text.toList).after [' ']) rest).map
        (⟨lexeme, ⟨place, place.last lexeme.text.toList⟩⟩ :: ·) := by
  obtain ⟨kind, text⟩ := lexeme
  obtain ⟨hkind, c, tail, htext, hread⟩ := h
  have hspelled : String.ofList (c :: tail) = text := htext ▸ String.ofList_toList
  have hsplit : Splits (c :: tail) ([] ++ ' ' :: rest) := splits_of_head rest (by decide)
  have hlonger := Piece.read_append_stop rfl rest hread nofun hsplit
  simp only [htext, List.cons_append]
  rw [scanFrom_of_ok place hlonger]
  show (scanFrom (place.after (c :: tail)) (' ' :: rest)).map
    (ofPiece place ⟨some kind, c :: tail, ' ' :: rest⟩ ++ ·) = _
  rw [ofPiece_token place hkind, hspelled, scanFrom_blank]
  rfl

/-- **Lexemes with blanks between them.**  None is lost, and none is changed. -/
theorem exists_scanFrom_intercalate (place : Position) {lexemes : List Lexeme}
    (h : ∀ lexeme ∈ lexemes, lexeme.ReadsAlone) :
    ∃ tokens,
      scanFrom place (String.intercalate " " (lexemes.map Lexeme.text)).toList = .ok tokens ∧
      tokens.map Token.toLexeme = lexemes ++ [.endOfInput] := by
  induction lexemes generalizing place with
  | nil => exact ⟨[endAt place], scanFrom_nil place, rfl⟩
  | cons lexeme lexemes ih =>
    obtain ⟨hfirst, hothers⟩ := List.forall_mem_cons.mp h
    cases lexemes with
    | nil =>
      rw [List.map_singleton, String.intercalate_singleton]
      exact ⟨_, scanFrom_lexeme place hfirst, rfl⟩
    | cons second lexemes =>
      obtain ⟨tokens, hscan, htokens⟩ :=
        ih ((place.after lexeme.text.toList).after [' ']) hothers
      refine ⟨⟨lexeme, ⟨place, place.last lexeme.text.toList⟩⟩ :: tokens, ?_,
        congrArg (lexeme :: ·) htokens⟩
      have hjoined : (String.intercalate " "
            ((lexeme :: second :: lexemes).map Lexeme.text)).toList =
          lexeme.text.toList ++
            ' ' :: (String.intercalate " " ((second :: lexemes).map Lexeme.text)).toList := by
        simp [String.intercalate_cons_cons, String.toList_append]
      rw [hjoined, scanFrom_lexeme_blank place hfirst, hscan]
      rfl

/-- Tokens of a text, written one behind the other with blanks between them. -/
theorem exists_scan_intercalate {source : String} {tokens run : List Token}
    (h : scan source = .ok tokens) (hrun : run ⊆ tokens.filter fun token => !token.isTrivia) :
    ∃ again, scan (String.intercalate " " (run.map fun token => token.text)) = .ok again ∧
      again.map Token.toLexeme = run.map Token.toLexeme ++ [.endOfInput] := by
  have halone : ∀ lexeme ∈ run.map Token.toLexeme, lexeme.ReadsAlone := by
    intro lexeme hlexeme
    obtain ⟨token, htoken, rfl⟩ := List.mem_map.mp hlexeme
    obtain ⟨hmem, htrivia⟩ := List.mem_filter.mp (hrun htoken)
    exact readsAlone_of_scanFrom h token hmem (by simpa using htrivia)
  have hagain := exists_scanFrom_intercalate .start halone
  rwa [List.map_map] at hagain

end Token
end TypeDrift
