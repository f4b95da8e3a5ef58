import TypeDrift.Proofs.Token.Alone

/-! # Which texts are numerals

A text is a numeral by its form alone: a zero, the letter `x` and hexadecimal digits, or digits
with at most one point and exponents behind them, and then a suffix or none (`Piece.IsNumeral`).
The tokens of numeric kinds are the texts of this form, and each text of this form is one such
token (`Token.scan_numerals`).

The form leaves open how many exponents there are, because the scanner does not count them.  One
text has one number of them only, so what has more than one is no numeral with fewer.
-/
namespace TypeDrift

open Text

namespace Kind

/-- The kinds of numerals. -/
def isNumeric : Kind → Bool
  | integer | float | complex => true
  | _ => false

theorem isTrivia_of_isNumeric {kind : Kind} (h : kind.isNumeric = true) :
    kind.isTrivia = false := by
  cases kind <;> first | rfl | cases h

end Kind

namespace Piece

/-- The text of a numeral with so many exponents. -/
inductive IsNumeral : Nat → List Char → Prop
  | hexadecimal {letter : Char} {digits suffix : List Char} (hletter : letter = 'x' ∨ letter = 'X')
    (hne : digits ≠ []) (hdigits : ∀ c ∈ digits, isHexDigit c = true)
    (hsuffix : IsNumeralSuffix suffix) : IsNumeral 0 ('0' :: letter :: (digits ++ suffix))
  | decimal {decimal : Decimal} {suffix : List Char} (hproper : decimal.Proper)
    (hdigits : decimal.whole ++ decimal.fraction.getD [] ≠ []) (hsuffix : IsNumeralSuffix suffix) :
    IsNumeral decimal.exponents.length (decimal.text ++ suffix)

/-! ## One number of exponents -/

theorem IsNumeralSuffix.ne_letter {suffix : List Char} (h : IsNumeralSuffix suffix) {letter : Char}
    (hletter : letter = 'x' ∨ letter = 'X') (rest : List Char) : suffix ≠ letter :: rest := by
  rcases h with rfl | rfl | rfl <;> rcases hletter with rfl | rfl <;> simp

/-- As a decimal numeral, a hexadecimal one ends behind its zero. -/
theorem decimal_read_hexadecimal {letter : Char} (hletter : letter = 'x' ∨ letter = 'X')
    (rest : List Char) :
    Decimal.read ('0' :: letter :: rest) = some (⟨['0'], none, []⟩, letter :: rest) := by
  have hproper : Decimal.Proper ⟨['0'], none, []⟩ :=
    ⟨List.forall_mem_singleton.mpr rfl, nofun, nofun⟩
  refine Decimal.read_text_append hproper fun c hc => ?_
  obtain rfl : letter = c := Option.some.inj hc
  rcases hletter with rfl | rfl <;> decide

theorem IsNumeral.exists_decimal {exponents : Nat} {text : List Char}
    (h : IsNumeral exponents text) : ∃ decimal left, Decimal.read text = some (decimal, left) ∧
      decimal.exponents.length = exponents := by
  cases h with
  | hexadecimal hletter => exact ⟨_, _, decimal_read_hexadecimal hletter _, rfl⟩
  | decimal hproper _ hsuffix => exact ⟨_, _, Decimal.read_text_append hproper hsuffix.ends, rfl⟩

theorem IsNumeral.exponents_unique {exponents exponents' : Nat} {text : List Char}
    (h : IsNumeral exponents text) (h' : IsNumeral exponents' text) : exponents = exponents' := by
  obtain ⟨decimal, left, hread, rfl⟩ := h.exists_decimal
  obtain ⟨decimal', left', hread', rfl⟩ := h'.exists_decimal
  rw [hread, Option.some.injEq, Prod.mk.injEq] at hread'
  rw [hread'.1]

/-! ## What is read as a numeral -/

theorem isNumeral_of_readDecimal {c : Char} {rest : List Char} {piece : Piece}
    (hc : isDigit c = true ∨ c = '.' ∧ headIs isDigit rest = true)
    (h : readDecimal (c :: rest) = .ok piece) : ∃ exponents, IsNumeral exponents piece.text := by
  obtain ⟨decimal, left, suffix, hread, hsuffix, htext, -⟩ := readDecimal_alone h
  rw [htext]
  exact ⟨_, .decimal (Decimal.proper_of_read hread) (digits_ne_nil_of_read hread hc) hsuffix⟩

theorem isNumeral_of_readNumeral {c : Char} {rest : List Char} {piece : Piece}
    (hc : isDigit c = true) (h : readNumeral c rest = .ok piece) :
    ∃ exponents, IsNumeral exponents piece.text := by
  by_cases hhex : BeginsHexadecimal c rest
  · obtain ⟨rfl, letter, hhead, hletter⟩ := hhex
    obtain ⟨inner, rfl⟩ := List.head?_eq_some_iff.mp hhead
    rw [readNumeral_of_hexadecimal hletter] at h
    obtain ⟨digits, suffix, hne, hdigits, hsuffix, htext, -⟩ := readHexadecimal_alone h
    rw [htext]
    exact ⟨0, .hexadecimal hletter hne hdigits hsuffix⟩
  · rw [readNumeral_of_decimal hhex] at h
    exact isNumeral_of_readDecimal (.inl hc) h

theorem isNumeric_of_mem_spelling {spelling : List Char × Kind} (h : spelling ∈ spellings) :
    spelling.2.isNumeric = false := by
  revert spelling
  decide

theorem isNumeric_kindOfName (name : String) : (kindOfName name).isNumeric = false := by
  unfold kindOfName
  split <;> rfl

theorem kind_readBreak (c : Char) (rest : List Char) : (readBreak c rest).kind = some .newline := by
  unfold readBreak
  split
  · split <;> rfl
  · rfl

/-- Only the readers of numerals read a piece of a numeric kind. -/
theorem isNumeral_of_read {c : Char} {rest : List Char} {piece : Piece} {kind : Kind}
    (h : read c rest = .ok piece) (hkind : piece.kind = some kind)
    (hnumeric : kind.isNumeric = true) : ∃ exponents, IsNumeral exponents piece.text := by
  have hother {other : Kind} (h : piece.kind = some other) (hplain : other.isNumeric = false) :
      ∃ exponents, IsNumeral exponents piece.text := by
    obtain rfl := Option.some.inj (h.symm.trans hkind)
    rw [hnumeric] at hplain
    cases hplain
  cases readBy_iff.mpr h with
  | numeral hc h => exact isNumeral_of_readNumeral hc h
  | fraction hc hrest h => exact isNumeral_of_readDecimal (.inr ⟨hc, hrest⟩) h
  | blank _ h | comment _ h =>
    cases h
    cases hkind
  | lineBreak _ h =>
    cases h
    exact hother (kind_readBreak c rest) rfl
  | string _ h =>
    unfold readString at h
    split at h <;> cases h
    exact hother rfl rfl
  | quotedName _ h =>
    unfold readQuotedName at h
    split at h <;> cases h
    exact hother rfl rfl
  | rawString hletter hquote _ h =>
    obtain ⟨quotes, body, -, -, -, hpiece⟩ := exists_rawQuotes hletter hquote h
    rw [hpiece] at hother ⊢
    exact hother rfl rfl
  | name _ _ _ h =>
    cases h
    exact hother rfl (isNumeric_kindOfName _)
  | special _ h =>
    simp only [readSpecial] at h
    split at h
    · split at h <;> cases h
      exact hother rfl rfl
    · cases h
  | operator _ h =>
    unfold readOperator at h
    split at h
    · next spelling other hfound =>
      cases h
      exact hother rfl (isNumeric_of_mem_spelling (List.mem_of_find?_eq_some hfound))
    · cases h

/-! ## Numerals that are read -/

theorem exists_closeNumeral (text : List Char) (whole : Bool) {plain : Kind}
    (hplain : plain.isNumeric = true) {suffix : List Char} (hsuffix : IsNumeralSuffix suffix) :
    ∃ kind : Kind, kind.isNumeric = true ∧
      closeNumeral text whole plain suffix = ⟨some kind, text ++ suffix, []⟩ := by
  rcases hsuffix with rfl | rfl | rfl
  · exact ⟨plain, hplain, by rw [List.append_nil]; rfl⟩
  · exact ⟨if whole then .integer else .float, by cases whole <;> rfl, rfl⟩
  · exact ⟨.complex, rfl, rfl⟩

/-- A decimal numeral begins with a digit, or with its point and a digit. -/
theorem read_decimal {decimal : Decimal} {suffix : List Char} (hproper : decimal.Proper)
    (hdigits : decimal.whole ++ decimal.fraction.getD [] ≠ []) (hsuffix : IsNumeralSuffix suffix) :
    ∃ c tail, decimal.text ++ suffix = c :: tail ∧ read c tail = readDecimal (c :: tail) := by
  cases hwhole : decimal.whole with
  | cons d whole =>
    have hd : isDigit d = true := hproper.whole d (hwhole ▸ List.mem_cons_self)
    have htext : decimal.text ++ suffix = d :: (whole ++ decimal.fraction.elim [] ('.' :: ·) ++
        decimal.exponents.flatMap Exponent.text ++ suffix) := by
      rw [Decimal.text, hwhole]
      rfl
    refine ⟨d, _, htext, readBy_iff.mp (.numeral hd (readNumeral_of_decimal ?_))⟩
    -- Behind the zero of a hexadecimal numeral a decimal one would have to end.
    rintro ⟨rfl, letter, hhead, hletter⟩
    obtain ⟨rest, hrest⟩ := List.head?_eq_some_iff.mp hhead
    have hread := Decimal.read_text_append hproper hsuffix.ends
    rw [htext, hrest, decimal_read_hexadecimal hletter, Option.some.injEq, Prod.mk.injEq] at hread
    exact hsuffix.ne_letter hletter rest hread.2.symm
  | nil =>
    cases hfraction : decimal.fraction with
    | none => exact absurd (by rw [hwhole, hfraction]; rfl) hdigits
    | some digits =>
      cases digits with
      | nil => exact absurd (by rw [hwhole, hfraction]; rfl) hdigits
      | cons d digits =>
        have hd : isDigit d = true := hproper.fraction _ hfraction d List.mem_cons_self
        have htext : decimal.text ++ suffix =
            '.' :: d :: (digits ++ decimal.exponents.flatMap Exponent.text ++ suffix) := by
          rw [Decimal.text, hwhole, hfraction]
          rfl
        exact ⟨'.', _, htext, readBy_iff.mp (.fraction rfl hd rfl)⟩

/-- A numeral with nothing behind it is one piece. -/
theorem IsNumeral.read {exponents : Nat} {text : List Char} (h : IsNumeral exponents text) :
    ∃ c tail kind, text = c :: tail ∧ kind.isNumeric = true ∧
      Piece.read c tail = .ok ⟨some kind, text, []⟩ := by
  cases h with
  | @hexadecimal letter digits suffix hletter hne hdigits hsuffix =>
    have hplain : Kind.integer.isNumeric = true := rfl
    obtain ⟨kind, hkind, hclose⟩ :=
      exists_closeNumeral ('0' :: letter :: digits) true hplain hsuffix
    refine ⟨'0', letter :: (digits ++ suffix), kind, rfl, hkind, ?_⟩
    have hread : Piece.read '0' (letter :: (digits ++ suffix)) =
        readNumeral '0' (letter :: (digits ++ suffix)) := readBy_iff.mp (.numeral rfl rfl)
    rw [hread, readNumeral_of_hexadecimal hletter,
      readHexadecimal_digits_append hne hdigits hsuffix, hclose]
    rfl
  | @decimal decimal suffix hproper hdigits hsuffix =>
    obtain ⟨c, tail, htext, hread⟩ := read_decimal hproper hdigits hsuffix
    have hplain : (if decimal.isFractional then Kind.float else .integer).isNumeric = true := by
      cases decimal.isFractional <;> rfl
    obtain ⟨kind, hkind, hclose⟩ := exists_closeNumeral decimal.text
      (!decimal.isFractional || decimal.isWhole) hplain hsuffix
    refine ⟨c, tail, kind, htext, hkind, ?_⟩
    rw [hread, ← htext, readDecimal_text_append hproper hsuffix, hclose]

end Piece

namespace Token

open Piece

/-- **The tokens of numeric kinds are numerals.**  The text of such a token is a numeral with some
number of exponents, and with at most one exponent just where that number is at most one.  And a
text that is a numeral, with however many exponents, is scanned as one such token. -/
theorem scan_numerals (source : String) :
    (∀ tokens, scan source = .ok tokens → ∀ token ∈ tokens, token.kind.isNumeric = true →
      ∃ exponents, IsNumeral exponents token.text.toList ∧
        ((∃ n ≤ 1, IsNumeral n token.text.toList) ↔ exponents ≤ 1)) ∧
    ∀ exponents, IsNumeral exponents source.toList → ∃ kind : Kind, kind.isNumeric = true ∧
      scan source = .ok [⟨⟨kind, source⟩, ⟨.start, Position.start.last source.toList⟩⟩,
        endAt (.behind source.toList)] := by
  constructor
  · intro tokens h token htoken hnumeric
    obtain ⟨-, c, tail, htext, hread⟩ :=
      readsAlone_of_scanFrom h token htoken (Kind.isTrivia_of_isNumeric hnumeric)
    obtain ⟨exponents, hnumeral⟩ := isNumeral_of_read hread rfl hnumeric
    rw [htext]
    refine ⟨exponents, hnumeral, ?_, fun hle => ⟨exponents, hle, hnumeral⟩⟩
    rintro ⟨n, hle, hn⟩
    exact hn.exponents_unique hnumeral ▸ hle
  · intro exponents h
    obtain ⟨c, tail, kind, htext, hkind, hread⟩ := h.read
    have hnewline : kind ≠ .newline := by
      rintro rfl
      cases hkind
    have halone : Lexeme.ReadsAlone ⟨kind, source⟩ := ⟨hnewline, c, tail, htext, htext ▸ hread⟩
    have hplace : Position.start.after source.toList = .behind source.toList :=
      Position.after_start _
    exact ⟨kind, hkind, hplace ▸ scanFrom_lexeme .start halone⟩

/-- A hexadecimal numeral with a suffix, and a minus that is no part of the numeral behind it. -/
theorem scan_numerals_suffixes :
    (∃ kind : Kind, kind.isNumeric = true ∧
      scan "0X1feL" = .ok [⟨⟨kind, "0X1feL"⟩, ⟨⟨1, 1⟩, ⟨1, 6⟩⟩⟩, endAt ⟨1, 7⟩]) ∧
    scan "-.5E+10i" = .ok [⟨⟨.minus, "-"⟩, ⟨⟨1, 1⟩, ⟨1, 1⟩⟩⟩,
      ⟨⟨.complex, ".5E+10i"⟩, ⟨⟨1, 2⟩, ⟨1, 8⟩⟩⟩, endAt ⟨1, 9⟩] ∧
    ∃ exponents, IsNumeral exponents ".5E+10i".toList ∧
      ((∃ n ≤ 1, IsNumeral n ".5E+10i".toList) ↔ exponents ≤ 1) := by
  have hnumeral : IsNumeral 0 ('0' :: 'X' :: (['1', 'f', 'e'] ++ ['L'])) :=
    .hexadecimal (.inr rfl) (List.cons_ne_nil _ _) (List.all_eq_true.mp rfl) (.inr (.inl rfl))
  have h : scan "-.5E+10i" = .ok [⟨⟨.minus, "-"⟩, ⟨⟨1, 1⟩, ⟨1, 1⟩⟩⟩,
      ⟨⟨.complex, ".5E+10i"⟩, ⟨⟨1, 2⟩, ⟨1, 8⟩⟩⟩, endAt ⟨1, 9⟩] := by decide +kernel
  exact ⟨(scan_numerals "0X1feL").2 0 hnumeral, h,
    (scan_numerals _).1 _ h _ (List.mem_cons_of_mem _ List.mem_cons_self) rfl⟩

/-- A token of a numeric kind has two exponents, where a numeral should have at most one. -/
theorem two_exponents :
    ¬∀ source tokens, scan source = .ok tokens → ∀ token ∈ tokens, token.kind.isNumeric = true →
      ∃ exponents ≤ 1, IsNumeral exponents token.text.toList := by
  intro hclaim
  have h : scan "1e2e3" = .ok [⟨⟨.float, "1e2e3"⟩, ⟨⟨1, 1⟩, ⟨1, 5⟩⟩⟩, endAt ⟨1, 6⟩] := by
    decide +kernel
  obtain ⟨exponents, hle, hnumeral⟩ := hclaim _ _ h _ List.mem_cons_self rfl
  obtain ⟨decimal, left, hread, rfl⟩ := hnumeral.exists_decimal
  have hparts : Decimal.read "1e2e3".toList =
      some (⟨['1'], none, [⟨'e', none, ['2']⟩, ⟨'e', none, ['3']⟩]⟩, []) := by decide +kernel
  cases hparts.symm.trans hread
  exact absurd hle (by decide)

end Token
end TypeDrift
