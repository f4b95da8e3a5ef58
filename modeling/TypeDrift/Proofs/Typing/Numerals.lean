import TypeDrift.Proofs.Numeral.Value
import TypeDrift.Proofs.Token.Numerals
import TypeDrift.Typing.Inference

/-! # The types of numerals

A numeral alone is a script of one constant, and its type is told by the kind of its token.  Behind the
suffix `L` that depends on a number: a numeral with a point or an exponent is an integer if it is whole.
What is asked for is not the number that the numeral writes but the double that it is read as, so that
digits behind the point may be too small to matter, and a numeral beyond the doubles is none
(`rounded_to_whole`).  A whole number among the doubles is an integer
(`Script.inferText_numeral`).
-/
namespace TypeDrift

open Double

/-- The base type of a constant, by the kind of its token. -/
def Kind.numeralBase? : Kind → Option BaseType
  | .integer => some .integer
  | .float => some .numeric
  | .complex => some .complex
  | _ => none

namespace Script
variable {registry : Registry} {bindings : Bindings} {source : String}

/-- A text with one token, a numeral, has the type of a constant. -/
theorem inferText_of_scan {kind : Kind} {base : BaseType} {span : Span} {place : Position}
    (hkind : kind.numeralBase? = some base)
    (hscan : Token.scan source = .ok [⟨⟨kind, source⟩, span⟩, Token.endAt place]) :
    inferText registry bindings source = .ofBase base := by
  rw [inferText, read, hscan]
  cases kind with
  | integer | float | complex =>
    cases hkind
    rfl
  | _ => cases hkind

section Numeral
variable {decimal : Decimal} (hproper : decimal.Proper)
  (hdigits : decimal.whole ++ decimal.fraction.getD [] ≠ [])
include hproper hdigits

/-- A numeral with a suffix has the type of the kind that the suffix closes it with. -/
theorem inferText_closed {suffix : List Char} (hsuffix : Piece.IsNumeralSuffix suffix) (kind : Kind)
    {base : BaseType} (hkind : kind.numeralBase? = some base)
    (hclosed : Piece.closeNumeral decimal.text (!decimal.isFractional || decimal.isWhole)
      (if decimal.isFractional then .float else .integer) suffix =
        ⟨some kind, decimal.text ++ suffix, []⟩) :
    inferText registry bindings (String.ofList (decimal.text ++ suffix)) = .ofBase base := by
  obtain ⟨c, tail, htext, hread⟩ := Piece.read_decimal hproper hdigits hsuffix
  rw [← htext, Piece.readDecimal_text_append hproper hsuffix, hclosed, htext] at hread
  have hnewline : kind ≠ .newline := by
    rintro rfl
    cases hkind
  have halone : Lexeme.ReadsAlone ⟨kind, String.ofList (decimal.text ++ suffix)⟩ :=
    ⟨hnewline, c, tail, by rw [String.toList_ofList, htext], hread⟩
  exact inferText_of_scan hkind (Token.scanFrom_lexeme .start halone)

/-- **The type of a numeral**, whatever is known of names and classes.  Alone, it is an integer if it
has neither a point nor an exponent, and a number otherwise; with the suffix `i` it is complex.  With
the suffix `L` it is an integer if it has neither a point nor an exponent, or if the double nearest to
its value is a whole number, and a number otherwise.  So it is one if the value itself is a whole number
in the range of doubles. -/
theorem inferText_numeral (hexponents : decimal.exponents.length ≤ 1) (registry : Registry)
    (bindings : Bindings) :
    inferText registry bindings (String.ofList decimal.text) =
        .ofBase (if decimal.isFractional then .numeric else .integer) ∧
      inferText registry bindings (String.ofList decimal.text ++ "i") = .ofBase .complex ∧
      (∃ f, IsNearest decimal.value f ∧ (∀ g, IsNearest decimal.value g → g = f) ∧
        (decimal.isFractional = false ∨ f.IsWhole →
          inferText registry bindings (String.ofList decimal.text ++ "L") = .ofBase .integer) ∧
        (¬(decimal.isFractional = false ∨ f.IsWhole) →
          inferText registry bindings (String.ofList decimal.text ++ "L") = .ofBase .numeric)) ∧
      ∀ number : ℕ, decimal.value = number → number < overflow →
        inferText registry bindings (String.ofList decimal.text ++ "L") = .ofBase .integer := by
  obtain ⟨f, hnearest, hunique⟩ := existsUnique_isNearest decimal.value_nonneg
  have hwhole := Decimal.isWhole_iff hproper hexponents hnearest
  have hwritten (c : Char) :
      String.ofList decimal.text ++ String.ofList [c] = String.ofList (decimal.text ++ [c]) :=
    String.ofList_append.symm
  have hinteger (h : decimal.isFractional = false ∨ f.IsWhole) :
      inferText registry bindings (String.ofList decimal.text ++ "L") = .ofBase .integer := by
    have hcounts : (!decimal.isFractional || decimal.isWhole) = true := by
      rcases h with h | h
      · rw [h]
        rfl
      · rw [hwhole.mpr h, Bool.or_true]
    exact hwritten 'L' ▸ inferText_closed hproper hdigits (.inr (.inl rfl)) .integer rfl
      (by rw [hcounts]; rfl)
  have hnumeric (h : ¬(decimal.isFractional = false ∨ f.IsWhole)) :
      inferText registry bindings (String.ofList decimal.text ++ "L") = .ofBase .numeric := by
    rw [not_or, ← hwhole, Bool.not_eq_false, Bool.not_eq_true] at h
    exact hwritten 'L' ▸ inferText_closed hproper hdigits (.inr (.inl rfl)) .float rfl
      (by rw [h.1, h.2]; rfl)
  refine ⟨?_, ?_, ⟨f, hnearest, hunique, hinteger, hnumeric⟩, fun number hnumber hlt => ?_⟩
  · have halone : inferText registry bindings (String.ofList (decimal.text ++ [])) =
        .ofBase (if decimal.isFractional then .numeric else .integer) :=
      inferText_closed hproper hdigits (.inl rfl) (if decimal.isFractional then .float else .integer)
        (by cases decimal.isFractional <;> rfl) (by rw [List.append_nil]; rfl)
    rwa [List.append_nil] at halone
  · exact hwritten 'i' ▸ inferText_closed hproper hdigits (.inr (.inr rfl)) .complex rfl rfl
  · rw [hnumber] at hnearest
    have hfinite := hnearest.isFinite_iff.mpr (by exact_mod_cast hlt)
    exact hinteger (.inr ⟨hfinite, hnearest.exists_whole_of_nat⟩)

end Numeral

/-- A numeral with a point and an exponent that is whole. -/
theorem inferText_numeral_exponent :
    let decimal : Decimal := ⟨['1'], some ['5'], [⟨'e', none, ['1']⟩]⟩
    decimal.Proper ∧ decimal.whole ++ decimal.fraction.getD [] ≠ [] ∧
      decimal.exponents.length ≤ 1 ∧ String.ofList decimal.text = "1.5e1" ∧
      decimal.value = (15 : ℕ) ∧ 15 < overflow ∧
      inferText .empty .empty "1.5e1" = .ofBase .numeric ∧
      inferText .empty .empty "1.5e1i" = .ofBase .complex ∧
      inferText .empty .empty "1.5e1L" = .ofBase .integer := by
  intro decimal
  have hproper : decimal.Proper := by
    refine ⟨List.forall_mem_singleton.mpr rfl, ?_, List.forall_mem_singleton.mpr ?_⟩
    · rintro digits ⟨⟩
      exact List.forall_mem_singleton.mpr rfl
    · exact ⟨.inl rfl, nofun, List.cons_ne_nil _ _, List.forall_mem_singleton.mpr rfl⟩
  have hdigits : decimal.whole ++ decimal.fraction.getD [] ≠ [] := by decide
  have hexponents : decimal.exponents.length ≤ 1 := by decide
  have hvalue : decimal.value = (15 : ℕ) := by
    have hexponent : (decimal.exponents.map Exponent.value).sum = 1 := by decide
    have hwhole : Decimal.ofDigits decimal.whole = 1 := rfl
    have hfraction : Decimal.ofDigits (decimal.fraction.getD []) = 5 := rfl
    have hplaces : (decimal.fraction.getD []).length = 1 := rfl
    rw [Decimal.value, hexponent, hwhole, hfraction, hplaces]
    norm_num
  have hover : 15 < overflow := by decide +kernel
  obtain ⟨halone, hcomplex, -, hinteger⟩ :=
    inferText_numeral hproper hdigits hexponents .empty .empty
  exact ⟨hproper, hdigits, hexponents, by decide, hvalue, hover, halone, hcomplex,
    hinteger 15 hvalue hover⟩

/-- Digits behind the point that are too small to matter, and a numeral beyond the doubles: the one is an
integer and not whole, and the other is whole and no integer. -/
theorem rounded_to_whole :
    let close : Decimal := ⟨['1'], some "00000000000000000001".toList, []⟩
    let large : Decimal := ⟨['1'], none, [⟨'e', none, "400".toList⟩]⟩
    (String.ofList close.text = "1.00000000000000000001" ∧ (¬∃ number : ℕ, close.value = number) ∧
      inferText .empty .empty "1.00000000000000000001L" = .ofBase .integer) ∧
    String.ofList large.text = "1e400" ∧ (∃ number : ℕ, large.value = number) ∧
      inferText .empty .empty "1e400L" = .ofBase .numeric := by
  intro close large
  have hclose : Token.scan "1.00000000000000000001L" =
      .ok [⟨⟨.integer, "1.00000000000000000001L"⟩, ⟨⟨1, 1⟩, ⟨1, 23⟩⟩⟩, .endAt ⟨1, 24⟩] := by
    decide +kernel
  have hlarge : Token.scan "1e400L" =
      .ok [⟨⟨.float, "1e400L"⟩, ⟨⟨1, 1⟩, ⟨1, 6⟩⟩⟩, .endAt ⟨1, 7⟩] := by
    decide +kernel
  refine ⟨⟨by decide +kernel, ?_, inferText_of_scan rfl hclose⟩, by decide +kernel,
    ⟨10 ^ 400, ?_⟩, inferText_of_scan rfl hlarge⟩
  · rintro ⟨number, hnumber⟩
    have hvalue : close.value = 1 + 1 / 10 ^ 20 := by
      have hwhole : Decimal.ofDigits close.whole = 1 := rfl
      have hfraction : Decimal.ofDigits (close.fraction.getD []) = 1 := by decide +kernel
      have hplaces : (close.fraction.getD []).length = 20 := by decide +kernel
      have hexponent : (close.exponents.map Exponent.value).sum = 0 := rfl
      rw [Decimal.value, hexponent, hwhole, hfraction, hplaces]
      norm_num
    -- The value lies between one and two.
    have hlow : ((1 : ℕ) : ℚ) < number := by
      rw [← hnumber, hvalue]
      norm_num
    have hhigh : (number : ℚ) < (2 : ℕ) := by
      rw [← hnumber, hvalue]
      norm_num
    have hlow : 1 < number := by exact_mod_cast hlow
    have hhigh : number < 2 := by exact_mod_cast hhigh
    omega
  · have hexponent : (large.exponents.map Exponent.value).sum = (400 : ℕ) := by decide +kernel
    have hwhole : Decimal.ofDigits large.whole = 1 := rfl
    have hfraction : Decimal.ofDigits (large.fraction.getD []) = 0 := rfl
    rw [Decimal.value, hexponent, hwhole, hfraction, zpow_natCast, Nat.cast_one, Nat.cast_zero,
      zero_div, add_zero, one_mul, Nat.cast_pow, Nat.cast_ofNat]

end Script
end TypeDrift
