import Mathlib.Data.List.TakeWhile
import TypeDrift.Numeral.Decimal

/-! # Numerals that are written and read

A decimal numeral is proper if its parts are digits where digits have to stand, and each of its
exponents has a letter, at most one sign and some digits.  What is read from a text is proper
(`Decimal.proper_of_read`), and a proper numeral is read from its own text, wherever that does not
go on as a numeral (`Decimal.read_text_append`).  So the proper numerals are those that can be
read, and each of them is read from one text only.
-/
namespace TypeDrift

namespace Text

theorem takeWhile_eq_of_append {p : Char → Bool} {front rest : List Char}
    (hfront : ∀ c ∈ front, p c = true) (hrest : ∀ c ∈ rest.head?, p c = false) :
    (front ++ rest).takeWhile p = front ∧ (front ++ rest).dropWhile p = rest := by
  rw [List.takeWhile_append_of_pos hfront, List.dropWhile_append_of_pos hfront]
  cases rest with
  | nil => exact ⟨List.append_nil _, rfl⟩
  | cons c rest =>
    have hc : ¬p c = true := by simp [hrest c rfl]
    rw [List.takeWhile_cons_of_neg hc, List.dropWhile_cons_of_neg hc]
    exact ⟨List.append_nil _, rfl⟩

end Text

/-- A text that does not go on with a numeral: it begins with no digit, no point and no letter of an
exponent. -/
def Decimal.Ends (rest : List Char) : Prop :=
  ∀ c ∈ rest.head?, Text.isDigit c = false ∧ c ≠ '.' ∧ c ≠ 'e' ∧ c ≠ 'E'

theorem Decimal.ends_nil : Ends [] := fun _ hc => nomatch hc

namespace Exponent

/-- An exponent as it can be written: `e` or `E`, a sign or none, and some digits. -/
structure Proper (exponent : Exponent) : Prop where
  letter : exponent.letter = 'e' ∨ exponent.letter = 'E'
  sign : ∀ c ∈ exponent.sign, c = '+' ∨ c = '-'
  digits_ne_nil : exponent.digits ≠ []
  digits : ∀ c ∈ exponent.digits, Text.isDigit c = true

theorem takeSign_cases (cs : List Char) : ∀ c ∈ (takeSign cs).1, c = '+' ∨ c = '-' := by
  intro d hd
  cases cs with
  | nil => cases hd
  | cons c rest =>
    simp only [takeSign] at hd
    split at hd
    · next hsign =>
      cases hd
      simpa using hsign
    · cases hd

/-- The exponents that are read are proper. -/
theorem proper_of_readAll {cs left : List Char} {exponents : List Exponent}
    (h : readAll cs = some (exponents, left)) : ∀ exponent ∈ exponents, exponent.Proper := by
  fun_induction readAll cs generalizing exponents left with
  | case1 =>
    cases h
    exact List.forall_mem_nil _
  | case2 => cases h
  | case3 c tail hletter signed digits =>
    rename_i hdigits ih
    obtain ⟨⟨more, left⟩, hmore, heq⟩ := Option.map_eq_some_iff.mp h
    cases heq
    refine List.forall_mem_cons.mpr
      ⟨⟨by simpa using hletter, takeSign_cases tail, ?_, ?_⟩, ih hmore⟩
    · simpa using hdigits
    · exact fun _ => List.mem_takeWhile_imp
  | case4 =>
    cases h
    exact List.forall_mem_nil _

/-- A sign is taken from digits only if one stands before them. -/
theorem takeSign_append_digits {sign : Option Char} (hsign : ∀ c ∈ sign, c = '+' ∨ c = '-')
    {d : Char} (hd : Text.isDigit d = true) (rest : List Char) :
    takeSign (sign.toList ++ d :: rest) = (sign, d :: rest) := by
  cases sign with
  | none =>
    have hplain : ¬(d == '+' || d == '-') = true := by
      simp only [Bool.or_eq_true, beq_iff_eq]
      rintro (rfl | rfl) <;> exact absurd hd (by decide)
    exact if_neg hplain
  | some c =>
    have hc : (c == '+' || c == '-') = true := by simpa using hsign c rfl
    exact if_pos hc

/-- What exponents begin with is no digit and no point, nor is what comes behind them. -/
theorem head_text_append {exponents : List Exponent} (h : ∀ exponent ∈ exponents, exponent.Proper)
    {rest : List Char} (hrest : Decimal.Ends rest) :
    ∀ c ∈ (exponents.flatMap text ++ rest).head?, Text.isDigit c = false ∧ c ≠ '.' := by
  cases exponents with
  | nil => exact fun c hc => ⟨(hrest c hc).1, (hrest c hc).2.1⟩
  | cons exponent exponents =>
    intro c hc
    obtain rfl : exponent.letter = c := Option.some.inj hc
    rcases (h exponent List.mem_cons_self).letter with hletter | hletter <;> rw [hletter] <;> decide

/-- Proper exponents are read from their text. -/
theorem readAll_text_append {exponents : List Exponent}
    (h : ∀ exponent ∈ exponents, exponent.Proper) {rest : List Char} (hrest : Decimal.Ends rest) :
    readAll (exponents.flatMap text ++ rest) = some (exponents, rest) := by
  induction exponents with
  | nil =>
    cases rest with
    | nil => rw [List.flatMap_nil, List.nil_append, readAll]
    | cons c rest =>
      obtain ⟨-, -, he, hE⟩ := hrest c rfl
      rw [List.flatMap_nil, List.nil_append, readAll, if_neg (by simp [he, hE])]
  | cons exponent exponents ih =>
    obtain ⟨hproper, hmore⟩ := List.forall_mem_cons.mp h
    obtain ⟨d, digits, hdigits⟩ := List.exists_cons_of_ne_nil hproper.digits_ne_nil
    have hhead := fun c hc => (head_text_append hmore hrest c hc).1
    obtain ⟨htake, hdrop⟩ := Text.takeWhile_eq_of_append hproper.digits hhead
    have hd : Text.isDigit d = true := hproper.digits d (hdigits ▸ List.mem_cons_self)
    have hsigned := takeSign_append_digits hproper.sign hd
      (digits ++ (exponents.flatMap text ++ rest))
    rw [← List.cons_append, ← hdigits] at hsigned
    have hletter : (exponent.letter == 'e' || exponent.letter == 'E') = true := by
      simpa using hproper.letter
    rw [List.flatMap_cons, text, List.cons_append, List.append_assoc, List.cons_append,
      List.append_assoc, List.append_assoc, readAll, if_pos hletter]
    simp only [hsigned, htake, hdrop, List.isEmpty_iff, ih hmore, if_neg hproper.digits_ne_nil]
    rfl

end Exponent

namespace Decimal

/-- A numeral as it can be written: digits, and behind a point, if there is one, digits again; and
proper exponents.  There need not be a digit besides those of the exponents. -/
structure Proper (decimal : Decimal) : Prop where
  whole : ∀ c ∈ decimal.whole, Text.isDigit c = true
  fraction : ∀ digits ∈ decimal.fraction, ∀ c ∈ digits, Text.isDigit c = true
  exponents : ∀ exponent ∈ decimal.exponents, exponent.Proper

theorem digits_of_readFraction {cs digits : List Char} (h : (readFraction cs).1 = some digits) :
    ∀ c ∈ digits, Text.isDigit c = true := by
  cases cs with
  | nil => cases h
  | cons c rest =>
    simp only [readFraction] at h
    split at h
    · cases h
      exact fun _ => List.mem_takeWhile_imp
    · cases h

/-- A numeral that is read is proper. -/
theorem proper_of_read {cs left : List Char} {decimal : Decimal}
    (h : read cs = some (decimal, left)) : decimal.Proper := by
  obtain ⟨⟨exponents, left⟩, hexponents, heq⟩ := Option.map_eq_some_iff.mp h
  cases heq
  exact ⟨fun _ => List.mem_takeWhile_imp, fun _ hdigits => digits_of_readFraction hdigits,
    Exponent.proper_of_readAll hexponents⟩

/-- A point and the digits behind it are read where no more digits follow. -/
theorem readFraction_text_append {fraction : Option (List Char)}
    (h : ∀ digits ∈ fraction, ∀ c ∈ digits, Text.isDigit c = true) {rest : List Char}
    (hrest : ∀ c ∈ rest.head?, Text.isDigit c = false ∧ c ≠ '.') :
    readFraction (fraction.elim [] ('.' :: ·) ++ rest) = (fraction, rest) := by
  cases fraction with
  | none =>
    cases rest with
    | nil => rfl
    | cons c rest => exact if_neg (by simpa using (hrest c rfl).2)
  | some digits =>
    obtain ⟨htake, hdrop⟩ :=
      Text.takeWhile_eq_of_append (h digits rfl) fun c hc => (hrest c hc).1
    simp only [Option.elim_some, List.cons_append, readFraction, beq_self_eq_true, if_true, htake,
      hdrop]

/-- **A proper numeral is read from its text**, wherever that does not go on as a numeral. -/
theorem read_text_append {decimal : Decimal} (h : decimal.Proper) {rest : List Char}
    (hrest : Ends rest) : read (decimal.text ++ rest) = some (decimal, rest) := by
  have hhead := Exponent.head_text_append h.exponents hrest
  -- Behind the whole part there is a point, an exponent, or the end of the numeral.
  have hwhole : ∀ c ∈ (decimal.fraction.elim [] ('.' :: ·) ++
      (decimal.exponents.flatMap Exponent.text ++ rest)).head?, Text.isDigit c = false := by
    cases decimal.fraction with
    | none => exact fun c hc => (hhead c hc).1
    | some digits =>
      intro c hc
      cases Option.some.inj hc
      rfl
  obtain ⟨htake, hdrop⟩ := Text.takeWhile_eq_of_append h.whole hwhole
  rw [text, List.append_assoc, List.append_assoc, read]
  simp only [htake, hdrop, readFraction_text_append h.fraction hhead,
    Exponent.readAll_text_append h.exponents hrest, Option.map_some]

/-- A numeral that has been read is read again from its own text. -/
theorem read_text {cs left : List Char} {decimal : Decimal} (h : read cs = some (decimal, left)) :
    read decimal.text = some (decimal, []) := by
  have hagain := read_text_append (proper_of_read h) ends_nil
  rwa [List.append_nil] at hagain

end Decimal
end TypeDrift
