import TypeDrift.Proofs.Guarded.Quoted
import TypeDrift.Proofs.Token.Numeral

/-! # Guarded reading of numerals

A numeral is passed in one loop, which knows only whether it has come behind a point or an exponent.
The reader on lists takes the whole part, the fraction and the exponents one after the other.  At each
character the loop follows whatever the reader on lists makes of the rest (`passDecimal_follows`).

Where a numeral has a suffix for whole numbers, its text is cut out and read once more
(`isWhole_of_read`).
-/
namespace TypeDrift

open Text

namespace Guarded

/-! ## The readers -/

section Readers
variable (source : List Char)

/-- The offset behind a sign, if there is one. -/
def passSign (offset : Nat) : Guarded Cause Nat := do
  let sign ← peek source offset
  if sign = some '+' ∨ sign = some '-' then advance source offset else .ok offset

/-- The letter and the sign of an exponent, behind which a digit has to come. -/
def passExponent (offset : Nat) : Guarded Cause Nat := do
  let offset ← passSign source (← advance source offset)
  if (← peek source offset).any isDigit then .ok offset else .error (.refused .malformedExponent)

/-- The digits, the point and the exponents of a numeral.  The answer says whether it is more than
digits. -/
def passDecimal : Nat → Bool → Nat → Guarded Cause (Bool × Nat)
  | 0, _, _ => .error .endless
  | bound + 1, fractional, offset => do
    match ← peek source offset with
    | none => .ok (fractional, offset)
    | some c =>
      if isDigit c then passDecimal bound fractional (← advance source offset)
      else if c = '.' ∧ fractional = false then passDecimal bound true (← advance source offset)
      else if c = 'e' ∨ c = 'E' then passDecimal bound true (← passExponent source offset)
      else .ok (fractional, offset)

/-- Whether the numeral between two offsets is whole.  One with a point or an exponent is taken from
the text to find out. -/
def isWhole (start : Nat) (fractional : Bool) (stop : Nat) : Guarded Cause Bool := do
  if fractional then
    let text ← slice source start stop
    .ok ((Decimal.read text).any fun read => read.1.isWhole)
  else .ok true

/-- The end of a numeral with the suffix that follows it, if one does. -/
def closeNumeral (start : Nat) (fractional : Bool) (offset : Nat) :
    Guarded Cause (Option Kind × Nat) := do
  let plain : Kind := if fractional then .float else .integer
  match ← peek source offset with
  | none => .ok (some plain, offset)
  | some c =>
    if c = 'L' then
      let whole ← isWhole source start fractional offset
      let stop ← advance source offset
      .ok (some (if whole then .integer else .float), stop)
    else if c = 'i' then
      let stop ← advance source offset
      .ok (some .complex, stop)
    else .ok (some plain, offset)

/-- A numeral. -/
def numeral (bound start : Nat) : Guarded Cause (Option Kind × Nat) := do
  let first ← peek source start
  let second ← peekSecond source start
  if first = some '0' ∧ (second = some 'x' ∨ second = some 'X') then
    let offset ← advance source start
    let (digits, stop) ← passWhile source isHexDigit bound (← advance source offset)
    if digits.isEmpty then .error (.refused .malformedHexadecimal)
    else closeNumeral source start false stop
  else
    let (fractional, stop) ← passDecimal source bound false start
    closeNumeral source start fractional stop

end Readers

/-! ## Each follows its counterpart -/

/-- What the exponents of a numeral make of it. -/
def fractionalOf :
    Option (List Exponent × List Char) → Except Cause (Bool × List Char)
  | some (_, left) => .ok (true, left)
  | none => .error .malformedExponent

/-- What a numeral is besides its text. -/
def decimalOf : Option (Decimal × List Char) → Except Cause (Bool × List Char)
  | some (decimal, left) => .ok (decimal.isFractional, left)
  | none => .error .malformedExponent

variable {source rest : List Char} {offset bound : Nat}

/-- Behind the letter and the sign of an exponent a digit has to come, as the reader on lists wants
it. -/
theorem passExponent_follows {c : Char} (hc : c ≠ '\r') (h : At source offset (c :: rest)) :
    (∃ digit tail stop, (Exponent.takeSign rest).2 = digit :: tail ∧ isDigit digit = true ∧
        passExponent source offset = .ok stop ∧ At source stop (digit :: tail)) ∨
      ((Exponent.takeSign rest).2.takeWhile isDigit = [] ∧
        passExponent source offset = .error (.refused .malformedExponent)) := by
  obtain ⟨next, hnext, hat⟩ := h.advance_of_ne (ε := Cause) hc
  -- The sign, if there is one, is taken in the same way on both sides.
  have hsigned : ∃ signed, passSign source next = .ok signed ∧
      At source signed (Exponent.takeSign rest).2 := by
    simp only [passSign, hat.peek, ok_bind]
    cases rest with
    | nil => exact ⟨next, rfl, hat⟩
    | cons d tail =>
      simp only [List.head?_cons, Option.some.injEq, Exponent.takeSign, Bool.or_eq_true, beq_iff_eq]
      by_cases hsign : d = '+' ∨ d = '-'
      · have hreturn : d ≠ '\r' := by rcases hsign with rfl | rfl <;> decide
        rw [if_pos hsign, if_pos hsign]
        exact hat.advance_of_ne hreturn
      · rw [if_neg hsign, if_neg hsign]
        exact ⟨next, rfl, hat⟩
  obtain ⟨signed, hsigned, hat'⟩ := hsigned
  have hrun : passExponent source offset =
      if (Exponent.takeSign rest).2.head?.any isDigit then .ok signed
      else .error (.refused .malformedExponent) := by
    simp only [passExponent, hnext, ok_bind, hsigned, hat'.peek]
  cases hrest : (Exponent.takeSign rest).2 with
  | nil => exact .inr ⟨rfl, by rw [hrun, hrest]; rfl⟩
  | cons digit tail =>
    rw [hrest] at hat'
    cases hdigit : isDigit digit with
    | true =>
      refine .inl ⟨digit, tail, signed, rfl, hdigit, ?_, hat'⟩
      rw [hrun, hrest, List.head?_cons, Option.any_some, hdigit, if_pos rfl]
    | false =>
      refine .inr ⟨List.takeWhile_cons_of_neg (by simp [hdigit]), ?_⟩
      rw [hrun, hrest, List.head?_cons, Option.any_some, hdigit, if_neg Bool.false_ne_true]

theorem ne_of_isDigit {c : Char} (h : isDigit c = true) : c ≠ '\r' := by
  rintro rfl
  cases h

/-- A numeral goes on behind the letter of an exponent. -/
theorem exponent_follows {c : Char} {fractional : Bool} (hletter : c = 'e' ∨ c = 'E')
    (hmore : ∀ {offset rest}, At source offset rest → rest.length < bound →
      Follows source (passDecimal source bound true offset)
        (fractionalOf (Exponent.readAll (rest.dropWhile isDigit))))
    (h : At source offset (c :: rest)) (hbound : rest.length < bound) :
    Follows source (passDecimal source (bound + 1) fractional offset)
      (fractionalOf (Exponent.readAll (c :: rest))) := by
  have hreturn : c ≠ '\r' := by rcases hletter with rfl | rfl <;> decide
  have hdigit : isDigit c = false := by rcases hletter with rfl | rfl <;> decide
  have hpoint : ¬(c = '.' ∧ fractional = false) := by
    rintro ⟨rfl, -⟩
    rcases hletter with h | h <;> cases h
  have hletter' : (c == 'e' || c == 'E') = true := by simpa using hletter
  have hrun : passDecimal source (bound + 1) fractional offset =
      passExponent source offset >>= passDecimal source bound true := by
    simp only [passDecimal, h.peek, ok_bind, List.head?_cons, hdigit, Bool.false_eq_true, if_false,
      if_neg hpoint, if_pos hletter]
  rw [hrun, Exponent.readAll, if_pos hletter']
  simp only
  have hlength := Exponent.length_takeSign rest
  rcases passExponent_follows hreturn h with
    ⟨digit, tail, stop, hsigned, hdigit', hpassed, hat⟩ | ⟨hnone, hpassed⟩
  · have hsome : ((Exponent.takeSign rest).2.takeWhile isDigit).isEmpty = false := by
      rw [hsigned, List.takeWhile_cons_of_pos hdigit']
      rfl
    rw [if_neg (by simp [hsome]), hsigned]
    rw [hsigned] at hlength
    refine .step hpassed ?_
    have hfollows := hmore hat (Nat.lt_of_le_of_lt hlength hbound)
    cases hread : Exponent.readAll ((digit :: tail).dropWhile isDigit) with
    | none => rwa [hread] at hfollows
    | some more => rwa [hread] at hfollows
  · rw [hpassed, hnone]
    exact .refused _

/-- Behind a point or an exponent only digits and exponents go on. -/
theorem passFraction_follows (h : At source offset rest) (hbound : rest.length < bound) :
    Follows source (passDecimal source bound true offset)
      (fractionalOf (Exponent.readAll (rest.dropWhile isDigit))) := by
  induction bound generalizing offset rest with
  | zero => exact absurd hbound (Nat.not_lt_zero _)
  | succ bound ih =>
    cases rest with
    | nil =>
      rw [passDecimal, List.dropWhile_nil, Exponent.readAll]
      exact .step h.peek (.ok _ h)
    | cons c rest =>
      have hbound := Nat.lt_of_succ_lt_succ hbound
      cases hdigit : isDigit c with
      | true =>
        obtain ⟨next, hnext, hat⟩ := h.advance_of_ne (ne_of_isDigit hdigit)
        rw [List.dropWhile_cons_of_pos hdigit, passDecimal]
        refine .step h.peek ?_
        simp only [List.head?_cons, hdigit, if_true]
        exact .step hnext (ih hat hbound)
      | false =>
        rw [List.dropWhile_cons_of_neg (by simp [hdigit])]
        by_cases hletter : c = 'e' ∨ c = 'E'
        · exact exponent_follows hletter ih h hbound
        · have hletter' : (c == 'e' || c == 'E') = false := by simpa using hletter
          rw [passDecimal, Exponent.readAll, if_neg (by simp [hletter'])]
          refine .step h.peek ?_
          simp only [List.head?_cons, hdigit, Bool.false_eq_true, if_false, if_neg hletter,
            Bool.true_eq_false, and_false]
          exact .ok _ h

theorem decimalOf_digit {c : Char} (rest : List Char) (hc : isDigit c = true) :
    decimalOf (Decimal.read (c :: rest)) = decimalOf (Decimal.read rest) := by
  simp only [Decimal.read, List.dropWhile_cons_of_pos hc]
  cases Exponent.readAll (Decimal.readFraction (rest.dropWhile isDigit)).2 <;> rfl

theorem decimalOf_point (rest : List Char) :
    decimalOf (Decimal.read ('.' :: rest)) =
      fractionalOf (Exponent.readAll (rest.dropWhile isDigit)) := by
  have hpoint : ('.' :: rest).dropWhile isDigit = '.' :: rest :=
    List.dropWhile_cons_of_neg (by decide)
  simp only [Decimal.read, hpoint, Decimal.readFraction, beq_self_eq_true, if_true]
  cases Exponent.readAll (rest.dropWhile isDigit) <;> rfl

theorem decimalOf_other {c : Char} (rest : List Char) (hdigit : isDigit c = false)
    (hpoint : c ≠ '.') :
    decimalOf (Decimal.read (c :: rest)) =
      decimalOf ((Exponent.readAll (c :: rest)).map fun more =>
        (⟨(c :: rest).takeWhile isDigit, none, more.1⟩, more.2)) := by
  have hdrop : (c :: rest).dropWhile isDigit = c :: rest :=
    List.dropWhile_cons_of_neg (by simp [hdigit])
  have hnone : Decimal.readFraction (c :: rest) = (none, c :: rest) := by
    simp [Decimal.readFraction, hpoint]
  rw [Decimal.read, hdrop, hnone]

theorem decimalOf_letter {c : Char} (rest : List Char) (hc : c = 'e' ∨ c = 'E') :
    decimalOf (Decimal.read (c :: rest)) = fractionalOf (Exponent.readAll (c :: rest)) := by
  have hdigit : isDigit c = false := by rcases hc with rfl | rfl <;> decide
  have hpoint : c ≠ '.' := by rcases hc with rfl | rfl <;> decide
  have hletter : (c == 'e' || c == 'E') = true := by simpa using hc
  rw [decimalOf_other rest hdigit hpoint, Exponent.readAll, if_pos hletter]
  simp only
  -- With an exponent a numeral is more than digits.
  split
  · rfl
  · cases Exponent.readAll ((Exponent.takeSign rest).2.dropWhile isDigit) <;> rfl

theorem passDecimal_follows (h : At source offset rest) (hbound : rest.length < bound) :
    Follows source (passDecimal source bound false offset) (decimalOf (Decimal.read rest)) := by
  induction bound generalizing offset rest with
  | zero => exact absurd hbound (Nat.not_lt_zero _)
  | succ bound ih =>
    cases rest with
    | nil =>
      have hread : Decimal.read [] = some (⟨[], none, []⟩, []) := by
        simp only [Decimal.read, List.takeWhile_nil, List.dropWhile_nil, Decimal.readFraction,
          Exponent.readAll, Option.map_some]
      rw [passDecimal, hread]
      exact .step h.peek (.ok _ h)
    | cons c rest =>
      have hshorter := Nat.lt_of_succ_lt_succ hbound
      by_cases hletter : c = 'e' ∨ c = 'E'
      · rw [decimalOf_letter rest hletter]
        exact exponent_follows hletter passFraction_follows h hshorter
      rw [passDecimal]
      refine .step h.peek ?_
      simp only [List.head?_cons, and_true]
      cases hdigit : isDigit c with
      | true =>
        obtain ⟨next, hnext, hat⟩ := h.advance_of_ne (ne_of_isDigit hdigit)
        rw [decimalOf_digit rest hdigit, if_pos rfl]
        exact .step hnext (ih hat hshorter)
      | false =>
        rw [if_neg Bool.false_ne_true]
        by_cases hpoint : c = '.'
        · subst hpoint
          obtain ⟨next, hnext, hat⟩ := h.advance_of_ne (by decide)
          rw [decimalOf_point, if_pos rfl]
          exact .step hnext (passFraction_follows hat hshorter)
        · have hletter' : (c == 'e' || c == 'E') = false := by simpa using hletter
          rw [decimalOf_other rest hdigit hpoint, Exponent.readAll, if_neg hpoint,
            if_neg hletter, if_neg (by simp [hletter'])]
          exact .ok _ h

/-- The end of a numeral, where its text is known to be whole or not. -/
theorem closeNumeral_follows {text : List Char} {fractional whole : Bool} {start : Nat}
    (hwhole : isWhole source start fractional offset = .ok whole) (h : At source offset rest) :
    Follows source (closeNumeral source start fractional offset)
      (.ok (ending
        (Piece.closeNumeral text whole (if fractional then .float else .integer) rest))) := by
  rw [closeNumeral]
  refine .step h.peek ?_
  cases rest with
  | nil => exact .ok _ h
  | cons c rest =>
    simp only [List.head?_cons, Piece.closeNumeral]
    by_cases hinteger : c = 'L'
    · subst hinteger
      obtain ⟨stop, hstop, hat⟩ := h.advance_of_ne (by decide)
      rw [if_pos rfl, if_pos rfl]
      exact .step hwhole (.step hstop (.ok _ hat))
    rw [if_neg hinteger, if_neg hinteger]
    by_cases hcomplex : c = 'i'
    · subst hcomplex
      obtain ⟨stop, hstop, hat⟩ := h.advance_of_ne (by decide)
      rw [if_pos rfl, if_pos rfl]
      exact .step hstop (.ok _ hat)
    · rw [if_neg hcomplex, if_neg hcomplex]
      exact .ok _ h

/-- The digits that have been passed are those of the numeral, so its text says whether it is
whole. -/
theorem isWhole_of_read {decimal : Decimal} {left : List Char} {start : Nat}
    (hread : Decimal.read rest = some (decimal, left)) (h : At source start rest)
    (hstop : At source offset left) :
    isWhole source start decimal.isFractional offset =
      .ok (!decimal.isFractional || decimal.isWhole) := by
  have htext := Decimal.text_read hread
  rw [← htext] at h
  rw [isWhole]
  cases decimal.isFractional with
  | false => rfl
  | true =>
    simp only [if_true, h.slice hstop, ok_bind, Decimal.read_text hread, Option.any_some,
      Bool.not_true, Bool.false_or]

theorem readDecimal_follows (h : At source offset rest) (hbound : rest.length < bound) :
    Follows source (do
        let (fractional, stop) ← passDecimal source bound false offset
        closeNumeral source offset fractional stop)
      ((Piece.readDecimal rest).map ending) := by
  have hpassed := passDecimal_follows h hbound
  cases hread : Decimal.read rest with
  | none =>
    rw [hread] at hpassed
    cases hrun : passDecimal source bound false offset with
    | ok _ => rw [hrun] at hpassed; cases hpassed
    | error failure =>
      rw [hrun] at hpassed
      cases hpassed
      rw [Piece.readDecimal, hread]
      exact .refused _
  | some found =>
    obtain ⟨decimal, left⟩ := found
    rw [hread] at hpassed
    cases hrun : passDecimal source bound false offset with
    | error _ => rw [hrun] at hpassed; cases hpassed
    | ok passed =>
      rw [hrun] at hpassed
      cases hpassed with
      | ok _ hat =>
        rw [Piece.readDecimal, hread]
        exact closeNumeral_follows (isWhole_of_read hread h hat) hat

theorem numeral_follows {c : Char} (h : At source offset (c :: rest))
    (hbound : (c :: rest).length < bound) :
    Follows source (numeral source bound offset)
      ((if isDigit c then Piece.readNumeral c rest
        else Piece.readDecimal (c :: rest)).map ending) := by
  rw [numeral]
  refine .step h.peek (.step h.peekSecond ?_)
  simp only [List.head?_cons, List.tail_cons, Option.some.injEq]
  have hdecimal := readDecimal_follows h hbound
  by_cases hhex : c = '0' ∧ (rest.head? = some 'x' ∨ rest.head? = some 'X')
  · obtain ⟨rfl, hletter⟩ := hhex
    obtain ⟨letter, digits, rfl, hletter'⟩ :
        ∃ letter digits, rest = letter :: digits ∧ (letter = 'x' ∨ letter = 'X') := by
      cases rest with
      | nil => simp at hletter
      | cons letter digits => exact ⟨letter, digits, rfl, by simpa using hletter⟩
    have hreturn : letter ≠ '\r' := by rcases hletter' with rfl | rfl <;> decide
    obtain ⟨behind, hbehind, hat⟩ := h.advance_of_ne (ε := Cause) (by decide)
    obtain ⟨first, hfirst, hat'⟩ := hat.advance_of_ne (ε := Cause) hreturn
    have hlength : digits.length < bound := by
      simp only [List.length_cons] at hbound
      omega
    obtain ⟨stop, hstop, hat''⟩ :=
      hat'.passWhile (ε := Cause) (p := isHexDigit) (by decide) hlength
    rw [if_pos ⟨rfl, hletter⟩, if_pos (by decide), Piece.readNumeral, if_pos ⟨rfl, hletter'⟩,
      Piece.readHexadecimal]
    refine .step hbehind (.step hfirst (.step hstop ?_))
    simp only
    cases (digits.takeWhile isHexDigit).isEmpty with
    | true => exact .refused _
    | false => exact closeNumeral_follows rfl hat''
  · have hread : (if isDigit c then Piece.readNumeral c rest else Piece.readDecimal (c :: rest)) =
        Piece.readDecimal (c :: rest) := by
      cases rest with
      | nil => exact ite_self _
      | cons x rest =>
        have hplain : ¬(c = '0' ∧ (x = 'x' ∨ x = 'X')) := by simpa using hhex
        rw [Piece.readNumeral, if_neg hplain, ite_self]
    rw [if_neg hhex, hread]
    exact hdecimal

end Guarded
end TypeDrift
