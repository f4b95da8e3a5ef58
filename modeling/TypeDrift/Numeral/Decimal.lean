import TypeDrift.Numeral.Double
import TypeDrift.Text.Letter

/-!
Decimal numerals without their suffix: digits with at most one point among or before them, and then
exponents. Several exponents in a row are read as one numeral, though such a numeral has no value.

`Decimal.read` takes a numeral apart and `Decimal.text` puts it together again; the two are inverse
on what was read (`text_read`).
-/
namespace TypeDrift

/-- An exponent: the letter before it, its sign if it has one, and its digits. -/
structure Exponent where
  letter : Char
  sign : Option Char
  digits : List Char
deriving DecidableEq, Repr

/-- A decimal numeral, taken apart. -/
structure Decimal where
  whole : List Char
  /-- The digits behind the point, if there is a point. -/
  fraction : Option (List Char)
  exponents : List Exponent
deriving DecidableEq, Repr

/-- The number that decimal digits write. -/
def Decimal.ofDigits (digits : List Char) : Nat :=
  digits.foldl (fun value c => value * 10 + (c.toNat - '0'.toNat)) 0

namespace Exponent

/-- An exponent as it was written. -/
def text (exponent : Exponent) : List Char :=
  exponent.letter :: (exponent.sign.toList ++ exponent.digits)

/-- The power of ten that an exponent stands for. -/
def value (exponent : Exponent) : Int :=
  let magnitude : Int := Decimal.ofDigits exponent.digits
  if exponent.sign == some '-' then -magnitude else magnitude

/-- The sign at the beginning of a text, and the rest. -/
def takeSign : List Char → Option Char × List Char
  | c :: rest => if c == '+' || c == '-' then (some c, rest) else (none, c :: rest)
  | [] => (none, [])

theorem takeSign_append (cs : List Char) : (takeSign cs).1.toList ++ (takeSign cs).2 = cs := by
  cases cs with
  | nil => rfl
  | cons c rest =>
    simp only [takeSign]
    split <;> simp

theorem length_takeSign (cs : List Char) : (takeSign cs).2.length ≤ cs.length := by
  have h := congrArg List.length (takeSign_append cs)
  simp only [List.length_append] at h
  omega

/-- All exponents at the beginning of a text, and the rest; none if one of them has no digits. -/
def readAll : List Char → Option (List Exponent × List Char)
  | [] => some ([], [])
  | c :: rest =>
    if c == 'e' || c == 'E' then
      let signed := takeSign rest
      let digits := signed.2.takeWhile Text.isDigit
      if digits.isEmpty then none
      else
        (readAll (signed.2.dropWhile Text.isDigit)).map fun more =>
          (⟨c, signed.1, digits⟩ :: more.1, more.2)
    else some ([], c :: rest)
termination_by cs => cs.length
decreasing_by
  have h₁ := (List.dropWhile_sublist Text.isDigit (l := (takeSign rest).2)).length_le
  have h₂ := length_takeSign rest
  simp only [List.length_cons]
  omega

theorem text_readAll {cs rest : List Char} {exponents : List Exponent}
    (h : readAll cs = some (exponents, rest)) : exponents.flatMap text ++ rest = cs := by
  fun_induction readAll cs generalizing exponents rest with
  | case1 => simp_all
  | case2 => simp at h
  | case3 c tail isLetter signed digits =>
    rename_i ih
    obtain ⟨⟨more, left⟩, hmore, heq⟩ := Option.map_eq_some_iff.1 h
    obtain ⟨rfl, rfl⟩ := Prod.mk.inj heq
    have hrest := ih hmore
    simp only [List.flatMap_cons, text, List.cons_append, List.append_assoc, hrest]
    rw [List.takeWhile_append_dropWhile]
    exact congrArg _ (takeSign_append tail)
  | case4 => simp_all

end Exponent

namespace Decimal

/-- A numeral as it was written. -/
def text (decimal : Decimal) : List Char :=
  decimal.whole ++ (decimal.fraction.elim [] ('.' :: ·)) ++
    decimal.exponents.flatMap Exponent.text

/-- A numeral with a point or an exponent. -/
def isFractional (decimal : Decimal) : Bool :=
  decimal.fraction.isSome || !decimal.exponents.isEmpty

/-- The digits behind the point at the beginning of a text, if it begins with a point, and the
rest. -/
def readFraction : List Char → Option (List Char) × List Char
  | c :: rest =>
    if c == '.' then (some (rest.takeWhile Text.isDigit), rest.dropWhile Text.isDigit)
    else (none, c :: rest)
  | [] => (none, [])

theorem readFraction_append (cs : List Char) :
    (readFraction cs).1.elim [] ('.' :: ·) ++ (readFraction cs).2 = cs := by
  cases cs with
  | nil => rfl
  | cons c rest =>
    simp only [readFraction]
    split
    · next h => simp [List.takeWhile_append_dropWhile, beq_iff_eq.1 h]
    · rfl

/-- The numeral at the beginning of a text, and the rest; none if an exponent has no digits. -/
def read (cs : List Char) : Option (Decimal × List Char) :=
  let whole := cs.takeWhile Text.isDigit
  let fraction := readFraction (cs.dropWhile Text.isDigit)
  (Exponent.readAll fraction.2).map fun exponents =>
    (⟨whole, fraction.1, exponents.1⟩, exponents.2)

theorem text_read {cs rest : List Char} {decimal : Decimal}
    (h : read cs = some (decimal, rest)) : decimal.text ++ rest = cs := by
  obtain ⟨⟨exponents, left⟩, hexp, heq⟩ := Option.map_eq_some_iff.1 h
  obtain ⟨rfl, rfl⟩ := Prod.mk.inj heq
  have hexponents := Exponent.text_readAll hexp
  have hfraction := readFraction_append (cs.dropWhile Text.isDigit)
  simp only [text, List.append_assoc, hexponents]
  rw [hfraction, List.takeWhile_append_dropWhile]

/-- How far below the least double a power of ten lies for certain. -/
def farBelow : Nat := 400

/-- Whether the double nearest to `digits` times ten to the power `scale` is a whole number, where
`digits` is written with `width` digits. Powers of ten far outside the range of doubles are not
computed: such a number rounds to infinity or to zero. -/
def scaledIsWhole (digits width : Nat) : Int → Bool
  | .ofNat power =>
    digits == 0 || (power ≤ farBelow && Double.nearestIsWhole (digits * Nat.pow 10 power) 1)
  | .negSucc power =>
    digits == 0 || width + farBelow < power || Double.nearestIsWhole digits (Nat.pow 10 (power + 1))

/-- Whether the double that a numeral is read as is a whole number. A numeral with two exponents is
read as none. -/
def isWhole (decimal : Decimal) : Bool :=
  let digits := decimal.whole ++ decimal.fraction.getD []
  let places := (decimal.fraction.getD []).length
  match decimal.exponents with
  | [] => scaledIsWhole (ofDigits digits) digits.length (-places)
  | [exponent] => scaledIsWhole (ofDigits digits) digits.length (exponent.value - places)
  | _ => false

/-- Whether `digits` times ten to the power `scale` lies within the range of doubles, where `digits`
is written with `width` digits. -/
def scaledIsFinite (digits width : Nat) : Int → Bool
  | .ofNat power =>
    digits == 0 || (power ≤ farBelow && digits * Nat.pow 10 power < Double.overflow)
  | .negSucc power => width ≤ power || digits < Double.overflow * Nat.pow 10 (power + 1)

/-- Whether a numeral is read as a double, and not as infinity. -/
def isFinite (decimal : Decimal) : Bool :=
  let digits := decimal.whole ++ decimal.fraction.getD []
  let places := (decimal.fraction.getD []).length
  match decimal.exponents with
  | [] => scaledIsFinite (ofDigits digits) digits.length (-places)
  | [exponent] => scaledIsFinite (ofDigits digits) digits.length (exponent.value - places)
  | _ => false

example : (read "1.50e1L".toList).map (fun r => (r.1.isWhole, r.2)) = some (true, ['L']) := by
  decide +kernel

example : (read "1e-1".toList).map (fun r => r.1.isWhole) = some false := by decide +kernel

example : (read "1e400".toList).map (fun r => r.1.isWhole) = some false := by decide +kernel

example : (read "2e+".toList).isNone = true := by decide +kernel

end Decimal
end TypeDrift
