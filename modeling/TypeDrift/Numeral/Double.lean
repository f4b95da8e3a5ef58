/-!
Doubles. A double is a whole multiple of a power of two, with at most 53 binary digits and no place
below the 1074th. The only question asked here is whether the double nearest to a ratio is a whole
number, and it is answered with natural numbers: the ratio is moved up by as many binary places as a
double of its size has, rounded there, and the places are looked at.
-/
namespace TypeDrift.Double

/-- The whole number nearest to `num / den`; of two equally near ones, the even one. -/
def roundHalfEven (num den : Nat) : Nat :=
  let quotient := num / den
  let twice := 2 * (num % den)
  if twice < den then quotient
  else if den < twice then quotient + 1
  else if quotient % 2 = 0 then quotient else quotient + 1

/-- The binary places that a double as large as `num / den` has behind its point: as many as bring
the ratio to 53 binary digits, but no more than `most`. -/
def places (num den : Nat) : Nat → Nat
  | 0 => 0
  | most + 1 => if Nat.pow 2 52 * den ≤ num then 0 else places (2 * num) den most + 1

/-- No double has more binary places than these. -/
def mostPlaces : Nat := 1074

/-- From this number on, rounding leaves the range of doubles. -/
def overflow : Nat := (Nat.pow 2 54 - 1) * Nat.pow 2 970

/-- Whether the double nearest to `num / den` is a whole number. Infinity is none. -/
def nearestIsWhole (num den : Nat) : Bool :=
  if overflow * den ≤ num then false
  else
    let moved := Nat.pow 2 (places num den mostPlaces)
    roundHalfEven (num * moved) den % moved == 0

example : nearestIsWhole 3 2 = false ∧ nearestIsWhole 4 2 = true := by decide +kernel

/-- One plus a quarter of the last place of one rounds to one. -/
example : nearestIsWhole (2 ^ 54 + 1) (2 ^ 54) = true := by decide +kernel

/-- A ratio below half of the least double rounds to zero. -/
example : nearestIsWhole 1 (2 ^ 1076) = true ∧ nearestIsWhole 1 (2 ^ 1074) = false := by
  decide +kernel

theorem places_le (num den most : Nat) : places num den most ≤ most := by
  induction most generalizing num with
  | zero => simp [places]
  | succ most ih =>
    unfold places
    split
    · simp
    · exact Nat.succ_le_succ (ih _)

end TypeDrift.Double
