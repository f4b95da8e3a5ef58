/-!
Digits to the base of sixteen. Those above nine are letters, small or large ones as the reader wants
them.
-/
namespace TypeDrift.Text

/-- The digit for a number below sixteen, where `a` stands for ten. -/
def hexDigit (a : Char) (n : Nat) : Char :=
  if n < 10 then Char.ofNat ('0'.toNat + n) else Char.ofNat (a.toNat + (n - 10))

/-- The last `width` digits of a number. -/
def hexDigits (a : Char) (width n : Nat) : List Char :=
  (List.range width).reverse.map fun place => hexDigit a (n / Nat.pow 16 place % 16)

example : String.ofList (hexDigits 'A' 4 0x1cf) = "01CF" := by decide +kernel

end TypeDrift.Text
