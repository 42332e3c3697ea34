import CalcScript.Floating.Rounding

/-!
# Decimals

A decimal is a coefficient and a power of ten. `Decimal.ofDigits` and `Decimal.ofPointed` read the
digits of a numeral, of any length and exactly. `Decimal.nearest` is the other way: the decimal
with a given number of significant digits that is nearest to a number.
-/

namespace CalcScript

/-- The number `coefficient * 10 ^ exponent`. -/
structure Decimal where
  coefficient : Nat
  exponent : Int
  deriving DecidableEq, Repr, Inhabited

namespace Decimal

/-- The number a decimal stands for. -/
def value (d : Decimal) : Rat := d.coefficient * 10 ^ d.exponent

/-! ## Reading digits -/

/-- The value of a decimal digit. -/
def digitValue (c : Char) : Nat := c.toNat - '0'.toNat

/-- The natural number written by decimal digits; leading zeros do not count. -/
def ofDigits (digits : List Char) : Nat :=
  digits.foldl (fun n c => 10 * n + digitValue c) 0

/-- The decimal written as digits with a point among them. -/
def ofPointed (text : List Char) : Decimal :=
  let whole := text.takeWhile (· ≠ '.')
  let fraction := (text.dropWhile (· ≠ '.')).drop 1
  ⟨ofDigits (whole ++ fraction), -(fraction.length : Int)⟩

/-! ## Writing digits -/

/-- The digits of the coefficient. -/
def digits (d : Decimal) : List Char := Nat.toDigits 10 d.coefficient

/-- The exponent of the leading digit. -/
def leading (d : Decimal) : Int := d.exponent + ((d.digits.length : Int) - 1)

/-- Moves zeros at the end of the coefficient into the exponent, at most `rounds` of them. -/
def trimRounds : Nat → Decimal → Decimal
  | 0, d => d
  | rounds + 1, d =>
    if d.coefficient % 10 = 0 then trimRounds rounds ⟨d.coefficient / 10, d.exponent + 1⟩ else d

/-- The same number without zeros at the end of the coefficient; zero has exponent zero. -/
def trim (d : Decimal) : Decimal :=
  if d.coefficient = 0 then ⟨0, 0⟩ else trimRounds d.digits.length d

/-! ## Choosing digits -/

/-- Counts how often `n` can be divided by ten before it is below ten, in at most `rounds`
divisions. -/
def divisionsByTen : Nat → Nat → Nat
  | 0, _ => 0
  | rounds + 1, n => if n < 10 then 0 else divisionsByTen rounds (n / 10) + 1

/-- The largest `k` with `10 ^ k ≤ x`, for a positive number. As many divisions suffice as a
natural number has binary digits. -/
def decimalExponent (x : Rat) : Int :=
  leadingExponent 10 (fun n => divisionsByTen n.log2 n) x

/-- The exponent of the last of `count` significant digits of a positive number. -/
def lastPlace (count : Nat) (x : Rat) : Int := decimalExponent x - ((count : Int) - 1)

/-- A coefficient that a carry has made one digit too long is shortened. -/
def carry (count : Nat) (d : Decimal) : Decimal :=
  if d.coefficient = Nat.pow 10 count then ⟨Nat.pow 10 (count - 1), d.exponent + 1⟩ else d

/-- The decimal with `count` significant digits nearest to a magnitude, ties to even. -/
def nearest (count : Nat) (x : Rat) : Decimal :=
  if x = 0 then ⟨0, 0⟩
  else
    let place := lastPlace count x
    carry count ⟨(nearestInt (x / 10 ^ place)).toNat, place⟩

/-- The two decimals with `count` significant digits between which a positive magnitude lies, the
nearer one first, and of two equally near ones the even one. -/
def neighbours (count : Nat) (x : Rat) : List Decimal :=
  let place := lastPlace count x
  let below := (x / 10 ^ place).floor.toNat
  let near := (nearestInt (x / 10 ^ place)).toNat
  let far := if near = below then below + 1 else below
  [carry count ⟨near, place⟩, carry count ⟨far, place⟩]

end Decimal

end CalcScript
