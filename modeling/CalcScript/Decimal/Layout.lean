import CalcScript.Decimal.Basic

/-!
# Layouts of decimals

A decimal is laid out positionally, with digits on both sides of the point, or as a mantissa with
one digit before the point and an exponent. `ExponentStyle` holds what different exponent layouts
do differently.
-/

namespace CalcScript

/-- How the exponent form is written. -/
structure ExponentStyle where
  /-- The letter between mantissa and exponent. -/
  mark : Char
  /-- A mantissa of one digit is followed by `.0`. -/
  pointAlways : Bool
  /-- A non-negative exponent has a sign. -/
  plus : Bool
  /-- The least number of digits of the exponent. -/
  width : Nat

namespace Decimal

/-- A number of zeros. -/
def zeros (n : Nat) : List Char := List.replicate n '0'

/-- Positional layout: at least one digit before the point and one after it. -/
def positional (d : Decimal) : List Char :=
  if 0 ≤ d.exponent then d.digits ++ zeros d.exponent.toNat ++ ['.', '0']
  else
    let places := (-d.exponent).toNat
    let padded := zeros (places + 1 - d.digits.length) ++ d.digits
    padded.take (padded.length - places) ++ '.' :: padded.drop (padded.length - places)

/-- An exponent with its sign. -/
def exponentText (style : ExponentStyle) (e : Int) : List Char :=
  let magnitude := Nat.toDigits 10 e.natAbs
  (if e < 0 then ['-'] else if style.plus then ['+'] else [])
    ++ zeros (style.width - magnitude.length) ++ magnitude

/-- Exponent layout: the first digit, the others after a point, and the exponent of the first. -/
def scientific (style : ExponentStyle) (d : Decimal) : List Char :=
  let mantissa :=
    match d.digits with
    | [] => []
    | [c] => if style.pointAlways then [c, '.', '0'] else [c]
    | c :: rest => c :: '.' :: rest
  mantissa ++ style.mark :: exponentText style d.leading

end Decimal

end CalcScript
