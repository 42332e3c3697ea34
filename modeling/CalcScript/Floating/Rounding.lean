import CalcScript.Floating.Basic

/-!
# Rounding to a binary precision

`nearestInt` rounds a rational to the nearest integer, a half to the even neighbour.
`Precision.nearest` rounds a magnitude to the nearest multiple of its unit in the last place, and
`Precision.round` does so for a datum, with results beyond the largest finite magnitude becoming
infinite. `Precision.double` and `Precision.single` are the two precisions in use: arithmetic is
done in the first and its results are kept in the second.
-/

namespace CalcScript

/-! ## Nearest integers and leading digits -/

/-- The integer nearest to `x`, and of two equally near ones the even one. -/
def nearestInt (x : Rat) : Int :=
  let below := x.floor
  let rest := x - below
  if rest < 1 / 2 then below
  else if 1 / 2 < rest then below + 1
  else if below % 2 = 0 then below
  else below + 1

/-- The exponent of the leading digit of a positive rational to a base: the largest `k` with
`base ^ k ≤ x`. The leading digits of numerator and denominator, which `exponent` gives, leave two
candidates. -/
def leadingExponent (base : Nat) (exponent : Nat → Nat) (x : Rat) : Int :=
  let k : Int := exponent x.num.natAbs - exponent x.den
  if (base : Rat) ^ k ≤ x then k else k - 1

/-- The largest `k` with `2 ^ k ≤ x`. -/
def binaryExponent (x : Rat) : Int := leadingExponent 2 Nat.log2 x

/-! ## Precisions -/

/-- A binary floating-point format: how many binary digits a magnitude has, the exponent of its
smallest unit, and the exponent from which on magnitudes are infinite. -/
structure Precision where
  digits : Nat
  smallestUnit : Int
  overflow : Int
  deriving DecidableEq

namespace Precision

/-- The format of 64 bits. -/
def double : Precision := ⟨53, -1074, 1024⟩

/-- The format of 32 bits. -/
def single : Precision := ⟨24, -149, 128⟩

/-- The exponent of the unit in the last place of a positive magnitude. -/
def unit (p : Precision) (x : Rat) : Int :=
  max (binaryExponent x - (p.digits - 1)) p.smallestUnit

/-- The multiple of the unit in the last place nearest to a magnitude, ties to even. -/
def nearest (p : Precision) (x : Rat) : Rat :=
  if x = 0 then 0 else nearestInt (x / 2 ^ p.unit x) * 2 ^ p.unit x

/-- Rounds a datum to the precision. The sign is kept, also of a magnitude that becomes zero. -/
def round (p : Precision) : Floating → Floating
  | .finite s m =>
    if 2 ^ p.overflow ≤ p.nearest m then .infinity s else .finite s (p.nearest m)
  | x => x

end Precision

namespace Floating

/-- The nearest datum of 64 bits. -/
def toDouble (x : Floating) : Floating := Precision.double.round x

/-- The nearest datum of 32 bits. -/
def toSingle (x : Floating) : Floating := Precision.single.round x

/-- The datum is one of 32 bits. -/
def IsSingle (x : Floating) : Prop := x.toSingle = x

instance (x : Floating) : Decidable x.IsSingle := inferInstanceAs (Decidable (_ = _))

/-- What reading a decimal number gives: its exact value is rounded to 64 bits first and then to
32 bits. -/
def readSingle (negative : Bool) (magnitude : Rat) : Floating :=
  (Floating.finite negative magnitude).toDouble.toSingle

end Floating

end CalcScript
