/-!
# Floating-point data

A floating-point datum is what a bit pattern means: not a number, an infinity, or a rational
magnitude with a sign (so both zeros are data of their own). The exact value is a rational, which
leaves rounding to `Precision.round`: an operation computes exactly and rounds afterwards.

Comparison follows the floating-point rule and not equality of data: `0.0` and `-0.0` compare
equal, and `nan` differs from everything.
-/

namespace CalcScript

/-- A floating-point datum. A finite one has a sign and a non-negative magnitude. -/
inductive Floating where
  | nan
  | infinity (negative : Bool)
  | finite (negative : Bool) (magnitude : Rat)
  deriving DecidableEq, Inhabited

namespace Floating

/-- The datum of an integer. -/
def ofInt (n : Int) : Floating :=
  .finite (decide (n < 0)) n.natAbs

/-- The number a finite datum stands for; the others stand for none. -/
def value? : Floating → Option Rat
  | .finite true m => some (-m)
  | .finite false m => some m
  | _ => none

/-- The datum with the opposite sign. -/
def neg : Floating → Floating
  | .nan => .nan
  | .infinity s => .infinity (!s)
  | .finite s m => .finite (!s) m

/-- Floating-point comparison for equality. -/
def same : Floating → Floating → Bool
  | .infinity s, .infinity t => s = t
  | .finite s m, .finite t n => (m = 0 && n = 0) || (s = t && m = n)
  | _, _ => false

/-- Changing the sign twice changes nothing. -/
@[simp] theorem neg_neg (x : Floating) : x.neg.neg = x := by
  cases x <;> simp [neg]

end Floating

end CalcScript
