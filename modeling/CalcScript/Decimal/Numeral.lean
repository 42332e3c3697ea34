import CalcScript.Decimal.Layout

/-!
# Numerals of floating-point data

Two numerals are in use. `Floating.text` is what a program prints: the fewest digits, up to nine,
whose nearest decimal reads back in single precision. `Floating.doubleText` is what the display of
a syntax tree shows: the fewest digits, up to seventeen, that read back in double precision.
-/

namespace CalcScript

/-! ## Printed numerals -/

/-- The decimal reads back as the given magnitude of single precision. -/
def Decimal.readsSingle (d : Decimal) (magnitude : Rat) : Bool :=
  Floating.readSingle false d.value = .finite false magnitude

/-- The number of digits a printed numeral has: the first from one to nine with which the nearest
decimal reads back. -/
def Decimal.singleCount (magnitude : Rat) : Nat :=
  ((List.range' 1 9).find? fun count => (nearest count magnitude).readsSingle magnitude).getD 9

/-- The decimal a magnitude of single precision is printed as. -/
def Decimal.singleDigits (magnitude : Rat) : Decimal :=
  nearest (singleCount magnitude) magnitude

/-- Exponents of printed numerals have no sign unless negative and no leading zeros; the mantissa
always has a point. -/
def Decimal.printedStyle : ExponentStyle := ⟨'E', true, false, 1⟩

/-- Zero and magnitudes from a thousandth up to, and not including, ten million are printed
positionally. -/
def Decimal.IsPlain (magnitude : Rat) : Prop :=
  magnitude = 0 ∨ (Precision.double.nearest (1 / 1000) ≤ magnitude ∧ magnitude < 10000000)

instance (magnitude : Rat) : Decidable (Decimal.IsPlain magnitude) :=
  inferInstanceAs (Decidable (_ ∨ _))

/-- The printed text of a magnitude. -/
def Decimal.singleText (magnitude : Rat) : List Char :=
  if Decimal.IsPlain magnitude then (singleDigits magnitude).trim.positional
  else (singleDigits magnitude).scientific printedStyle

/-- The sign before a magnitude. -/
def signText (negative : Bool) : List Char := if negative then ['-'] else []

/-- What a program prints for a floating-point value. -/
def Floating.text : Floating → String
  | .nan => "NaN"
  | .infinity s => String.ofList (signText s) ++ "Infinity"
  | .finite s m => String.ofList (signText s ++ Decimal.singleText m)

/-! ## Numerals of syntax trees -/

/-- The decimal reads back as the given magnitude of double precision. -/
def Decimal.readsDouble (d : Decimal) (magnitude : Rat) : Bool :=
  (Floating.finite false d.value).toDouble = .finite false magnitude

/-- The shortest decimal that reads back in double precision, and the nearest such. Seventeen
digits always suffice. -/
def Decimal.doubleDigits (magnitude : Rat) : Decimal :=
  if magnitude = 0 then ⟨0, 0⟩
  else
    ((List.range' 1 17).findSome? fun count =>
      (neighbours count magnitude).find? (·.readsDouble magnitude)).getD (nearest 17 magnitude)

/-- Exponents of displayed numerals have a sign and two digits or more. -/
def Decimal.displayedStyle : ExponentStyle := ⟨'e', false, true, 2⟩

/-- The displayed text of a magnitude: positional for leading exponents from -4 to 15. -/
def Decimal.doubleText (magnitude : Rat) : List Char :=
  let d := (doubleDigits magnitude).trim
  if -4 ≤ d.leading ∧ d.leading < 16 then d.positional else d.scientific displayedStyle

/-- How a floating-point literal is displayed in a syntax tree. -/
def Floating.doubleText : Floating → String
  | .nan => "nan"
  | .infinity s => String.ofList (signText s) ++ "inf"
  | .finite s m => String.ofList (signText s ++ Decimal.doubleText m)

end CalcScript
