import CalcScript.Floating.Rounding

/-!
# Bit patterns of 64 bits

`Floating.ofBits` reads the interchange format of 64 bits: a sign bit, eleven bits of exponent
and fifty-two of fraction. `Floating.toBits` writes it; all data that are not a number share one
pattern.
-/

namespace CalcScript.Floating

/-- The weight of the sign bit. -/
def signWeight : Nat := 0x8000000000000000

/-- The weight of the last bit of the exponent field. -/
def fieldWeight : Nat := 0x10000000000000

/-- The exponent field of what is no finite number. -/
def fieldLimit : Nat := 0x7ff

/-- The datum a pattern of 64 bits stands for. -/
def ofBits (bits : UInt64) : Floating :=
  let word : Nat := bits.toNat
  let negative : Bool := decide (signWeight ≤ word)
  let field : Nat := word / fieldWeight % (fieldLimit + 1)
  let fraction : Nat := word % fieldWeight
  if field = fieldLimit then
    if fraction = 0 then .infinity negative else .nan
  else if field = 0 then .finite negative ((fraction : Rat) * 2 ^ (-1074 : Int))
  else
    .finite negative (((fieldWeight + fraction : Nat) : Rat) * 2 ^ ((field : Int) - 1075))

/-- Exponent field and fraction of a magnitude of 64 bits, as one number. -/
def magnitudeBits (m : Rat) : Nat :=
  if m = 0 then 0
  else
    let unit := Precision.double.unit m
    let significand := (m / 2 ^ unit).floor.toNat
    if significand < fieldWeight then significand
    else (unit + 1075).toNat * fieldWeight + (significand - fieldWeight)

/-- The weight of a sign. -/
def signBits (negative : Bool) : Nat := if negative then signWeight else 0

/-- The pattern of 64 bits of a datum in double precision. -/
def toBits : Floating → UInt64
  | .nan => 0x7ff8000000000000
  | .infinity s => UInt64.ofNat (signBits s + fieldLimit * fieldWeight)
  | .finite s m => UInt64.ofNat (signBits s + magnitudeBits m)

end CalcScript.Floating
