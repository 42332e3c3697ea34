import CalcScript.Decimal.Basic
import CalcScript.Packrat.Grammar
import CalcScript.Syntax.Node

/-!
# Number literals

What both grammars share: literals, operators between operands, and the classes of characters
they are made of. Digits and letters are those of ASCII.
-/

namespace CalcScript.Grammar

open Packrat

variable {ρ : Type} {Res : ρ → Type}

/-- The character is a decimal digit. -/
def isDigit (c : Char) : Bool := '0' ≤ c && c ≤ '9'

/-- The largest integer a literal may have. -/
def largestInt : Nat := 2147483647

/-- How many digits of a text may be significant if a conversion is tried at all: as many as the
largest integer has. -/
def significantLimit : Nat := 10

/-- How many digits the host's conversion takes, leading zeros included. -/
def conversionLimit : Nat := 4300

/-- The complaint of the host's conversion about a text of digits that is too long. A text with too
many significant digits is not converted. -/
def conversionError? (text : String) : Option String :=
  let digits := text.toList
  let significant := digits.dropWhile (· = '0')
  if significant.length ≤ significantLimit ∧ conversionLimit < digits.length then
    some ("Exceeds the limit (" ++ toString conversionLimit
      ++ " digits) for integer string conversion: value has " ++ toString digits.length
      ++ " digits; use sys.set_int_max_str_digits() to increase the limit")
  else none

/-- The integer literal of a text of digits, unless it is too large. -/
def intOfDigits (text : String) : Option Node :=
  let n := Decimal.ofDigits text.toList
  if n ≤ largestInt then some (.int n) else none

/-- An integer literal, with a check of its digits for errors. One that is too large is refused after
its digits. -/
def checkedInt (error? : String → Option String) : Form ρ Res Node :=
  .refine intOfDigits (.checked error? (.lexeme [.many1 isDigit]))

/-- An integer literal: digits, which the host converts. -/
def intLiteral : Form ρ Res Node := checkedInt conversionError?

/-- The floating-point literal of digits with a point among them, in single precision. -/
def floatOfPointed (text : String) : Node :=
  .float (Floating.readSingle false (Decimal.ofPointed text.toList).value)

/-- A floating-point literal: digits, a point, digits. -/
def floatLiteral : Form ρ Res Node :=
  .map floatOfPointed (.lexeme [.many1 isDigit, .one (· = '.'), .many1 isDigit])

/-- The character an operator is written with. -/
def symbol : Operator → Char
  | .plus => '+'
  | .minus => '-'
  | .times => '*'
  | .divide => '/'

/-- One of some operators. -/
def oneOf (ops : List Operator) : Form ρ Res Operator :=
  .first (ops.map fun op => .map (fun _ => op) (.char (symbol op)))

/-- The operators of sums. -/
def additive : List Operator := [.plus, .minus]

/-- The operators of products. -/
def multiplicative : List Operator := [.times, .divide]

/-- Two operands with an operator between them. -/
def binary (left : Form ρ Res Node) (op : Form ρ Res Operator) (right : Form ρ Res Node) :
    Form ρ Res Node :=
  .map (fun (l, op, r) => .bin op l r) (.pair left (.pair op right))

end CalcScript.Grammar
