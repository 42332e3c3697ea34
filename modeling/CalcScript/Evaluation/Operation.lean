import CalcScript.Evaluation.Fault
import CalcScript.Floating.Arithmetic

/-!
# Operations on values

Integers are of 32 bits: results wrap around, and quotients are cut off toward zero. As soon as one
operand is a floating-point number both are, and the result is one of single precision.
-/

namespace CalcScript

/-- How many integers of 32 bits there are. -/
def wordCount : Nat := 0x100000000

/-- The integer of 32 bits with a sign that differs from `n` by a multiple of `wordCount`. -/
def wrap (n : Int) : Int := n.bmod wordCount

/-- The result of wrapping is an integer of 32 bits. -/
theorem wrap_bounds (n : Int) : -2147483648 ≤ wrap n ∧ wrap n < 2147483648 := by
  have hpos : 0 < wordCount := by decide
  have hlow := Int.le_bmod (x := n) hpos
  have hhigh := Int.bmod_lt (x := n) hpos
  unfold wrap
  simp only [wordCount] at hlow hhigh ⊢
  omega

/-- An integer of 32 bits wraps to itself. -/
theorem wrap_of_bounds {n : Int} (hlow : -2147483648 ≤ n) (hhigh : n < 2147483648) :
    wrap n = n := by
  refine Int.bmod_eq_of_le_mul_two ?_ ?_ <;> simp only [wordCount] <;> omega

/-- The operator on integers. -/
def intOperation : Operator → Int → Int → Except Fault Int
  | .plus, a, b => .ok (wrap (a + b))
  | .minus, a, b => .ok (wrap (a - b))
  | .times, a, b => .ok (wrap (a * b))
  | .divide, a, b => if b = 0 then .error .divisionByZero else .ok (wrap (a.tdiv b))

/-- The operator on exact floating-point data. -/
def exactOperation : Operator → Floating → Floating → Floating
  | .plus => Floating.add
  | .minus => Floating.sub
  | .times => Floating.mul
  | .divide => Floating.div

/-- The operator on floating-point numbers of single precision. -/
def floatOperation (op : Operator) (x y : Floating) : Floating :=
  Floating.inSingle (exactOperation op) x y

/-- The operator on values. Of two operands that are no numbers, the left one is named. -/
def operate (op : Operator) (a b : Value) : Except Fault Value :=
  match a, b with
  | .int m, .int n =>
    match intOperation op m n with
    | .ok r => .ok (.int r)
    | .error fault => .error fault
  | a, b =>
    match a.number?, b.number? with
    | some x, some y => .ok (.float (floatOperation op x y))
    | none, _ => .error (.operandKind op a.kind)
    | some _, none => .error (.operandKind op b.kind)

end CalcScript
