import CalcScript.Evaluation.Operation
import CalcScript.Source.Reading

/-!
# The calculator

Arithmetic expressions alone, where every number is a floating-point number of single precision.
Division by zero is no fault here. `calculate` reads and evaluates a source.
-/

namespace CalcScript

/-- The value of an arithmetic expression, with a budget for what is nested inside it. -/
def arithmeticValue : Nat → Node → Except Fault Floating
  | 0, _ => .error .recursionDepth
  | _ + 1, .int n => .ok (Floating.ofInt n).toDouble.toSingle
  | _ + 1, .float x => .ok x
  | budget + 1, .bin op l r =>
    match arithmeticValue budget l with
    | .error fault => .error fault
    | .ok x =>
      match arithmeticValue budget r with
      | .error fault => .error fault
      | .ok y => .ok (floatOperation op x y)
  | _ + 1, node => .error (.notArithmetic node)

/-- How deeply the operators of an arithmetic expression may be nested. -/
def arithmeticBudget : Nat := 1000

/-- Why a calculation gives no number. -/
inductive CalculationError where
  | unreadable (u : Unreadable)
  | fault (f : Fault)

/-- Reads an arithmetic expression and evaluates it. -/
def calculate (source : String) : Except CalculationError Floating :=
  match readArithmetic source with
  | .error u => .error (.unreadable u)
  | .ok node =>
    match arithmeticValue arithmeticBudget node with
    | .error f => .error (.fault f)
    | .ok x => .ok x

end CalcScript
