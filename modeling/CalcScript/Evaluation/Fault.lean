import CalcScript.Evaluation.Value
import CalcScript.Syntax.Display

/-!
# Faults

Why an evaluation ends without a value. Each fault is a cause; the wording stands in
`Fault.message` alone.
-/

namespace CalcScript

/-- Why an evaluation ends without a value. -/
inductive Fault where
  /-- A variable is read that has no binding. -/
  | undefinedVariable (name : String)
  /-- An operand is no number. -/
  | operandKind (op : Operator) (kind : Kind)
  /-- What is called is no function. -/
  | notCallable (kind : Kind)
  /-- A function gets another number of arguments than it has parameters. -/
  | arity (expected got : Nat)
  /-- An integer is divided by zero. -/
  | divisionByZero
  /-- Evaluations are nested too deeply. -/
  | recursionDepth
  /-- A node has no meaning in a program. -/
  | meaningless (node : Node)
  /-- A node has no meaning in an arithmetic expression. -/
  | notArithmetic (node : Node)

/-- The name of an operation in messages. -/
def Operator.operation : Operator → String
  | .plus => "Addition"
  | .minus => "Subtraction"
  | .times => "Multiplication"
  | .divide => "Division"

/-- What a fault says. -/
def Fault.description : Fault → String
  | .undefinedVariable name => "Reference to undefined variable " ++ quoted name
  | .operandKind op kind => op.operation ++ " is not defined for " ++ kind.name
  | .notCallable kind => kind.name ++ " is not callable"
  | .arity expected got =>
    "Wrong number of arguments: expected " ++ toString expected ++ ", got " ++ toString got
  | .divisionByZero => "Integer division by zero"
  | .recursionDepth => "Maximum recursion depth exceeded"
  | .meaningless node => "Unexpected AST node: " ++ node.inMessage
  | .notArithmetic node => "Not an arithmetic expression: " ++ node.inMessage

/-- The message of a fault. -/
def Fault.message (fault : Fault) : String := "[Runtime error] " ++ fault.description

end CalcScript
