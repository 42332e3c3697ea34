import CalcScript.Decimal.Numeral
import CalcScript.Syntax.Node

/-!
# Values

What evaluation gives: nothing, a number, a function of the program or a built-in function. A
function holds its parameters and its body, and no bindings: it sees those of its caller.
-/

namespace CalcScript

/-- The built-in functions. `println` is always there; the others are registered on request. -/
inductive Builtin where
  /-- Prints its arguments. -/
  | println
  /-- How many arguments there are. -/
  | count
  /-- The last argument. -/
  | last
  /-- Calls its first argument with the others. -/
  | apply
  deriving DecidableEq, Repr

/-- The name a built-in function is bound to. -/
def Builtin.name : Builtin → String
  | .println => "println"
  | .count => "count"
  | .last => "last"
  | .apply => "apply"

/-- All built-in functions. -/
def Builtin.all : List Builtin := [.println, .count, .last, .apply]

/-- The built-in function of a name. -/
def Builtin.ofName? (name : String) : Option Builtin := Builtin.all.find? (·.name = name)

/-- A name finds the function that is bound to it. -/
theorem Builtin.ofName?_name (b : Builtin) : Builtin.ofName? b.name = some b := by
  cases b <;> decide

/-- A value. -/
inductive Value where
  | null
  /-- An integer of 32 bits with a sign. -/
  | int (n : Int)
  /-- A floating-point number of single precision. -/
  | float (x : Floating)
  /-- A function of the program. -/
  | function (params : List String) (body : List Node)
  | builtin (b : Builtin)
  deriving Inhabited

/-- The kinds of values. -/
inductive Kind where
  | null
  | int
  | float
  | function
  | builtin
  deriving DecidableEq, Repr

/-- The name of a kind in messages. -/
def Kind.name : Kind → String
  | .null => "Null"
  | .int => "Int"
  | .float => "Float"
  | .function => "User function"
  | .builtin => "Built-in function"

namespace Value

/-- The kind of a value. -/
def kind : Value → Kind
  | .null => .null
  | .int _ => .int
  | .float _ => .float
  | .function _ _ => .function
  | .builtin _ => .builtin

/-- The text of a value. -/
def text : Value → String
  | .null => "null"
  | .int n => toString n
  | .float x => x.text
  | .function params _ => "<function(" ++ ", ".intercalate params ++ ")>"
  | .builtin b => "<built-in function " ++ b.name ++ ">"

/-- Values of one kind that are equal; numbers of different kinds are not. -/
def same : Value → Value → Bool
  | .null, .null => true
  | .int m, .int n => m = n
  | .float x, .float y => x.same y
  | .function ps xs, .function qs ys => ps = qs && Node.sameAll xs ys
  | .builtin b, .builtin c => b = c
  | _, _ => false

/-- The number a value holds, as a floating-point datum. -/
def number? : Value → Option Floating
  | .int n => some (Floating.ofInt n).toDouble
  | .float x => some x
  | _ => none

end Value

end CalcScript
