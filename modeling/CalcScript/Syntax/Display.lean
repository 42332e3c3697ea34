import CalcScript.Decimal.Numeral
import CalcScript.Syntax.Node
import CalcScript.Text.Quoted

/-!
# The display of syntax trees

A node is displayed as the name of its kind with its fields in parentheses, each as
`name=display`. Sequences stand in parentheses, a single element with a comma after it.
-/

namespace CalcScript

/-- The display of a sequence of displayed elements. -/
def displaySequence : List String → String
  | [] => "()"
  | [x] => "(" ++ x ++ ",)"
  | xs => "(" ++ ", ".intercalate xs ++ ")"

/-- The display of a variable. -/
def displayVariable (name : String) : String := "Variable(name=" ++ quoted name ++ ")"

/-- The display of a statement list whose statements are displayed already. -/
def displayStatements (body : List String) : String :=
  "Statements(statements=" ++ displaySequence body ++ ")"

namespace Node

mutual

/-- The display of a node. -/
def display : Node → String
  | .int n => "IntLiteral(value=" ++ toString n ++ ")"
  | .float x => "FloatLiteral(value=" ++ x.doubleText ++ ")"
  | .var name => displayVariable name
  | .bin op l r =>
    "BinaryOperation(left=" ++ display l ++ ", operator=" ++ op.name ++ ", right=" ++ display r
      ++ ")"
  | .call callee args =>
    "Call(callee=" ++ display callee ++ ", args=" ++ displaySequence (displayAll args) ++ ")"
  | .assign name value =>
    "Assignment(variable=" ++ displayVariable name ++ ", value=" ++ display value ++ ")"
  | .ret value => "Return(value=" ++ display value ++ ")"
  | .stmts body => displayStatements (displayAll body)
  | .func name params body =>
    "FunctionDef(name=" ++ quoted name ++ ", params=" ++ displaySequence (params.map quoted)
      ++ ", body=" ++ displayStatements (displayAll body) ++ ")"
  | .bare text => quoted text

/-- The displays of some nodes. -/
def displayAll : List Node → List String
  | [] => []
  | x :: xs => display x :: displayAll xs

end

/-- How a message names a node: by its display, or by the text that stands in its place. -/
def inMessage : Node → String
  | .bare text => text
  | node => node.display

end Node

end CalcScript
