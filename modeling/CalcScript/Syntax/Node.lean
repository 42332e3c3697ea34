import CalcScript.Floating.Basic

/-!
# Syntax trees

One type of nodes serves programs and arithmetic expressions. The grammars build only some of the
trees (a `ret` stands only in a function's body, operands are expressions); evaluation gives a
meaning to all of them. `Node.same` compares trees of one shape, floating-point literals by value.
-/

namespace CalcScript

/-- The four arithmetic operators. -/
inductive Operator where
  | plus
  | minus
  | times
  | divide
  deriving DecidableEq, Repr, Inhabited

/-- The operator's name. -/
def Operator.name : Operator → String
  | .plus => "PLUS"
  | .minus => "MINUS"
  | .times => "TIMES"
  | .divide => "DIVIDE"

/-- A node of a syntax tree. -/
inductive Node where
  /-- An integer literal. -/
  | int (value : Int)
  /-- A floating-point literal. -/
  | float (value : Floating)
  /-- A variable. -/
  | var (name : String)
  /-- An operator between two operands. -/
  | bin (op : Operator) (left right : Node)
  /-- A call of what `callee` evaluates to. -/
  | call (callee : Node) (args : List Node)
  /-- An assignment to a variable. -/
  | assign (name : String) (value : Node)
  /-- Ends the statement list it stands in. -/
  | ret (value : Node)
  /-- A list of statements. -/
  | stmts (body : List Node)
  /-- A function definition. -/
  | func (name : String) (params : List String) (body : List Node)
  /-- A text in the place of a node. It has no meaning. -/
  | bare (text : String)
  deriving Inhabited

namespace Node

/-- The node is a return statement. -/
def isRet : Node → Bool
  | .ret _ => true
  | _ => false

/-- The negative of an operand: a literal changes its sign, anything else is subtracted from
zero. -/
def negative : Node → Node
  | .int n => .int (-n)
  | .float x => .float x.neg
  | operand => .bin .minus (.int 0) operand

mutual

/-- The trees have one shape, equal names and integers, and floating-point literals that compare
equal. -/
def same : Node → Node → Bool
  | .int m, .int n => m = n
  | .float x, .float y => x.same y
  | .var x, .var y => x = y
  | .bin op l r, .bin op' l' r' => op = op' && same l l' && same r r'
  | .call f xs, .call g ys => same f g && sameAll xs ys
  | .assign x e, .assign y f => x = y && same e f
  | .ret e, .ret f => same e f
  | .stmts xs, .stmts ys => sameAll xs ys
  | .func f ps xs, .func g qs ys => f = g && ps = qs && sameAll xs ys
  | .bare s, .bare t => s = t
  | _, _ => false

/-- The lists have one length and the same trees at each place. -/
def sameAll : List Node → List Node → Bool
  | [], [] => true
  | x :: xs, y :: ys => same x y && sameAll xs ys
  | _, _ => false

end

end Node

end CalcScript
