import CalcScript.Grammar.Number
import CalcScript.Text.Blank

/-!
# The grammar of programs

A program is a list of statements with a semicolon after each: assignments, function definitions
and expressions, and in a function's body return statements too. Blanks may stand only where a
rule asks for them; inside an assignment's head, and after the words that begin a definition, only
spaces and tabulators.
-/

namespace CalcScript.Grammar.Program

open Packrat

/-- The rules of the grammar. -/
inductive Name where
  | intLiteral
  | floatLiteral
  | number
  | variable
  | atom
  | primary
  | factor
  | term
  | expression
  | arguments
  | parameters
  | assignment
  | functionDef
  | statement
  | functionStatement
  | statements
  | functionStatements
  deriving DecidableEq, Repr

/-- What a rule gives: a name, some names, some nodes, or a node. -/
abbrev Result : Name → Type
  | .variable => String
  | .parameters => List String
  | .arguments => List Node
  | .statements => List Node
  | .functionStatements => List Node
  | _ => Node

/-- A form of this grammar. -/
abbrev Part := Form Name Result

/-- A call of a rule. -/
abbrev rule (r : Name) : Part (Result r) := .call r

/-! ## Words and blanks -/

/-- The character may begin a name. -/
def isNameStart (c : Char) : Bool :=
  ('a' ≤ c && c ≤ 'z') || ('A' ≤ c && c ≤ 'Z') || c = '_'

/-- The character may stand inside a name. -/
def isNamePart (c : Char) : Bool := isNameStart c || isDigit c

/-- One blank or more. -/
def blanks : Part String := .lexeme [.many1 isBlank]

/-- Blanks, if there are any. -/
def someBlanks : Part (Option String) := .optional blanks

/-- One space or tabulator or more. -/
def gap : Part String := .lexeme [.many1 isGap]

/-- Spaces and tabulators, if there are any. -/
def someGap : Part (Option String) := .optional gap

/-- A character with blanks allowed around it. -/
def spaced (c : Char) : Part String := someBlanks *> .char c <* someBlanks

/-! ## Expressions -/

/-- An expression in parentheses. -/
def parenthesized : Part Node :=
  .char '(' *> someBlanks *> rule .expression <* someBlanks <* .char ')'

/-- The arguments of a call, in parentheses. -/
def argumentList : Part (Option (List Node)) :=
  .char '(' *> someBlanks *> .optional (rule .arguments) <* someBlanks <* .char ')'

/-- A call of what a primary gives. -/
def functionCall : Part Node :=
  .map (fun (callee, args) => .call callee (args.getD [])) (.pair (rule .primary) argumentList)

/-- A primary with a minus sign before it. -/
def negation : Part Node := .map Node.negative (.char '-' *> someGap *> rule .primary)

/-- Operands with blanks allowed around the operator. -/
def spacedBinary (left : Part Node) (ops : List Operator) (right : Part Node) : Part Node :=
  binary left (someBlanks *> oneOf ops <* someBlanks) right

/-- Items with commas between them. -/
def commaSeparated {α : Type} (item : Part α) : Part (List α) :=
  .map (fun (head, tail) => head :: tail) (.pair item (.many (spaced ',' *> item)))

/-! ## Statements -/

/-- An assignment. -/
def assignment : Part Node :=
  .map (fun (name, value) => .assign name value)
    (.pair (rule .variable) (someGap *> .char '=' *> someGap *> rule .expression))

/-- The name a definition begins with. -/
def functionName : Part String := .text "function" *> gap *> rule .variable <* someGap

/-- The parameters of a definition, in parentheses. -/
def parameterList : Part (Option (List String)) :=
  .char '(' *> someBlanks *> .optional (rule .parameters) <* someBlanks <* .char ')'

/-- The body of a definition, in braces. -/
def functionBody : Part (List Node) :=
  someBlanks *> .char '{' *> someBlanks *> rule .functionStatements <* someBlanks <* .char '}'

/-- A function definition. -/
def functionDef : Part Node :=
  .map (fun (name, params, body) => .func name (params.getD []) body)
    (.pair functionName (.pair parameterList functionBody))

/-- A return statement. -/
def returnStatement : Part Node := .map .ret (.text "return" *> blanks *> rule .expression)

/-- Statements of one kind with a semicolon after each. -/
def terminated (statement : Part Node) : Part (List Node) :=
  .many (someBlanks *> statement <* someBlanks <* .char ';' <* someBlanks)

/-! ## Rules -/

/-- The rules. An assignment is tried first: an expression would match the variable it begins with.
A floating-point literal is tried before an integer literal for the same reason. -/
def rules : Grammar Name Result
  | .intLiteral => ⟨.memo, Grammar.intLiteral⟩
  | .floatLiteral => ⟨.memo, Grammar.floatLiteral⟩
  | .number => ⟨.memo, .first [rule .floatLiteral, rule .intLiteral]⟩
  | .variable => ⟨.memo, .lexeme [.one isNameStart, .many isNamePart]⟩
  | .atom =>
    ⟨.memo, .first [parenthesized, .map (fun name => .var name) (rule .variable), rule .number]⟩
  | .primary => ⟨.grow, .first [functionCall, rule .atom]⟩
  | .factor => ⟨.memo, .first [negation, rule .primary]⟩
  | .term =>
    ⟨.grow, .first [spacedBinary (rule .term) multiplicative (rule .factor), rule .factor]⟩
  | .expression =>
    ⟨.grow, .first [spacedBinary (rule .expression) additive (rule .term), rule .term]⟩
  | .arguments => ⟨.memo, commaSeparated (rule .expression)⟩
  | .parameters => ⟨.memo, commaSeparated (rule .variable)⟩
  | .assignment => ⟨.memo, assignment⟩
  | .functionDef => ⟨.memo, functionDef⟩
  | .statement =>
    ⟨.memo, .first [rule .assignment, rule .functionDef, rule .expression]⟩
  | .functionStatement => ⟨.memo, .first [returnStatement, rule .statement]⟩
  | .statements => ⟨.memo, terminated (rule .statement)⟩
  | .functionStatements => ⟨.memo, terminated (rule .functionStatement)⟩

/-- The whole input: statements. -/
def whole : Part (List Node) := rule .statements <* .endOfInput

end CalcScript.Grammar.Program
