import CalcScript.Grammar.Number

/-!
# The grammar of arithmetic expressions

Sums of products of factors, with parentheses and a minus sign before an atom. The input has no
blanks in it: they are taken out before.
-/

namespace CalcScript.Grammar.Arithmetic

open Packrat

/-- The rules of the grammar. -/
inductive Name where
  | intLiteral
  | floatLiteral
  | number
  | atom
  | factor
  | term
  | expression
  deriving DecidableEq, Repr

/-- Every rule gives a node. -/
abbrev Result (_ : Name) : Type := Node

/-- A form of this grammar. -/
abbrev Part := Form Name Result

/-- A call of a rule. -/
abbrev rule (r : Name) : Part (Result r) := .call r

/-- An expression in parentheses. -/
def parenthesized : Part Node := .char '(' *> rule .expression <* .char ')'

/-- An atom with a minus sign before it. -/
def negation : Part Node := .map Node.negative (.char '-' *> rule .atom)

/-- The rules. A floating-point literal is tried before an integer literal, which would match the
digits before its point. -/
def rules : Grammar Name Result
  | .intLiteral => ⟨.memo, Grammar.intLiteral⟩
  | .floatLiteral => ⟨.memo, Grammar.floatLiteral⟩
  | .number => ⟨.memo, .first [rule .floatLiteral, rule .intLiteral]⟩
  | .atom => ⟨.memo, .first [parenthesized, rule .number]⟩
  | .factor => ⟨.memo, .first [negation, rule .atom]⟩
  | .term =>
    ⟨.grow, .first
      [binary (rule .term) (oneOf multiplicative) (rule .factor), rule .factor]⟩
  | .expression =>
    ⟨.grow, .first
      [binary (rule .expression) (oneOf additive) (rule .term), rule .term]⟩

/-- The whole input: one expression. -/
def whole : Part Node := rule .expression <* .endOfInput

end CalcScript.Grammar.Arithmetic
