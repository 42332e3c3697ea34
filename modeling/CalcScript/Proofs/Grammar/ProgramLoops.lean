import CalcScript.Grammar.Program
import CalcScript.Proofs.Grammar.Literals
import CalcScript.Proofs.Source.Settled

/-!
# Programs, read by loops

The grammar of programs without left recursion: a sum is a product followed by any number of
operators and products, a product is built alike from factors, and a primary is an atom followed by
any number of argument lists. What is read is folded to the left. All other rules keep their form.

> `readProgram_settled`: reading a program with memo tables and growing matches is reading it by
> these loops, with nothing recorded; unless it ends in a failure, which takes digits that the host
> does not convert.
-/

namespace CalcScript.Grammar.Program

open Packrat

/-- An operand behind an operator, with blanks allowed around the operator. -/
def operand (ops : List Operator) (right : Part Node) : Part (Operator × Node) :=
  .pair (someBlanks *> oneOf ops <* someBlanks) right

/-- Operands with operators between them, folded to the left. -/
def operandLoop (left : Part Node) (ops : List Operator) : Part Node :=
  .leftFold (fun (l, op, r) => .bin op l r) left (operand ops left)

/-- The rules with a loop for each rule that calls itself first, and a check of the digits of integer
literals. None of them records anything. -/
def checkedLoops (error? : String → Option String) : Grammar Name Result
  | .intLiteral => ⟨.plain, checkedInt error?⟩
  | .primary =>
    ⟨.plain, .leftFold (fun (callee, args) => .call callee (args.getD [])) (rule .atom)
      argumentList⟩
  | .term => ⟨.plain, operandLoop (rule .factor) multiplicative⟩
  | .expression => ⟨.plain, operandLoop (rule .term) additive⟩
  | r => ⟨.plain, (rules r).form⟩

/-- The loops with the check of the host. -/
abbrev loops : Grammar Name Result := checkedLoops conversionError?

/-- The layers of the grammar. Only lists of statements may be empty. -/
def layers : Layers Name where
  takes
    | .statements => false
    | .functionStatements => false
    | _ => true
  rank
    | .intLiteral => 0
    | .floatLiteral => 0
    | .variable => 0
    | .functionDef => 0
    | .number => 1
    | .parameters => 1
    | .assignment => 1
    | .atom => 2
    | .primary => 3
    | .factor => 4
    | .term => 5
    | .expression => 6
    | .arguments => 7
    | .statement => 7
    | .functionStatement => 8
    | .statements => 8
    | .functionStatements => 9
  height := 10
  rank_lt r := by cases r <;> decide

theorem loops_layered {error? : String → Option String} : (checkedLoops error?).Layered layers where
  takes r _ := by cases r <;> first | rfl | contradiction
  starts r := by cases r <;> rfl

theorem rules_unroll : rules.Unrolls layers loops where
  takes := (@loops_layered conversionError?).takes
  same r hr := by cases r <;> first | exact ⟨rfl, rfl⟩ | exact absurd rfl hr
  loop r hr := by
    cases r with
    | primary => exact ⟨_, _, _, _, rfl, rfl, rfl, rfl, rfl, fun _ _ => rfl⟩
    | term => exact ⟨_, _, _, _, rfl, rfl, rfl, rfl, rfl, fun _ _ => rfl⟩
    | expression => exact ⟨_, _, _, _, rfl, rfl, rfl, rfl, rfl, fun _ _ => rfl⟩
    | _ => cases hr

/-- With no check at all, the loops read alike unless the host complains about digits. -/
theorem loops_trust (code : Array Char) :
    loops.Trusts (checkedLoops noError) (Unconvertible code.toList) code := by
  intro r
  cases r with
  | intLiteral => exact .inr fun _ _ _ => checkedInt_trusts
  | _ => exact .inl ⟨rfl, rfl⟩

/-- Reads a program by recursive descent, with nothing recorded and a check of the digits of integer
literals: its statements and where they end, or a failure, and in either case the furthest position
at which anything has failed; or an error of the check. -/
def descend (error? : String → Option String) (code : List Char) : Reading (List Node) :=
  (checkedLoops error?).readForm loops_layered code.toArray whole 0

/-- The descent that asks for no conversion comes to no error. -/
theorem descend_noError (code : List Char) (message : String) :
    descend noError code ≠ .error message := by
  have htrusts : (checkedLoops noError).Trusts (checkedLoops noError) (fun _ => False)
      code.toArray := by
    intro r
    cases r with
    | intLiteral => exact .inr fun _ _ _ => checkedInt_noError_trusts
    | _ => exact .inl ⟨rfl, rfl⟩
  rcases Grammar.readForm_trusts htrusts loops_layered loops_layered whole rfl with
    ⟨_, _, hfalse⟩ | ⟨hne, -⟩
  · exact hfalse.elim
  · exact hne message

end CalcScript.Grammar.Program

namespace CalcScript

/-- A definition whose last statement is not finished, with a call of a call in it. -/
def unfinishedDefinition : String := "x = 1; function f(n) { g(n)(2) - 3*n };"

end CalcScript
