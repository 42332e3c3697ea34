import CalcScript.Evaluation.Calculator
import CalcScript.Proofs.Evaluation.Words
import CalcScript.Proofs.Grammar.ArithmeticPrograms
import CalcScript.Proofs.Source.Unconverted

/-!
# What a calculation faults for

The operators of a calculation are those on values of all kinds (`calculated`). Their operands are
floating-point numbers throughout, so none of their faults can come up: not for a division by zero,
and not for an operand of the wrong kind.

> `calculations_fault`: a calculation faults exactly if an operand is no number and no operator, for
> the leftmost such operand; otherwise it gives a floating-point number. What an arithmetic source
> is read as has no such operand.
-/

namespace CalcScript

/-! ## Operands -/

namespace Node

/-- The node is a literal. -/
def isLiteral : Node → Bool
  | .int _ => true
  | .float _ => true
  | _ => false

/-- What operators are applied to, from left to right, when one walks down from a node through
operators. -/
def operands : Node → List Node
  | .bin _ l r => l.operands ++ r.operands
  | node => [node]

/-- The leftmost operand that is no literal. -/
def misplaced? (e : Node) : Option Node := e.operands.find? (!·.isLiteral)

theorem misplaced?_bin (op : Operator) (l r : Node) :
    (bin op l r).misplaced? = l.misplaced?.or r.misplaced? := List.find?_append

theorem height_pos (e : Node) : 0 < e.height := by
  cases e <;> exact Nat.succ_pos _

end Node

/-! ## Evaluation -/

/-- The value of an arithmetic expression, computed with the operators on values of all kinds. -/
def calculated : Nat → Node → Except Fault Value
  | 0, _ => .error .recursionDepth
  | _ + 1, .int n => .ok (.float (Floating.ofInt n).toDouble.toSingle)
  | _ + 1, .float x => .ok (.float x)
  | budget + 1, .bin op l r =>
    (calculated budget l).bind fun a => (calculated budget r).bind fun b => operate op a b
  | _ + 1, node => .error (.notArithmetic node)

/-- Operators on floating-point numbers do not fault. -/
theorem operate_float (op : Operator) (x y : Floating) :
    operate op (.float x) (.float y) = .ok (.float (floatOperation op x y)) := rfl

/-- The operators on values of all kinds give what those on floating-point numbers give. -/
theorem calculated_eq (budget : Nat) (e : Node) :
    calculated budget e = (arithmeticValue budget e).map .float := by
  induction budget generalizing e with
  | zero => rfl
  | succ budget ih =>
    cases e with
    | bin op l r =>
      rw [calculated, arithmeticValue, ih l, ih r]
      cases arithmeticValue budget l with
      | error fault => rfl
      | ok x =>
        cases arithmeticValue budget r with
        | error fault => rfl
        | ok y => exact operate_float op x y
    | _ => rfl

/-- A result that is a fault for a misplaced operand, or a floating-point number if there is no such
operand. -/
def IsCalculation (misplaced : Option Node) (result : Except Fault Value) : Prop :=
  match misplaced with
  | some d => result = .error (.notArithmetic d)
  | none => ∃ x, result = .ok (.float x)

/-- The left operand is evaluated first, so its misplaced operand is the one the fault names. -/
theorem IsCalculation.bin {misplaced misplaced' : Option Node} {result result' : Except Fault Value}
    (op : Operator) (h : IsCalculation misplaced result) (h' : IsCalculation misplaced' result') :
    IsCalculation (misplaced.or misplaced')
      (result.bind fun a => result'.bind fun b => operate op a b) := by
  cases misplaced with
  | some d =>
    obtain rfl : result = .error (.notArithmetic d) := h
    exact rfl
  | none =>
    obtain ⟨x, rfl⟩ := h
    cases misplaced' with
    | some d =>
      obtain rfl : result' = .error (.notArithmetic d) := h'
      exact rfl
    | none =>
      obtain ⟨y, rfl⟩ := h'
      exact ⟨floatOperation op x y, operate_float op x y⟩

/-- A calculation that its budget does not cut off faults for the leftmost misplaced operand only. By
induction on the budget. -/
theorem calculated_isCalculation (budget : Nat) (e : Node) :
    IsCalculation e.misplaced? (calculated budget e) ∨
      (calculated budget e = .error .recursionDepth ∧ budget < e.height) := by
  induction budget generalizing e with
  | zero => exact .inr ⟨rfl, e.height_pos⟩
  | succ budget ih =>
    cases e with
    | int n => exact .inl ⟨_, rfl⟩
    | float x => exact .inl ⟨x, rfl⟩
    | bin op l r =>
      rw [Node.misplaced?_bin, calculated, Node.height_bin]
      rcases ih l with hl | ⟨hl, hheight⟩
      · rcases ih r with hr | ⟨hr, hheight⟩
        · exact .inl (hl.bin op hr)
        · rw [hr]
          cases hmisplaced : l.misplaced? with
          | some d =>
            rw [hmisplaced] at hl
            obtain hl : calculated budget l = .error (.notArithmetic d) := hl
            rw [hl]
            exact .inl rfl
          | none =>
            rw [hmisplaced] at hl
            obtain ⟨x, hl⟩ := hl
            rw [hl]
            exact .inr ⟨rfl, by omega⟩
      · rw [hl]
        exact .inr ⟨rfl, by omega⟩
    | _ => exact .inl rfl

/-- The operand of the left operator is the one that is named. -/
example : calculated 3 (.bin .plus (.bin .times (.var "x") (.int 2)) (.bare "y")) =
    .error (.notArithmetic (.var "x")) := rfl

/-! ## Sources -/

theorem Node.misplaced?_eq_none {e : Node} (h : e.isArithmetic = true) : e.misplaced? = none := by
  cases e with
  | bin op l r =>
    obtain ⟨hl, hr⟩ := Bool.and_eq_true_iff.mp h
    rw [misplaced?_bin, misplaced?_eq_none hl, misplaced?_eq_none hr]
    rfl
  | int n => rfl
  | float x => rfl
  | _ => cases h

theorem Grammar.Arithmetic.Derives.isArithmetic {error? : String → Option String} {s : Symbol}
    {w : List Char} {e : Node} (h : Derives error? s w e) : e.isArithmetic = true := by
  induction h with
  | sum _ _ ihl ihr => exact Bool.and_eq_true_iff.mpr ⟨ihl, ihr⟩
  | difference _ _ ihl ihr => exact Bool.and_eq_true_iff.mpr ⟨ihl, ihr⟩
  | product _ _ ihl ihr => exact Bool.and_eq_true_iff.mpr ⟨ihl, ihr⟩
  | quotient _ _ ihl ihr => exact Bool.and_eq_true_iff.mpr ⟨ihl, ihr⟩
  | negation _ ih =>
    rw [Node.isArithmetic_negative]
    exact ih
  | term _ ih => exact ih
  | factor _ ih => exact ih
  | atom _ ih => exact ih
  | parentheses _ ih => exact ih
  | number _ ih => exact ih
  | pointed _ _ => rfl
  | digits _ _ _ => rfl

/-- What an arithmetic source is read as consists of literals and operators. -/
theorem readArithmetic_isArithmetic {source : String} {e : Node}
    (hread : readArithmetic source = .ok e) : e.isArithmetic = true := by
  have hmatches := (readWith_eq_ok_iff Grammar.Arithmetic.rules_unroll
    Grammar.Arithmetic.loops_layered (not_nestedTooDeeply hread)).mp hread
  exact (Grammar.Arithmetic.whole_matches_iff.mp hmatches).isArithmetic

/-- A failure in reading an arithmetic source takes digits that the host does not convert. -/
theorem readArithmetic_failure {source message : String}
    (h : readArithmetic source = .error (.failure message)) :
    Grammar.Unconvertible (withoutBlanks source.toList) message :=
  failure_of_trusts Grammar.Arithmetic.rules_unroll Grammar.Arithmetic.loops_layered
    (@Grammar.Arithmetic.loops_layered Grammar.noError) rfl (Grammar.Arithmetic.loops_trust _) h

/-- A source is rejected, or it is calculated, or its operators are nested more deeply than the
budget allows, or the host does not convert some digits of it. -/
theorem calculate_cases (source : String) :
    (∃ r, calculate source = .error (.unreadable (.rejected r))) ∨
    (∃ x, calculate source = .ok x) ∨
    (calculate source = .error (.fault .recursionDepth) ∧
      ∃ e, readArithmetic source = .ok e ∧ arithmeticBudget < e.height) ∨
    ∃ message, calculate source = .error (.unreadable (.failure message)) ∧
      Grammar.Unconvertible (withoutBlanks source.toList) message := by
  unfold calculate
  cases hread : readArithmetic source with
  | error u =>
    cases u with
    | rejected r => exact .inl ⟨r, rfl⟩
    | failure message => exact .inr (.inr (.inr ⟨message, rfl, readArithmetic_failure hread⟩))
  | ok e =>
    refine .inr ?_
    have hends := calculated_isCalculation arithmeticBudget e
    rw [Node.misplaced?_eq_none (readArithmetic_isArithmetic hread), calculated_eq] at hends
    dsimp only
    cases hvalue : arithmeticValue arithmeticBudget e with
    | ok x => exact .inl ⟨x, rfl⟩
    | error fault =>
      rw [hvalue] at hends
      rcases hends with ⟨x, hx⟩ | ⟨hcut, hheight⟩
      · cases hx
      · cases hcut
        exact .inr (.inl ⟨rfl, e, rfl, hheight⟩)

/-- A failure in reading is one in calculating. -/
theorem calculate_failure {source message : String}
    (h : readArithmetic source = .error (.failure message)) :
    calculate source = .error (.unreadable (.failure message)) := by
  unfold calculate
  rw [h]

end CalcScript
