import CalcScript.Evaluation.Evaluate

/-!
# More budget changes no ending

An evaluation that its budget does not cut off ends alike with any larger budget: same value or
fault, same machine.

> `Node.eval_mono`: what is evaluated within a budget is evaluated alike within every larger one.

So two budgets that both suffice agree (`Node.eval_agree`), and what an evaluation comes to does not
depend on them.
-/

namespace CalcScript

variable {α β : Type}

/-- The evaluation has not been cut off by its budget. -/
def Ending.Finished (ending : Ending α) : Prop := ending.1 ≠ .error .recursionDepth

/-- The fault is that of a budget that is used up. -/
def Fault.isRecursionDepth : Fault → Bool
  | .recursionDepth => true
  | _ => false

theorem Fault.isRecursionDepth_iff (fault : Fault) :
    fault.isRecursionDepth = true ↔ fault = .recursionDepth := by
  cases fault <;> simp [isRecursionDepth]

instance (ending : Ending α) : Decidable ending.Finished :=
  match ending with
  | (.ok _, _) => .isTrue fun h => by cases h
  | (.error fault, _) => decidable_of_iff (¬fault.isRecursionDepth = true) (by
      rw [Fault.isRecursionDepth_iff, Ending.Finished, Ne, Except.error.injEq])

theorem Ending.andThen_mono {ending ending' : Ending α} {next next' : α → Machine → Ending β}
    (hfirst : ending.Finished → ending' = ending)
    (hnext : ∀ a m, (next a m).Finished → next' a m = next a m)
    (h : (ending.andThen next).Finished) : ending'.andThen next' = ending.andThen next := by
  obtain ⟨result, m⟩ := ending
  cases result with
  | error fault =>
    have hfinished : Ending.Finished ((.error fault, m) : Ending α) := fun he => h (by
      cases he
      rfl)
    rw [hfirst hfinished]
    rfl
  | ok a =>
    rw [hfirst (fun he => by cases he)]
    exact hnext a m h

section Lists

variable {eval eval' : Node → Machine → Ending Value}

theorem evalAll_mono (heval : ∀ node m, (eval node m).Finished → eval' node m = eval node m) :
    ∀ (nodes : List Node) (m : Machine), (evalAll eval nodes m).Finished →
      evalAll eval' nodes m = evalAll eval nodes m := by
  intro nodes
  induction nodes with
  | nil => intro m _; rfl
  | cons node nodes ih =>
    intro m h
    exact Ending.andThen_mono (heval node m)
      (fun v m hn => Ending.andThen_mono (ih m) (fun _ _ _ => rfl) hn) h

theorem runStatements_mono
    (heval : ∀ node m, (eval node m).Finished → eval' node m = eval node m) :
    ∀ (body : List Node) (m : Machine), (runStatements eval body m).Finished →
      runStatements eval' body m = runStatements eval body m := by
  intro body
  induction body with
  | nil => intro m _; rfl
  | cons node body ih =>
    intro m h
    refine Ending.andThen_mono (heval node m) (fun v m hn => ?_) h
    by_cases hret : node.isRet = true
    · rw [if_pos hret, if_pos hret]
    · rw [if_neg hret] at hn
      rw [if_neg hret, if_neg hret]
      exact ih m hn

theorem Builtin.run_mono {call call' : Value → List Value → Machine → Ending Value}
    (hcall : ∀ f args m, (call f args m).Finished → call' f args m = call f args m) (b : Builtin)
    (args : List Value) (m : Machine) (h : (b.run call args m).Finished) :
    b.run call' args m = b.run call args m := by
  cases b with
  | println => rfl
  | count => rfl
  | last => rfl
  | apply =>
    cases args with
    | nil => rfl
    | cons callee args => exact hcall callee args m h

end Lists

/-- One more unit of budget changes neither what is evaluated nor what is called. -/
theorem eval_and_call_succ (budget : Nat) :
    (∀ node m, (Node.eval budget node m).Finished →
      Node.eval (budget + 1) node m = Node.eval budget node m) ∧
    (∀ f args m, (Value.call budget f args m).Finished →
      Value.call (budget + 1) f args m = Value.call budget f args m) := by
  induction budget with
  | zero =>
    constructor
    · intro node m h
      rw [Node.eval] at h
      exact absurd rfl h
    · intro f args m h
      rw [Value.call] at h
      exact absurd rfl h
  | succ budget ih =>
    obtain ⟨heval, hcall⟩ := ih
    constructor
    · intro node m h
      cases node with
      | int n => rfl
      | float x => rfl
      | var name => rw [Node.eval, Node.eval]
      | bin op l r =>
        rw [Node.eval] at h
        rw [Node.eval, Node.eval]
        exact Ending.andThen_mono (heval l m)
          (fun a m hn => Ending.andThen_mono (heval r m) (fun _ _ _ => rfl) hn) h
      | call callee args =>
        rw [Node.eval] at h
        rw [Node.eval, Node.eval]
        refine Ending.andThen_mono (heval callee m) (fun f m hn => ?_) h
        exact Ending.andThen_mono (evalAll_mono heval args m) (fun vs m hn => hcall f vs _ hn) hn
      | assign name value =>
        rw [Node.eval] at h
        rw [Node.eval, Node.eval]
        exact Ending.andThen_mono (heval value m) (fun _ _ _ => rfl) h
      | ret value =>
        rw [Node.eval] at h
        rw [Node.eval, Node.eval]
        exact heval value m h
      | stmts body =>
        rw [Node.eval] at h
        rw [Node.eval, Node.eval]
        exact runStatements_mono heval body m h
      | func name params body => rfl
      | bare text => rfl
    · intro f args m h
      cases f with
      | null => rfl
      | int n => rfl
      | float x => rfl
      | function params body =>
        rw [Value.call] at h
        rw [Value.call, Value.call]
        by_cases hlen : args.length = params.length
        · rw [if_pos hlen] at h
          rw [if_pos hlen, if_pos hlen]
          by_cases hbudget : budget < m.recordDepth
          · rw [if_pos hbudget] at h
            exact absurd rfl h
          · rw [if_neg hbudget] at h
            rw [if_neg hbudget, if_neg (fun hlt => hbudget (Nat.lt_of_succ_lt hlt))]
            dsimp only
            rw [heval (.stmts body) _ h]
        · rw [if_neg hlen, if_neg hlen]
      | builtin b =>
        rw [Value.call] at h
        rw [Value.call, Value.call]
        exact Builtin.run_mono hcall b args m h

/-- What is evaluated within a budget is evaluated alike within every larger one. -/
theorem Node.eval_mono {budget budget' : Nat} (hle : budget ≤ budget') {node : Node} {m : Machine}
    (h : (Node.eval budget node m).Finished) :
    Node.eval budget' node m = Node.eval budget node m := by
  induction hle with
  | refl => rfl
  | step _ ih => rw [(eval_and_call_succ _).1 node m (ih.symm ▸ h), ih]

/-- Two budgets that both suffice agree. -/
theorem Node.eval_agree {budget budget' : Nat} {node : Node} {m : Machine}
    (h : (Node.eval budget node m).Finished) (h' : (Node.eval budget' node m).Finished) :
    Node.eval budget node m = Node.eval budget' node m := by
  rcases Nat.le_total budget budget' with hle | hle
  · exact (Node.eval_mono hle h).symm
  · exact Node.eval_mono hle h'

end CalcScript
