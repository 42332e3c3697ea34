import CalcScript.Proofs.Evaluation.Budget
import CalcScript.Proofs.Evaluation.TwoRuns
import Mathlib.Order.Defs.Unbundled

/-!
# Evaluation and the scopes below

Evaluation reads and writes the current scope alone. The scopes below it have no influence: two
machines with equal current scopes come to the same ending, whatever is below them, whatever has
been printed and put on record before. At the ending they are there again, with one scope above them
as before; the exception is an evaluation that is cut off where a scope is put on record.

> `Node.eval_alike`: an evaluation on two machines with equal current scopes gives the same result,
> the same text and the same scopes above those that were below.
> `Node.eval_confined`: the scopes below make no difference, and are there at the end.

A call enters a scope and leaves it again, so what is below the scope inside is the caller's scope
on top of the caller's. That is why the first statement is about all machines with equal current
scopes, and not about one stack of scopes and its top.
-/

namespace CalcScript

variable {α β : Type}

/-! ## Equal scopes -/

/-- Equal scopes correspond, for all nodes and values. -/
def Correspondence.equality : Correspondence where
  ofNode _ := True
  ofValue _ := True
  ofFault _ := True
  int _ := trivial
  float _ := trivial
  var _ := trivial
  operands _ := ⟨trivial, trivial⟩
  callee _ := ⟨trivial, fun _ _ => trivial⟩
  assigned _ := trivial
  returned _ := trivial
  statements _ _ _ := trivial
  defined _ := trivial
  bare _ := trivial
  body _ := trivial
  null := trivial
  count _ _ := trivial
  operate _ _ _ := trivial
  operateFault _ _ _ := trivial
  notCallable _ := trivial
  arity _ _ := trivial
  recursionDepth := trivial
  rel := Eq
  get?_eq _ h := by rw [h]
  ofBound _ _ _ := trivial
  set name _ _ v h _ := by rw [h]

/-- An evaluation on two machines with equal current scopes ends alike. -/
theorem Node.eval_alike (budget : Nat) (node : Node) {m₁ m₂ : Machine} (h : m₁.Related Eq m₂) :
    Ending.Related Eq (fun _ => True) m₁ m₂ (Node.eval budget node m₁) (Node.eval budget node m₂) :=
  (Correspondence.equality.eval_and_call_related budget).1 node m₁ m₂ trivial h

/-- At every ending there is one scope in place of the current one, and the scopes below are there
again. -/
theorem Node.eval_leaves (budget : Nat) (node : Node) (m : Machine) :
    ∃ home, (Node.eval budget node m).Leaves (home :: m.below) :=
  (Node.eval_alike budget node ⟨rfl, rfl⟩).leaves

/-- Text is only added, and putting something on record remains what it is. -/
theorem Node.eval_adds (budget : Nat) (node : Node) (m : Machine) :
    (∃ text, (Node.eval budget node m).2.output = m.output ++ text) ∧
      (Node.eval budget node m).2.recordDepth = m.recordDepth := by
  obtain ⟨-, -, tops, _, text, -, h, -⟩ :=
    Node.eval_alike budget node (⟨rfl, rfl⟩ : m.Related Eq m)
  exact ⟨⟨text, h.output⟩, h.recordDepth⟩

/-- What has been printed and put on record before makes no difference to an evaluation. -/
theorem Node.eval_fresh (budget : Nat) (node : Node) (m : Machine) :
    (Node.eval budget node m).1 = (Node.eval budget node m.fresh).1 ∧
      (Node.eval budget node m).2.output =
        m.output ++ (Node.eval budget node m.fresh).2.output ∧
      (Node.eval budget node m).2.fresh = (Node.eval budget node m.fresh).2.fresh := by
  have hstart : m.Related Eq m.fresh := ⟨rfl, rfl⟩
  obtain ⟨hresult, -, tops, tops', text, htops, h, h'⟩ := Node.eval_alike budget node hstart
  have houtput : (Node.eval budget node m.fresh).2.output = "" ++ text := h'.output
  rw [← htops.eq] at h'
  obtain ⟨hscope, hbelow⟩ := List.cons.inj (h.scopes.trans h'.scopes.symm)
  have hrecord := h.recordDepth.trans h'.recordDepth.symm
  refine ⟨hresult, ?_, ?_⟩
  · rw [h.output, houtput, String.empty_append]
  · rw [Machine.fresh, Machine.fresh, hscope, hbelow, hrecord]

/-- A call leaves all scopes as they are, the current one too. -/
theorem Value.call_leaves (budget : Nat) (f : Value) (args : List Value) (m : Machine) :
    (Value.call budget f args m).Leaves m.scopes := by
  induction budget generalizing f args with
  | zero =>
    rw [Value.call]
    exact .inl rfl
  | succ budget ih =>
    cases f with
    | null => exact .inl rfl
    | int n => exact .inl rfl
    | float x => exact .inl rfl
    | function params body =>
      rw [Value.call]
      by_cases hlen : args.length = params.length
      · rw [if_pos hlen]
        by_cases hbudget : budget < m.recordDepth
        · rw [if_pos hbudget]
          exact .inr ⟨rfl, Nat.zero_lt_of_lt hbudget, m.scope, rfl⟩
        · rw [if_neg hbudget]
          obtain ⟨home, hbody⟩ :=
            Node.eval_leaves budget (.stmts body) (m.push.bindAll (params.zip args))
          exact hbody.pop
      · rw [if_neg hlen]
        exact .inl rfl
    | builtin b =>
      rw [Value.call]
      cases b with
      | println => exact .inl rfl
      | count => exact .inl rfl
      | last => exact .inl rfl
      | apply =>
        cases args with
        | nil => exact .inl rfl
        | cons callee args => exact ih callee args

/-! ## What becomes of the current scope -/

/-- The evaluation leaves the scopes that were below, and above them one in a relation to the scope
that was current. -/
def Ending.Replaces (R : Scope → Scope → Prop) (m : Machine) (ending : Ending α) : Prop :=
  ∃ home, R m.scope home ∧ ending.Leaves (home :: m.below)

section Replaces

variable {R : Scope → Scope → Prop} [IsPreorder Scope R] {m : Machine}

theorem Ending.Leaves.replaces {ending : Ending α} (h : ending.Leaves m.scopes) :
    ending.Replaces R m :=
  ⟨m.scope, refl m.scope, h⟩

theorem Ending.Replaces.leaves {ending : Ending α} (h : ending.Replaces Eq m) :
    ending.Leaves m.scopes := by
  obtain ⟨home, rfl, hleaves⟩ := h
  exact hleaves

/-- An evaluation has come to its result without having changed a scope. -/
theorem Ending.Replaces.unchanged (R : Scope → Scope → Prop) [IsPreorder Scope R] (m : Machine)
    (result : Except Fault α) : Ending.Replaces R m (result, m) :=
  Ending.Leaves.replaces (.inl rfl)

theorem Ending.Replaces.andThen {ending : Ending α} {next : α → Machine → Ending β}
    (hfirst : ending.Replaces R m) (hnext : ∀ a n, (next a n).Replaces R n) :
    (ending.andThen next).Replaces R m := by
  obtain ⟨result, n⟩ := ending
  obtain ⟨home, hhome, hleaves⟩ := hfirst
  cases result with
  | error fault => exact ⟨home, hhome, hleaves.error⟩
  | ok a =>
    obtain ⟨home', hhome', hleaves'⟩ := hnext a n
    obtain ⟨rfl, hbelow⟩ := List.cons.inj hleaves.of_ok
    rw [hbelow] at hleaves'
    exact ⟨home', trans_of R hhome hhome', hleaves'⟩

theorem evalAll_replaces {eval : Node → Machine → Ending Value} {nodes : List Node}
    (heval : ∀ node ∈ nodes, ∀ m, (eval node m).Replaces R m) (m : Machine) :
    (evalAll eval nodes m).Replaces R m := by
  induction nodes generalizing m with
  | nil => exact .unchanged R m _
  | cons node nodes ih =>
    obtain ⟨hnode, hnodes⟩ := List.forall_mem_cons.mp heval
    refine (hnode m).andThen fun v n => ?_
    exact (ih hnodes n).andThen fun vs n' => .unchanged R n' _

end Replaces

/-- **Evaluation is confined to the current scope.** The scopes below are the same at every ending
with one scope above them, unless the evaluation is cut off while it is put on record that a scope
was entered: that scope is then left above all others. Without the scopes below the evaluation has
the same result, the same current scope and the same text, unless it is cut off by its budget. -/
theorem Node.eval_confined (budget : Nat) (node : Node) (scope : Scope) (below : List Scope)
    (output : String) (events : List Event) (recordDepth : Nat) :
    (∃ home, (Node.eval budget node ⟨scope, below, output, events, recordDepth⟩).Leaves
      (home :: below)) ∧
    (Node.eval budget node ⟨scope, below, output, events, recordDepth⟩).2.recordDepth =
      recordDepth ∧
    ∀ (budget' : Nat) (output' : String) (events' : List Event),
      (Node.eval budget node ⟨scope, below, output, events, recordDepth⟩).Finished →
      budget ≤ budget' ∨
        (Node.eval budget' node ⟨scope, [], output', events', recordDepth⟩).Finished →
      (Node.eval budget' node ⟨scope, [], output', events', recordDepth⟩).1 =
        (Node.eval budget node ⟨scope, below, output, events, recordDepth⟩).1 ∧
      (Node.eval budget' node ⟨scope, [], output', events', recordDepth⟩).2.scope =
        (Node.eval budget node ⟨scope, below, output, events, recordDepth⟩).2.scope ∧
      (Node.eval budget' node ⟨scope, [], output', events', recordDepth⟩).2.below = [] ∧
      ∃ text,
        (Node.eval budget node ⟨scope, below, output, events, recordDepth⟩).2.output =
          output ++ text ∧
        (Node.eval budget' node ⟨scope, [], output', events', recordDepth⟩).2.output =
          output' ++ text := by
  refine ⟨Node.eval_leaves budget node ⟨scope, below, output, events, recordDepth⟩, ?_, ?_⟩
  · exact (Node.eval_adds budget node ⟨scope, below, output, events, recordDepth⟩).2
  · intro budget' output' events' hfinished hbudget
    have hstart : Machine.Related Eq ⟨scope, below, output, events, recordDepth⟩
        ⟨scope, [], output', events', recordDepth⟩ := ⟨rfl, rfl⟩
    obtain ⟨hresult, -, tops, tops', text, htops, h, h'⟩ := Node.eval_alike budget node hstart
    have halone : (Node.eval budget node ⟨scope, [], output', events', recordDepth⟩).Finished :=
      fun he => hfinished (hresult.trans he)
    have hagree : Node.eval budget' node ⟨scope, [], output', events', recordDepth⟩ =
        Node.eval budget node ⟨scope, [], output', events', recordDepth⟩ := by
      rcases hbudget with hle | hfinished'
      · exact Node.eval_mono hle halone
      · exact Node.eval_agree hfinished' halone
    rw [hagree]
    obtain ⟨home, home', rfl, rfl, rfl⟩ := htops.of_ne hfinished
    exact ⟨hresult.symm, h'.scope_eq.trans h.scope_eq.symm, h'.below_eq, text, h.output, h'.output⟩

/-- A scope with a function that prints its argument and divides it by zero. -/
def failingScope : Scope :=
  (Scope.ofBuiltins [.println]).set "f" (.function ["x"]
    [.call (.var "println") [.var "x"], .ret (.bin .divide (.var "x") (.int 0))])

/-- A call that prints and fails, on top of another scope and without it. -/
theorem Node.eval_confined_failingCall :
    let call := Node.call (.var "f") [.int 7]
    (call.eval 16 ⟨failingScope, [.empty], "> ", [], 7⟩).Finished ∧
    (call.eval 13 ⟨failingScope, [], "", [], 7⟩).Finished ∧
    (call.eval 16 ⟨failingScope, [.empty], "> ", [], 7⟩).2.below = [.empty] ∧
    (call.eval 13 ⟨failingScope, [], "", [], 7⟩).1 =
      (call.eval 16 ⟨failingScope, [.empty], "> ", [], 7⟩).1 := by
  intro call
  have hbelow : (call.eval 16 ⟨failingScope, [.empty], "> ", [], 7⟩).Finished := by
    decide +kernel
  have halone : (call.eval 13 ⟨failingScope, [], "", [], 7⟩).Finished := by decide +kernel
  obtain ⟨⟨home, hleaves⟩, -, hsame⟩ :=
    Node.eval_confined 16 call failingScope [.empty] "> " [] 7
  have hscopes := hleaves.restored (.inl hbelow)
  exact ⟨hbelow, halone, (List.cons.inj hscopes).2, (hsame 13 "" [] hbelow (.inr halone)).1⟩

/-- A call of a function without parameters that is cut off when its scope has been entered. -/
theorem Node.eval_not_confined :
    ¬ ∀ (budget : Nat) (node : Node) (scope : Scope) (below : List Scope) (output : String)
      (events : List Event) (recordDepth : Nat),
      ∃ home, (Node.eval budget node ⟨scope, below, output, events, recordDepth⟩).2.scopes =
        home :: below := by
  intro h
  obtain ⟨home, hscopes⟩ := h 2 (.call (.var "f") [])
    (Scope.empty.set "f" (.function [] [])) [] "" [] 7
  have hlength : (Node.eval 2 (.call (.var "f") [])
      ⟨Scope.empty.set "f" (.function [] []), [], "", [], 7⟩).2.scopes.length = 2 := by
    decide +kernel
  rw [hscopes] at hlength
  cases hlength

end CalcScript
