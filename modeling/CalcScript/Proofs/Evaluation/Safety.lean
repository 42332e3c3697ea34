import CalcScript.Proofs.Evaluation.Invariant
import CalcScript.Proofs.Grammar.ProgramTrees

/-!
# Programs end in an orderly way

What a source is read as never comes to a node without a meaning: not in the program itself, and not
in the functions that programs before it have left in the scopes.

> `readProgram_safe`: on every machine that programs have led to, a program ends without a value or
> with a fault that names what has gone wrong.

The invariant behind it (`programInvariant`) is that the nodes to be evaluated are statements, or
lists of them, and that the bodies of function values are such lists.
-/

namespace CalcScript

open Grammar.Program

/-- The fault says what a program has done wrong, and is not about a node that has no meaning. -/
def Fault.IsSpecific : Fault → Prop
  | .undefinedVariable _ => True
  | .operandKind _ _ => True
  | .notCallable _ => True
  | .arity _ _ => True
  | .divisionByZero => True
  | .recursionDepth => True
  | .meaningless _ => False
  | .notArithmetic _ => False

theorem intOperation_specific {op : Operator} {a b : Int} {fault : Fault}
    (h : intOperation op a b = .error fault) : fault.IsSpecific := by
  cases op with
  | plus => cases h
  | minus => cases h
  | times => cases h
  | divide =>
    rw [intOperation] at h
    by_cases hb : b = 0
    · rw [if_pos hb] at h
      cases h
      trivial
    · rw [if_neg hb] at h
      cases h

theorem operate_specific {op : Operator} {a b : Value} {fault : Fault}
    (h : operate op a b = .error fault) : fault.IsSpecific := by
  unfold operate at h
  split at h
  · split at h
    · cases h
    · next hint =>
      cases h
      exact intOperation_specific hint
  · split at h
    · cases h
    · cases h
      trivial
    · cases h
      trivial

/-- An operation gives a number. -/
theorem operate_number {op : Operator} {a b v : Value} (h : operate op a b = .ok v) :
    (∃ n, v = .int n) ∨ ∃ x, v = .float x := by
  unfold operate at h
  split at h
  · split at h
    · next n _ =>
      cases h
      exact .inl ⟨n, rfl⟩
    · cases h
  · split at h
    · cases h
      exact .inr ⟨_, rfl⟩
    · cases h
    · cases h

/-! ## The invariant of programs -/

/-- A statement or a list of statements. -/
def IsCode (node : Node) : Prop :=
  IsStatement true node ∨ ∃ body, node = .stmts body ∧ ∀ s ∈ body, IsStatement true s

/-- The value is no function, or one that can be written in a program. -/
def IsWritable : Value → Prop
  | .function params body => (∀ p ∈ params, IsName p) ∧ ∀ s ∈ body, IsStatement true s
  | _ => True

theorem Grammar.Program.IsExpression.isCode {e : Node} (h : IsExpression e) : IsCode e :=
  .inl (.expression h)

theorem IsCode.expression {e : Node} (h : IsCode e) (hassign : ∀ name v, e ≠ .assign name v)
    (hfunc : ∀ name params body, e ≠ .func name params body) (hret : ∀ v, e ≠ .ret v)
    (hstmts : ∀ body, e ≠ .stmts body) : IsExpression e := by
  rcases h with h | ⟨body, rfl, hbody⟩
  · cases h with
    | expression h => exact h
    | assign hname h => exact absurd rfl (hassign _ _)
    | func hname hparams hbody => exact absurd rfl (hfunc _ _ _)
    | ret h => exact absurd rfl (hret _)
  · exact absurd rfl (hstmts body)

/-- What holds of nodes, values and faults when programs are evaluated. -/
def programInvariant : Invariant where
  ofNode := IsCode
  ofValue := IsWritable
  ofFault := Fault.IsSpecific
  int _ := trivial
  float _ := trivial
  var _ := trivial
  operands h := by
    cases h.expression nofun nofun nofun nofun with
    | bin hl hr => exact ⟨hl.isCode, hr.isCode⟩
  callee h := by
    cases h.expression nofun nofun nofun nofun with
    | call hf hs => exact ⟨hf.isCode, fun e he => (hs e he).isCode⟩
  assigned h := by
    rcases h with h | ⟨body, heq, _⟩
    · cases h with
      | expression h => cases h
      | assign hname h => exact h.isCode
    · cases heq
  returned h := by
    rcases h with h | ⟨body, heq, _⟩
    · cases h with
      | expression h => cases h
      | ret h => exact h.isCode
    · cases heq
  statements h := by
    rcases h with h | ⟨body, heq, hbody⟩
    · cases h with
      | expression h => cases h
    · cases heq
      exact fun s hs => .inl (hbody s hs)
  defined h := by
    rcases h with h | ⟨body, heq, _⟩
    · cases h with
      | expression h => cases h
      | func hname hparams hbody => exact ⟨hparams, hbody⟩
    · cases heq
  bare h := by
    cases h.expression nofun nofun nofun nofun
  body h := .inr ⟨_, rfl, h.2⟩
  null := trivial
  count _ _ := trivial
  operate _ _ h := by
    rcases operate_number h with ⟨n, rfl⟩ | ⟨x, rfl⟩
    · trivial
    · trivial
  operateFault _ _ h := operate_specific h
  notCallable _ := trivial
  arity _ _ := trivial
  recursionDepth := trivial

/-! ## Programs one after the other -/

/-- The machine is one that programs have led to, from the start on. What has been printed and put
on record may have been taken away, or added to, in between, and the record watched or not. -/
inductive Machine.Reached (builtins : List Builtin) : Machine → Prop
  | start : Reached builtins (.start builtins)
  | evaluated {m : Machine} {source : String} {body : List Node} (h : Reached builtins m)
      (hread : readProgram source = .ok body) (budget : Nat) :
      Reached builtins (Node.eval budget (.stmts body) m).2
  | observed {m : Machine} (h : Reached builtins m) (output : String) (events : List Event)
      (recordDepth : Nat) : Reached builtins { m with output, events, recordDepth }

theorem isCode_of_isProgram {body : List Node} (h : IsProgram body) : IsCode (.stmts body) :=
  .inr ⟨body, rfl, fun s hs => (h s hs).inFunction⟩

/-- The values of a machine that programs have led to can be written in programs. -/
theorem Machine.Reached.ofMachine {builtins : List Builtin} {m : Machine}
    (h : Machine.Reached builtins m) : programInvariant.OfMachine m := by
  induction h with
  | start => exact Invariant.ofMachine_start fun b _ => trivial
  | evaluated _ hread budget ih =>
    exact (programInvariant.eval_ends budget (isCode_of_isProgram (readProgram_isProgram hread))
      ih).machine
  | observed _ output events recordDepth ih => exact ih

/-- A run ends like the evaluation it is, but for what is put on record. -/
theorem Machine.run_eq (m : Machine) (node : Node) :
    ∃ events, m.run node = ((Node.eval evaluationBudget node m).1,
      { (Node.eval evaluationBudget node m).2 with events }) := by
  unfold Machine.run
  split
  · next n heq =>
    rw [heq]
    exact ⟨_, rfl⟩
  · exact ⟨_, rfl⟩

theorem Machine.Reached.run {builtins : List Builtin} {m : Machine} {source : String}
    {body : List Node} (h : Machine.Reached builtins m) (hread : readProgram source = .ok body) :
    Machine.Reached builtins (m.run (.stmts body)).2 := by
  obtain ⟨events, heq⟩ := m.run_eq (.stmts body)
  rw [heq]
  exact (h.evaluated hread evaluationBudget).observed _ events _

/-- Statements none of which is a return statement have no value. -/
theorem runStatements_eq_null {eval : Node → Machine → Ending Value} {body : List Node}
    (hbody : ∀ s ∈ body, s.isRet = false) {m m' : Machine} {v : Value}
    (h : runStatements eval body m = (.ok v, m')) : v = .null := by
  induction body generalizing m with
  | nil =>
    cases h
    rfl
  | cons s body ih =>
    obtain ⟨hs, hbody⟩ := List.forall_mem_cons.mp hbody
    rw [runStatements] at h
    cases heval : eval s m with
    | mk result n =>
      rw [heval] at h
      cases result with
      | error fault => cases h
      | ok w =>
        rw [Ending.andThen_ok, hs] at h
        exact ih hbody h

theorem Grammar.Program.IsStatement.isRet_eq_false {s : Node} (h : IsStatement false s) :
    s.isRet = false := by
  cases h with
  | expression h => cases h <;> rfl
  | assign hname h => rfl
  | func hname hparams hbody => rfl

/-- Statements behind others go on where these have ended. -/
theorem runStatements_append {eval : Node → Machine → Ending Value} {body : List Node}
    (hbody : ∀ s ∈ body, s.isRet = false) (body' : List Node) (m : Machine) :
    runStatements eval (body ++ body') m =
      (runStatements eval body m).andThen fun _ n => runStatements eval body' n := by
  induction body generalizing m with
  | nil => rfl
  | cons s body ih =>
    obtain ⟨hs, hbody⟩ := List.forall_mem_cons.mp hbody
    rw [List.cons_append, runStatements, runStatements, hs]
    cases hrun : eval s m with
    | mk result n =>
      cases result with
      | error fault => rfl
      | ok v => exact ih hbody n

/-- A program behind another that has not faulted goes on where it has ended. -/
theorem Grammar.Program.IsProgram.eval_append {body : List Node} (hbody : IsProgram body)
    (body' : List Node) {budget : Nat} {m n : Machine} {v : Value}
    (h : Node.eval budget (.stmts body) m = (.ok v, n)) :
    v = .null ∧
      Node.eval budget (.stmts (body ++ body')) m = Node.eval budget (.stmts body') n := by
  have hret : ∀ s ∈ body, s.isRet = false := fun s hs => (hbody s hs).isRet_eq_false
  cases budget with
  | zero =>
    rw [Node.eval] at h
    cases h
  | succ budget =>
    rw [Node.eval] at h
    refine ⟨runStatements_eq_null hret h, ?_⟩
    rw [Node.eval, runStatements_append hret, h, Node.eval]
    rfl

/-- The result of a program: no value, or a fault that says what the program has done wrong. -/
def IsProgramResult (result : Except Fault Value) : Prop :=
  result = .ok .null ∨ ∃ fault : Fault, fault.IsSpecific ∧ result = .error fault

theorem Grammar.Program.IsProgram.eval_isProgramResult {body : List Node} (hbody : IsProgram body)
    {builtins : List Builtin} {m : Machine} (hm : Machine.Reached builtins m) (budget : Nat) :
    IsProgramResult (Node.eval budget (.stmts body) m).1 := by
  have hends := programInvariant.eval_ends budget (isCode_of_isProgram hbody) hm.ofMachine
  cases heval : Node.eval budget (.stmts body) m with
  | mk result m' =>
    rw [heval] at hends
    cases result with
    | error fault => exact .inr ⟨fault, hends.fault fault rfl, rfl⟩
    | ok v =>
      cases budget with
      | zero => rw [Node.eval] at heval; cases heval
      | succ budget =>
        rw [Node.eval] at heval
        rw [runStatements_eq_null (fun s hs => (hbody s hs).isRet_eq_false) heval]
        exact .inl rfl

/-- **Programs end in an orderly way.** What a source is read as is a program: a list of statements
none of which is a return statement, with literals in range, names that are names, expressions as
operands, and return statements only in the bodies of functions. On every machine that programs have
led to, it ends without a value or with a fault that says what it has done wrong. -/
theorem readProgram_safe {source : String} {body : List Node}
    (hread : readProgram source = .ok body) :
    IsProgram body ∧
    ∀ builtins m, Machine.Reached builtins m →
      (∀ budget, IsProgramResult (Node.eval budget (.stmts body) m).1) ∧
      IsProgramResult (m.run (.stmts body)).1 := by
  have hbody := readProgram_isProgram hread
  refine ⟨hbody, fun builtins m hm => ⟨hbody.eval_isProgramResult hm, ?_⟩⟩
  obtain ⟨events, heq⟩ := m.run_eq (.stmts body)
  rw [heq]
  exact hbody.eval_isProgramResult hm evaluationBudget

/-- A program that calls the function that another program has defined, and this calls a number. -/
theorem readProgram_safe_storedFunction :
    ∃ body body', readProgram "function f(n) { return n(1); };" = .ok body ∧
      readProgram "x = f(-2);" = .ok body' ∧
      IsProgram body' ∧
      IsProgramResult (((Machine.start []).run (.stmts body)).2.run (.stmts body')).1 := by
  have hdefines : (readProgram "function f(n) { return n(1); };").isOk = true := by
    decide +kernel
  have hcalls : (readProgram "x = f(-2);").isOk = true := by decide +kernel
  cases hread : readProgram "function f(n) { return n(1); };" with
  | error r => rw [hread] at hdefines; cases hdefines
  | ok body =>
    cases hread' : readProgram "x = f(-2);" with
    | error r => rw [hread'] at hcalls; cases hcalls
    | ok body' =>
      obtain ⟨hbody', hresult⟩ := readProgram_safe hread'
      exact ⟨body, body', rfl, rfl, hbody', (hresult [] _ (Machine.Reached.start.run hread)).2⟩

end CalcScript
