import CalcScript.Evaluation.Machine
import CalcScript.Evaluation.Operation

/-!
# Evaluation

`Node.eval` gives a node its meaning on a machine and `Value.call` a function its meaning on
arguments. Each draws on a budget for what is nested inside it and faults with `recursionDepth`
when there is none left. The machine comes back in every case, and with every ending of the body of
a function the scope that was entered for it is left again. One place is not covered: the scope is
there before it is on record, and if there is not enough left of the budget to put it on record, it
is the scope of a call that never began, and nothing leaves it.

Statements are evaluated in order. Only a return statement that is itself an element of the list
ends it; one that stands elsewhere gives its value and nothing more.
-/

namespace CalcScript

/-- The end of an evaluation: a value or a fault, and the machine. -/
abbrev Ending (α : Type) := Except Fault α × Machine

/-- Goes on after a value. -/
def Ending.andThen {α β : Type} (ending : Ending α) (next : α → Machine → Ending β) : Ending β :=
  match ending with
  | (.ok a, m) => next a m
  | (.error fault, m) => (.error fault, m)

@[simp] theorem Ending.andThen_ok {α β : Type} (a : α) (m : Machine)
    (next : α → Machine → Ending β) : Ending.andThen (.ok a, m) next = next a m := rfl

/-- The values of some nodes, from left to right. -/
def evalAll (eval : Node → Machine → Ending Value) : List Node → Machine → Ending (List Value)
  | [], m => (.ok [], m)
  | node :: rest, m =>
    (eval node m).andThen fun v m => (evalAll eval rest m).andThen fun vs m => (.ok (v :: vs), m)

/-- Evaluates statements up to the first return statement, which gives its value. -/
def runStatements (eval : Node → Machine → Ending Value) : List Node → Machine → Ending Value
  | [], m => (.ok .null, m)
  | node :: rest, m =>
    (eval node m).andThen fun v m => if node.isRet then (.ok v, m) else runStatements eval rest m

/-- What a built-in function does; `call` is how it calls its arguments. -/
def Builtin.run (call : Value → List Value → Machine → Ending Value) :
    Builtin → List Value → Machine → Ending Value
  | .println, args, m =>
    (.ok .null, m.print (", ".intercalate (args.map Value.text) ++ "\n"))
  | .count, args, m => (.ok (.int args.length), m)
  | .last, args, m => (.ok (args.getLast?.getD .null), m)
  | .apply, [], m => (.error (.arity 1 0), m)
  | .apply, callee :: args, m => call callee args m

mutual

/-- The meaning of a node. -/
def Node.eval : Nat → Node → Machine → Ending Value
  | 0, _, m => (.error .recursionDepth, m)
  | _ + 1, .int n, m => (.ok (.int n), m)
  | _ + 1, .float x, m => (.ok (.float x), m)
  | _ + 1, .var name, m =>
    match m.scope.get? name with
    | some v => (.ok v, m)
    | none => (.error (.undefinedVariable name), m)
  | budget + 1, .bin op l r, m =>
    (Node.eval budget l m).andThen fun a m =>
      (Node.eval budget r m).andThen fun b m => (operate op a b, m)
  | budget + 1, .assign name value, m =>
    (Node.eval budget value m).andThen fun v m => (.ok .null, m.bind name v)
  | _ + 1, .func name params body, m => (.ok .null, m.bind name (.function params body))
  | budget + 1, .call callee args, m =>
    (Node.eval budget callee m).andThen fun f m =>
      (evalAll (Node.eval budget) args m).andThen fun vs m =>
        Value.call budget f vs (m.note (.calling f vs.length))
  | budget + 1, .stmts body, m => runStatements (Node.eval budget) body m
  | budget + 1, .ret value, m => Node.eval budget value m
  | _ + 1, .bare text, m => (.error (.meaningless (.bare text)), m)

/-- The meaning of a value that is called with arguments. -/
def Value.call : Nat → Value → List Value → Machine → Ending Value
  | 0, _, _, m => (.error .recursionDepth, m)
  | budget + 1, .function params body, args, m =>
    if args.length = params.length then
      if budget < m.recordDepth then (.error .recursionDepth, m.enter)
      else
        let (result, inside) := Node.eval budget (.stmts body) (m.push.bindAll (params.zip args))
        (result, inside.pop)
    else (.error (.arity params.length args.length), m)
  | budget + 1, .builtin b, args, m => Builtin.run (Value.call budget) b args m
  | _ + 1, v, _, m => (.error (.notCallable v.kind), m)

end

/-- How deeply evaluations may be nested: a thousand calls, less those that lead to an evaluation. -/
def evaluationBudget : Nat := 983

/-- Evaluates a node. -/
def Machine.run (m : Machine) (node : Node) : Ending Value :=
  match Node.eval evaluationBudget node m with
  | (.error .recursionDepth, m) => (.error .recursionDepth, m.note (.limit m.depth))
  | ending => ending

end CalcScript
