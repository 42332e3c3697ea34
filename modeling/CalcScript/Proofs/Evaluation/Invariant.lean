import CalcScript.Evaluation.Evaluate

/-!
# Invariants of evaluation

An invariant says something of nodes, of values and of faults, such that evaluating a node of which
it holds, in scopes of values of which it holds, needs nothing else: the parts of the node are such
nodes, the body of a function value is made of such nodes, and operations lead from such values to
such values and faults.

> `Invariant.eval_ends`: evaluation then ends with such a value or such a fault, and in such scopes.

What an invariant asks for is about one node or one operation at a time. That it carries over to all
that is nested inside, to the bodies of functions and to the functions they are called with, is
proved here once.
-/

namespace CalcScript

/-- What holds of nodes, values and faults throughout an evaluation. -/
structure Invariant where
  ofNode : Node → Prop
  ofValue : Value → Prop
  ofFault : Fault → Prop
  int {n : Int} : ofNode (.int n) → ofValue (.int n)
  float {x : Floating} : ofNode (.float x) → ofValue (.float x)
  var {name : String} : ofNode (.var name) → ofFault (.undefinedVariable name)
  operands {op : Operator} {l r : Node} : ofNode (.bin op l r) → ofNode l ∧ ofNode r
  callee {f : Node} {es : List Node} : ofNode (.call f es) → ofNode f ∧ ∀ e ∈ es, ofNode e
  assigned {name : String} {e : Node} : ofNode (.assign name e) → ofNode e
  returned {e : Node} : ofNode (.ret e) → ofNode e
  statements {body : List Node} : ofNode (.stmts body) → ∀ s ∈ body, ofNode s
  defined {name : String} {params : List String} {body : List Node} :
    ofNode (.func name params body) → ofValue (.function params body)
  bare {text : String} : ofNode (.bare text) → ofFault (.meaningless (.bare text))
  body {params : List String} {body : List Node} :
    ofValue (.function params body) → ofNode (.stmts body)
  null : ofValue .null
  count : ofValue (.builtin .count) → ∀ n : Nat, ofValue (.int n)
  operate {op : Operator} {a b v : Value} :
    ofValue a → ofValue b → operate op a b = .ok v → ofValue v
  operateFault {op : Operator} {a b : Value} {fault : Fault} :
    ofValue a → ofValue b → CalcScript.operate op a b = .error fault → ofFault fault
  notCallable (kind : Kind) : ofFault (.notCallable kind)
  arity (expected got : Nat) : ofFault (.arity expected got)
  recursionDepth : ofFault .recursionDepth

namespace Invariant

variable {α β : Type} (I : Invariant)

/-- The invariant holds of all values of the scope. -/
def OfScope (scope : Scope) : Prop := ∀ name v, scope.get? name = some v → I.ofValue v

/-- The invariant holds of all values of all scopes. -/
def OfMachine (m : Machine) : Prop := I.OfScope m.scope ∧ ∀ scope ∈ m.below, I.OfScope scope

/-- The evaluation has come to a result with a property or to a fault of the invariant, and to
scopes of the invariant. -/
structure Ends (P : α → Prop) (ending : Ending α) : Prop where
  machine : I.OfMachine ending.2
  result : ∀ a, ending.1 = .ok a → P a
  fault : ∀ fault, ending.1 = .error fault → I.ofFault fault

variable {I}

/-! ## Scopes -/

/-- A scope without names satisfies every invariant. -/
theorem ofScope_empty : I.OfScope .empty := by
  intro name v h
  rw [Scope.get?_empty] at h
  cases h

/-- A value that satisfies it may be bound. -/
theorem OfScope.set {scope : Scope} (h : I.OfScope scope) (name : String) {v : Value}
    (hv : I.ofValue v) : I.OfScope (scope.set name v) := by
  intro other w hw
  rw [Scope.get?_set] at hw
  by_cases heq : name = other
  · rw [if_pos heq] at hw
    cases hw
    exact hv
  · rw [if_neg heq] at hw
    exact h other w hw

/-- So may several. -/
theorem OfScope.setAll {scope : Scope} (h : I.OfScope scope) {bindings : List (String × Value)}
    (hbindings : ∀ binding ∈ bindings, I.ofValue binding.2) :
    I.OfScope (scope.setAll bindings) := by
  induction bindings generalizing scope with
  | nil => exact h
  | cons binding bindings ih =>
    obtain ⟨hv, hbindings⟩ := List.forall_mem_cons.mp hbindings
    exact ih (h.set binding.1 hv) hbindings

/-- A machine that starts with functions of the invariant. -/
theorem ofMachine_start {builtins : List Builtin}
    (h : ∀ b ∈ Builtin.println :: builtins, I.ofValue (.builtin b)) :
    I.OfMachine (.start builtins) := by
  refine ⟨ofScope_empty.setAll fun binding hmem => ?_, fun scope hmem => by cases hmem⟩
  obtain ⟨b, hb, rfl⟩ := List.mem_map.mp hmem
  exact h b hb

/-- Binding such a value keeps the invariant. -/
theorem OfMachine.bind {m : Machine} (h : I.OfMachine m) (name : String) {v : Value}
    (hv : I.ofValue v) : I.OfMachine (m.bind name v) :=
  ⟨h.1.set name hv, h.2⟩

/-- The scope that a call enters is a copy, with the arguments bound in it. -/
theorem OfMachine.push {m : Machine} (h : I.OfMachine m) {bindings : List (String × Value)}
    (hbindings : ∀ binding ∈ bindings, I.ofValue binding.2) :
    I.OfMachine (m.push.bindAll bindings) :=
  ⟨h.1.setAll hbindings, List.forall_mem_cons.mpr h⟩

/-- So does leaving a scope. -/
theorem OfMachine.pop {m : Machine} (h : I.OfMachine m) : I.OfMachine m.pop := by
  obtain ⟨scope, below, output, events, recordDepth⟩ := m
  cases below with
  | nil => exact h
  | cons caller below => exact List.forall_mem_cons.mp h.2

/-! ## Endings -/

/-- A result on a machine with the invariant. -/
theorem Ends.ok {P : α → Prop} {a : α} {m : Machine} (hm : I.OfMachine m) (ha : P a) :
    I.Ends P (.ok a, m) :=
  ⟨hm, fun _ h => (Except.ok.inj h) ▸ ha, fun _ h => (nomatch h)⟩

/-- A fault on a machine with the invariant. -/
theorem Ends.error {P : α → Prop} {fault : Fault} {m : Machine} (hm : I.OfMachine m)
    (hfault : I.ofFault fault) : I.Ends P (.error fault, m) :=
  ⟨hm, fun _ h => (nomatch h), fun _ h => (Except.error.inj h) ▸ hfault⟩

/-- Evaluations one after the other end within the invariant if both do. -/
theorem Ends.andThen {P : α → Prop} {Q : β → Prop} {ending : Ending α}
    {next : α → Machine → Ending β} (h : I.Ends P ending)
    (hnext : ∀ a m, P a → I.OfMachine m → I.Ends Q (next a m)) :
    I.Ends Q (ending.andThen next) := by
  obtain ⟨result, m⟩ := ending
  cases result with
  | error fault => exact .error h.machine (h.fault fault rfl)
  | ok a => exact hnext a m (h.result a rfl) h.machine

section Lists

variable {eval : Node → Machine → Ending Value}

/-- Operands are evaluated within the invariant: by induction on the list. -/
theorem evalAll_ends
    (heval : ∀ node m, I.ofNode node → I.OfMachine m → I.Ends I.ofValue (eval node m)) :
    ∀ (nodes : List Node) (m : Machine), (∀ node ∈ nodes, I.ofNode node) → I.OfMachine m →
      I.Ends (fun vs => ∀ v ∈ vs, I.ofValue v) (evalAll eval nodes m) := by
  intro nodes
  induction nodes with
  | nil => intro m _ hm; exact .ok hm fun v hv => by cases hv
  | cons node nodes ih =>
    intro m hnodes hm
    obtain ⟨hnode, hnodes⟩ := List.forall_mem_cons.mp hnodes
    refine (heval node m hnode hm).andThen fun v n hv hn => ?_
    exact (ih n hnodes hn).andThen fun vs _ hvs hn' => .ok hn' (List.forall_mem_cons.mpr ⟨hv, hvs⟩)

/-- Statements are run within the invariant: by induction on the list. -/
theorem runStatements_ends
    (heval : ∀ node m, I.ofNode node → I.OfMachine m → I.Ends I.ofValue (eval node m)) :
    ∀ (body : List Node) (m : Machine), (∀ node ∈ body, I.ofNode node) → I.OfMachine m →
      I.Ends I.ofValue (runStatements eval body m) := by
  intro body
  induction body with
  | nil => intro m _ hm; exact .ok hm I.null
  | cons node body ih =>
    intro m hbody hm
    obtain ⟨hnode, hbody⟩ := List.forall_mem_cons.mp hbody
    refine (heval node m hnode hm).andThen fun v n hv hn => ?_
    by_cases hret : node.isRet = true
    · rw [if_pos hret]
      exact .ok hn hv
    · rw [if_neg hret]
      exact ih n hbody hn

/-- A built-in function ends within the invariant. -/
theorem builtin_ends {call : Value → List Value → Machine → Ending Value}
    (hcall : ∀ f args m, I.ofValue f → (∀ v ∈ args, I.ofValue v) → I.OfMachine m →
      I.Ends I.ofValue (call f args m))
    {b : Builtin} (hb : I.ofValue (.builtin b)) {args : List Value}
    (hargs : ∀ v ∈ args, I.ofValue v) {m : Machine} (hm : I.OfMachine m) :
    I.Ends I.ofValue (b.run call args m) := by
  cases b with
  | println => exact .ok hm I.null
  | count => exact .ok hm (I.count hb args.length)
  | last =>
    refine .ok hm ?_
    cases hlast : args.getLast? with
    | none => exact I.null
    | some v => exact hargs v (List.mem_of_getLast? hlast)
  | apply =>
    cases args with
    | nil => exact .error hm (I.arity 1 0)
    | cons callee args =>
      obtain ⟨hcallee, hargs⟩ := List.forall_mem_cons.mp hargs
      exact hcall callee args m hcallee hargs hm

end Lists

/-! ## Evaluations and calls -/

/-- Evaluations and calls end within the invariant, with any budget: by induction on it. -/
theorem eval_and_call_ends (I : Invariant) (budget : Nat) :
    (∀ node m, I.ofNode node → I.OfMachine m →
      I.Ends I.ofValue (Node.eval budget node m)) ∧
    (∀ f args m, I.ofValue f → (∀ v ∈ args, I.ofValue v) → I.OfMachine m →
      I.Ends I.ofValue (Value.call budget f args m)) := by
  induction budget with
  | zero =>
    constructor
    · intro node m _ hm
      rw [Node.eval]
      exact .error hm I.recursionDepth
    · intro f args m _ _ hm
      rw [Value.call]
      exact .error hm I.recursionDepth
  | succ budget ih =>
    obtain ⟨heval, hcall⟩ := ih
    constructor
    · intro node m hnode hm
      cases node with
      | int n => exact .ok hm (I.int hnode)
      | float x => exact .ok hm (I.float hnode)
      | var name =>
        rw [Node.eval]
        cases hv : m.scope.get? name with
        | none => exact .error hm (I.var hnode)
        | some v => exact .ok hm (hm.1 name v hv)
      | bin op l r =>
        rw [Node.eval]
        obtain ⟨hl, hr⟩ := I.operands hnode
        refine (heval l m hl hm).andThen fun a n ha hn => ?_
        refine (heval r n hr hn).andThen fun b n' hb hn' => ?_
        exact ⟨hn', fun v hv => I.operate ha hb hv, fun fault h => I.operateFault ha hb h⟩
      | call callee args =>
        rw [Node.eval]
        obtain ⟨hcallee, hargs⟩ := I.callee hnode
        refine (heval callee m hcallee hm).andThen fun f n hf hn => ?_
        refine (evalAll_ends heval args n hargs hn).andThen fun vs n' hvs hn' => ?_
        exact hcall f vs (n'.note (.calling f vs.length)) hf hvs hn'
      | assign name value =>
        rw [Node.eval]
        refine (heval value m (I.assigned hnode) hm).andThen fun v n hv hn => ?_
        exact .ok (hn.bind name hv) I.null
      | func name params body =>
        rw [Node.eval]
        exact .ok (hm.bind name (I.defined hnode)) I.null
      | ret value =>
        rw [Node.eval]
        exact heval value m (I.returned hnode) hm
      | stmts body =>
        rw [Node.eval]
        exact runStatements_ends heval body m (I.statements hnode) hm
      | bare text => exact .error hm (I.bare hnode)
    · intro f args m hf hargs hm
      cases f with
      | null => exact .error hm (I.notCallable _)
      | int n => exact .error hm (I.notCallable _)
      | float x => exact .error hm (I.notCallable _)
      | function params body =>
        rw [Value.call]
        by_cases hlen : args.length = params.length
        · rw [if_pos hlen]
          by_cases hbudget : budget < m.recordDepth
          · rw [if_pos hbudget]
            exact .error ⟨hm.1, List.forall_mem_cons.mpr hm⟩ I.recursionDepth
          · rw [if_neg hbudget]
            have hinside : I.OfMachine (m.push.bindAll (params.zip args)) :=
              hm.push fun binding hmem => hargs binding.2 (List.of_mem_zip hmem).2
            have hbody := heval (.stmts body) _ (I.body hf) hinside
            exact ⟨hbody.machine.pop, hbody.result, hbody.fault⟩
        · rw [if_neg hlen]
          exact .error hm (I.arity _ _)
      | builtin b =>
        rw [Value.call]
        exact builtin_ends hcall hf hargs hm

/-- **Evaluation keeps an invariant**, in all scopes, and ends with a value or a fault of it. -/
theorem eval_ends (I : Invariant) (budget : Nat) {node : Node} {m : Machine}
    (hnode : I.ofNode node) (hm : I.OfMachine m) :
    I.Ends I.ofValue (Node.eval budget node m) :=
  (I.eval_and_call_ends budget).1 node m hnode hm

end Invariant

end CalcScript
