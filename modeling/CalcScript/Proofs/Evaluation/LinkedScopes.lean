import CalcScript.Evaluation.Evaluate

/-!
# Copied scopes and linked scopes

A call enters a scope that starts as a copy of the caller's. Another design would enter a scope
without bindings and link it to the caller's: a name is then looked up along the links, and bound
where one stands. `Scoping` is what the two designs differ in, `Node.evalIn` evaluation with either:

> `Node.evalIn_copying`: with copies, `Node.evalIn` is `Node.eval`.
> `Node.eval_linked`: with links, evaluation has the same result, text and record, and a name has at
> the end the value along the links that it has in the copy.

Links show what is bound in the scopes below at any time, copies what was bound there when they were
made. The difference does not show because no scope below the current one changes before the current
one is left.
-/

namespace CalcScript

variable {α β : Type}

/-! ## Evaluation with either design -/

/-- How names are looked up, and how a call enters a scope. -/
structure Scoping where
  find? : Machine → String → Option Value
  enter : Machine → Machine

/-- The value of a name in the nearest scope that binds it, from the current one downwards. -/
def Machine.findAlong? (m : Machine) (name : String) : Option Value :=
  m.scopes.findSome? (·.get? name)

/-- Along the links a name is found as it has been bound last. -/
theorem Machine.findAlong?_bind (m : Machine) (name other : String) (v : Value) :
    (m.bind name v).findAlong? other = if name = other then some v else m.findAlong? other := by
  show List.findSome? _ (m.scope.set name v :: m.below) = _
  rw [List.findSome?_cons, Scope.get?_set]
  by_cases heq : name = other
  · rw [if_pos heq, if_pos heq]
  · rw [if_neg heq, if_neg heq, Machine.findAlong?, Machine.scopes, List.findSome?_cons]

/-- Enters a scope without bindings. -/
def Machine.enterEmpty (m : Machine) : Machine := { m with scope := .empty, below := m.scopes }

/-- A scope that is entered starts as a copy, and names are looked up in it alone. -/
def Scoping.copying : Scoping := ⟨fun m name => m.scope.get? name, Machine.enter⟩

/-- A scope that is entered starts empty, and names are looked up in the scopes below as well. -/
def Scoping.linking : Scoping := ⟨Machine.findAlong?, Machine.enterEmpty⟩

/-- Enters a scope and puts it on record. -/
def Scoping.push (S : Scoping) (m : Machine) : Machine :=
  (S.enter m).note (.pushed (S.enter m).depth)

mutual

/-- The meaning of a node. -/
def Node.evalIn (S : Scoping) : Nat → Node → Machine → Ending Value
  | 0, _, m => (.error .recursionDepth, m)
  | _ + 1, .int n, m => (.ok (.int n), m)
  | _ + 1, .float x, m => (.ok (.float x), m)
  | _ + 1, .var name, m =>
    match S.find? m name with
    | some v => (.ok v, m)
    | none => (.error (.undefinedVariable name), m)
  | budget + 1, .bin op l r, m =>
    (Node.evalIn S budget l m).andThen fun a m =>
      (Node.evalIn S budget r m).andThen fun b m => (operate op a b, m)
  | budget + 1, .assign name value, m =>
    (Node.evalIn S budget value m).andThen fun v m => (.ok .null, m.bind name v)
  | _ + 1, .func name params body, m => (.ok .null, m.bind name (.function params body))
  | budget + 1, .call callee args, m =>
    (Node.evalIn S budget callee m).andThen fun f m =>
      (evalAll (Node.evalIn S budget) args m).andThen fun vs m =>
        Value.callIn S budget f vs (m.note (.calling f vs.length))
  | budget + 1, .stmts body, m => runStatements (Node.evalIn S budget) body m
  | budget + 1, .ret value, m => Node.evalIn S budget value m
  | _ + 1, .bare text, m => (.error (.meaningless (.bare text)), m)

/-- The meaning of a value that is called with arguments. -/
def Value.callIn (S : Scoping) : Nat → Value → List Value → Machine → Ending Value
  | 0, _, _, m => (.error .recursionDepth, m)
  | budget + 1, .function params body, args, m =>
    if args.length = params.length then
      if budget < m.recordDepth then (.error .recursionDepth, S.enter m)
      else
        let (result, inside) :=
          Node.evalIn S budget (.stmts body) ((S.push m).bindAll (params.zip args))
        (result, inside.pop)
    else (.error (.arity params.length args.length), m)
  | budget + 1, .builtin b, args, m => Builtin.run (Value.callIn S budget) b args m
  | _ + 1, v, _, m => (.error (.notCallable v.kind), m)

end

/-- With copied scopes it is the evaluator itself: by induction on the budget. -/
theorem evalIn_and_callIn_copying (budget : Nat) :
    Node.evalIn .copying budget = Node.eval budget ∧
      Value.callIn .copying budget = Value.call budget := by
  induction budget with
  | zero =>
    constructor
    · funext node m
      rw [Node.evalIn, Node.eval]
    · funext f args m
      rw [Value.callIn, Value.call]
  | succ budget ih =>
    obtain ⟨heval, hcall⟩ := ih
    constructor
    · funext node m
      cases node with
      | var name => rfl
      | bin op l r => rw [Node.evalIn, Node.eval, heval]
      | call callee args => rw [Node.evalIn, Node.eval, heval, hcall]
      | assign name value => rw [Node.evalIn, Node.eval, heval]
      | ret value => rw [Node.evalIn, Node.eval, heval]
      | stmts body => rw [Node.evalIn, Node.eval, heval]
      | _ => rfl
    · funext f args m
      cases f with
      | function params body =>
        rw [Value.callIn, Value.call, heval]
        rfl
      | builtin b => rw [Value.callIn, Value.call, hcall]
      | _ => rfl

/-- With copies, evaluation is evaluation as it is. -/
theorem Node.evalIn_copying (budget : Nat) : Node.evalIn .copying budget = Node.eval budget :=
  (evalIn_and_callIn_copying budget).1

/-! ## Machines that correspond -/

/-- Each of the first scopes holds what is seen from the second ones along the links. -/
inductive Unfolding : List Scope → List Scope → Prop where
  | nil : Unfolding [] []
  | cons {scope frame : Scope} {scopes frames : List Scope}
      (sees : ∀ name, scope.get? name = (frame :: frames).findSome? (·.get? name))
      (below : Unfolding scopes frames) : Unfolding (scope :: scopes) (frame :: frames)

/-- There is one frame for each scope. -/
theorem Unfolding.length_eq {scopes frames : List Scope} (h : Unfolding scopes frames) :
    scopes.length = frames.length := by
  induction h with
  | nil => rfl
  | cons sees below ih => rw [List.length_cons, List.length_cons, ih]

/-- The first machine has copied what the second one is linked to, and they have printed and put on
record the same, in the same way. -/
structure Machine.Unfolds (m l : Machine) : Prop where
  scopes : Unfolding m.scopes l.scopes
  output : m.output = l.output
  events : m.events = l.events
  recordDepth : m.recordDepth = l.recordDepth

namespace Machine.Unfolds

variable {m l : Machine}

/-- A single scope has nothing to copy and nothing to be linked to. -/
theorem single (scope : Scope) (output : String) (events : List Event) (recordDepth : Nat) :
    Machine.Unfolds ⟨scope, [], output, events, recordDepth⟩
      ⟨scope, [], output, events, recordDepth⟩ := by
  refine ⟨.cons (fun name => ?_) .nil, rfl, rfl, rfl⟩
  rw [List.findSome?_cons, List.findSome?_nil]
  cases scope.get? name <;> rfl

/-- What a copied scope holds is found along the links. -/
theorem get?_eq (h : m.Unfolds l) (name : String) : m.scope.get? name = l.findAlong? name := by
  cases h.scopes with
  | cons sees below => exact sees name

/-- Putting something on record changes no scope. -/
theorem note (h : m.Unfolds l) (event : Event) : (m.note event).Unfolds (l.note event) := by
  refine ⟨h.scopes, h.output, ?_, h.recordDepth⟩
  show event :: m.events = event :: l.events
  rw [h.events]

/-- Printing changes none. -/
theorem print (h : m.Unfolds l) (text : String) : (m.print text).Unfolds (l.print text) := by
  refine ⟨h.scopes, ?_, h.events, h.recordDepth⟩
  show m.output ++ text = l.output ++ text
  rw [h.output]

/-- A name that is bound hides what is bound below, in the copy and along the links. -/
theorem bind (h : m.Unfolds l) (name : String) (v : Value) :
    (m.bind name v).Unfolds (l.bind name v) := by
  refine ⟨?_, h.output, h.events, h.recordDepth⟩
  cases h.scopes with
  | cons sees below =>
    refine .cons (fun other => ?_) below
    show (m.scope.set name v).get? other = (l.bind name v).findAlong? other
    rw [Scope.get?_set, Machine.findAlong?_bind, h.get?_eq other]

/-- Names may be bound one after the other. -/
theorem bindAll (h : m.Unfolds l) (bindings : List (String × Value)) :
    (m.bindAll bindings).Unfolds (l.bindAll bindings) := by
  induction bindings generalizing m l with
  | nil => exact h
  | cons binding bindings ih => exact ih (h.bind binding.1 binding.2)

/-- What the copy that is entered holds is seen through the empty scope that is entered. -/
theorem enter (h : m.Unfolds l) :
    (Scoping.copying.enter m).Unfolds (Scoping.linking.enter l) := by
  refine ⟨.cons (fun name => ?_) h.scopes, h.output, h.events, h.recordDepth⟩
  show m.scope.get? name = List.findSome? _ (Scope.empty :: l.scopes)
  rw [List.findSome?_cons, Scope.get?_empty]
  exact h.get?_eq name

/-- A copied scope unfolds a new frame that is linked to the one before. -/
theorem push (h : m.Unfolds l) : (Scoping.copying.push m).Unfolds (Scoping.linking.push l) := by
  have hdepth : (Scoping.copying.enter m).depth = (Scoping.linking.enter l).depth :=
    h.enter.scopes.length_eq
  rw [Scoping.push, Scoping.push, hdepth]
  exact h.enter.note _

/-- Leaving the current scopes brings those below to light, which correspond as well. -/
theorem pop (h : m.Unfolds l) : m.pop.Unfolds l.pop := by
  obtain ⟨scope, below, output, events, recordDepth⟩ := m
  obtain ⟨frame, belowFrame, output', events', recordDepth'⟩ := l
  obtain ⟨hscopes, houtput, hevents, hrecord⟩ := h
  dsimp only [Machine.scopes] at hscopes houtput hevents hrecord
  cases hscopes with
  | cons sees hbelow =>
    cases hbelow with
    | nil => exact ⟨.cons sees .nil, houtput, hevents, hrecord⟩
    | cons sees' hbelow' =>
      refine ⟨.cons sees' hbelow', houtput, ?_, hrecord⟩
      show Event.popped _ :: events = Event.popped _ :: events'
      rw [hbelow'.length_eq, hevents]

end Machine.Unfolds

/-! ## Evaluations that correspond -/

/-- Both evaluations have the same result, and their machines correspond. -/
structure Ending.Unfolds (copied linked : Ending α) : Prop where
  result : copied.1 = linked.1
  machine : copied.2.Unfolds linked.2

namespace Ending.Unfolds

/-- A result that both have come to. -/
theorem same {m l : Machine} (h : m.Unfolds l) {result : Except Fault α} :
    Ending.Unfolds (result, m) (result, l) :=
  ⟨rfl, h⟩

/-- Evaluations one after the other unfold if both do. -/
theorem andThen {copied linked : Ending α} {next next' : α → Machine → Ending β}
    (h : copied.Unfolds linked)
    (hnext : ∀ a m l, Machine.Unfolds m l → Ending.Unfolds (next a m) (next' a l)) :
    Ending.Unfolds (copied.andThen next) (linked.andThen next') := by
  obtain ⟨result, m⟩ := copied
  obtain ⟨result', l⟩ := linked
  obtain ⟨rfl, hmachine⟩ := h
  cases result with
  | ok a => exact hnext a m l hmachine
  | error fault => exact same hmachine

end Ending.Unfolds

section Lists

variable {eval eval' : Node → Machine → Ending Value}

/-- Operands are evaluated alike: by induction on the list. -/
theorem evalAll_unfolds
    (heval : ∀ node m l, Machine.Unfolds m l → Ending.Unfolds (eval node m) (eval' node l)) :
    ∀ (nodes : List Node) (m l : Machine), m.Unfolds l →
      Ending.Unfolds (evalAll eval nodes m) (evalAll eval' nodes l) := by
  intro nodes
  induction nodes with
  | nil => intro m l h; exact .same h
  | cons node nodes ih =>
    intro m l h
    refine (heval node m l h).andThen fun v m l h => ?_
    exact (ih m l h).andThen fun vs m l h => .same h

/-- Statements are run alike: by induction on the list. -/
theorem runStatements_unfolds
    (heval : ∀ node m l, Machine.Unfolds m l → Ending.Unfolds (eval node m) (eval' node l)) :
    ∀ (body : List Node) (m l : Machine), m.Unfolds l →
      Ending.Unfolds (runStatements eval body m) (runStatements eval' body l) := by
  intro body
  induction body with
  | nil => intro m l h; exact .same h
  | cons node body ih =>
    intro m l h
    refine (heval node m l h).andThen fun v m l h => ?_
    by_cases hret : node.isRet = true
    · rw [if_pos hret, if_pos hret]
      exact .same h
    · rw [if_neg hret, if_neg hret]
      exact ih m l h

/-- A built-in function does alike. -/
theorem Builtin.run_unfolds {call call' : Value → List Value → Machine → Ending Value}
    (hcall : ∀ f args m l, Machine.Unfolds m l → Ending.Unfolds (call f args m) (call' f args l))
    (b : Builtin) (args : List Value) {m l : Machine} (h : m.Unfolds l) :
    Ending.Unfolds (b.run call args m) (b.run call' args l) := by
  cases b with
  | println => exact .same (h.print _)
  | count => exact .same h
  | last => exact .same h
  | apply =>
    cases args with
    | nil => exact .same h
    | cons callee args => exact hcall callee args m l h

end Lists

/-- Evaluations and calls unfold within any budget: by induction on it. -/
theorem evalIn_and_callIn_unfolds (budget : Nat) :
    (∀ node m l, Machine.Unfolds m l →
      Ending.Unfolds (Node.evalIn .copying budget node m) (Node.evalIn .linking budget node l)) ∧
    (∀ f args m l, Machine.Unfolds m l →
      Ending.Unfolds (Value.callIn .copying budget f args m)
        (Value.callIn .linking budget f args l)) := by
  induction budget with
  | zero =>
    constructor
    · intro node m l h
      rw [Node.evalIn, Node.evalIn]
      exact .same h
    · intro f args m l h
      rw [Value.callIn, Value.callIn]
      exact .same h
  | succ budget ih =>
    obtain ⟨heval, hcall⟩ := ih
    constructor
    · intro node m l h
      cases node with
      | int n => exact .same h
      | float x => exact .same h
      | var name =>
        rw [Node.evalIn, Node.evalIn]
        show Ending.Unfolds (match m.scope.get? name with | some v => _ | none => _)
          (match l.findAlong? name with | some v => _ | none => _)
        rw [h.get?_eq name]
        cases l.findAlong? name with
        | some v => exact .same h
        | none => exact .same h
      | bin op left right =>
        rw [Node.evalIn, Node.evalIn]
        refine (heval left m l h).andThen fun a m l h => ?_
        exact (heval right m l h).andThen fun b m l h => .same h
      | assign name value =>
        rw [Node.evalIn, Node.evalIn]
        exact (heval value m l h).andThen fun v m l h => .same (h.bind name v)
      | func name params body => exact .same (h.bind name (.function params body))
      | call callee args =>
        rw [Node.evalIn, Node.evalIn]
        refine (heval callee m l h).andThen fun f m l h => ?_
        refine (evalAll_unfolds heval args m l h).andThen fun vs m l h => ?_
        exact hcall f vs _ _ (h.note (.calling f vs.length))
      | stmts body =>
        rw [Node.evalIn, Node.evalIn]
        exact runStatements_unfolds heval body m l h
      | ret value =>
        rw [Node.evalIn, Node.evalIn]
        exact heval value m l h
      | bare text => exact .same h
    · intro f args m l h
      cases f with
      | null => exact .same h
      | int n => exact .same h
      | float x => exact .same h
      | function params body =>
        rw [Value.callIn, Value.callIn]
        by_cases hlen : args.length = params.length
        · rw [if_pos hlen, if_pos hlen, ← h.recordDepth]
          by_cases hbudget : budget < m.recordDepth
          · rw [if_pos hbudget, if_pos hbudget]
            exact .same h.enter
          · rw [if_neg hbudget, if_neg hbudget]
            -- the copy is made from what the links lead to, and both are left after the body
            have hbody := heval (.stmts body) _ _ (h.push.bindAll (params.zip args))
            exact ⟨hbody.result, hbody.machine.pop⟩
        · rw [if_neg hlen, if_neg hlen]
          exact .same h
      | builtin b =>
        rw [Value.callIn, Value.callIn]
        exact Builtin.run_unfolds hcall b args h

/-- Evaluation on a machine that has copied what another is linked to. -/
theorem Node.eval_unfolds {m l : Machine} (h : m.Unfolds l) (budget : Nat) (node : Node) :
    Ending.Unfolds (Node.eval budget node m) (Node.evalIn .linking budget node l) := by
  rw [← Node.evalIn_copying]
  exact (evalIn_and_callIn_unfolds budget).1 node m l h

/-- **Scopes that are copied are as good as scopes that are linked.** From any scope, evaluation of
any node comes to the same value or the same fault, prints the same text and puts the same on
record in both designs, however much is nested. At the end a name has the value in the current
scope that it has along the links. -/
theorem Node.eval_linked (budget : Nat) (node : Node) (scope : Scope) (output : String)
    (events : List Event) (recordDepth : Nat) :
    let copied := Node.eval budget node ⟨scope, [], output, events, recordDepth⟩
    let linked := Node.evalIn .linking budget node ⟨scope, [], output, events, recordDepth⟩
    copied.1 = linked.1 ∧ copied.2.output = linked.2.output ∧ copied.2.events = linked.2.events ∧
      ∀ name, copied.2.scope.get? name = linked.2.findAlong? name := by
  intro copied linked
  have h : copied.Unfolds linked :=
    Node.eval_unfolds (Machine.Unfolds.single scope output events recordDepth) budget node
  exact ⟨h.result, h.machine.output, h.machine.events, h.machine.get?_eq⟩

end CalcScript
