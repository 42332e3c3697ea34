import CalcScript.Evaluation.Scope

/-!
# The state of an evaluation

A machine has a current scope and the scopes below it, one for each call that has not ended. It
keeps the text that has been printed and a record of calls and scopes.

To put something on record takes nested calls of its own if the record is watched. They count like
those of the evaluation (`Value.call`), so a machine knows how many these are.
-/

namespace CalcScript

/-- What is put on record during an evaluation. -/
inductive Event where
  /-- A value is about to be called with a number of arguments. -/
  | calling (callee : Value) (args : Nat)
  /-- A scope was entered; now there are `depth` of them. -/
  | pushed (depth : Nat)
  /-- A scope was left; now there are `depth` of them. -/
  | popped (depth : Nat)
  /-- Evaluations were nested too deeply. -/
  | limit (depth : Nat)

/-- The text of a record. -/
def Event.text : Event → String
  | .calling callee args =>
    "Calling " ++ callee.text ++ " with " ++ toString args ++ " argument(s)"
  | .pushed depth => "Pushed scope, depth " ++ toString depth
  | .popped depth => "Popped scope, depth " ++ toString depth
  | .limit depth => "Recursion limit hit, scope depth " ++ toString depth

/-- The state of an evaluation. There is always a current scope. -/
structure Machine where
  scope : Scope
  /-- The scopes below the current one, the nearest first. -/
  below : List Scope
  /-- What has been printed. -/
  output : String
  /-- What has been put on record, the latest first. -/
  events : List Event
  /-- How deeply calls are nested to put on record that a scope was entered. -/
  recordDepth : Nat

namespace Machine

/-- A machine with `println` and some more built-in functions, whose record nobody watches. -/
def start (builtins : List Builtin) : Machine :=
  ⟨Scope.ofBuiltins (.println :: builtins), [], "", [], 0⟩

/-- The machine with a record that is watched. -/
def watched (m : Machine) : Machine := { m with recordDepth := 7 }

/-- All scopes, the current one first. -/
def scopes (m : Machine) : List Scope := m.scope :: m.below

/-- How many scopes there are. -/
def depth (m : Machine) : Nat := m.below.length + 1

/-- Puts an event on record. -/
def note (m : Machine) (event : Event) : Machine := { m with events := event :: m.events }

/-- Prints a text. -/
def print (m : Machine) (text : String) : Machine := { m with output := m.output ++ text }

/-- Binds a name in the current scope. -/
def bind (m : Machine) (name : String) (value : Value) : Machine :=
  { m with scope := m.scope.set name value }

/-- Binds names in the current scope, one after the other. -/
def bindAll (m : Machine) (bindings : List (String × Value)) : Machine :=
  { m with scope := m.scope.setAll bindings }

/-- Enters a scope that starts as a copy of the current one. -/
def enter (m : Machine) : Machine := { m with below := m.scopes }

/-- Enters a scope and puts it on record. -/
def push (m : Machine) : Machine := m.enter.note (.pushed m.enter.depth)

/-- Leaves the current scope. The last one is not left. -/
def pop (m : Machine) : Machine :=
  match m.below with
  | [] => m
  | scope :: below => { m with scope, below }.note (.popped below.length.succ)

/-- The machine with nothing printed and nothing on record. -/
def fresh (m : Machine) : Machine := { m with output := "", events := [] }

/-! ## What operations leave alone -/

@[simp] theorem output_pop (m : Machine) : m.pop.output = m.output := by
  unfold pop
  split <;> rfl

@[simp] theorem recordDepth_pop (m : Machine) : m.pop.recordDepth = m.recordDepth := by
  unfold pop
  split <;> rfl

theorem scopes_pop {m : Machine} {top : Scope} {scopes : List Scope}
    (h : m.scopes = top :: scopes) (hscopes : scopes ≠ []) : m.pop.scopes = scopes := by
  unfold pop
  rw [(List.cons.inj h).2]
  cases scopes with
  | nil => exact absurd rfl hscopes
  | cons scope below => rfl

end Machine

end CalcScript
