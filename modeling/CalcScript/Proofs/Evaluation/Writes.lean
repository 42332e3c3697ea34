import CalcScript.Proofs.Evaluation.Frame

/-!
# What evaluation writes

> `Node.eval_writes`: evaluating a node changes the current scope at most on the names that are
> assigned or defined in the node itself, outside the bodies of the functions it defines, and
> unbinds nothing. A call changes no scope at all.

Which names these are can be read off the node (`Node.written`), since what a call writes goes to a
scope of its own, whatever function it is that is called.
-/

namespace CalcScript

variable {α β : Type}

namespace Node

mutual

/-- The names that are assigned or defined in a node, outside the bodies of functions. -/
def written : Node → List String
  | .assign name value => name :: written value
  | .func name _ _ => [name]
  | .bin _ l r => written l ++ written r
  | .call callee args => written callee ++ writtenAll args
  | .ret value => written value
  | .stmts body => writtenAll body
  | .int _ | .float _ | .var _ | .bare _ => []

/-- The names that are assigned or defined in some nodes. -/
def writtenAll : List Node → List String
  | [] => []
  | node :: nodes => written node ++ writtenAll nodes

end

end Node

/-! ## Scopes that have been written to -/

/-- The second scope differs from the first one at most on some names, and no name is unbound in it
that is bound in the first one. -/
structure Scope.WrittenTo (names : List String) (scope scope' : Scope) : Prop where
  unwritten : ∀ name, name ∉ names → scope'.get? name = scope.get? name
  bound : ∀ name, scope.get? name ≠ none → scope'.get? name ≠ none

namespace Scope.WrittenTo

variable {names : List String} {scope scope' scope'' : Scope}

theorem refl (names : List String) (scope : Scope) : scope.WrittenTo names scope :=
  ⟨fun _ _ => rfl, fun _ h => h⟩

theorem trans (h : scope.WrittenTo names scope') (h' : scope'.WrittenTo names scope'') :
    scope.WrittenTo names scope'' :=
  ⟨fun name hname => (h'.unwritten name hname).trans (h.unwritten name hname),
    fun name hname => h'.bound name (h.bound name hname)⟩

theorem set {name : String} (hname : name ∈ names) (scope : Scope) (v : Value) :
    scope.WrittenTo names (scope.set name v) := by
  constructor
  · intro other hother
    rw [Scope.get?_set, if_neg (ne_of_mem_of_not_mem hname hother)]
  · intro other hother
    rw [Scope.get?_set]
    split
    · exact Option.some_ne_none v
    · exact hother

instance (names : List String) : IsPreorder Scope (Scope.WrittenTo names) where
  refl := Scope.WrittenTo.refl names
  trans _ _ _ := Scope.WrittenTo.trans

end Scope.WrittenTo

/-! ## Evaluations -/

theorem Node.written_subset {names : List String} {nodes : List Node}
    (h : Node.writtenAll nodes ⊆ names) : ∀ node ∈ nodes, node.written ⊆ names := by
  induction nodes with
  | nil => intro node hmem; cases hmem
  | cons node nodes ih =>
    obtain ⟨hnode, hnodes⟩ := List.append_subset.mp h
    exact List.forall_mem_cons.mpr ⟨hnode, ih hnodes⟩

section Lists

variable {R : Scope → Scope → Prop} [IsPreorder Scope R]

theorem runStatements_replaces {eval : Node → Machine → Ending Value} {body : List Node}
    (heval : ∀ node ∈ body, ∀ m, (eval node m).Replaces R m) (m : Machine) :
    (runStatements eval body m).Replaces R m := by
  induction body generalizing m with
  | nil => exact .unchanged R m _
  | cons node body ih =>
    obtain ⟨hnode, hbody⟩ := List.forall_mem_cons.mp heval
    refine (hnode m).andThen fun v n => ?_
    by_cases hret : node.isRet = true
    · rw [if_pos hret]
      exact .unchanged R n _
    · rw [if_neg hret]
      exact ih hbody n

end Lists

/-- Binding a name that may be written. -/
theorem Ending.Replaces.bind {names : List String} {name : String} (hname : name ∈ names)
    (m : Machine) (v : Value) (result : Except Fault α) :
    Ending.Replaces (Scope.WrittenTo names) m (result, m.bind name v) :=
  ⟨m.scope.set name v, .set hname m.scope v, .inl rfl⟩

/-- A node writes to no other names than those that are written in it. -/
theorem Node.eval_writtenTo (names : List String) (budget : Nat) :
    ∀ (node : Node) (m : Machine), node.written ⊆ names →
      (Node.eval budget node m).Replaces (Scope.WrittenTo names) m := by
  induction budget with
  | zero => intro node m _; exact .unchanged _ m _
  | succ budget ih =>
    intro node m hnames
    cases node with
    | int n => exact .unchanged _ m _
    | float x => exact .unchanged _ m _
    | var name =>
      rw [Node.eval]
      cases m.scope.get? name with
      | none => exact .unchanged _ m _
      | some v => exact .unchanged _ m _
    | bin op l r =>
      rw [Node.written] at hnames
      obtain ⟨hl, hr⟩ := List.append_subset.mp hnames
      rw [Node.eval]
      refine (ih l m hl).andThen fun a n => ?_
      exact (ih r n hr).andThen fun b n' => .unchanged _ n' _
    | call callee args =>
      rw [Node.written] at hnames
      obtain ⟨hcallee, hargs⟩ := List.append_subset.mp hnames
      have heval : ∀ node ∈ args, ∀ m,
          (Node.eval budget node m).Replaces (Scope.WrittenTo names) m :=
        fun node hmem m => ih node m (written_subset hargs node hmem)
      rw [Node.eval]
      refine (ih callee m hcallee).andThen fun f n => ?_
      refine (evalAll_replaces heval n).andThen fun vs n' => ?_
      -- whatever is called, its writes are gone with its scope
      exact (Value.call_leaves budget f vs (n'.note (.calling f vs.length))).replaces
    | assign name value =>
      rw [Node.written] at hnames
      obtain ⟨hname, hvalue⟩ := List.cons_subset.mp hnames
      rw [Node.eval]
      exact (ih value m hvalue).andThen fun v n => .bind hname n v _
    | func name params body =>
      rw [Node.written] at hnames
      exact .bind (hnames List.mem_cons_self) m _ _
    | ret value =>
      rw [Node.written] at hnames
      rw [Node.eval]
      exact ih value m hnames
    | stmts body =>
      rw [Node.written] at hnames
      rw [Node.eval]
      exact runStatements_replaces
        (fun node hmem m => ih node m (written_subset hnames node hmem)) m
    | bare text => exact .unchanged _ m _

/-- The scope of a function that calls another one. -/
def callingScope : Scope :=
  (Scope.empty.set "g" (.function [] [])).set "f" (.function ["p"] [.call (.var "g") []])

/-- Assignments in operands are written, those in the body of a function are not. -/
example : (Node.bin .plus (.assign "x" (.int 1))
    (.call (.func "f" ["y"] [.assign "z" (.var "y")]) [.assign "w" (.int 2)])).written =
      ["x", "f", "w"] := by
  decide

end CalcScript
