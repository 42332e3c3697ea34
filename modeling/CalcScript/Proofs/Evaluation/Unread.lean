import CalcScript.Proofs.Evaluation.Frame
import CalcScript.Proofs.Evaluation.Safety

/-!
# Names that are not read

> `Node.eval_unread`: if a name is read neither in a node nor in the functions that are bound to
> other names, then what it is bound to makes no difference to evaluating the node: on two machines
> that differ on this name the result is the same and so is the text, and the scopes differ on no
> other name afterwards.

A function sees all bindings of its caller, and functions come from variables, arguments and
results. So the two evaluations are followed together with what keeps them alike: every value they
come to is the same for both, and no function among these values reads the name
(`Correspondence.unread`). Only the name itself may be bound to a function that does, and that one
is out of reach.
-/

namespace CalcScript

namespace Node

mutual

/-- The names that are read in a node, in the bodies of functions too. -/
def reads : Node → List String
  | .var name => [name]
  | .bin _ l r => reads l ++ reads r
  | .call callee args => reads callee ++ readsAll args
  | .assign _ value => reads value
  | .ret value => reads value
  | .stmts body => readsAll body
  | .func _ _ body => readsAll body
  | .int _ | .float _ | .bare _ => []

/-- The names that are read in some nodes. -/
def readsAll : List Node → List String
  | [] => []
  | node :: nodes => reads node ++ readsAll nodes

end

end Node

/-- The names that are read in the body of a function. -/
def Value.reads : Value → List String
  | .function _ body => Node.readsAll body
  | .null | .int _ | .float _ | .builtin _ => []

theorem operate_unread {op : Operator} {a b v : Value} (h : operate op a b = .ok v) (x : String) :
    x ∉ v.reads := by
  rcases operate_number h with ⟨n, rfl⟩ | ⟨y, rfl⟩
  · exact List.not_mem_nil
  · exact List.not_mem_nil

/-! ## Scopes that are alike but for one name -/

/-- The scopes agree on every other name, and no function reads the name that is bound to
another. -/
structure Scope.AlikeBut (x : String) (scope₁ scope₂ : Scope) : Prop where
  agree : ∀ name, name ≠ x → scope₂.get? name = scope₁.get? name
  unread : ∀ name v, name ≠ x → scope₁.get? name = some v → x ∉ v.reads

namespace Scope.AlikeBut

variable {x : String} {scope₁ scope₂ : Scope}

theorem set (h : scope₁.AlikeBut x scope₂) (name : String) {v : Value} (hv : x ∉ v.reads) :
    (scope₁.set name v).AlikeBut x (scope₂.set name v) := by
  constructor
  · intro other hother
    rw [Scope.get?_set, Scope.get?_set, h.agree other hother]
  · intro other w hother hw
    rw [Scope.get?_set] at hw
    by_cases heq : name = other
    · rw [if_pos heq] at hw
      cases hw
      exact hv
    · rw [if_neg heq] at hw
      exact h.unread other w hother hw

theorem setAll (h : scope₁.AlikeBut x scope₂) {bindings : List (String × Value)}
    (hbindings : ∀ binding ∈ bindings, x ∉ binding.2.reads) :
    (scope₁.setAll bindings).AlikeBut x (scope₂.setAll bindings) := by
  induction bindings generalizing scope₁ scope₂ with
  | nil => exact h
  | cons binding bindings ih =>
    obtain ⟨hv, hbindings⟩ := List.forall_mem_cons.mp hbindings
    exact ih (h.set binding.1 hv) hbindings

theorem empty (x : String) : Scope.empty.AlikeBut x .empty := by
  refine ⟨fun _ _ => rfl, fun name v _ h => ?_⟩
  rw [Scope.get?_empty] at h
  cases h

/-- The name itself may be bound to anything. -/
theorem rebind (h : scope₁.AlikeBut x scope₂) (v : Value) :
    scope₁.AlikeBut x (scope₂.set x v) := by
  refine ⟨fun name hname => ?_, h.unread⟩
  rw [Scope.get?_set, if_neg (Ne.symm hname)]
  exact h.agree name hname

end Scope.AlikeBut

/-! ## The correspondence -/

theorem Node.not_mem_reads {x : String} {nodes : List Node} (h : x ∉ readsAll nodes) :
    ∀ node ∈ nodes, x ∉ node.reads := by
  induction nodes with
  | nil => intro node hmem; cases hmem
  | cons node nodes ih =>
    obtain ⟨hnode, hnodes⟩ := not_or.mp (List.mem_append.not.mp h)
    exact List.forall_mem_cons.mpr ⟨hnode, ih hnodes⟩

/-- Scopes that are alike but for a name correspond, for nodes and functions that do not read it. -/
def Correspondence.unread (x : String) : Correspondence where
  ofNode node := x ∉ node.reads
  ofValue v := x ∉ v.reads
  ofFault _ := True
  int _ := List.not_mem_nil
  float _ := List.not_mem_nil
  var _ := trivial
  operands h := not_or.mp (List.mem_append.not.mp h)
  callee h :=
    have ⟨hcallee, hargs⟩ := not_or.mp (List.mem_append.not.mp h)
    ⟨hcallee, Node.not_mem_reads hargs⟩
  assigned h := h
  returned h := h
  statements h := Node.not_mem_reads h
  defined h := h
  bare _ := trivial
  body h := h
  null := List.not_mem_nil
  count _ _ := List.not_mem_nil
  operate _ _ h := operate_unread h x
  operateFault _ _ _ := trivial
  notCallable _ := trivial
  arity _ _ := trivial
  recursionDepth := trivial
  rel := Scope.AlikeBut x
  get?_eq hname h := h.agree _ (Ne.symm (List.mem_singleton.not.mp hname))
  ofBound hname h hv := h.unread _ _ (Ne.symm (List.mem_singleton.not.mp hname)) hv
  set name _ _ _ h hv := h.set name hv

/-- **A name that is not read makes no difference.** If a name is read neither in the node nor in a
function that is bound to another name, then on two machines whose current scopes agree on all other
names, and which put things on record alike, the node comes to the same value or the same fault and
prints the same text, and the current scopes agree on all other names afterwards; with the same
budget, or with any two that suffice. -/
theorem Node.eval_unread {x : String} {node : Node} (hnode : x ∉ node.reads) {m₁ m₂ : Machine}
    (hscope : m₁.scope.AlikeBut x m₂.scope) (hrecord : m₁.recordDepth = m₂.recordDepth)
    {budget₁ budget₂ : Nat}
    (hbudget : budget₁ = budget₂ ∨
      (Node.eval budget₁ node m₁).Finished ∧ (Node.eval budget₂ node m₂).Finished) :
    (Node.eval budget₁ node m₁).1 = (Node.eval budget₂ node m₂).1 ∧
    (∃ text, (Node.eval budget₁ node m₁).2.output = m₁.output ++ text ∧
      (Node.eval budget₂ node m₂).2.output = m₂.output ++ text) ∧
    (Node.eval budget₁ node m₁).2.scope.AlikeBut x (Node.eval budget₂ node m₂).2.scope := by
  have hrelated := ((Correspondence.unread x).eval_and_call_related budget₁).1 node m₁ m₂ hnode
    ⟨hscope, hrecord⟩
  have hafter := hrelated.scope
  obtain ⟨hresult, -, tops₁, tops₂, text, -, h₁, h₂⟩ := hrelated
  have hsame : Node.eval budget₂ node m₂ = Node.eval budget₁ node m₂ := by
    obtain rfl | ⟨hfinished₁, hfinished₂⟩ := hbudget
    · rfl
    · have hfinished : (Node.eval budget₁ node m₂).Finished := fun he =>
        hfinished₁ (hresult.trans he)
      exact Node.eval_agree hfinished₂ hfinished
  rw [hsame]
  exact ⟨hresult, ⟨text, h₁.output, h₂.output⟩, hafter⟩

/-- A function that prints and gives back its argument is called where `u` is not bound, and where
it is bound to a function that reads it. -/
theorem Node.eval_unread_callingFunction :
    let scope := Scope.empty.setAll [("println", .builtin .println),
      ("f", .function ["y"] [.call (.var "println") [.var "y"], .ret (.var "y")])]
    let node := Node.stmts [.assign "u" (.call (.var "f") [.int 2]), .ret (.var "f")]
    let m₁ : Machine := ⟨scope, [], "", [], 0⟩
    let m₂ : Machine := ⟨scope.set "u" (.function [] [.var "u"]), [scope], "> ", [], 0⟩
    "u" ∉ node.reads ∧ m₁.scope.AlikeBut "u" m₂.scope ∧
    (Node.eval 8 node m₁).Finished ∧ (Node.eval 9 node m₂).Finished ∧
    (Node.eval 8 node m₁).1 = (Node.eval 9 node m₂).1 ∧
    (Node.eval 8 node m₁).2.scope.AlikeBut "u" (Node.eval 9 node m₂).2.scope := by
  intro scope node m₁ m₂
  have hnode : "u" ∉ node.reads := by decide
  have hscope : m₁.scope.AlikeBut "u" m₂.scope :=
    ((Scope.AlikeBut.empty "u").setAll (by decide)).rebind _
  have hfinished₁ : (Node.eval 8 node m₁).Finished := by decide +kernel
  have hfinished₂ : (Node.eval 9 node m₂).Finished := by decide +kernel
  obtain ⟨hresult, -, hafter⟩ := Node.eval_unread hnode hscope rfl (.inr ⟨hfinished₁, hfinished₂⟩)
  exact ⟨hnode, hscope, hfinished₁, hfinished₂, hresult, hafter⟩

end CalcScript
