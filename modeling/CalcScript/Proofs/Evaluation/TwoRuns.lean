import CalcScript.Proofs.Evaluation.Invariant

/-!
# Two evaluations side by side

A node is evaluated on two machines whose current scopes are in a relation. If the relation shows the
same values for all names that the node and the functions in question read, and is kept when a value
is bound in both scopes, then the two evaluations go the same way.

> `Correspondence.eval_and_call_related`: they come to the same result and print the same text, and
> the scopes they leave in place of the current ones are in the relation.

The scopes that an evaluation leaves are those that were below the current one, and one in its place
(`Ending.Leaves`). Only an evaluation that its budget cuts off where a scope has been entered and is
not yet on record leaves that scope too. Whatever is left when a call ends, its topmost scope is left
as well; so there is never more than one.
-/

namespace CalcScript

variable {α β : Type}

/-! ## What is there after an evaluation -/

/-- The evaluation leaves these scopes, or was cut off when it had entered one scope more. -/
def Ending.Leaves (ending : Ending α) (scopes : List Scope) : Prop :=
  ending.2.scopes = scopes ∨
    ending.1 = .error .recursionDepth ∧ 0 < ending.2.recordDepth ∧
      ∃ entered, ending.2.scopes = entered :: scopes

namespace Ending.Leaves

variable {ending : Ending α} {scopes : List Scope}

/-- The scopes are restored after every ending but that of an evaluation that is cut off while
something is put on record. -/
theorem restored (h : ending.Leaves scopes)
    (hending : ending.1 ≠ .error .recursionDepth ∨ ending.2.recordDepth = 0) :
    ending.2.scopes = scopes := by
  rcases h with h | ⟨hresult, hrecord, -⟩
  · exact h
  · rcases hending with hending | hending
    · exact absurd hresult hending
    · omega

/-- An evaluation that has a value leaves the scopes exactly. -/
theorem of_ok {a : α} {m : Machine} (h : Ending.Leaves (.ok a, m) scopes) : m.scopes = scopes :=
  h.restored (.inl fun he => by cases he)

/-- What a fault leaves does not depend on the kind of value there would have been. -/
theorem error {fault : Fault} {m : Machine}
    (h : Ending.Leaves ((.error fault, m) : Ending α) scopes) :
    Ending.Leaves ((.error fault, m) : Ending β) scopes := by
  rcases h with h | ⟨hresult, h⟩
  · exact .inl h
  · cases hresult
    exact .inr ⟨rfl, h⟩

/-- Leaving a scope brings those below to light. -/
theorem pop {top scope : Scope} {below : List Scope} (h : ending.Leaves (top :: scope :: below)) :
    Ending.Leaves (ending.1, ending.2.pop) (scope :: below) := by
  rcases h with h | ⟨hresult, hrecord, entered, h⟩
  · exact .inl (Machine.scopes_pop h (List.cons_ne_nil scope below))
  · refine .inr ⟨hresult, (Machine.recordDepth_pop _).symm ▸ hrecord, top, ?_⟩
    exact Machine.scopes_pop h (List.cons_ne_nil top _)

end Ending.Leaves

/-- The machine has come to another one with some scopes in place of the current one, and printed a
text on the way. -/
structure Machine.Continues (m m' : Machine) (tops : List Scope) (text : String) : Prop where
  scopes : m'.scopes = tops ++ m.below
  output : m'.output = m.output ++ text
  recordDepth : m'.recordDepth = m.recordDepth

namespace Machine.Continues

variable {m m' m'' : Machine} {tops : List Scope} {home : Scope} {t t' : String}

/-- A machine continues itself, with nothing printed. -/
theorem refl (m : Machine) : m.Continues m [m.scope] "" :=
  ⟨rfl, String.append_empty.symm, rfl⟩

/-- The current scope is the new one. -/
theorem scope_eq (h : m.Continues m' [home] t) : m'.scope = home :=
  (List.cons.inj h.scopes).1

/-- The scopes below stay as they are. -/
theorem below_eq (h : m.Continues m' [home] t) : m'.below = m.below :=
  (List.cons.inj h.scopes).2

/-- What continues may be continued. -/
theorem trans (h : m.Continues m' [home] t) (h' : m'.Continues m'' tops t') :
    m.Continues m'' tops (t ++ t') := by
  refine ⟨?_, ?_, h'.recordDepth.trans h.recordDepth⟩
  · rw [h'.scopes, h.below_eq]
  · rw [h'.output, h.output, String.append_assoc]

/-- Printing changes no scope. -/
theorem print (m : Machine) (text : String) : m.Continues (m.print text) [m.scope] text :=
  ⟨rfl, rfl, rfl⟩

/-- Binding a name changes the current scope. -/
theorem bind (m : Machine) (name : String) (v : Value) :
    m.Continues (m.bind name v) [m.scope.set name v] "" :=
  ⟨rfl, String.append_empty.symm, rfl⟩

/-- A call enters a copy of the current scope. -/
theorem enter (m : Machine) : m.Continues m.enter [m.scope, m.scope] "" :=
  ⟨rfl, String.append_empty.symm, rfl⟩

/-- What is put on record is no part of it. -/
theorem note_left (event : Event) (h : (m.note event).Continues m' tops t) :
    m.Continues m' tops t :=
  ⟨h.scopes, h.output, h.recordDepth⟩

/-- Leaving the topmost scope after what has been evaluated for a call: the caller's scope is the
last of those that remain. -/
theorem call {bindings : List (String × Value)} {top : Scope}
    (h : (m.push.bindAll bindings).Continues m' (top :: tops) t) :
    m.Continues m'.pop (tops ++ [m.scope]) t := by
  have hscopes : m'.scopes = top :: (tops ++ m.scopes) := h.scopes
  have hne : tops ++ m.scopes ≠ [] := List.append_ne_nil_of_right_ne_nil tops (List.cons_ne_nil _ _)
  refine ⟨?_, m'.output_pop.trans h.output, m'.recordDepth_pop.trans h.recordDepth⟩
  exact (Machine.scopes_pop hscopes hne).trans (List.append_cons tops m.scope m.below)

end Machine.Continues

/-! ## Evaluations on two machines -/

/-- The current scopes are in a relation, and to put something on record takes the same. -/
structure Machine.Related (R : Scope → Scope → Prop) (m₁ m₂ : Machine) : Prop where
  scope : R m₁.scope m₂.scope
  recordDepth : m₁.recordDepth = m₂.recordDepth

/-- The scopes that two evaluations with one result can leave in place of the current ones: one
each, or two if they were cut off on machines that put something on record. -/
inductive Remaining (R : Scope → Scope → Prop) (recordDepth : Nat) :
    Except Fault α → List Scope → List Scope → Prop where
  | restored {home₁ home₂ : Scope} (result : Except Fault α) (home : R home₁ home₂) :
      Remaining R recordDepth result [home₁] [home₂]
  | cutOff {entered₁ entered₂ home₁ home₂ : Scope} (h : 0 < recordDepth)
      (entered : R entered₁ entered₂) (home : R home₁ home₂) :
      Remaining R recordDepth (.error .recursionDepth) [entered₁, home₁] [entered₂, home₂]

/-- Two machines have come to endings with the same result and the same text. A result that is no
fault has the property, and the scopes in place of the current ones are in the relation. -/
structure Ending.Related (R : Scope → Scope → Prop) (P : α → Prop) (m₁ m₂ : Machine)
    (e₁ e₂ : Ending α) : Prop where
  result : e₁.1 = e₂.1
  property : ∀ a, e₁.1 = .ok a → P a
  continues : ∃ tops₁ tops₂ text, Remaining R m₁.recordDepth e₁.1 tops₁ tops₂ ∧
    m₁.Continues e₁.2 tops₁ text ∧ m₂.Continues e₂.2 tops₂ text

section Related

variable {R : Scope → Scope → Prop} {recordDepth : Nat} {tops₁ tops₂ : List Scope}

/-- But for the recursion fault, one scope remains on either side. -/
theorem Remaining.of_ne {result : Except Fault α} (h : Remaining R recordDepth result tops₁ tops₂)
    (hresult : result ≠ .error .recursionDepth) :
    ∃ home₁ home₂, R home₁ home₂ ∧ tops₁ = [home₁] ∧ tops₂ = [home₂] := by
  cases h with
  | restored _ home => exact ⟨_, _, home, rfl, rfl⟩
  | cutOff _ entered home => exact absurd rfl hresult

/-- What remains after a fault does not depend on the kind of value. -/
theorem Remaining.error {fault : Fault}
    (h : Remaining R recordDepth (.error fault : Except Fault α) tops₁ tops₂) :
    Remaining R recordDepth (.error fault : Except Fault β) tops₁ tops₂ := by
  cases h with
  | restored _ home => exact .restored _ home
  | cutOff hcost entered home => exact .cutOff hcost entered home

/-- Equal scopes remain where the relation is equality. -/
theorem Remaining.eq {result : Except Fault α} (h : Remaining Eq recordDepth result tops₁ tops₂) :
    tops₁ = tops₂ := by
  cases h with
  | restored _ home => rw [home]
  | cutOff _ entered home => rw [entered, home]

namespace Ending.Related

variable {P : α → Prop} {Q : β → Prop} {m₁ m₂ : Machine}

/-- Two machines have come to the same value, with one scope each in place of the current one. -/
theorem ok {n₁ n₂ : Machine} {home₁ home₂ : Scope} {text : String} (hhome : R home₁ home₂)
    (h₁ : m₁.Continues n₁ [home₁] text) (h₂ : m₂.Continues n₂ [home₂] text) {a : α} (ha : P a) :
    Ending.Related R P m₁ m₂ (.ok a, n₁) (.ok a, n₂) :=
  ⟨rfl, fun _ h => Except.ok.inj h ▸ ha, _, _, text, .restored _ hhome, h₁, h₂⟩

/-- Two machines have the same value without having changed. -/
theorem still (h : m₁.Related R m₂) {a : α} (ha : P a) :
    Ending.Related R P m₁ m₂ (.ok a, m₁) (.ok a, m₂) :=
  ok h.scope (.refl m₁) (.refl m₂) ha

/-- Two machines have the same fault without having changed. -/
theorem error (h : m₁.Related R m₂) (fault : Fault) :
    Ending.Related R P m₁ m₂ (.error fault, m₁) (.error fault, m₂) :=
  ⟨rfl, fun _ h => (nomatch h), _, _, "", .restored _ h.scope, .refl m₁, .refl m₂⟩

/-- Two machines have been cut off when they had entered a scope. -/
theorem enter (h : m₁.Related R m₂) (hrecord : 0 < m₁.recordDepth) :
    Ending.Related R P m₁ m₂ (.error .recursionDepth, m₁.enter) (.error .recursionDepth, m₂.enter) :=
  ⟨rfl, fun _ h => (nomatch h), _, _, "", .cutOff hrecord h.scope h.scope, .enter m₁, .enter m₂⟩

/-- Evaluations one after the other are related if both are. -/
theorem andThen {e₁ e₂ : Ending α} {next₁ next₂ : α → Machine → Ending β} (h : m₁.Related R m₂)
    (hfirst : Ending.Related R P m₁ m₂ e₁ e₂)
    (hnext : ∀ a (n₁ n₂ : Machine), P a → n₁.Related R n₂ →
      Ending.Related R Q n₁ n₂ (next₁ a n₁) (next₂ a n₂)) :
    Ending.Related R Q m₁ m₂ (e₁.andThen next₁) (e₂.andThen next₂) := by
  obtain ⟨r₁, n₁⟩ := e₁
  obtain ⟨r₂, n₂⟩ := e₂
  obtain ⟨hresult, hP, tops₁, tops₂, t, htops, h₁, h₂⟩ := hfirst
  dsimp only at hresult hP htops h₁ h₂
  subst hresult
  cases r₁ with
  | error fault => exact ⟨rfl, fun _ he => (nomatch he), tops₁, tops₂, t, htops.error, h₁, h₂⟩
  | ok a =>
    obtain ⟨home₁, home₂, hhome, rfl, rfl⟩ := htops.of_ne (fun he => by cases he)
    have hn : n₁.Related R n₂ := by
      refine ⟨?_, h₁.recordDepth.trans (h.recordDepth.trans h₂.recordDepth.symm)⟩
      rw [h₁.scope_eq, h₂.scope_eq]
      exact hhome
    obtain ⟨hresult', hQ, tops₁', tops₂', t', htops', h₁', h₂'⟩ := hnext a n₁ n₂ (hP a rfl) hn
    exact ⟨hresult', hQ, tops₁', tops₂', t ++ t', h₁.recordDepth ▸ htops', h₁.trans h₁',
      h₂.trans h₂'⟩

/-- A call begins when something has been put on record. -/
theorem note_left {event : Event} {e₁ e₂ : Ending α}
    (h : Ending.Related R P (m₁.note event) (m₂.note event) e₁ e₂) :
    Ending.Related R P m₁ m₂ e₁ e₂ := by
  obtain ⟨hresult, hP, tops₁, tops₂, t, htops, h₁, h₂⟩ := h
  exact ⟨hresult, hP, tops₁, tops₂, t, htops, h₁.note_left, h₂.note_left⟩

/-- Two machines have left the scopes that were entered for a call. -/
theorem call {bindings : List (String × Value)} {e₁ e₂ : Ending α} (h : m₁.Related R m₂)
    (hbody : Ending.Related R P (m₁.push.bindAll bindings) (m₂.push.bindAll bindings) e₁ e₂) :
    Ending.Related R P m₁ m₂ (e₁.1, e₁.2.pop) (e₂.1, e₂.2.pop) := by
  obtain ⟨r₁, n₁⟩ := e₁
  obtain ⟨r₂, n₂⟩ := e₂
  obtain ⟨hresult, hP, tops₁, tops₂, t, htops, h₁, h₂⟩ := hbody
  refine ⟨hresult, hP, tops₁.tail ++ [m₁.scope], tops₂.tail ++ [m₂.scope], t, ?_⟩
  cases htops with
  | restored _ home => exact ⟨.restored _ h.scope, h₁.call, h₂.call⟩
  | cutOff hrecord entered home => exact ⟨.cutOff hrecord home h.scope, h₁.call, h₂.call⟩

/-- The current scopes are in the relation at every ending. -/
theorem scope {e₁ e₂ : Ending α} (h : Ending.Related R P m₁ m₂ e₁ e₂) :
    R e₁.2.scope e₂.2.scope := by
  obtain ⟨r₁, n₁⟩ := e₁
  obtain ⟨r₂, n₂⟩ := e₂
  obtain ⟨-, -, tops₁, tops₂, t, htops, h₁, h₂⟩ := h
  cases htops with
  | restored _ home =>
    rw [(List.cons.inj h₁.scopes).1, (List.cons.inj h₂.scopes).1]
    exact home
  | cutOff _ entered home =>
    rw [(List.cons.inj h₁.scopes).1, (List.cons.inj h₂.scopes).1]
    exact entered

/-- The scopes that were below are there again at every ending. -/
theorem leaves {e₁ e₂ : Ending α} (h : Ending.Related R P m₁ m₂ e₁ e₂) :
    ∃ home, e₁.Leaves (home :: m₁.below) := by
  obtain ⟨r₁, n₁⟩ := e₁
  obtain ⟨-, -, tops₁, tops₂, t, htops, h₁, -⟩ := h
  cases htops with
  | restored _ home => exact ⟨_, .inl h₁.scopes⟩
  | cutOff hrecord entered home =>
    exact ⟨_, .inr ⟨rfl, h₁.recordDepth.symm ▸ hrecord, _, h₁.scopes⟩⟩

end Ending.Related

end Related

/-! ## Correspondences -/

/-- A relation of scopes that keeps two evaluations together, for nodes and values with an
invariant. -/
structure Correspondence extends Invariant where
  rel : Scope → Scope → Prop
  get?_eq {name : String} {scope₁ scope₂ : Scope} :
    ofNode (.var name) → rel scope₁ scope₂ → scope₂.get? name = scope₁.get? name
  ofBound {name : String} {scope₁ scope₂ : Scope} {v : Value} :
    ofNode (.var name) → rel scope₁ scope₂ → scope₁.get? name = some v → ofValue v
  set (name : String) {scope₁ scope₂ : Scope} {v : Value} :
    rel scope₁ scope₂ → ofValue v → rel (scope₁.set name v) (scope₂.set name v)

namespace Correspondence

variable {C : Correspondence} {m₁ m₂ : Machine}

/-- Values that correspond may be bound in scopes that do. -/
theorem setAll {scope₁ scope₂ : Scope} (h : C.rel scope₁ scope₂)
    {bindings : List (String × Value)} (hbindings : ∀ binding ∈ bindings, C.ofValue binding.2) :
    C.rel (scope₁.setAll bindings) (scope₂.setAll bindings) := by
  induction bindings generalizing scope₁ scope₂ with
  | nil => exact h
  | cons binding bindings ih =>
    obtain ⟨hv, hbindings⟩ := List.forall_mem_cons.mp hbindings
    exact ih (C.set binding.1 h hv) hbindings

/-- Two machines have bound a name to the same value. -/
theorem bind (h : m₁.Related C.rel m₂) (name : String) {v : Value} (hv : C.ofValue v) :
    Ending.Related C.rel C.ofValue m₁ m₂ (.ok .null, m₁.bind name v) (.ok .null, m₂.bind name v) :=
  .ok (C.set name h.scope hv) (.bind m₁ name v) (.bind m₂ name v) C.null

section Lists

variable {eval : Node → Machine → Ending Value}

/-- Operands are evaluated alike: by induction on the list. -/
theorem evalAll_related
    (heval : ∀ node (m₁ m₂ : Machine), C.ofNode node → m₁.Related C.rel m₂ →
      Ending.Related C.rel C.ofValue m₁ m₂ (eval node m₁) (eval node m₂)) :
    ∀ (nodes : List Node) (m₁ m₂ : Machine), (∀ node ∈ nodes, C.ofNode node) →
      m₁.Related C.rel m₂ →
      Ending.Related C.rel (fun vs => ∀ v ∈ vs, C.ofValue v) m₁ m₂ (evalAll eval nodes m₁)
        (evalAll eval nodes m₂) := by
  intro nodes
  induction nodes with
  | nil => intro m₁ m₂ _ h; exact .still h fun v hv => (nomatch hv)
  | cons node nodes ih =>
    intro m₁ m₂ hnodes h
    obtain ⟨hnode, hnodes⟩ := List.forall_mem_cons.mp hnodes
    refine (heval node m₁ m₂ hnode h).andThen h fun v n₁ n₂ hv h => ?_
    refine (ih n₁ n₂ hnodes h).andThen h fun vs _ _ hvs h => ?_
    exact .still h (List.forall_mem_cons.mpr ⟨hv, hvs⟩)

/-- Statements are run alike: by induction on the list. -/
theorem runStatements_related
    (heval : ∀ node (m₁ m₂ : Machine), C.ofNode node → m₁.Related C.rel m₂ →
      Ending.Related C.rel C.ofValue m₁ m₂ (eval node m₁) (eval node m₂)) :
    ∀ (body : List Node) (m₁ m₂ : Machine), (∀ node ∈ body, C.ofNode node) →
      m₁.Related C.rel m₂ →
      Ending.Related C.rel C.ofValue m₁ m₂ (runStatements eval body m₁)
        (runStatements eval body m₂) := by
  intro body
  induction body with
  | nil => intro m₁ m₂ _ h; exact .still h C.null
  | cons node body ih =>
    intro m₁ m₂ hbody h
    obtain ⟨hnode, hbody⟩ := List.forall_mem_cons.mp hbody
    refine (heval node m₁ m₂ hnode h).andThen h fun v n₁ n₂ hv h => ?_
    by_cases hret : node.isRet = true
    · rw [if_pos hret, if_pos hret]
      exact .still h hv
    · rw [if_neg hret, if_neg hret]
      exact ih n₁ n₂ hbody h

/-- A built-in function does alike with arguments that correspond. -/
theorem run_related {call : Value → List Value → Machine → Ending Value}
    (hcall : ∀ f args (m₁ m₂ : Machine), C.ofValue f → (∀ v ∈ args, C.ofValue v) →
      m₁.Related C.rel m₂ →
      Ending.Related C.rel C.ofValue m₁ m₂ (call f args m₁) (call f args m₂))
    {b : Builtin} (hb : C.ofValue (.builtin b)) {args : List Value}
    (hargs : ∀ v ∈ args, C.ofValue v) (h : m₁.Related C.rel m₂) :
    Ending.Related C.rel C.ofValue m₁ m₂ (b.run call args m₁) (b.run call args m₂) := by
  cases b with
  | println => exact .ok h.scope (.print m₁ _) (.print m₂ _) C.null
  | count => exact .still h (C.count hb args.length)
  | last =>
    refine .still h ?_
    cases hlast : args.getLast? with
    | none => exact C.null
    | some v => exact hargs v (List.mem_of_getLast? hlast)
  | apply =>
    cases args with
    | nil => exact .error h _
    | cons callee args =>
      obtain ⟨hcallee, hargs⟩ := List.forall_mem_cons.mp hargs
      exact hcall callee args m₁ m₂ hcallee hargs h

end Lists

/-- **Two evaluations that a correspondence keeps together**, and two calls. -/
theorem eval_and_call_related (C : Correspondence) (budget : Nat) :
    (∀ node (m₁ m₂ : Machine), C.ofNode node → m₁.Related C.rel m₂ →
      Ending.Related C.rel C.ofValue m₁ m₂ (Node.eval budget node m₁)
        (Node.eval budget node m₂)) ∧
    (∀ f args (m₁ m₂ : Machine), C.ofValue f → (∀ v ∈ args, C.ofValue v) →
      m₁.Related C.rel m₂ →
      Ending.Related C.rel C.ofValue m₁ m₂ (Value.call budget f args m₁)
        (Value.call budget f args m₂)) := by
  induction budget with
  | zero =>
    constructor
    · intro node m₁ m₂ _ h
      rw [Node.eval, Node.eval]
      exact .error h _
    · intro f args m₁ m₂ _ _ h
      rw [Value.call, Value.call]
      exact .error h _
  | succ budget ih =>
    obtain ⟨heval, hcall⟩ := ih
    constructor
    · intro node m₁ m₂ hnode h
      cases node with
      | int n => exact .still h (C.int hnode)
      | float x => exact .still h (C.float hnode)
      | var name =>
        rw [Node.eval, Node.eval, C.get?_eq hnode h.scope]
        cases hget : m₁.scope.get? name with
        | none => exact .error h _
        | some v => exact .still h (C.ofBound hnode h.scope hget)
      | bin op l r =>
        obtain ⟨hl, hr⟩ := C.operands hnode
        rw [Node.eval, Node.eval]
        refine (heval l m₁ m₂ hl h).andThen h fun a n₁ n₂ ha h => ?_
        refine (heval r n₁ n₂ hr h).andThen h fun b n₁ n₂ hb h => ?_
        cases hop : operate op a b with
        | error fault => exact .error h fault
        | ok v => exact .still h (C.operate ha hb hop)
      | call callee args =>
        obtain ⟨hcallee, hargs⟩ := C.callee hnode
        rw [Node.eval, Node.eval]
        refine (heval callee m₁ m₂ hcallee h).andThen h fun f n₁ n₂ hf h => ?_
        refine (evalAll_related heval args n₁ n₂ hargs h).andThen h fun vs n₁ n₂ hvs h => ?_
        exact (hcall f vs (n₁.note _) (n₂.note _) hf hvs ⟨h.scope, h.recordDepth⟩).note_left
      | assign name value =>
        rw [Node.eval, Node.eval]
        exact (heval value m₁ m₂ (C.assigned hnode) h).andThen h fun v _ _ hv h => bind h name hv
      | func name params body =>
        rw [Node.eval, Node.eval]
        exact bind h name (C.defined hnode)
      | ret value =>
        rw [Node.eval, Node.eval]
        exact heval value m₁ m₂ (C.returned hnode) h
      | stmts body =>
        rw [Node.eval, Node.eval]
        exact runStatements_related heval body m₁ m₂ (C.statements hnode) h
      | bare text => exact .error h _
    · intro f args m₁ m₂ hf hargs h
      cases f with
      | null => exact .error h _
      | int n => exact .error h _
      | float x => exact .error h _
      | function params body =>
        rw [Value.call, Value.call]
        by_cases hlen : args.length = params.length
        · rw [if_pos hlen, if_pos hlen, ← h.recordDepth]
          by_cases hbudget : budget < m₁.recordDepth
          · rw [if_pos hbudget, if_pos hbudget]
            exact .enter h (Nat.zero_lt_of_lt hbudget)
          · rw [if_neg hbudget, if_neg hbudget]
            -- inside, the scopes below differ by what is below the callers
            have hinside : (m₁.push.bindAll (params.zip args)).Related C.rel
                (m₂.push.bindAll (params.zip args)) :=
              ⟨setAll h.scope fun binding hmem => hargs _ (List.of_mem_zip hmem).2, h.recordDepth⟩
            exact .call h (heval (.stmts body) _ _ (C.body hf) hinside)
        · rw [if_neg hlen, if_neg hlen]
          exact .error h _
      | builtin b =>
        rw [Value.call, Value.call]
        exact run_related hcall hf hargs h

end Correspondence

end CalcScript
