import CalcScript.Proofs.Evaluation.Invariant
import Mathlib.Logic.Relation

/-!
# What goes on in an evaluation

An evaluation consists of activities: nodes are evaluated, and values are called with arguments.
`Activity.Part` says which activities are parts of another one, and on which machines they begin;
`Activity.Includes` follows parts of parts, into the bodies of functions too.

> `Invariant.OfActivity.includes`: an invariant holds of all activities that one of which it holds
> includes.
> `Activity.prints`: what an activity prints are the lines of the calls of `println` it includes.

So an invariant says something of each value that is passed, bound, given or printed on the way, and
not only of what is there at the end.
-/

namespace CalcScript

variable {α β : Type}

/-- An activity: a node is evaluated or a value is called, within a budget and on a machine. -/
inductive Activity where
  | eval (budget : Nat) (node : Node) (m : Machine)
  | call (budget : Nat) (f : Value) (args : List Value) (m : Machine)

namespace Activity

/-- The machine an activity begins on. -/
def machine : Activity → Machine
  | .eval _ _ m => m
  | .call _ _ _ m => m

/-- What an activity comes to. -/
def ending : Activity → Ending Value
  | .eval budget node m => Node.eval budget node m
  | .call budget f args m => Value.call budget f args m

/-- The second activity is a part of the first one. It begins when the parts before it have given
their values. -/
inductive Part : Activity → Activity → Prop where
  | left {budget op l r m} : Part (.eval (budget + 1) (.bin op l r) m) (.eval budget l m)
  | right {budget op l r m a n} (hleft : Node.eval budget l m = (.ok a, n)) :
      Part (.eval (budget + 1) (.bin op l r) m) (.eval budget r n)
  | assigned {budget name value m} :
      Part (.eval (budget + 1) (.assign name value) m) (.eval budget value m)
  | returned {budget value m} : Part (.eval (budget + 1) (.ret value) m) (.eval budget value m)
  | statement {budget body m i v n} (hi : i < body.length)
      (hbefore : runStatements (Node.eval budget) (body.take i) m = (.ok v, n))
      (hgoesOn : ∀ s ∈ body.take i, s.isRet = false) :
      Part (.eval (budget + 1) (.stmts body) m) (.eval budget body[i] n)
  | callee {budget f es m} : Part (.eval (budget + 1) (.call f es) m) (.eval budget f m)
  | argument {budget f es m v n i vs n'} (hi : i < es.length)
      (hcallee : Node.eval budget f m = (.ok v, n))
      (hbefore : evalAll (Node.eval budget) (es.take i) n = (.ok vs, n')) :
      Part (.eval (budget + 1) (.call f es) m) (.eval budget es[i] n')
  | called {budget f es m v n vs n'} (hcallee : Node.eval budget f m = (.ok v, n))
      (hargs : evalAll (Node.eval budget) es n = (.ok vs, n')) :
      Part (.eval (budget + 1) (.call f es) m)
        (.call budget v vs (n'.note (.calling v vs.length)))
  | body {budget params body args m} (hlen : args.length = params.length)
      (hbudget : ¬budget < m.recordDepth) :
      Part (.call (budget + 1) (.function params body) args m)
        (.eval budget (.stmts body) (m.push.bindAll (params.zip args)))
  | applied {budget f args m} :
      Part (.call (budget + 1) (.builtin .apply) (f :: args) m) (.call budget f args m)

/-- The second activity is the first one, a part of it, a part of a part, and so on. -/
def Includes : Activity → Activity → Prop := Relation.ReflTransGen Part

end Activity

/-! ## Invariants of activities -/

namespace Invariant

variable {I : Invariant}

/-- The invariant holds of what an activity begins with: its node or its values, and all scopes. -/
def OfActivity (I : Invariant) : Activity → Prop
  | .eval _ node m => I.ofNode node ∧ I.OfMachine m
  | .call _ f args m => I.ofValue f ∧ (∀ v ∈ args, I.ofValue v) ∧ I.OfMachine m

/-- Values and machine after an evaluation, for evaluations that give a value. -/
theorem eval_ok {budget : Nat} {node : Node} {m n : Machine} {v : Value}
    (h : Node.eval budget node m = (.ok v, n)) (hnode : I.ofNode node) (hm : I.OfMachine m) :
    I.ofValue v ∧ I.OfMachine n := by
  have hends := I.eval_ends budget hnode hm
  rw [h] at hends
  exact ⟨hends.result v rfl, hends.machine⟩

theorem evalAll_ok {budget : Nat} {nodes : List Node} {m n : Machine} {vs : List Value}
    (h : evalAll (Node.eval budget) nodes m = (.ok vs, n)) (hnodes : ∀ node ∈ nodes, I.ofNode node)
    (hm : I.OfMachine m) : (∀ v ∈ vs, I.ofValue v) ∧ I.OfMachine n := by
  have hends := evalAll_ends (I.eval_and_call_ends budget).1 nodes m hnodes hm
  rw [h] at hends
  exact ⟨hends.result vs rfl, hends.machine⟩

theorem runStatements_ok {budget : Nat} {body : List Node} {m n : Machine} {v : Value}
    (h : runStatements (Node.eval budget) body m = (.ok v, n)) (hbody : ∀ s ∈ body, I.ofNode s)
    (hm : I.OfMachine m) : I.OfMachine n := by
  have hends := runStatements_ends (I.eval_and_call_ends budget).1 body m hbody hm
  rw [h] at hends
  exact hends.machine

/-- An invariant of an activity is one of its parts. -/
theorem OfActivity.part {a b : Activity} (h : I.OfActivity a) (hpart : a.Part b) :
    I.OfActivity b := by
  cases hpart with
  | left => exact ⟨(I.operands h.1).1, h.2⟩
  | right hleft => exact ⟨(I.operands h.1).2, (eval_ok hleft (I.operands h.1).1 h.2).2⟩
  | assigned => exact ⟨I.assigned h.1, h.2⟩
  | returned => exact ⟨I.returned h.1, h.2⟩
  | statement hi hbefore _ =>
    have hbody := I.statements h.1
    exact ⟨hbody _ (List.getElem_mem hi),
      runStatements_ok hbefore (fun s hs => hbody s (List.mem_of_mem_take hs)) h.2⟩
  | callee => exact ⟨(I.callee h.1).1, h.2⟩
  | argument hi hcallee hbefore =>
    obtain ⟨hf, hes⟩ := I.callee h.1
    obtain ⟨-, hn⟩ := eval_ok hcallee hf h.2
    exact ⟨hes _ (List.getElem_mem hi),
      (evalAll_ok hbefore (fun e he => hes e (List.mem_of_mem_take he)) hn).2⟩
  | called hcallee hargs =>
    obtain ⟨hf, hes⟩ := I.callee h.1
    obtain ⟨hv, hn⟩ := eval_ok hcallee hf h.2
    obtain ⟨hvs, hn'⟩ := evalAll_ok hargs hes hn
    exact ⟨hv, hvs, hn'⟩
  | body hlen _ =>
    obtain ⟨hf, hargs, hm⟩ := h
    exact ⟨I.body hf, hm.push fun binding hmem => hargs _ (List.of_mem_zip hmem).2⟩
  | applied =>
    obtain ⟨hf, hargs⟩ := List.forall_mem_cons.mp h.2.1
    exact ⟨hf, hargs, h.2.2⟩

/-- **An invariant holds of everything that goes on.** -/
theorem OfActivity.includes {a b : Activity} (h : I.OfActivity a) (hincludes : a.Includes b) :
    I.OfActivity b := by
  induction hincludes with
  | refl => exact h
  | tail _ hpart ih => exact ih.part hpart

/-- It also holds of what an activity comes to, and of all scopes then. -/
theorem OfActivity.ends {a : Activity} (h : I.OfActivity a) : I.Ends I.ofValue a.ending := by
  cases a with
  | eval budget node m => exact I.eval_ends budget h.1 h.2
  | call budget f args m => exact (I.eval_and_call_ends budget).2 f args m h.1 h.2.1 h.2.2

end Invariant

/-! ## What is printed -/

/-- The line that is printed for some values. -/
def printedLine (args : List Value) : String := ", ".intercalate (args.map Value.text) ++ "\n"

/-- Between the machine and the ending, the lines of some calls of `println` have been printed that
the activity includes. -/
def Activity.Prints (a : Activity) (m : Machine) (ending : Ending α) : Prop :=
  ∃ lines : List (List Value),
    ending.2.output = m.output ++ String.join (lines.map printedLine) ∧
    ∀ args ∈ lines, ∃ budget n, a.Includes (.call budget (.builtin .println) args n)

namespace Activity.Prints

variable {a b : Activity} {m : Machine}

theorem nothing (a : Activity) {n : Machine} (h : n.output = m.output) (result : Except Fault α) :
    a.Prints m ((result, n) : Ending α) :=
  ⟨[], h.trans String.append_empty.symm, fun _ hmem => (nomatch hmem)⟩

/-- What a part prints is printed. -/
theorem part {ending : Ending α} (h : b.Prints m ending) (hpart : a.Part b) : a.Prints m ending := by
  obtain ⟨lines, houtput, hlines⟩ := h
  refine ⟨lines, houtput, fun args hargs => ?_⟩
  obtain ⟨budget, n, hincludes⟩ := hlines args hargs
  exact ⟨budget, n, .head hpart hincludes⟩

/-- Leaving a scope prints nothing. -/
theorem pop {ending : Ending α} (h : a.Prints m ending) : a.Prints m (ending.1, ending.2.pop) := by
  obtain ⟨lines, houtput, hlines⟩ := h
  exact ⟨lines, (Machine.output_pop ending.2).trans houtput, hlines⟩

theorem trans {ending : Ending α} {ending' : Ending β} (h : a.Prints m ending)
    (h' : a.Prints ending.2 ending') : a.Prints m ending' := by
  obtain ⟨lines, houtput, hlines⟩ := h
  obtain ⟨lines', houtput', hlines'⟩ := h'
  refine ⟨lines ++ lines', ?_, fun args hargs => ?_⟩
  · rw [houtput', houtput, List.map_append, String.join_append, String.append_assoc]
  · rcases List.mem_append.mp hargs with hargs | hargs
    · exact hlines args hargs
    · exact hlines' args hargs

theorem andThen {ending : Ending α} {next : α → Machine → Ending β} (h : a.Prints m ending)
    (hnext : ∀ v n, ending = (.ok v, n) → a.Prints n (next v n)) :
    a.Prints m (ending.andThen next) := by
  obtain ⟨result, n⟩ := ending
  cases result with
  | error fault => exact h
  | ok v => exact h.trans (hnext v n rfl)

theorem evalAll {eval : Node → Machine → Ending Value} {nodes : List Node}
    (hnodes : ∀ i (hi : i < nodes.length) vs n,
      evalAll eval (nodes.take i) m = (.ok vs, n) → a.Prints n (eval nodes[i] n)) :
    a.Prints m (CalcScript.evalAll eval nodes m) := by
  induction nodes generalizing m with
  | nil => exact nothing a rfl _
  | cons node nodes ih =>
    refine (hnodes 0 (Nat.zero_lt_succ _) [] m rfl).andThen fun v n hv => ?_
    refine (ih fun i hi vs n' hvs => ?_).andThen fun vs n' _ => nothing a rfl _
    refine hnodes (i + 1) (Nat.succ_lt_succ hi) (v :: vs) n' ?_
    replace hv : eval node m = (.ok v, n) := hv
    rw [List.take_succ_cons, CalcScript.evalAll, hv, Ending.andThen_ok, hvs, Ending.andThen_ok]

theorem runStatements {eval : Node → Machine → Ending Value} {body : List Node}
    (hbody : ∀ i (hi : i < body.length) v n,
      runStatements eval (body.take i) m = (.ok v, n) → (∀ s ∈ body.take i, s.isRet = false) →
        a.Prints n (eval body[i] n)) :
    a.Prints m (CalcScript.runStatements eval body m) := by
  induction body generalizing m with
  | nil => exact nothing a rfl _
  | cons node body ih =>
    refine (hbody 0 (Nat.zero_lt_succ _) .null m rfl fun _ hmem => (nomatch hmem)).andThen
      fun v n hv => ?_
    replace hv : eval node m = (.ok v, n) := hv
    by_cases hret : node.isRet = true
    · rw [if_pos hret]
      exact nothing a rfl _
    · rw [if_neg hret]
      refine ih fun i hi w n' hw hgoesOn => ?_
      refine hbody (i + 1) (Nat.succ_lt_succ hi) w n' ?_ ?_
      · rw [List.take_succ_cons, CalcScript.runStatements, hv, Ending.andThen_ok, if_neg hret, hw]
      · rw [List.take_succ_cons]
        exact List.forall_mem_cons.mpr ⟨Bool.eq_false_iff.mpr hret, hgoesOn⟩

end Activity.Prints

theorem eval_and_call_prints (budget : Nat) :
    (∀ node m, (Activity.eval budget node m).Prints m (Node.eval budget node m)) ∧
    (∀ f args m, (Activity.call budget f args m).Prints m (Value.call budget f args m)) := by
  induction budget with
  | zero =>
    constructor
    · intro node m
      rw [Node.eval]
      exact .nothing _ rfl _
    · intro f args m
      rw [Value.call]
      exact .nothing _ rfl _
  | succ budget ih =>
    obtain ⟨heval, hcall⟩ := ih
    constructor
    · intro node m
      cases node with
      | int n => exact .nothing _ rfl _
      | float x => exact .nothing _ rfl _
      | var name =>
        rw [Node.eval]
        cases m.scope.get? name with
        | none => exact .nothing _ rfl _
        | some v => exact .nothing _ rfl _
      | bin op l r =>
        rw [Node.eval]
        refine ((heval l m).part .left).andThen fun a n ha => ?_
        exact ((heval r n).part (.right ha)).andThen fun b n' _ => .nothing _ rfl _
      | assign name value =>
        rw [Node.eval]
        exact ((heval value m).part .assigned).andThen fun v n _ => .nothing _ rfl _
      | func name params body => exact .nothing _ rfl _
      | call callee args =>
        rw [Node.eval]
        refine ((heval callee m).part .callee).andThen fun f n hf => ?_
        refine (Activity.Prints.evalAll fun i hi vs n' hvs => ?_).andThen fun vs n' hvs => ?_
        · exact (heval args[i] n').part (.argument hi hf hvs)
        · exact (hcall f vs (n'.note (.calling f vs.length))).part (.called hf hvs)
      | stmts body =>
        rw [Node.eval]
        exact .runStatements fun i hi v n hbefore hgoesOn =>
          (heval body[i] n).part (.statement hi hbefore hgoesOn)
      | ret value =>
        rw [Node.eval]
        exact (heval value m).part .returned
      | bare text => exact .nothing _ rfl _
    · intro f args m
      cases f with
      | null => exact .nothing _ rfl _
      | int n => exact .nothing _ rfl _
      | float x => exact .nothing _ rfl _
      | function params body =>
        rw [Value.call]
        by_cases hlen : args.length = params.length
        · rw [if_pos hlen]
          by_cases hbudget : budget < m.recordDepth
          · rw [if_pos hbudget]
            exact .nothing _ rfl _
          · rw [if_neg hbudget]
            have hbody := heval (.stmts body) (m.push.bindAll (params.zip args))
            exact (hbody.part (.body hlen hbudget)).pop
        · rw [if_neg hlen]
          exact .nothing _ rfl _
      | builtin b =>
        rw [Value.call]
        cases b with
        | println =>
          refine ⟨[args], ?_, fun args' hargs' => ?_⟩
          · rw [List.map_singleton, String.join_cons, String.join_nil, String.append_empty]
            rfl
          · rw [List.mem_singleton.mp hargs']
            exact ⟨budget + 1, m, .refl⟩
        | count => exact .nothing _ rfl _
        | last => exact .nothing _ rfl _
        | apply =>
          cases args with
          | nil => exact .nothing _ rfl _
          | cons callee args => exact (hcall callee args m).part .applied

/-- **All text comes from `println`.** What an activity prints are the lines of calls of `println`
that it includes. -/
theorem Activity.prints (a : Activity) : a.Prints a.machine a.ending := by
  cases a with
  | eval budget node m => exact (eval_and_call_prints budget).1 node m
  | call budget f args m => exact (eval_and_call_prints budget).2 f args m

end CalcScript
