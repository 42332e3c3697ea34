import CalcScript.Proofs.Evaluation.Activity
import CalcScript.Proofs.Evaluation.Safety
import CalcScript.Proofs.Floating.SinglePrecision

/-!
# Numbers stay within 32 bits

Evaluation takes the numbers of literals as they are, so nothing but the grammar keeps those in
range; operations wrap and round by themselves. Numbers then travel through scopes, the bodies of
stored functions and built-in functions, from one program to the next.

> `programs_representable`: if the literals are representable, so is every number that is given,
> bound, passed or printed, in each of the activities that an evaluation includes; and the literals
> of a source are.

The built-in function `count` gives numbers that nothing bounds, and is left out (it is there on
request only).
-/

namespace CalcScript

open Grammar.Program

/-- The integer is one of 32 bits with a sign. -/
def IsWord (n : Int) : Prop := -2147483648 ≤ n ∧ n ≤ 2147483647

instance (n : Int) : Decidable (IsWord n) := inferInstanceAs (Decidable (_ ∧ _))

/-- All literals of the node are representable, those in the bodies of functions too. -/
inductive Node.IsRepresentable : Node → Prop where
  | int {n : Int} (h : IsWord n) : IsRepresentable (.int n)
  | float {x : Floating} (h : x.IsSinglePrecision) : IsRepresentable (.float x)
  | var (name : String) : IsRepresentable (.var name)
  | bin (op : Operator) {l r : Node} (left : IsRepresentable l) (right : IsRepresentable r) :
      IsRepresentable (.bin op l r)
  | call {f : Node} {es : List Node} (callee : IsRepresentable f)
      (args : ∀ e ∈ es, IsRepresentable e) : IsRepresentable (.call f es)
  | assign (name : String) {e : Node} (value : IsRepresentable e) :
      IsRepresentable (.assign name e)
  | ret {e : Node} (value : IsRepresentable e) : IsRepresentable (.ret e)
  | stmts {body : List Node} (h : ∀ s ∈ body, IsRepresentable s) : IsRepresentable (.stmts body)
  | func (name : String) (params : List String) {body : List Node}
      (h : ∀ s ∈ body, IsRepresentable s) : IsRepresentable (.func name params body)
  | bare (text : String) : IsRepresentable (.bare text)

/-- The value is a representable number, a function whose literals are representable, or no number
and a function that makes none. -/
def Value.IsRepresentable : Value → Prop
  | .null => True
  | .int n => IsWord n
  | .float x => x.IsSinglePrecision
  | .function _ body => ∀ s ∈ body, s.IsRepresentable
  | .builtin b => b ≠ .count

/-- All values of all scopes are representable. -/
def Machine.IsRepresentable (m : Machine) : Prop :=
  ∀ scope ∈ m.scopes, ∀ name v, scope.get? name = some v → v.IsRepresentable

/-- All that an activity is about is representable: its literals, or what is called and what is
passed, what it comes to, the values of all scopes before it and after it, and what it prints. -/
structure Activity.IsRepresentable (a : Activity) : Prop where
  literals : ∀ budget node m, a = .eval budget node m → node.IsRepresentable
  passed : ∀ budget f args m, a = .call budget f args m →
    f.IsRepresentable ∧ ∀ v ∈ args, v.IsRepresentable
  before : a.machine.IsRepresentable
  result : ∀ v, a.ending.1 = .ok v → v.IsRepresentable
  after : a.ending.2.IsRepresentable
  printed : ∃ lines : List (List Value),
    a.ending.2.output = a.machine.output ++ String.join (lines.map printedLine) ∧
    ∀ args ∈ lines, ∀ v ∈ args, v.IsRepresentable

/-! ## Operations -/

theorem isWord_wrap (n : Int) : IsWord (wrap n) := by
  obtain ⟨hlow, hhigh⟩ := wrap_bounds n
  exact ⟨hlow, by omega⟩

theorem intOperation_isWord {op : Operator} {a b n : Int} (h : intOperation op a b = .ok n) :
    IsWord n := by
  cases op with
  | plus => cases h; exact isWord_wrap _
  | minus => cases h; exact isWord_wrap _
  | times => cases h; exact isWord_wrap _
  | divide =>
    rw [intOperation] at h
    by_cases hb : b = 0
    · rw [if_pos hb] at h
      cases h
    · rw [if_neg hb] at h
      cases h
      exact isWord_wrap _

theorem Value.IsRepresentable.number {v : Value} {x : Floating} (hv : v.IsRepresentable)
    (h : v.number? = some x) : x.HasMagnitude := by
  cases v with
  | int n => cases h; exact (Floating.hasMagnitude_ofInt n).round
  | float y => cases h; exact Floating.IsSinglePrecision.hasMagnitude hv
  | _ => cases h

/-- An operation on representable values gives one. -/
theorem operate_isRepresentable {op : Operator} {a b v : Value} (ha : a.IsRepresentable)
    (hb : b.IsRepresentable) (h : operate op a b = .ok v) : v.IsRepresentable := by
  unfold operate at h
  split at h
  · split at h
    · next hint =>
      cases h
      exact intOperation_isWord hint
    · cases h
  · split at h
    · next hx hy =>
      cases h
      exact Floating.isSinglePrecision_floatOperation op (ha.number hx) (hb.number hy)
    · cases h
    · cases h

/-! ## The invariant -/

/-- What holds of literals and values in every activity. -/
def numberInvariant : Invariant where
  ofNode := Node.IsRepresentable
  ofValue := Value.IsRepresentable
  ofFault _ := True
  int h := by cases h with | int h => exact h
  float h := by cases h with | float h => exact h
  var _ := trivial
  operands h := by cases h with | bin _ left right => exact ⟨left, right⟩
  callee h := by cases h with | call callee args => exact ⟨callee, args⟩
  assigned h := by cases h with | assign _ value => exact value
  returned h := by cases h with | ret value => exact value
  statements h := by cases h with | stmts h => exact h
  defined h := by cases h with | func _ _ h => exact h
  bare _ := trivial
  body h := .stmts h
  null := trivial
  count h := absurd rfl h
  operate := operate_isRepresentable
  operateFault _ _ _ := trivial
  notCallable _ := trivial
  arity _ _ := trivial
  recursionDepth := trivial

theorem Machine.isRepresentable_iff {m : Machine} :
    m.IsRepresentable ↔ numberInvariant.OfMachine m :=
  List.forall_mem_cons

/-- An activity that the invariant holds of is about representable numbers only. -/
theorem Activity.isRepresentable {a : Activity} (h : numberInvariant.OfActivity a) :
    a.IsRepresentable := by
  have hends := h.ends
  refine ⟨?_, ?_, ?_, hends.result, Machine.isRepresentable_iff.mpr hends.machine, ?_⟩
  · rintro budget node m rfl
    exact h.1
  · rintro budget f args m rfl
    exact ⟨h.1, h.2.1⟩
  · cases a with
    | eval budget node m => exact Machine.isRepresentable_iff.mpr h.2
    | call budget f args m => exact Machine.isRepresentable_iff.mpr h.2.2
  · obtain ⟨lines, houtput, hlines⟩ := a.prints
    refine ⟨lines, houtput, fun args hargs => ?_⟩
    obtain ⟨budget, n, hincludes⟩ := hlines args hargs
    exact (h.includes hincludes).2.1

theorem Node.IsRepresentable.activity {node : Node} (hnode : node.IsRepresentable) {m : Machine}
    (hm : m.IsRepresentable) (budget : Nat) {a : Activity}
    (ha : (Activity.eval budget node m).Includes a) : a.IsRepresentable := by
  have hbegins : numberInvariant.OfActivity (.eval budget node m) :=
    ⟨hnode, Machine.isRepresentable_iff.mp hm⟩
  exact Activity.isRepresentable (hbegins.includes ha)

/-! ## Programs -/

theorem Grammar.Program.IsExpression.isRepresentable {e : Node} (h : IsExpression e) :
    e.IsRepresentable := by
  induction h with
  | int h =>
    refine .int ?_
    unfold IsWord
    unfold Grammar.largestInt at h
    omega
  | float h => exact .float h.isSinglePrecision
  | var h => exact .var _
  | bin left right ihl ihr => exact .bin _ ihl ihr
  | call callee args ihf ihs => exact .call ihf ihs

theorem Grammar.Program.IsStatement.isRepresentable {inBody : Bool} {s : Node}
    (h : IsStatement inBody s) : s.IsRepresentable := by
  induction h with
  | expression h => exact h.isRepresentable
  | assign hname h => exact .assign _ h.isRepresentable
  | func hname hparams hbody ih => exact .func _ _ ih
  | ret h => exact .ret h.isRepresentable

/-- The literals of a source are representable. -/
theorem readProgram_isRepresentable {source : String} {body : List Node}
    (h : readProgram source = .ok body) : (Node.stmts body).IsRepresentable :=
  .stmts fun s hs => (readProgram_isProgram h s hs).isRepresentable

/-- Programs one after the other leave only representable values, those that fail too. -/
theorem Machine.Reached.isRepresentable {builtins : List Builtin} (hcount : .count ∉ builtins)
    {m : Machine} (h : Machine.Reached builtins m) : m.IsRepresentable := by
  induction h with
  | start =>
    refine Machine.isRepresentable_iff.mpr (Invariant.ofMachine_start fun b hb heq => ?_)
    rw [heq] at hb
    rcases List.mem_cons.mp hb with hb | hb
    · cases hb
    · exact hcount hb
  | evaluated _ hread budget ih =>
    exact ((readProgram_isRepresentable hread).activity ih budget .refl).after
  | observed _ output events recordDepth ih => exact ih

/-- **Numbers stay within 32 bits.** If the literals of a node and the values of all scopes are
representable, so is all that goes on when the node is evaluated. On a machine that programs have
led to this is so for the program of every source. -/
theorem programs_representable :
    (∀ node m, Node.IsRepresentable node → Machine.IsRepresentable m →
      ∀ budget a, (Activity.eval budget node m).Includes a → a.IsRepresentable) ∧
    ∀ builtins, .count ∉ builtins → ∀ m, Machine.Reached builtins m →
      m.IsRepresentable ∧
      ∀ source body, readProgram source = .ok body →
        ∀ budget a, (Activity.eval budget (.stmts body) m).Includes a → a.IsRepresentable := by
  constructor
  · intro node m hnode hm budget a ha
    exact hnode.activity hm budget ha
  · intro builtins hcount m hreached
    have hm := hreached.isRepresentable hcount
    exact ⟨hm, fun source body hread budget a ha =>
      (readProgram_isRepresentable hread).activity hm budget ha⟩

/-- A function that divides its argument by minus one. -/
def negatingFunction : Value :=
  .function ["n"] [.ret (.bin .divide (.var "n") (.int (-1)))]

/-- The smallest integer divided by minus one, in a function that a scope holds and in a program that
prints it. -/
theorem programs_representable_smallestInt :
    (∀ a, (Activity.eval 5 (.call (.var "f") [.int (-2147483648)])
        ⟨Scope.empty.set "f" negatingFunction, [], "", [], 0⟩).Includes a → a.IsRepresentable) ∧
    ∃ body, readProgram "f = println; f((-2147483647 - 1) / -1, 0.1 / 0);" = .ok body ∧
      ∀ a, (Activity.eval 9 (.stmts body) (.start [.last, .apply])).Includes a →
        a.IsRepresentable := by
  obtain ⟨hevaluation, hsession⟩ := programs_representable
  constructor
  · have hnode : Node.IsRepresentable (.call (.var "f") [.int (-2147483648)]) := by
      refine .call (.var "f") fun e he => ?_
      rw [List.mem_singleton.mp he]
      exact .int (by decide)
    have hf : negatingFunction.IsRepresentable := by
      intro s hs
      rw [List.mem_singleton.mp hs]
      exact .ret (.bin .divide (.var "n") (.int (by decide)))
    refine hevaluation _ _ hnode (Machine.isRepresentable_iff.mpr ⟨?_, fun _ h => ?_⟩) 5
    · exact Invariant.ofScope_empty.set "f" hf
    · cases h
  · have hreads : (readProgram "f = println; f((-2147483647 - 1) / -1, 0.1 / 0);").isOk = true := by
      decide +kernel
    cases hread : readProgram "f = println; f((-2147483647 - 1) / -1, 0.1 / 0);" with
    | error r => rw [hread] at hreads; cases hreads
    | ok body =>
      exact ⟨body, rfl, (hsession [.last, .apply] (by decide) _ .start).2 _ body hread 9⟩

end CalcScript
