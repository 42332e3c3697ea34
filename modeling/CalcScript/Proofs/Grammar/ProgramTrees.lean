import CalcScript.Proofs.Grammar.ProgramLoops
import CalcScript.Proofs.Grammar.Written

/-!
# The trees that programs are read as

> `matches_isProgram`: what is read as a program is one: literals are in range, names are names,
> operands are expressions, and return statements stand in the bodies of functions only.
> `readProgram_isProgram`: so it is for sources.

`Gives` says what each rule gives. A rule's form gives it if the calls in the form do
(`gives_of_form`); by induction on the depth of calls, all calls do.
-/

namespace CalcScript.Grammar.Program

open Packrat

theorem IsStatement.inFunction {s : Node} (h : IsStatement false s) : IsStatement true s := by
  cases h with
  | expression h => exact .expression h
  | assign hname h => exact .assign hname h
  | func hname hparams hbody => exact .func hname hparams hbody

/-- The negative of an expression is an expression. -/
theorem IsExpression.negative {e : Node} (h : IsExpression e) : IsExpression e.negative := by
  cases h with
  | int h => exact .int (by rw [Int.natAbs_neg]; exact h)
  | float h => exact .float h.neg
  | var h => exact .bin (.int (Nat.zero_le _)) (.var h)
  | bin hl hr => exact .bin (.int (Nat.zero_le _)) (.bin hl hr)
  | call hf hs => exact .bin (.int (Nat.zero_le _)) (.call hf hs)

/-- What a rule gives. -/
def Gives : (r : Name) → Result r → Prop
  | .intLiteral, e => IsExpression e
  | .floatLiteral, e => IsExpression e
  | .number, e => IsExpression e
  | .variable, name => IsName name
  | .atom, e => IsExpression e
  | .primary, e => IsExpression e
  | .factor, e => IsExpression e
  | .term, e => IsExpression e
  | .expression, e => IsExpression e
  | .arguments, es => ∀ e ∈ es, IsExpression e
  | .parameters, names => ∀ name ∈ names, IsName name
  | .assignment, s => IsStatement false s
  | .functionDef, s => IsStatement false s
  | .statement, s => IsStatement false s
  | .functionStatement, s => IsStatement true s
  | .statements, body => ∀ s ∈ body, IsStatement false s
  | .functionStatements, body => ∀ s ∈ body, IsStatement true s

section

variable {code : Array Char} {reader : Reader Name Result} {p q : Nat}

theorem gives_of_operandLoop {ops : List Operator} {right : Part Node} {e : Node}
    (hright : ∀ p e q, right.Matches code reader p e q → IsExpression e)
    (h : (operandLoop right ops).Matches code reader p e q) : IsExpression e := by
  refine h.leftFold_induct (P := fun e _ => IsExpression e) (hright p) ?_
  rintro l m ⟨op, r⟩ m' hl htail
  obtain ⟨m₁, _, hr⟩ := Form.matches_pair.mp htail
  exact .bin hl (hright _ _ _ hr)

theorem gives_of_commaSeparated {α : Type} {item : Part α} {P : α → Prop} {items : List α}
    (hitem : ∀ p a q, item.Matches code reader p a q → P a)
    (h : (commaSeparated item).Matches code reader p items q) : ∀ a ∈ items, P a := by
  obtain ⟨⟨head, tail⟩, hpair, rfl⟩ := Form.matches_map.mp h
  obtain ⟨m, hhead, htail⟩ := Form.matches_pair.mp hpair
  intro a ha
  rcases List.mem_cons.mp ha with rfl | ha
  · exact hitem _ _ _ hhead
  · refine htail.many.forall_mem (fun p b q hb => ?_) a ha
    obtain ⟨_, m', _, hb'⟩ := Form.matches_andThen.mp hb
    exact hitem _ _ _ hb'

theorem gives_of_terminated {statement : Part Node} {P : Node → Prop} {body : List Node}
    (hstatement : ∀ p s q, statement.Matches code reader p s q → P s)
    (h : (terminated statement).Matches code reader p body q) : ∀ s ∈ body, P s := by
  refine h.many.forall_mem fun p s q hs => ?_
  obtain ⟨_, m₃, hs, _⟩ := Form.matches_before.mp hs
  obtain ⟨_, m₂, hs, _⟩ := Form.matches_before.mp hs
  obtain ⟨_, m₁, hs, _⟩ := Form.matches_before.mp hs
  obtain ⟨_, m₀, _, hs⟩ := Form.matches_andThen.mp hs
  exact hstatement _ _ _ hs

/-- A list between brackets that may be missing. -/
theorem gives_of_bracketed {α : Type} {list : Part (List α)} {opening closing : Char} {P : α → Prop}
    {items : Option (List α)}
    (hlist : ∀ p items q, list.Matches code reader p items q → ∀ a ∈ items, P a)
    (h : (.char opening *> someBlanks *> .optional list <* someBlanks <* .char closing :
      Part (Option (List α))).Matches code reader p items q) : ∀ a ∈ items.getD [], P a := by
  obtain ⟨_, m₂, h, _⟩ := Form.matches_before.mp h
  obtain ⟨_, m₁, h, _⟩ := Form.matches_before.mp h
  obtain ⟨_, m₀, _, h⟩ := Form.matches_andThen.mp h
  rcases Form.matches_optional.mp h with ⟨l, hl, rfl⟩ | ⟨_, rfl, _⟩
  · exact hlist _ _ _ hl
  · intro a ha
    cases ha

theorem isName_of_fits {t : List Char} (h : Lexeme.Fits [.one isNameStart, .many isNamePart] t) :
    IsName (String.ofList t) := by
  obtain ⟨_, _, rfl, ⟨c, rfl, hc⟩, ⟨cs, _, rfl, hcs, rfl⟩⟩ := h
  refine ⟨c, cs, ?_, hc, hcs⟩
  rw [String.toList_ofList, List.append_nil]
  rfl

/-- The form of a rule gives what the rule gives if the calls in it do. -/
theorem gives_of_form
    (hcalls : ∀ r p a q, (rule r).Matches code reader p a q → Gives r a) (r : Name)
    {a : Result r} (h : (loops r).form.Matches code reader p a q) : Gives r a := by
  cases r with
  | intLiteral =>
    obtain ⟨t, _, _, hle, _, rfl⟩ := matches_checkedInt h
    exact .int hle
  | floatLiteral =>
    obtain ⟨u, t, _, _, _, rfl⟩ := matches_floatLiteral h
    exact .float (Floating.isLiteral_readSingle (pointedValue_nonneg u t))
  | number =>
    obtain ⟨f, hf, hmatch⟩ := Form.Matches.first h
    rcases List.mem_pair.mp hf with rfl | rfl
    · exact hcalls .floatLiteral _ _ _ hmatch
    · exact hcalls .intLiteral _ _ _ hmatch
  | «variable» =>
    obtain ⟨t, _, hfits, rfl⟩ := Form.Matches.lexeme h
    exact isName_of_fits hfits
  | atom =>
    rcases Form.matches_first_cons.mp h with hmatch | ⟨_, h⟩
    · -- brackets leave no trace in the tree
      obtain ⟨_, m₂, hmatch, _⟩ := Form.matches_before.mp hmatch
      obtain ⟨_, m₁, hmatch, _⟩ := Form.matches_before.mp hmatch
      obtain ⟨_, m₀, _, hmatch⟩ := Form.matches_andThen.mp hmatch
      exact hcalls .expression _ _ _ hmatch
    · obtain ⟨f, hf, hmatch⟩ := h.first
      rcases List.mem_pair.mp hf with rfl | rfl
      · obtain ⟨name, hname, rfl⟩ := Form.matches_map.mp hmatch
        exact .var (hcalls .variable _ _ _ hname)
      · exact hcalls .number _ _ _ hmatch
  | primary =>
    have hloop : (Form.leftFold (fun (callee, args) => Node.call callee (args.getD []))
        (rule .atom) argumentList).Matches code reader p a q := h
    refine hloop.leftFold_induct (P := fun e _ => IsExpression e)
      (fun e m he => hcalls .atom _ _ _ he) ?_
    rintro f m args m' hf hargs
    exact .call hf (gives_of_bracketed (hcalls .arguments) hargs)
  | factor =>
    obtain ⟨f, hf, hmatch⟩ := Form.Matches.first h
    rcases List.mem_pair.mp hf with rfl | rfl
    · obtain ⟨e, he, rfl⟩ := Form.matches_map.mp hmatch
      obtain ⟨_, m, _, he⟩ := Form.matches_andThen.mp he
      exact (show IsExpression e from hcalls .primary _ _ _ he).negative
    · exact hcalls .primary _ _ _ hmatch
  | term => exact gives_of_operandLoop (hcalls .factor) h
  | expression => exact gives_of_operandLoop (hcalls .term) h
  | arguments => exact gives_of_commaSeparated (hcalls .expression) h
  | parameters => exact gives_of_commaSeparated (hcalls .variable) h
  | assignment =>
    obtain ⟨⟨name, e⟩, hpair, rfl⟩ := Form.matches_map.mp h
    obtain ⟨m, hname, hvalue⟩ := Form.matches_pair.mp hpair
    obtain ⟨_, m', _, he⟩ := Form.matches_andThen.mp hvalue
    exact .assign (hcalls .variable _ _ _ hname) (hcalls .expression _ _ _ he)
  | functionDef =>
    obtain ⟨⟨name, params, body⟩, hpair, rfl⟩ := Form.matches_map.mp h
    obtain ⟨m, hname, hrest⟩ := Form.matches_pair.mp hpair
    obtain ⟨m', hparams, hbody⟩ := Form.matches_pair.mp hrest
    obtain ⟨_, m₁, hname, _⟩ := Form.matches_before.mp hname
    obtain ⟨_, m₀, _, hname⟩ := Form.matches_andThen.mp hname
    obtain ⟨_, m₄, hbody, _⟩ := Form.matches_before.mp hbody
    obtain ⟨_, m₃, hbody, _⟩ := Form.matches_before.mp hbody
    obtain ⟨_, m₂, _, hbody⟩ := Form.matches_andThen.mp hbody
    exact .func (hcalls .variable _ _ _ hname) (gives_of_bracketed (hcalls .parameters) hparams)
      (hcalls .functionStatements _ _ _ hbody)
  | statement =>
    rcases Form.matches_first_cons.mp h with hmatch | ⟨_, h⟩
    · exact hcalls .assignment _ _ _ hmatch
    · obtain ⟨f, hf, hmatch⟩ := h.first
      rcases List.mem_pair.mp hf with rfl | rfl
      · exact hcalls .functionDef _ _ _ hmatch
      · exact .expression (hcalls .expression _ _ _ hmatch)
  | functionStatement =>
    obtain ⟨f, hf, hmatch⟩ := Form.Matches.first h
    rcases List.mem_pair.mp hf with rfl | rfl
    · obtain ⟨e, he, rfl⟩ := Form.matches_map.mp hmatch
      obtain ⟨_, m, _, he⟩ := Form.matches_andThen.mp he
      exact .ret (hcalls .expression _ _ _ he)
    · -- a statement of a body that is no return statement is read by the rule for all statements
      exact IsStatement.inFunction (hcalls .statement _ _ _ hmatch)
  | statements => exact gives_of_terminated (hcalls .statement) h
  | functionStatements => exact gives_of_terminated (hcalls .functionStatement) h

end

theorem readRule_gives (code : Array Char) :
    ∀ depth r p a q, (rule r).Matches code (loops.readRule code depth) p a q → Gives r a := by
  intro depth
  induction depth with
  | zero => rintro r p a q ⟨reach, h⟩; cases h
  | succ depth ih =>
    rintro r p a q ⟨reach, h⟩
    exact gives_of_form ih r ⟨reach, h⟩

/-- **What is read as a program is a program.** -/
theorem matches_isProgram {code : Array Char} {body : List Node} {q : Nat}
    (h : whole.Matches code (loops.reader code layers.height) 0 body q) : IsProgram body := by
  obtain ⟨_, m, hbody, _⟩ := Form.matches_before.mp h
  exact readRule_gives code _ .statements 0 body m hbody

end CalcScript.Grammar.Program

namespace CalcScript

open Grammar.Program

/-- What a source is read as is a program. -/
theorem readProgram_isProgram {source : String} {body : List Node}
    (h : readProgram source = .ok body) : IsProgram body := by
  obtain ⟨q, hq⟩ := (readWith_eq_ok_iff rules_unroll loops_layered (not_nestedTooDeeply h)).mp h
  exact matches_isProgram hq

end CalcScript
