import CalcScript.Proofs.Evaluation.Calculations
import CalcScript.Proofs.Grammar.ProgramAppend
import CalcScript.Proofs.Source.Nesting

/-!
# The sign of a literal and the difference from zero

A minus sign before a literal changes the literal's sign when the source is read. Before anything
else it is a difference from zero, which is computed when the program runs. The two ways agree on
all literals but one: changing the sign of the floating-point zero gives the negative zero, taking
it away from zero does not.

> `negation_agrees`: so it is for the values of the two trees, and for programs that bind a variable
> to the negative of a literal, or to the negative of a variable that is bound to the literal.
-/

namespace CalcScript

open Grammar Grammar.Program Packrat

/-! ## Differences from zero -/

namespace Floating

variable {x : Floating}

/-- Taking a datum away from zero changes its sign, unless the datum is that same zero. -/
theorem zero_sub (h : ∀ s m, x = .finite s m → 0 ≤ m) :
    sub (.finite false 0) x = if x = .finite false 0 then x else x.neg := by
  cases x with
  | nan => rfl
  | infinity s => rfl
  | finite s m =>
    have hm : 0 ≤ m := h s m rfl
    cases s with
    | true =>
      -- the signs are equal, so magnitudes are added
      rw [if_neg (by simp)]
      show Floating.finite false (0 + m) = .finite false m
      rw [Rat.zero_add]
    | false =>
      show (if m < 0 then Floating.finite false (0 - m)
        else if 0 < m then .finite true (m - 0) else .finite false 0) = _
      rw [if_neg (not_lt_of_ge hm)]
      -- a sum of zeros of different signs is the positive zero
      rcases eq_or_lt_of_le hm with rfl | hpos
      · rfl
      · rw [if_pos hpos, sub_zero, if_neg]
        · rfl
        · intro heq
          injection heq with _ hzero
          exact hpos.ne' hzero

/-- The zero that is taken away from has no sign. -/
theorem toSingle_zero : (ofInt 0).toDouble.toSingle = .finite false 0 := by decide +kernel

/-- Single precision makes no difference to a literal that is taken away from zero. -/
theorem floatOperation_zero_minus (h : x.IsLiteral) :
    floatOperation .minus (ofInt 0).toDouble x = if x = .finite false 0 then x else x.neg := by
  have hexact : floatOperation .minus (ofInt 0).toDouble x =
      (sub (.finite false 0) x).toDouble.toSingle := by
    show (sub (ofInt 0).toDouble.toSingle x.toSingle).toDouble.toSingle = _
    rw [toSingle_zero, h.single]
  rw [hexact, zero_sub h.magnitude]
  split
  · rw [h.toDouble, h.single]
  · rw [h.neg.toDouble, h.neg.single]

end Floating

/-! ## The two ways to a negative number -/

/-- The value of a literal. -/
def Node.literalValue : Node → Value
  | .int n => .int n
  | .float x => .float x
  | _ => .null

section

variable {e : Node}

/-- A literal has its value. -/
theorem Node.eval_literal (h : e.isLiteral = true) (budget : Nat) (m : Machine) :
    e.eval (budget + 1) m = (.ok e.literalValue, m) := by
  cases e with
  | int n => rfl
  | float x => rfl
  | _ => cases h

/-- A literal that is negated remains one. -/
theorem Node.isLiteral_negative (h : e.isLiteral = true) : e.negative.isLiteral = true := by
  cases e with
  | int n => rfl
  | float x => rfl
  | _ => cases h

/-- The values that a literal has when its sign is changed and when it is taken away from zero: one
value, but for the floating-point zero the zeros of both signs. -/
def AreNegatives (e : Node) (v v' : Value) : Prop :=
  (e ≠ .float (.finite false 0) → v = v') ∧
  (e = .float (.finite false 0) → v = .float (.finite true 0) ∧ v' = .float (.finite false 0))

/-- The difference of zero and a literal is a number, whatever the literal. -/
theorem exists_difference (he : IsExpression e) (hliteral : e.isLiteral = true) :
    ∃ v, operate .minus (.int 0) e.literalValue = .ok v ∧
      AreNegatives e e.negative.literalValue v := by
  cases he with
  | @int n hn =>
    have hbounds : n.natAbs ≤ 2147483647 := hn
    refine ⟨.int (-n), ?_, fun _ => rfl, Node.noConfusion⟩
    show Except.ok (Value.int (wrap (0 - n))) = .ok (.int (-n))
    rw [wrap_of_bounds (by omega) (by omega), Int.zero_sub]
  | @float x hx =>
    refine ⟨.float (if x = .finite false 0 then x else x.neg), ?_, fun hne => ?_, fun heq => ?_⟩
    · show Except.ok (Value.float (floatOperation .minus (Floating.ofInt 0).toDouble x)) = _
      rw [Floating.floatOperation_zero_minus hx]
    · rw [if_neg fun hzero => hne (congrArg Node.float hzero)]
      rfl
    · cases heq
      exact ⟨rfl, rfl⟩
  | var => cases hliteral
  | bin => cases hliteral
  | call => cases hliteral

/-- Zero minus an operand is evaluated from left to right. -/
theorem Node.eval_zero_minus {operand : Node} {v w : Value} {budget : Nat} {m m' : Machine}
    (h : operand.eval (budget + 1) m = (.ok v, m')) (hw : operate .minus (.int 0) v = .ok w) :
    (Node.bin .minus (.int 0) operand).eval (budget + 2) m = (.ok w, m') := by
  rw [Node.eval, Node.eval, Ending.andThen_ok, h, Ending.andThen_ok, hw]

end

/-! ## Texts of numbers -/

namespace Grammar.Program

variable {w : List Char} {e : Node} {body : List Node}

/-- What stands from the beginning to the end is the whole text. -/
theorem eq_of_textTo {t : List Char} (h : TextTo w.toArray 0 t w.toArray.size) : w = t := by
  obtain ⟨-, h⟩ := h
  rw [TextFrom, List.drop_zero, List.size_toArray, List.drop_length, List.append_nil] at h
  exact h

/-- What the rule for numbers reads to its end is what can be derived as a number. -/
theorem recognises_number_iff :
    rules.Recognises w.toArray (rule .number <* .endOfInput) e ↔
      Arithmetic.Derives conversionError? .number w e := by
  rw [recognises_iff rules_unroll loops_layered]
  constructor
  · rintro ⟨q, hq⟩
    obtain ⟨u, m, hnumber, hend⟩ := Form.matches_before.mp hq
    obtain rfl := matches_endOfInput hend
    obtain ⟨f, hf, hmatch⟩ := (matches_rule.mp hnumber).first
    rcases List.mem_pair.mp hf with rfl | rfl
    · obtain ⟨u, t, hto, hu, ht, rfl⟩ := matches_floatLiteral (matches_rule.mp hmatch)
      rw [eq_of_textTo hto]
      exact .pointed hu ht
    · obtain ⟨t, hto, ht, hle, hconv, rfl⟩ := matches_checkedInt (matches_rule.mp hmatch)
      rw [eq_of_textTo hto]
      exact .digits ht hle hconv
  · intro h
    have hparses : (rule .number).Parses reads w [] e := by
      cases h with
      | pointed hu hw => exact number_parses_pointed hu hw fun _ hc => nomatch hc
      | digits hw hle hconv =>
        exact number_parses_digits hw hle hconv (fun _ hc => nomatch hc) nofun
    exact ⟨_, hparses.whole⟩

/-- What is derived as a number is a literal. -/
theorem isLiteral_of_derives (h : Arithmetic.Derives conversionError? .number w e) :
    IsExpression e ∧ e.isLiteral = true := by
  cases h with
  | pointed hu hw => exact ⟨.float (Floating.isLiteral_readSingle (pointedValue_nonneg _ _)), rfl⟩
  | digits hw hle _ => exact ⟨.int hle, rfl⟩

/-- There are no brackets in the text of a number. -/
theorem any_isOpening_of_derives (h : Arithmetic.Derives conversionError? .number w e) :
    w.any isOpening = false := by
  have hdigits : ∀ t, IsDigits t → t.any isOpening = false := by
    intro t ht
    rw [List.any_eq_false]
    intro c hc hopening
    have hdigit := ht.2 c hc
    rcases isOpening_iff.mp hopening with rfl | rfl <;> cases hdigit
  cases h with
  | pointed hu hw => rw [List.any_append, List.any_cons, hdigits _ hu, hdigits _ hw]; rfl
  | digits hw _ _ => exact hdigits _ hw

/-! ## Programs of assignments -/

/-- A text without brackets that is read as statements is a program. -/
theorem readProgram_of_repeats (h : (terminatedOne (rule .statement)).Repeats reads w [] body)
    (hnone : w.any isOpening = false) : readProgram (String.ofList w) = .ok body := by
  have hroom : Room w.toArray 0 0 := by
    refine room_of_nesting (largest_le_iff.mpr fun part hpart => ?_)
    have hcount : part.countP isOpening = 0 :=
      List.countP_eq_zero.mpr fun c hc => List.any_eq_false.mp hnone c (hpart.subset hc)
    rw [balance, hcount]
    omega
  have hdepth : ¬NestedTooDeeply (readProgram (String.ofList w)) := by
    rw [← String.toList_ofList (l := w)] at hroom
    exact not_nestedTooDeeply_of_answered (readWith_answered rules_unroll loops_nested nests_whole
      (String.ofList w) id hroom (by decide))
  refine (readWith_eq_ok_iff rules_unroll loops_layered hdepth).mpr ?_
  rw [String.toList_ofList]
  exact whole_matches_of_repeats h

/-- No blanks stand at the end. -/
theorem someBlanks_parses_end : someBlanks.Parses reads [] [] none :=
  someBlanks_parses fun _ hc => nomatch hc

/-- An assignment stands before statements, with a semicolon and blanks or none between them. -/
theorem assignment_repeats {name : String} {t rest : List Char} {blank : Option String}
    (hname : IsName name) (htext : ExpressionText w) (hread : ReadAs 0 w e)
    (hblanks : someBlanks.Parses reads t rest blank)
    (h : (terminatedOne (rule .statement)).Repeats reads rest [] body) :
    (terminatedOne (rule .statement)).Repeats reads (name.toList ++ '=' :: w ++ [';'] ++ t ++ rest)
      [] (.assign name e :: body) := by
  have hstatement : (rule .statement).Parses reads (name.toList ++ '=' :: w) (';' :: (t ++ rest))
      (.assign name e) :=
    assignment_parses false hname htext (hread.parses (.cons (by decide)))
  have hstart : NotStarting isBlank (name.toList ++ '=' :: w ++ ';' :: (t ++ rest)) := by
    rw [List.append_assoc]
    exact hname.expressionText.notBlank _
  have hone : (terminatedOne (rule .statement)).Parses reads (name.toList ++ '=' :: w ++ [';'] ++ t)
      rest (.assign name e) := (semicolon_parses hstatement hstart).before hblanks
  rw [← List.append_nil rest] at hone
  refine .next ?_ hone h
  rw [List.append_assoc]
  exact List.append_ne_nil_of_right_ne_nil _ (List.cons_ne_nil ';' t)

end Grammar.Program

/-! ## Programs that bind a negative number -/

/-- The source is a program; run on the machine, it ends with the name bound to the value. -/
def Binds (source : String) (m : Machine) (name : String) (v : Value) : Prop :=
  ∃ body m', readProgram source = .ok body ∧ m.run (.stmts body) = (.ok .null, m') ∧
    m'.scope.get? name = some v

section

variable {n name : String} {e value : Node} {v w : Value} {m m' : Machine}

/-- A program binds a name to no more than one value. -/
theorem Binds.unique {source : String} (h : Binds source m name v) (h' : Binds source m name w) :
    v = w := by
  obtain ⟨body, m₁, hread, hrun, hv⟩ := h
  obtain ⟨body', m₂, hread', hrun', hw⟩ := h'
  cases hread.symm.trans hread'
  cases hrun.symm.trans hrun'
  exact Option.some.inj (hv.symm.trans hw)

/-- A letter is a name. -/
theorem isName_singleton {c : Char} (h : isNameStart c = true) : IsName (String.ofList [c]) :=
  ⟨c, [], String.toList_ofList, h, fun _ hd => absurd hd List.not_mem_nil⟩

/-- A literal behind a minus sign is read as the literal that is negated. -/
theorem readProgram_negative (h : Arithmetic.Derives conversionError? .number n.toList e) :
    readProgram ("y=-" ++ n ++ ";") = .ok [.assign "y" e.negative] := by
  have hy : IsName "y" := isName_singleton (c := 'y') rfl
  have hread : ReadAs 0 ('-' :: n.toList) e.negative :=
    readAs_of_derives (.term (.factor (.negation (.number h))))
  have hassigned := assignment_repeats hy (expressionText_of_derives (.negation (.number h)))
    hread someBlanks_parses_end (.stop (terminatedOne_refuses false .nil))
  have hsource : "y=-" ++ n ++ ";" =
      String.ofList ("y".toList ++ '=' :: '-' :: n.toList ++ [';'] ++ [] ++ []) := by
    rw [← String.toList_inj]
    simp
  rw [hsource]
  refine readProgram_of_repeats hassigned ?_
  simp only [List.any_append, List.any_cons, any_isOpening_of_derives h]
  rfl

/-- A variable behind a minus sign is read as a difference. -/
theorem readProgram_difference (h : Arithmetic.Derives conversionError? .number n.toList e) :
    readProgram ("x=" ++ n ++ "; y=-x;") =
      .ok [.assign "x" e, .assign "y" (.bin .minus (.int 0) (.var "x"))] := by
  have hx : IsName "x" := isName_singleton (c := 'x') rfl
  have hy : IsName "y" := isName_singleton (c := 'y') rfl
  have hread : ReadAs 0 n.toList e := readAs_of_derives (.term (.factor (.atom (.number h))))
  have hnegative : ReadAs 0 ('-' :: "x".toList) (.bin .minus (.int 0) (.var "x")) :=
    (readAs_negative (readAs_variable hx) hx.expressionText).term.expression
  have hsecond := assignment_repeats hy ⟨List.cons_ne_nil _ _, List.all_eq_true.mp rfl⟩ hnegative
    someBlanks_parses_end (.stop (terminatedOne_refuses false .nil))
  have hspace : blanks.Parses reads [' '] ("y".toList ++ ['=', '-', 'x', ';']) _ :=
    oneBlank_parses (by decide) (hy.expressionText.notBlank _)
  have hboth := assignment_repeats hx (expressionText_of_derives h) hread (.optional hspace) hsecond
  have hsource : "x=" ++ n ++ "; y=-x;" = String.ofList ("x".toList ++ '=' :: n.toList ++ [';'] ++
      [' '] ++ ("y".toList ++ '=' :: '-' :: "x".toList ++ [';'] ++ [] ++ [])) := by
    rw [← String.toList_inj]
    simp
  rw [hsource]
  refine readProgram_of_repeats hboth ?_
  simp only [List.any_append, List.any_cons, any_isOpening_of_derives h]
  rfl

/-- A run within the budget is the evaluation. -/
theorem Machine.run_of_eval {node : Node} (h : node.eval evaluationBudget m = (.ok v, m')) :
    m.run node = (.ok v, m') := by
  rw [Machine.run, h]

/-- An assignment binds its name and goes on. -/
theorem runStatements_assign {budget : Nat} {rest : List Node}
    (h : value.eval budget m = (.ok v, m')) :
    runStatements (Node.eval (budget + 1)) (.assign name value :: rest) m =
      runStatements (Node.eval (budget + 1)) rest (m'.bind name v) := by
  rw [runStatements, Node.eval, h]
  rfl

/-- What has been bound is found. -/
theorem Machine.get?_bind (m : Machine) (name : String) (v : Value) :
    (m.bind name v).scope.get? name = some v := by
  show (m.scope.set name v).get? name = some v
  rw [Scope.get?_set, if_pos rfl]

/-- Enough for a list of assignments whose values are operations on names and literals. -/
theorem exists_evaluationBudget : ∃ budget, evaluationBudget = budget + 4 :=
  ⟨_, rfl⟩

/-- The program that assigns a negative literal binds the variable to its value. -/
theorem binds_negative (h : Arithmetic.Derives conversionError? .number n.toList e) (m : Machine) :
    Binds ("y=-" ++ n ++ ";") m "y" e.negative.literalValue := by
  have hliteral := Node.isLiteral_negative (isLiteral_of_derives h).2
  refine ⟨_, m.bind "y" e.negative.literalValue, readProgram_negative h, ?_, Machine.get?_bind m _ _⟩
  refine Machine.run_of_eval ?_
  obtain ⟨budget, hbudget⟩ := exists_evaluationBudget
  rw [hbudget, Node.eval, runStatements_assign (Node.eval_literal hliteral _ m)]
  rfl

/-- The program that assigns the negative of a variable binds the other variable to the difference
of zero and the literal. -/
theorem binds_difference (h : Arithmetic.Derives conversionError? .number n.toList e)
    (hv : operate .minus (.int 0) e.literalValue = .ok v) (m : Machine) :
    Binds ("x=" ++ n ++ "; y=-x;") m "y" v := by
  have hliteral := (isLiteral_of_derives h).2
  refine ⟨_, (m.bind "x" e.literalValue).bind "y" v, readProgram_difference h, ?_,
    Machine.get?_bind _ _ _⟩
  refine Machine.run_of_eval ?_
  obtain ⟨budget, hbudget⟩ := exists_evaluationBudget
  have hvariable : (Node.var "x").eval (budget + 1) (m.bind "x" e.literalValue) =
      (.ok e.literalValue, m.bind "x" e.literalValue) := by
    rw [Node.eval, Machine.get?_bind]
  rw [hbudget, Node.eval, runStatements_assign (Node.eval_literal hliteral _ m),
    runStatements_assign (Node.eval_zero_minus hvariable hv)]
  rfl

end

/-- **A minus sign means the same on a literal as on a variable, but for zero.** The tree of the
negative literal and that of the difference from zero evaluate to the same number, and so it is for
the variables that programs bind to the negative of a number: to that of its text, or to that of a
variable with the number as its value. For the floating-point zero the numbers are its negative and
itself. -/
theorem negation_agrees :
    (∀ e, IsExpression e → e.isLiteral = true → ∀ budget m, ∃ v v',
      e.negative.eval (budget + 2) m = (.ok v, m) ∧
      (Node.bin .minus (.int 0) e).eval (budget + 2) m = (.ok v', m) ∧ AreNegatives e v v') ∧
    ∀ n e, rules.Recognises n.toList.toArray (rule .number <* .endOfInput) e → ∀ m, ∃ v v',
      Binds ("y=-" ++ n ++ ";") m "y" v ∧ Binds ("x=" ++ n ++ "; y=-x;") m "y" v' ∧
      AreNegatives e v v' := by
  constructor
  · intro e hexpression hliteral budget m
    obtain ⟨v, hv, hnegatives⟩ := exists_difference hexpression hliteral
    exact ⟨e.negative.literalValue, v, Node.eval_literal (Node.isLiteral_negative hliteral) _ m,
      Node.eval_zero_minus (Node.eval_literal hliteral budget m) hv, hnegatives⟩
  · intro n e hread m
    have hnumber := recognises_number_iff.mp hread
    obtain ⟨hexpression, hliteral⟩ := isLiteral_of_derives hnumber
    obtain ⟨v, hv, hnegatives⟩ := exists_difference hexpression hliteral
    exact ⟨e.negative.literalValue, v, binds_negative hnumber m, binds_difference hnumber hv m,
      hnegatives⟩

/-- So it is for the largest integer, and for the infinity, which large numbers are read as. -/
theorem negation_agrees_largest :
    (∃ v, (Node.float (.infinity false)).negative.eval 2 (.start []) = (.ok v, .start []) ∧
      (Node.bin .minus (.int 0) (.float (.infinity false))).eval 2 (.start []) =
        (.ok v, .start [])) ∧
    ∃ v, Binds "y=-2147483647;" (.start []) "y" v ∧
      Binds "x=2147483647; y=-x;" (.start []) "y" v := by
  obtain ⟨htrees, hprograms⟩ := negation_agrees
  constructor
  · obtain ⟨v, v', hnegative, hdifference, hsame, -⟩ :=
      htrees (.float (.infinity false)) (.float (Floating.isLiteral_infinity false)) rfl 0 (.start [])
    rw [← hsame (by simp)] at hdifference
    exact ⟨v, hnegative, hdifference⟩
  · have hdigits : IsDigits "2147483647".toList :=
      ⟨List.cons_ne_nil _ _, List.all_eq_true.mp rfl⟩
    have hnumber : Arithmetic.Derives conversionError? .number "2147483647".toList
        (.int 2147483647) :=
      .digits hdigits (by decide) (conversionError?_eq_none (by decide))
    obtain ⟨v, v', hnegative, hdifference, hsame, -⟩ :=
      hprograms _ _ (recognises_number_iff.mpr hnumber) (.start [])
    rw [← hsame Node.noConfusion] at hdifference
    exact ⟨v, hnegative, hdifference⟩

/-- A minus sign before zero with a point gives the negative zero, and before a variable that is
bound to this zero it gives the positive one. -/
theorem negation_differs_zero :
    rules.Recognises "0.0".toList.toArray (rule .number <* .endOfInput) (.float (.finite false 0)) ∧
    ¬∃ v, Binds "y=-0.0;" (.start []) "y" v ∧ Binds "x=0.0; y=-x;" (.start []) "y" v := by
  have hdigits : IsDigits ['0'] := ⟨List.cons_ne_nil _ _, List.all_eq_true.mp rfl⟩
  have hvalue : Floating.readSingle false (pointedValue ['0'] ['0']) = .finite false 0 := by
    decide +kernel
  have hnumber : Arithmetic.Derives conversionError? .number "0.0".toList
      (.float (.finite false 0)) := by
    rw [← hvalue]
    exact .pointed hdigits hdigits
  refine ⟨recognises_number_iff.mpr hnumber, ?_⟩
  rintro ⟨v, hnegative, hdifference⟩
  obtain ⟨hexpression, hliteral⟩ := isLiteral_of_derives hnumber
  obtain ⟨w, hw, -, hzeros⟩ := exists_difference hexpression hliteral
  obtain ⟨hnegativeZero, hzero⟩ := hzeros rfl
  have heq := (binds_negative hnumber (.start [])).unique hnegative
  rw [hnegativeZero, ← (binds_difference hnumber hw (.start [])).unique hdifference, hzero] at heq
  cases heq

end CalcScript
