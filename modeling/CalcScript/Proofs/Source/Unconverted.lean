import CalcScript.Proofs.Decimal.Layout
import CalcScript.Proofs.Grammar.WrittenPrograms
import CalcScript.Proofs.Source.Nesting

/-!
# Digits that the host does not convert

The host converts no more than a fixed number of digits, leading zeros included. A source that
begins with more of them, where an integer literal is read, is neither accepted nor rejected:

> `readProgram_unconverted`, `readArithmetic_unconverted`: the host's complaint is passed on.

So the grammars do not settle what such a source is read as (`readProgram_not_settled`,
`readArithmetic_not_derived`), though many zeros are as good an integer as one.
-/

namespace CalcScript

open Packrat

namespace Grammar

variable {w rest : List Char} {message : String}

namespace Arithmetic

/-- An expression that begins with such digits comes to the complaint about them. -/
theorem expression_breaks (hw : IsDigits w) (hrest : NotStarting isDigit rest)
    (hpoint : rest.head? ≠ some '.') (herror : conversionError? (String.ofList w) = some message) :
    (rule .expression).Breaks (reads conversionError?) (w ++ rest) message := by
  have hfloat : (rule .floatLiteral).Refuses (reads conversionError?) (w ++ rest) :=
    .call loops_layered (floatLiteral_refuses_digits hw hrest hpoint)
  have hint : (rule .intLiteral).Breaks (reads conversionError?) (w ++ rest) message :=
    .call loops_layered (checkedInt_breaks hw hrest herror)
  -- whatever is tried before a number fails at a digit
  obtain ⟨c, v, rfl, hc⟩ := hw.head
  have hopen : ((c :: v) ++ rest).head? ≠ some '(' := head_ne_of_accepts hc rfl
  have hminus : ((c :: v) ++ rest).head? ≠ some '-' := head_ne_of_accepts hc rfl
  have hnumber : (rule .number).Breaks (reads conversionError?) _ message :=
    .call loops_layered (.first_tail hfloat (.first_head hint))
  have hatom : (rule .atom).Breaks (reads conversionError?) _ message :=
    .call loops_layered
      (.first_tail (.before (.andThen (.char hopen))) (.first_head hnumber))
  have hfactor : (rule .factor).Breaks (reads conversionError?) _ message :=
    .call loops_layered (.first_tail (.map (.andThen (.char hminus))) (.first_head hatom))
  have hterm : (rule .term).Breaks (reads conversionError?) _ message :=
    .call loops_layered (.map (.pair hfactor))
  exact .call loops_layered (.map (.pair hterm))

end Arithmetic

namespace Program

/-- An expression that begins with such digits comes to the complaint about them. -/
theorem expression_breaks (hw : IsDigits w) (hrest : NotStarting isDigit rest)
    (hpoint : rest.head? ≠ some '.') (herror : conversionError? (String.ofList w) = some message) :
    (rule .expression).Breaks reads (w ++ rest) message := by
  have hfloat : (rule .floatLiteral).Refuses reads (w ++ rest) :=
    .call loops_layered (floatLiteral_refuses_digits hw hrest hpoint)
  have hint : (rule .intLiteral).Breaks reads (w ++ rest) message :=
    .call loops_layered (checkedInt_breaks hw hrest herror)
  -- whatever is tried before a number fails at a digit
  obtain ⟨c, v, rfl, hc⟩ := hw.head
  have hopen : ((c :: v) ++ rest).head? ≠ some '(' := head_ne_of_accepts hc rfl
  have hminus : ((c :: v) ++ rest).head? ≠ some '-' := head_ne_of_accepts hc rfl
  have hvariable : (rule .variable).Refuses reads ((c :: v) ++ rest) :=
    variable_refuses (notStarting_cons (isNameStart_of_isDigit hc))
  have hnumber : (rule .number).Breaks reads _ message :=
    .call loops_layered (.first_tail hfloat (.first_head hint))
  have hatom : (rule .atom).Breaks reads _ message :=
    .call loops_layered (.first_tail (.before (.before (.andThen (.andThen (.char hopen)))))
      (.first_tail hvariable.map (.first_head hnumber)))
  have hprimary : (rule .primary).Breaks reads _ message :=
    .call loops_layered (.map (.pair hatom))
  have hfactor : (rule .factor).Breaks reads _ message :=
    .call loops_layered
      (.first_tail (.map (.andThen (.andThen (.char hminus)))) (.first_head hprimary))
  have hterm : (rule .term).Breaks reads _ message := .call loops_layered (.map (.pair hfactor))
  exact .call loops_layered (.map (.pair hterm))

/-- So do statements: the first is no assignment and no definition, but an expression. -/
theorem statements_break (hw : IsDigits w) (hrest : NotStarting isDigit rest)
    (hpoint : rest.head? ≠ some '.') (herror : conversionError? (String.ofList w) = some message) :
    (rule .statements).Breaks reads (w ++ rest) message := by
  have hexpression := expression_breaks hw hrest hpoint herror
  have hblank : NotStarting isBlank (w ++ rest) := (expressionText_of_isDigits hw).notBlank rest
  obtain ⟨c, v, rfl, hc⟩ := hw.head
  have hassignment : (rule .assignment).Refuses reads ((c :: v) ++ rest) :=
    .call loops_layered
      (.map (.pair (variable_refuses (notStarting_cons (isNameStart_of_isDigit hc)))))
  have hkeyword : ¬"function".toList <+: (c :: v) ++ rest := by
    intro hprefix
    have hword : "function".toList = 'f' :: "unction".toList := by decide
    rw [hword, List.cons_append, List.cons_prefix_cons] at hprefix
    rw [← hprefix.1] at hc
    cases hc
  have hdefinition : (rule .functionDef).Refuses reads ((c :: v) ++ rest) :=
    .call loops_layered (.map (.pair (.before (.andThen (.andThen (.text hkeyword))))))
  have hstatement : (rule .statement).Breaks reads _ message :=
    .call loops_layered
      (.first_tail hassignment (.first_tail hdefinition (.first_head hexpression)))
  have hblanks : (someBlanks *> rule .statement).Breaks reads _ message :=
    (someBlanks_parses hblank).nil_andThen_breaks hstatement
  exact .call loops_layered (.many (.before (.before (.before hblanks))))

end Program

end Grammar

/-! ## Sources that begin with such digits -/

/-- A source is read with a failure if the loops come to an error. -/
theorem readWith_of_breaks {ρ : Type} [DecidableEq ρ] {Res : ρ → Type} {α : Type} {L : Layers ρ}
    {G H : Grammar ρ Res} (hGH : G.Unrolls L H) (hH : H.Layered L) {whole : Form ρ Res α}
    {source : String} {code : List Char} {toSource : Nat → Nat} {message : String}
    (h : whole.Breaks (fun code => H.reader code L.height) code message)
    (hdepth : ¬NestedTooDeeply (readWith G whole source code toSource)) :
    readWith G whole source code toSource = .error (.failure message) := by
  have hsettled := readWith_settled hGH hH whole source code toSource hdepth
  have hread := h code.toArray 0 rfl
  rw [Grammar.read_eq_readForm hH] at hread
  rw [Option.some.inj hread] at hsettled
  exact hsettled

section

variable {source : String} {w rest : List Char} {message : String}

/-- **A program that begins with digits which the host does not convert is neither accepted nor
rejected.** The host's complaint is passed on. -/
theorem readProgram_unconverted (hsource : source.toList = w ++ rest) (hw : Grammar.IsDigits w)
    (hrest : NotStarting Grammar.isDigit rest) (hpoint : rest.head? ≠ some '.')
    (herror : Grammar.conversionError? (String.ofList w) = some message)
    (hdepth : ¬NestedTooDeeply (readProgram source)) :
    readProgram source = .error (.failure message) := by
  have hbreaks : Grammar.Program.whole.Breaks Grammar.Program.reads source.toList message := by
    rw [hsource]
    exact .before (Grammar.Program.statements_break hw hrest hpoint herror)
  exact readWith_of_breaks Grammar.Program.rules_unroll Grammar.Program.loops_layered hbreaks hdepth

/-- Nor is an arithmetic expression. -/
theorem readArithmetic_unconverted (hsource : withoutBlanks source.toList = w ++ rest)
    (hw : Grammar.IsDigits w) (hrest : NotStarting Grammar.isDigit rest)
    (hpoint : rest.head? ≠ some '.')
    (herror : Grammar.conversionError? (String.ofList w) = some message)
    (hdepth : ¬NestedTooDeeply (readArithmetic source)) :
    readArithmetic source = .error (.failure message) := by
  have hbreaks : Grammar.Arithmetic.whole.Breaks
      (Grammar.Arithmetic.reads Grammar.conversionError?) (withoutBlanks source.toList) message := by
    rw [hsource]
    exact .before (Grammar.Arithmetic.expression_breaks hw hrest hpoint herror)
  exact readWith_of_breaks Grammar.Arithmetic.rules_unroll Grammar.Arithmetic.loops_layered hbreaks
    hdepth

end

/-! ## Many zeros -/

/-- Zeros, one more than the host converts. -/
def manyZeros : List Char := Decimal.zeros (Grammar.conversionLimit + 1)

theorem isDigits_manyZeros : Grammar.IsDigits manyZeros :=
  ⟨List.cons_ne_nil _ _, fun _ hc => Decimal.isDigit_of_mem_zeros hc⟩

/-- They have no significant digit, and yet they are not converted. -/
theorem conversionError?_manyZeros :
    ∃ message, Grammar.conversionError? (String.ofList manyZeros) = some message := by
  have hzeros : manyZeros.dropWhile (· = '0') = [] := by
    rw [manyZeros, Decimal.zeros, List.dropWhile_replicate]
    rfl
  have hlong : Grammar.conversionLimit < manyZeros.length := by
    rw [manyZeros, Decimal.length_zeros]
    exact Nat.lt_succ_self _
  rw [Grammar.conversionError?, String.toList_ofList]
  exact ⟨_, if_pos ⟨by rw [hzeros]; exact Nat.zero_le _, hlong⟩⟩

/-- Digits open no brackets, and neither does what stands behind them. -/
theorem nesting_manyZeros {rest : List Char} (hrest : rest.countP isOpening = 0) :
    nesting (manyZeros ++ rest) ≤ 30 := by
  have hzeros : manyZeros.countP isOpening = 0 := by
    refine List.countP_eq_zero.2 fun c hc => ?_
    rw [List.eq_of_mem_replicate hc]
    decide
  have hle := nesting_le_opened (manyZeros ++ rest)
  rw [List.countP_append, hzeros, hrest] at hle
  omega

/-- Many zeros with a semicolon behind them are a program, and reading it ends in a failure. -/
theorem readProgram_manyZeros :
    ¬NestedTooDeeply (readProgram (String.ofList (manyZeros ++ [';']))) ∧
    ∃ message, readProgram (String.ofList (manyZeros ++ [';'])) = .error (.failure message) := by
  have htext : (String.ofList (manyZeros ++ [';'])).toList = manyZeros ++ [';'] :=
    String.toList_ofList
  have hdepth : ¬NestedTooDeeply (readProgram (String.ofList (manyZeros ++ [';']))) :=
    not_nestedTooDeeply_of_answered
      (readProgram_answered (by rw [htext]; exact nesting_manyZeros (by decide)))
  obtain ⟨message, herror⟩ := conversionError?_manyZeros
  exact ⟨hdepth, message, readProgram_unconverted htext isDigits_manyZeros
    (notStarting_cons (by decide)) (by decide) herror hdepth⟩

/-- Reading many zeros as an arithmetic expression ends in a failure. -/
theorem readArithmetic_manyZeros :
    ¬NestedTooDeeply (readArithmetic (String.ofList manyZeros)) ∧
    withoutBlanks (String.ofList manyZeros).toList = manyZeros ∧
    ∃ message, readArithmetic (String.ofList manyZeros) = .error (.failure message) := by
  have hkept : withoutBlanks (String.ofList manyZeros).toList = manyZeros := by
    rw [String.toList_ofList]
    refine List.filter_eq_self.mpr fun c hc => ?_
    rw [List.eq_of_mem_replicate hc]
    decide
  have hnesting : nesting (String.ofList manyZeros).toList ≤ 30 := by
    rw [String.toList_ofList, ← List.append_nil manyZeros]
    exact nesting_manyZeros rfl
  have hdepth := not_nestedTooDeeply_of_answered (readArithmetic_answered hnesting)
  obtain ⟨message, herror⟩ := conversionError?_manyZeros
  have htext : withoutBlanks (String.ofList manyZeros).toList = manyZeros ++ [] := by
    rw [hkept, List.append_nil]
  have hrest : NotStarting Grammar.isDigit [] := fun _ hc => (nomatch hc)
  exact ⟨hdepth, hkept, message, readArithmetic_unconverted htext isDigits_manyZeros hrest
    (fun heq => (nomatch heq)) herror hdepth⟩

end CalcScript
