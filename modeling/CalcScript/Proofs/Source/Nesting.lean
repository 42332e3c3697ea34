import CalcScript.Proofs.Grammar.ArithmeticDerivations
import CalcScript.Proofs.Grammar.ProgramLoops
import CalcScript.Proofs.Packrat.Brackets
import Mathlib.Data.List.Infix
import Mathlib.Data.List.MinMax

/-!
# Only brackets make a source nested too deeply

> `answered_of_nesting`: a source in which no more than thirty brackets are open at once, of any
> length and well-formed or not, is accepted or rejected as invalid input, as a program and as an
> arithmetic expression, if it has no more digits in a row than the host converts.

In both grammars the rank of a rule falls with each call, but for five that a bracket is worth
(`Grammar.Program.loops_nested`, `Grammar.Arithmetic.loops_nested`). So thirty brackets nest no more
than a hundred and fifty calls and one descent besides, and the budget suffices. Operators, calls,
arguments and statements one after the other are read by loops, which nest nothing.
-/

namespace CalcScript

open Packrat

/-! ## How deeply a text is nested -/

/-- The largest measure of a part of a text. -/
def largest (measure : List Char → Nat) (text : List Char) : Nat :=
  ((text.tails.flatMap List.inits).map measure).foldr max 0

/-- The largest measure is a bound for all parts, and the least one. -/
theorem largest_le_iff {measure : List Char → Nat} {text : List Char} {n : Nat} :
    largest measure text ≤ n ↔ ∀ part, part <:+: text → measure part ≤ n := by
  have hparts : ∀ part, part ∈ text.tails.flatMap List.inits ↔ part <:+: text := by
    intro part
    rw [List.mem_flatMap, List.infix_iff_prefix_suffix]
    refine exists_congr fun rest => ?_
    rw [List.mem_tails, List.mem_inits]
    exact and_comm
  constructor
  · intro h part hpart
    have hmem := List.mem_map_of_mem (f := measure) ((hparts part).2 hpart)
    exact Nat.le_trans (List.le_max_of_le hmem (Nat.le_refl _)) h
  · intro h
    refine List.max_le_of_forall_le _ n fun m hm => ?_
    obtain ⟨part, hpart, rfl⟩ := List.mem_map.1 hm
    exact h part ((hparts part).1 hpart)

/-- The largest number by which a part of a text opens more brackets than it closes. -/
def nesting (text : List Char) : Nat := largest (fun part => (balance part).toNat) text

/-- The largest number of digits in a row in a text. -/
def longestDigits (text : List Char) : Nat :=
  largest (fun part => if part.all Grammar.isDigit then part.length else 0) text

/-- No part opens more brackets than the text is nested. -/
theorem balance_le_of_nesting {text part : List Char} {n : Nat} (h : nesting text ≤ n)
    (hpart : part <:+: text) : balance part ≤ n := by
  have := largest_le_iff.1 h part hpart
  omega

/-- The host converts all digits of a text that has not too many of them in a row. -/
theorem not_unconvertible {text : List Char} (h : longestDigits text ≤ Grammar.conversionLimit)
    (message : String) : ¬Grammar.Unconvertible text message := by
  intro hdigits
  obtain ⟨w, hpart, ⟨-, hall⟩, hlong⟩ := hdigits.long
  have hle := largest_le_iff.1 h w hpart
  rw [if_pos (List.all_eq_true.mpr hall)] at hle
  omega

/-- Blanks are no brackets. -/
theorem balance_withoutBlanks (text : List Char) : balance (withoutBlanks text) = balance text := by
  have hcount : ∀ bracket : Char → Bool, (∀ c, bracket c = true → isBlank c = false) →
      (withoutBlanks text).countP bracket = text.countP bracket := by
    intro bracket h
    rw [withoutBlanks, List.countP_filter]
    refine List.countP_congr fun c _ => ?_
    cases hc : bracket c with
    | true => simp [h c hc]
    | false => simp
  have hopening := hcount isOpening fun c hc => by rcases isOpening_iff.1 hc with rfl | rfl <;> rfl
  have hclosing := hcount isClosing fun c hc => by rcases isClosing_iff.1 hc with rfl | rfl <;> rfl
  rw [balance, hopening, hclosing, balance]

/-- No more brackets are open at once than are opened. -/
theorem nesting_le_opened (text : List Char) : nesting text ≤ text.countP isOpening := by
  refine largest_le_iff.2 fun part hpart => ?_
  have hle : part.countP isOpening ≤ text.countP isOpening := hpart.sublist.countP_le
  rw [balance]
  omega

/-- A text that is nested no deeper leaves room for its brackets. -/
theorem room_of_nesting {text : List Char} {n : Nat} (h : nesting text ≤ n) :
    Room text.toArray 0 n := by
  intro q _
  have hpart : text.take q <:+: text := (List.take_prefix q text).isInfix
  have hle := balance_le_of_nesting h hpart
  rw [show level text.toArray 0 = 0 from rfl, Int.zero_add]
  exact hle

/-- Taking out blanks needs no more room: what stands before a position stood before one. -/
theorem room_withoutBlanks {text : List Char} {n : Nat} (h : nesting text ≤ n) :
    Room (withoutBlanks text).toArray 0 n := by
  intro q _
  obtain ⟨before, behind, rfl, hbefore, -⟩ :=
    List.filter_eq_append_iff.1 (List.take_append_drop q (withoutBlanks text)).symm
  have hpart : before <:+: before ++ behind := (List.prefix_append before behind).isInfix
  have hle := balance_le_of_nesting h hpart
  rw [← balance_withoutBlanks, withoutBlanks, hbefore] at hle
  rw [show level (withoutBlanks (before ++ behind)).toArray 0 = 0 from rfl, Int.zero_add]
  exact hle

/-! ## Brackets in programs -/

namespace Grammar

variable {ρ : Type} {Res : ρ → Type} {rank : ρ → Nat} {width k d : Nat}

/-- Literals open and close no brackets. -/
theorem nests_intLiteral : (checkedInt conversionError? : Form ρ Res Node).Nests rank width k d d :=
  .refine (.checked (.keeps rfl rfl))

theorem nests_floatLiteral : (floatLiteral : Form ρ Res Node).Nests rank width k d d :=
  .map (.keeps rfl rfl)

/-- Neither do operators. -/
theorem nests_oneOf (ops : List Operator) :
    (oneOf ops : Form ρ Res Operator).Nests rank width k d d := by
  refine .first fun f hf => ?_
  obtain ⟨op, -, rfl⟩ := List.mem_map.1 hf
  cases op <;> exact .map (.keeps rfl rfl)

end Grammar

namespace Grammar.Program

variable {rank : Name → Nat} {width k d : Nat}

/-- A call of a rule of smaller rank may stand anywhere. -/
theorem nests_rule {r : Name} (h : rank r < k) : (rule r).Nests rank width k d d :=
  .call (Nat.lt_add_right _ h)

/-- Behind one more bracket the rank may be larger by the width. -/
theorem nests_behind {r : Name} (h : rank r < k + width) :
    (rule r).Nests rank width k (d + 1) (d + 1) := by
  refine .call ?_
  rw [Nat.add_one_mul]
  omega

/-- Neither do blanks. -/
theorem nests_someBlanks : someBlanks.Nests rank width k d d := .optional (.keeps rfl rfl)

theorem nests_someGap : someGap.Nests rank width k d d := .optional (.keeps rfl rfl)

/-- Neither do commas. -/
theorem nests_comma : (spaced ',').Nests rank width k d d :=
  (nests_someBlanks.andThen (.keeps rfl rfl)).before nests_someBlanks

/-- Items with commas between them nest as the items do. -/
theorem nests_commaSeparated {α : Type} {item : Part α} (h : item.Nests rank width k d d) :
    (commaSeparated item).Nests rank width k d d :=
  .map (.pair h (.many (nests_comma.andThen h)))

/-- In parentheses an expression may be called, one bracket further in. -/
theorem nests_parenthesized (h : rank .expression < k + width) :
    parenthesized.Nests rank width k d d :=
  ((((Form.Nests.opens rfl).andThen nests_someBlanks).andThen
    (nests_behind h)).before nests_someBlanks).before .closes

/-- In the parentheses of a call its arguments may be called. -/
theorem nests_argumentList (h : rank .arguments < k + width) :
    argumentList.Nests rank width k d d :=
  ((((Form.Nests.opens rfl).andThen nests_someBlanks).andThen
    (.optional (nests_behind h))).before nests_someBlanks).before .closes

/-- In the parentheses of a definition its parameters may be called. -/
theorem nests_parameterList (h : rank .parameters < k + width) :
    parameterList.Nests rank width k d d :=
  ((((Form.Nests.opens rfl).andThen nests_someBlanks).andThen
    (.optional (nests_behind h))).before nests_someBlanks).before .closes

/-- In the braces of a definition its statements may be called. -/
theorem nests_functionBody (h : rank .functionStatements < k + width) :
    functionBody.Nests rank width k d d :=
  ((((nests_someBlanks.andThen (.opens rfl)).andThen nests_someBlanks).andThen
    (nests_behind h)).before nests_someBlanks).before .closes

/-- A loop over operands nests as its operands do. -/
theorem nests_operandLoop {left : Part Node} (ops : List Operator) (h : left.Nests rank width k d d) :
    (operandLoop left ops).Nests rank width k d d :=
  .map (.pair h
    (.many (.pair ((nests_someBlanks.andThen (nests_oneOf ops)).before nests_someBlanks) h)))

/-- A list of statements nests as its statements do. -/
theorem nests_terminated {statement : Part Node} (h : statement.Nests rank width k d d) :
    (terminated statement).Nests rank width k d d :=
  .many ((((nests_someBlanks.andThen h).before nests_someBlanks).before
    (.keeps rfl rfl)).before nests_someBlanks)

/-- A definition calls a name in front of its brackets, and all else inside them. -/
theorem nests_functionDef (hname : rank .variable < k) (hparams : rank .parameters < k + width)
    (hbody : rank .functionStatements < k + width) : functionDef.Nests rank width k d d := by
  have hhead : functionName.Nests rank width k d d :=
    (((Form.Nests.keeps rfl rfl).andThen (.keeps rfl rfl)).andThen (nests_rule hname)).before
      nests_someGap
  exact .map (.pair hhead (.pair (nests_parameterList hparams) (nests_functionBody hbody)))

theorem nests_assignment (hname : rank .variable < k) (hvalue : rank .expression < k) :
    assignment.Nests rank width k d d :=
  .map (.pair (nests_rule hname) (((nests_someGap.andThen (.keeps rfl rfl)).andThen
    nests_someGap).andThen (nests_rule hvalue)))

theorem nests_returnStatement (h : rank .expression < k) : returnStatement.Nests rank width k d d :=
  .map (((Form.Nests.keeps rfl rfl).andThen (.keeps rfl rfl)).andThen (nests_rule h))

theorem nests_negation (h : rank .primary < k) : negation.Nests rank width k d d :=
  .map (((Form.Nests.keeps rfl rfl).andThen nests_someGap).andThen (nests_rule h))

/-- The order in which rules call each other. A call behind a bracket leads five up at most: from
parentheses to an expression, from a call to its arguments, from a definition to its statements. -/
def descentRank : Name → Nat
  | .intLiteral => 0
  | .floatLiteral => 0
  | .variable => 0
  | .number => 1
  | .parameters => 1
  | .atom => 2
  | .primary => 3
  | .factor => 4
  | .term => 5
  | .expression => 6
  | .arguments => 7
  | .assignment => 7
  | .functionDef => 7
  | .statement => 8
  | .functionStatement => 9
  | .statements => 9
  | .functionStatements => 10

/-- In each rule the rank falls, but for five for an open bracket. -/
theorem loops_nested : loops.Nested descentRank 5 := by
  intro r
  have call {r' : Name} {k : Nat} (h : descentRank r' < k) :
      (rule r').Nests descentRank 5 k 0 0 := nests_rule h
  cases r with
  | intLiteral => exact nests_intLiteral
  | floatLiteral => exact nests_floatLiteral
  | number => exact .orElse (call (by decide)) (.orElse (call (by decide)) .fail)
  | «variable» => exact .keeps rfl rfl
  | atom =>
    exact .orElse (nests_parenthesized (by decide))
      (.orElse (.map (call (by decide))) (.orElse (call (by decide)) .fail))
  | primary => exact .map (.pair (call (by decide)) (.many (nests_argumentList (by decide))))
  | factor =>
    exact .orElse (nests_negation (by decide)) (.orElse (call (by decide)) .fail)
  | term => exact nests_operandLoop _ (call (by decide))
  | expression => exact nests_operandLoop _ (call (by decide))
  | arguments => exact nests_commaSeparated (call (by decide))
  | parameters => exact nests_commaSeparated (call (by decide))
  | assignment => exact nests_assignment (by decide) (by decide)
  | functionDef => exact nests_functionDef (by decide) (by decide) (by decide)
  | statement =>
    exact .orElse (call (by decide))
      (.orElse (call (by decide)) (.orElse (call (by decide)) .fail))
  | functionStatement =>
    exact .orElse (nests_returnStatement (by decide)) (.orElse (call (by decide)) .fail)
  | statements => exact nests_terminated (call (by decide))
  | functionStatements => exact nests_terminated (call (by decide))

/-- A program begins with no bracket open, below the tenth rank. -/
theorem nests_whole : whole.Nests descentRank 5 10 0 0 :=
  .before (nests_rule (by decide)) .endOfInput

end Grammar.Program

/-! ## Brackets in arithmetic expressions -/

namespace Grammar.Arithmetic

/-- The same with the ranks of the layers. -/
theorem loops_nested : loops.Nested layers.rank 5 := by
  intro r
  have call {r' : Name} {k : Nat} (h : layers.rank r' < k) :
      (rule r').Nests layers.rank 5 k 0 0 := .call (Nat.lt_add_right _ h)
  cases r with
  | intLiteral => exact nests_intLiteral
  | floatLiteral => exact nests_floatLiteral
  | number => exact .orElse (call (by decide)) (.orElse (call (by decide)) .fail)
  | atom =>
    have hinside : (rule .expression).Nests layers.rank 5 (layers.rank .atom) 1 1 :=
      .call (by decide)
    exact .orElse (((Form.Nests.opens rfl).andThen hinside).before .closes)
      (.orElse (call (by decide)) .fail)
  | factor =>
    exact .orElse (.map (.andThen (.keeps rfl rfl) (call (by decide))))
      (.orElse (call (by decide)) .fail)
  | term =>
    exact .map (.pair (call (by decide)) (.many (.pair (nests_oneOf _) (call (by decide)))))
  | expression =>
    exact .map (.pair (call (by decide)) (.many (.pair (nests_oneOf _) (call (by decide)))))

/-- An expression begins with no bracket open, below the height of the layers. -/
theorem nests_whole : whole.Nests layers.rank 5 layers.height 0 0 :=
  .before (.call (by decide)) .endOfInput

end Grammar.Arithmetic

/-! ## Sources -/

/-- The source is accepted, or it is rejected as invalid input. -/
def IsAnswered {α : Type} (o : Except Unreadable α) : Prop :=
  (∃ a, o = .ok a) ∨ ∃ r, o = .error (.rejected r) ∧ r.cause.reason = "Invalid input"

/-- A source is answered, or reading it ends in a failure that the checks of the loops find. -/
theorem readWith_answered {ρ : Type} [DecidableEq ρ] {Res : ρ → Type} {α : Type} {L : Layers ρ}
    {G H : Grammar ρ Res} (hGH : G.Unrolls L H) {rank : ρ → Nat} {width k n : Nat}
    (hH : H.Nested rank width) {whole : Form ρ Res α} (hwhole : whole.Nests rank width k 0 0)
    (source : String) {code : List Char} (toSource : Nat → Nat)
    (hroom : Room code.toArray 0 n) (hbudget : n * width + k ≤ nestingBudget) :
    IsAnswered (readWith G whole source code toSource) ∨
    ∃ message, readWith G whole source code toSource = .error (.failure message) := by
  obtain ⟨rd, hrd⟩ := hH.read_form hwhole hroom hbudget
  have hagrees := Grammar.recognise_start_agrees hGH hrd
  have hparse : G.parse code.toArray nestingBudget whole .start
      = G.recognise code.toArray nestingBudget whole .start := rfl
  rw [readWith, hparse]
  cases rd with
  | matched a stop reach =>
    obtain ⟨s, hs, -⟩ := hagrees.eq_matched
    rw [hs]
    exact .inl (.inl ⟨a, rfl⟩)
  | failed reach =>
    obtain ⟨s, hs, -⟩ := hagrees.eq_failed
    rw [hs]
    exact .inl (.inr ⟨_, rfl, rfl⟩)
  | error message =>
    obtain ⟨s, hs⟩ := hagrees.eq_error
    rw [hs]
    exact .inr ⟨message, rfl⟩

/-- What is answered, or ends in a failure, is not nested too deeply. -/
theorem not_nestedTooDeeply_of_answered {α : Type} {o : Except Unreadable α}
    (h : IsAnswered o ∨ ∃ message, o = .error (.failure message)) : ¬NestedTooDeeply o := by
  rcases h with (⟨a, rfl⟩ | ⟨r, rfl, hreason⟩) | ⟨message, rfl⟩
  · exact id
  · intro hcause
    rw [(hcause : r.cause = .tooDeep)] at hreason
    exact absurd hreason (by decide)
  · exact id

/-- With no more than thirty brackets open at once, a program is answered, or reading it ends in a
failure. -/
theorem readProgram_answered {source : String} (h : nesting source.toList ≤ 30) :
    IsAnswered (readProgram source) ∨
    ∃ message, readProgram source = .error (.failure message) :=
  readWith_answered Grammar.Program.rules_unroll Grammar.Program.loops_nested
    Grammar.Program.nests_whole source id (room_of_nesting h) (by decide)

/-- So is an arithmetic expression. -/
theorem readArithmetic_answered {source : String} (h : nesting source.toList ≤ 30) :
    IsAnswered (readArithmetic source) ∨
    ∃ message, readArithmetic source = .error (.failure message) :=
  readWith_answered Grammar.Arithmetic.rules_unroll Grammar.Arithmetic.loops_nested
    Grammar.Arithmetic.nests_whole source (sourcePosition source.toList) (room_withoutBlanks h)
    (by decide)

/-- **Only brackets make a source nested too deeply.** If no part of a source opens more than thirty
brackets that it does not close, the source is not nested too deeply, as a program and as an
arithmetic expression. And unless it has more digits in a row than the host converts, it is answered:
with a tree, or with the complaint about invalid input. -/
theorem answered_of_nesting (source : String) (h : nesting source.toList ≤ 30) :
    (¬NestedTooDeeply (readProgram source) ∧
      (longestDigits source.toList ≤ Grammar.conversionLimit → IsAnswered (readProgram source))) ∧
    ¬NestedTooDeeply (readArithmetic source) ∧
      (longestDigits (withoutBlanks source.toList) ≤ Grammar.conversionLimit →
        IsAnswered (readArithmetic source)) := by
  refine ⟨⟨not_nestedTooDeeply_of_answered (readProgram_answered h), fun hdigits => ?_⟩,
    not_nestedTooDeeply_of_answered (readArithmetic_answered h), fun hdigits => ?_⟩
  · refine (readProgram_answered h).resolve_right fun ⟨message, hfailure⟩ => ?_
    exact not_unconvertible hdigits message (failure_of_trusts Grammar.Program.rules_unroll
      Grammar.Program.loops_layered (@Grammar.Program.loops_layered Grammar.noError) rfl
      (Grammar.Program.loops_trust _) hfailure)
  · refine (readArithmetic_answered h).resolve_right fun ⟨message, hfailure⟩ => ?_
    exact not_unconvertible hdigits message (failure_of_trusts Grammar.Arithmetic.rules_unroll
      Grammar.Arithmetic.loops_layered (@Grammar.Arithmetic.loops_layered Grammar.noError) rfl
      (Grammar.Arithmetic.loops_trust _) hfailure)

/-- Thirty parentheses inside each other, with blanks between the first ones, that are not
closed. -/
theorem answered_of_nesting_unclosed :
    nesting "f( ( ((((((((((((((((((((((((((((x".toList ≤ 30 ∧
    IsAnswered (readProgram "f( ( ((((((((((((((((((((((((((((x") ∧
    IsAnswered (readArithmetic "f( ( ((((((((((((((((((((((((((((x") := by
  have h : nesting "f( ( ((((((((((((((((((((((((((((x".toList ≤ 30 := by decide +kernel
  obtain ⟨⟨-, hprogram⟩, -, harithmetic⟩ := answered_of_nesting _ h
  exact ⟨h, hprogram (by decide +kernel), harithmetic (by decide +kernel)⟩

end CalcScript
