import CalcScript.Proofs.Grammar.ArithmeticDerivations
import CalcScript.Proofs.Grammar.WrittenPrograms

/-!
# Arithmetic expressions are programs

An arithmetic expression with a semicolon behind it is a program, and both grammars read it as the
same tree. The grammar of programs has more forms of expressions and allows blanks at certain
places; the other one is given the text without any.

> `readAs_of_derives`: what is derived as an arithmetic expression is read as the same tree in a
> program.
> `readRule_derived`: what a program reads as literals and operators alone, is derived as an
> arithmetic expression when its blanks are taken out.
> `readProgram_arithmetic`: so for sources.

Taking out blanks joins no two literals: between them the grammar of programs wants an operator.
-/

namespace CalcScript

/-- The node consists of literals and operators. -/
def Node.isArithmetic : Node → Bool
  | .int _ => true
  | .float _ => true
  | .bin _ l r => l.isArithmetic && r.isArithmetic
  | _ => false

theorem Node.isArithmetic_negative (e : Node) : e.negative.isArithmetic = e.isArithmetic := by
  cases e <;> rfl

namespace Grammar.Program

open Packrat
open Arithmetic (Symbol Derives)

variable {code : Array Char} {p m q : Nat} {u w w' rest : List Char} {x : Node}

/-! ## What is derived is read -/

/-- The level of the place where a symbol may stand. -/
def levelOf : Symbol → Nat
  | .expression => 0
  | .term => 1
  | .factor => 2
  | .atom => 3
  | .number => 3

theorem expressionText_of_derives {s : Symbol} (h : Derives conversionError? s w x) :
    ExpressionText w := by
  induction h with
  | sum _ _ ihl ihr => exact ihl.append rfl ihr.2
  | difference _ _ ihl ihr => exact ihl.append rfl ihr.2
  | term _ ih => exact ih
  | product _ _ ihl ihr => exact ihl.append rfl ihr.2
  | quotient _ _ ihl ihr => exact ihl.append rfl ihr.2
  | factor _ ih => exact ih
  | negation _ ih => exact ⟨List.cons_ne_nil _ _, List.forall_mem_cons.mpr ⟨rfl, ih.2⟩⟩
  | atom _ ih => exact ih
  | parentheses _ ih => exact .bracketed ih.2
  | number _ ih => exact ih
  | pointed hu hw => exact (expressionText_of_isDigits hu).append rfl (expressionText_of_isDigits hw).2
  | digits hw _ _ => exact expressionText_of_isDigits hw

/-- What is derived from a symbol is read as the same tree in a program, in the places where the
symbol may stand. -/
theorem readAs_of_derives {s : Symbol} (h : Derives conversionError? s w x) :
    ReadAs (levelOf s) w x := by
  induction h with
  | sum _ right ihl ihr => exact readAs_bin .plus ihl ihr (expressionText_of_derives right)
  | difference _ right ihl ihr =>
    exact readAs_bin .minus ihl ihr (expressionText_of_derives right)
  | term _ ih => exact ih.expression
  | product _ right ihl ihr =>
    exact readAs_bin .times ihl ihr (expressionText_of_derives right)
  | quotient _ right ihl ihr =>
    exact readAs_bin .divide ihl ihr (expressionText_of_derives right)
  | factor _ ih => exact ih.term
  | negation h ih => exact readAs_negative ih (expressionText_of_derives h)
  | atom _ ih => exact ih.factor
  | parentheses h ih => exact readAs_parenthesized ih (expressionText_of_derives h)
  | number _ ih => exact ih
  | pointed hu hw =>
    have hread := readAs_pointed hu hw
    rw [floatOfPointed_eq hu] at hread
    exact hread
  | digits hw hle hconv => exact readAs_digits hw hle hconv

/-- A derived expression with a semicolon behind it is a program of one statement. -/
theorem whole_matches_of_derives (h : Derives conversionError? .expression w x) :
    ∃ q, whole.Matches (w ++ [';']).toArray (reads (w ++ [';']).toArray) 0 [x] q := by
  have htext := expressionText_of_derives h
  have hexpression : (rule .expression).Parses reads w [';'] x :=
    ReadAs.parses (readAs_of_derives h) (.cons (by decide))
  have hstatement : (terminatedOne (statementRule false)).Parses reads (w ++ [';']) [] x :=
    terminatedOne_parses (expression_statement_parses false htext hexpression)
      (htext.notBlank [';']) fun _ hc => (nomatch hc)
  have hrepeats : (terminatedOne (statementRule false)).Repeats reads (w ++ [';'] ++ []) [] [x] :=
    .next (List.append_ne_nil_of_right_ne_nil w (List.cons_ne_nil ';' [])) hstatement
      (.stop (terminatedOne_refuses false .nil))
  rw [List.append_nil] at hrepeats
  exact whole_matches_of_repeats hrepeats

/-! ## What is read is derived -/

/-- The text between two positions is `w` when its blanks are taken out. -/
def KeptTo (code : Array Char) (p : Nat) (w : List Char) (q : Nat) : Prop :=
  ∃ t, TextTo code p t q ∧ withoutBlanks t = w

theorem KeptTo.append (h : KeptTo code p w m) (h' : KeptTo code m w' q) :
    KeptTo code p (w ++ w') q := by
  obtain ⟨t, ht, rfl⟩ := h
  obtain ⟨t', ht', rfl⟩ := h'
  exact ⟨t ++ t', ht.append ht', List.filter_append ..⟩

/-- A text without blanks is kept as it is. -/
theorem keptTo_of_notBlank (h : TextTo code p w q) (hw : ∀ c ∈ w, isBlank c = false) :
    KeptTo code p w q := by
  refine ⟨w, h, List.filter_eq_self.mpr fun c hc => ?_⟩
  rw [hw c hc]
  rfl

theorem ExpressionText.keptTo (hw : ExpressionText w) (h : TextTo code p w q) :
    KeptTo code p w q :=
  keptTo_of_notBlank h fun c hc => isBlank_of_isExpressionChar (hw.2 c hc)

theorem keptTo_of_char {reader : Reader Name Result} {c : Char} {text : String}
    (hc : isBlank c = false)
    (h : (Form.char c : Part String).Matches code reader p text q) : KeptTo code p [c] q :=
  keptTo_of_notBlank (matches_char h) (List.forall_mem_singleton.mpr hc)

/-- Of blanks that may be missing nothing is kept. -/
theorem keptTo_of_optional {reader : Reader Name Result} {accepts : Char → Bool} {o : Option String}
    (haccepts : ∀ c, accepts c = true → isBlank c = true)
    (h : (Form.optional (.lexeme [.many1 accepts]) : Part (Option String)).Matches code reader p o
      q) : KeptTo code p [] q := by
  rcases Form.matches_optional.mp h with ⟨text, hblanks, -⟩ | ⟨-, -, rfl⟩
  · obtain ⟨t, htext, ⟨t₁, t₂, rfl, ⟨-, hall⟩, rfl⟩, -⟩ := hblanks.lexeme
    rw [List.append_nil] at htext
    refine ⟨t₁, htext, List.filter_eq_nil_iff.mpr fun c hc => ?_⟩
    rw [haccepts c (hall c hc)]
    exact Bool.false_ne_true
  · exact ⟨[], ⟨rfl, rfl⟩, rfl⟩

theorem keptTo_of_someBlanks {reader : Reader Name Result} {o : Option String}
    (h : someBlanks.Matches code reader p o q) : KeptTo code p [] q :=
  keptTo_of_optional (fun _ => id) h

/-- The text between two positions is derived from the symbol when its blanks are taken out. -/
def DerivedTo (code : Array Char) (s : Symbol) (p : Nat) (x : Node) (q : Nat) : Prop :=
  ∃ w, KeptTo code p w q ∧ Derives conversionError? s w x

theorem DerivedTo.imp {s s' : Symbol} (h : DerivedTo code s p x q)
    (himp : ∀ w, Derives conversionError? s w x → Derives conversionError? s' w x) :
    DerivedTo code s' p x q := by
  obtain ⟨w, hw, hx⟩ := h
  exact ⟨w, hw, himp w hx⟩

/-- What a rule has read: literals and operators alone are derived from the symbol that stands where
the rule is called. -/
def ReadFrom (code : Array Char) : (r : Name) → Nat → Result r → Nat → Prop
  | .intLiteral, p, x, q => DerivedTo code .number p x q
  | .floatLiteral, p, x, q => DerivedTo code .number p x q
  | .number, p, x, q => DerivedTo code .number p x q
  | .atom, p, x, q => x.isArithmetic = true → DerivedTo code .atom p x q
  | .primary, p, x, q => x.isArithmetic = true → DerivedTo code .atom p x q
  | .factor, p, x, q => x.isArithmetic = true → DerivedTo code .factor p x q
  | .term, p, x, q => x.isArithmetic = true → DerivedTo code .term p x q
  | .expression, p, x, q => x.isArithmetic = true → DerivedTo code .expression p x q
  | .assignment, _, x, _ => x.isArithmetic = false
  | .functionDef, _, x, _ => x.isArithmetic = false
  | .statement, p, x, q => x.isArithmetic = true → DerivedTo code .expression p x q
  | .statements, p, body, q => ∀ x, body = [x] → x.isArithmetic = true →
    ∃ w, KeptTo code p (w ++ [';']) q ∧ Derives conversionError? .expression w x
  | _, _, _, _ => True

/-- A loop over operands reads literals and operators as a left-recursive symbol derives. -/
theorem derivedTo_of_operandLoop {reader : Reader Name Result} {left right : Symbol}
    {operandRule : Part Node} {ops : List Operator}
    (hreads : ∀ p x q, operandRule.Matches code reader p x q → x.isArithmetic = true →
      DerivedTo code right p x q)
    (hbase : ∀ w x, Derives conversionError? right w x → Derives conversionError? left w x)
    (hstep : ∀ op ∈ ops, ∀ u w x y, Derives conversionError? left u x →
      Derives conversionError? right w y →
      Derives conversionError? left (u ++ symbol op :: w) (.bin op x y))
    (h : (operandLoop operandRule ops).Matches code reader p x q) :
    x.isArithmetic = true → DerivedTo code left p x q := by
  refine h.leftFold_induct
    (P := fun x m => x.isArithmetic = true → DerivedTo code left p x m) ?_ ?_
  · intro y m hy harith
    exact (hreads p y m hy harith).imp fun w => hbase w y
  · rintro y m ⟨op, z⟩ m' hy htail harith
    obtain ⟨harithLeft, harithRight⟩ := Bool.and_eq_true_iff.mp harith
    obtain ⟨u, hu, hy⟩ := hy harithLeft
    obtain ⟨m₃, hop, hz⟩ := Form.matches_pair.mp htail
    obtain ⟨_, m₂, hop, hblanks⟩ := Form.matches_before.mp hop
    obtain ⟨_, m₁, hblanks', hop⟩ := Form.matches_andThen.mp hop
    obtain ⟨hmem, hsymbol⟩ := matches_oneOf hop
    obtain ⟨w, hw, hz⟩ := hreads m₃ z m' hz harithRight
    -- the blanks on both sides of the operator are taken out
    have hkept : KeptTo code m₁ [symbol op] m₂ := keptTo_of_notBlank hsymbol
      (List.forall_mem_singleton.mpr (isBlank_of_isExpressionChar (isExpressionChar_symbol op)))
    have hoperator : KeptTo code m [symbol op] m₃ :=
      ((keptTo_of_someBlanks hblanks').append hkept).append (keptTo_of_someBlanks hblanks)
    exact ⟨u ++ symbol op :: w, hu.append (hoperator.append hw), hstep op hmem u w y z hy hz⟩

/-- The form of a rule reads as the rule is to read if the calls in it do. -/
theorem readFrom_of_form {reader : Reader Name Result}
    (hcalls : ∀ r p a q, (rule r).Matches code reader p a q → ReadFrom code r p a q) (r : Name)
    {a : Result r} (h : (loops r).form.Matches code reader p a q) : ReadFrom code r p a q := by
  cases r with
  | intLiteral =>
    obtain ⟨t, ht, hdigits, hle, hconv, rfl⟩ := matches_checkedInt h
    exact ⟨t, (expressionText_of_isDigits hdigits).keptTo ht, .digits hdigits hle hconv⟩
  | floatLiteral =>
    obtain ⟨u, t, hut, hu, ht, rfl⟩ := matches_floatLiteral h
    have hderives : Derives conversionError? .number _ _ := .pointed hu ht
    exact ⟨_, (expressionText_of_derives hderives).keptTo hut, hderives⟩
  | number =>
    obtain ⟨f, hf, hmatch⟩ := Form.Matches.first h
    rcases List.mem_pair.mp hf with rfl | rfl
    · exact hcalls .floatLiteral _ _ _ hmatch
    · exact hcalls .intLiteral _ _ _ hmatch
  | atom =>
    intro harith
    rcases Form.matches_first_cons.mp h with hmatch | ⟨-, h⟩
    · obtain ⟨_, m₃, hmatch, hclose⟩ := Form.matches_before.mp hmatch
      obtain ⟨_, m₂, hmatch, hblanks⟩ := Form.matches_before.mp hmatch
      obtain ⟨_, m₁, hopen, hexpression⟩ := Form.matches_andThen.mp hmatch
      obtain ⟨_, m₀, hopen, hblanks'⟩ := Form.matches_andThen.mp hopen
      obtain ⟨w, hw, hx⟩ := hcalls .expression _ _ _ hexpression harith
      have hbegin := (keptTo_of_char (by decide) hopen).append (keptTo_of_someBlanks hblanks')
      have hend := (keptTo_of_someBlanks hblanks).append (keptTo_of_char (by decide) hclose)
      exact ⟨_, hbegin.append (hw.append hend), .parentheses hx⟩
    · obtain ⟨f, hf, hmatch⟩ := h.first
      rcases List.mem_pair.mp hf with rfl | rfl
      · obtain ⟨name, -, rfl⟩ := Form.matches_map.mp hmatch
        cases harith
      · exact (hcalls .number _ _ _ hmatch).imp fun _ => .number
  | primary =>
    -- a call is no arithmetic expression, whatever is called
    have hloop : (Form.leftFold called (rule .atom) argumentList).Matches code reader p a q := h
    refine hloop.leftFold_induct
      (P := fun (x : Node) m => x.isArithmetic = true → DerivedTo code .atom p x m)
      (fun x m => hcalls .atom p x m) ?_
    intro x m args m' _ _ harith
    cases harith
  | factor =>
    intro harith
    obtain ⟨f, hf, hmatch⟩ := Form.Matches.first h
    rcases List.mem_pair.mp hf with rfl | rfl
    · obtain ⟨y, hy, rfl⟩ := Form.matches_map.mp hmatch
      obtain ⟨_, m₁, hminus, hprimary⟩ := Form.matches_andThen.mp hy
      obtain ⟨_, m₀, hminus, hgap⟩ := Form.matches_andThen.mp hminus
      rw [Node.isArithmetic_negative] at harith
      obtain ⟨w, hw, hy⟩ := hcalls .primary _ _ _ hprimary harith
      have hbegin := (keptTo_of_char (by decide) hminus).append
        (keptTo_of_optional (fun _ => isBlank_of_isGap) hgap)
      exact ⟨_, hbegin.append hw, .negation hy⟩
    · exact (hcalls .primary _ _ _ hmatch harith).imp fun _ => .atom
  | term =>
    refine derivedTo_of_operandLoop (hcalls .factor) (fun _ _ => .factor) ?_ h
    intro op hop u w x y hx hy
    rcases List.mem_pair.mp hop with rfl | rfl
    · exact .product hx hy
    · exact .quotient hx hy
  | expression =>
    refine derivedTo_of_operandLoop (hcalls .term) (fun _ _ => .term) ?_ h
    intro op hop u w x y hx hy
    rcases List.mem_pair.mp hop with rfl | rfl
    · exact .sum hx hy
    · exact .difference hx hy
  | assignment =>
    obtain ⟨_, -, rfl⟩ := Form.matches_map.mp h
    rfl
  | functionDef =>
    obtain ⟨_, -, rfl⟩ := Form.matches_map.mp h
    rfl
  | statement =>
    intro harith
    rcases Form.matches_first_cons.mp h with hmatch | ⟨-, h⟩
    · rw [show a.isArithmetic = false from hcalls .assignment _ _ _ hmatch] at harith
      cases harith
    · obtain ⟨f, hf, hmatch⟩ := h.first
      rcases List.mem_pair.mp hf with rfl | rfl
      · rw [show a.isArithmetic = false from hcalls .functionDef _ _ _ hmatch] at harith
        cases harith
      · exact hcalls .expression _ _ _ hmatch harith
  | statements =>
    rintro x rfl harith
    cases Form.Matches.many h with
    | cons head tail =>
      cases tail with
      | nil =>
        obtain ⟨_, m₃, head, hblanks₃⟩ := Form.matches_before.mp head
        obtain ⟨_, m₂, head, hsemicolon⟩ := Form.matches_before.mp head
        obtain ⟨_, m₁, head, hblanks₂⟩ := Form.matches_before.mp head
        obtain ⟨_, m₀, hblanks₁, hstatement⟩ := Form.matches_andThen.mp head
        obtain ⟨w, hw, hx⟩ := hcalls .statement _ _ _ hstatement harith
        have hend := ((keptTo_of_someBlanks hblanks₂).append
          (keptTo_of_char (by decide) hsemicolon)).append (keptTo_of_someBlanks hblanks₃)
        exact ⟨w, (keptTo_of_someBlanks hblanks₁).append (hw.append hend), hx⟩
  | _ => trivial

/-- What is read with calls to any depth is derived: by induction on the depth. -/
theorem readRule_derived (code : Array Char) :
    ∀ depth r p a q, (rule r).Matches code (loops.readRule code depth) p a q →
      ReadFrom code r p a q := by
  intro depth
  induction depth with
  | zero => rintro r p a q ⟨reach, h⟩; cases h
  | succ depth ih =>
    rintro r p a q ⟨reach, h⟩
    exact readFrom_of_form ih r ⟨reach, h⟩

/-- A text that is read, with a semicolon behind it, as one expression of literals and operators is
derived as an arithmetic expression when its blanks are taken out. -/
theorem derives_of_whole_matches (hx : x.isArithmetic = true)
    (h : whole.Matches (w ++ [';']).toArray (reads (w ++ [';']).toArray) 0 [x] q) :
    Derives conversionError? .expression (withoutBlanks w) x := by
  obtain ⟨_, m, hbody, hend⟩ := Form.matches_before.mp h
  obtain ⟨v, ⟨t, ⟨-, ht⟩, hv⟩, hderives⟩ := readRule_derived _ _ .statements 0 [x] m hbody x rfl hx
  -- the end of input is matched at the end only, so all of the text has been read
  have hm : m = (w ++ [';']).toArray.size := by
    obtain ⟨reach, hreach⟩ := hend
    rw [Form.read] at hreach
    split at hreach
    next hsize => exact hsize
    next => cases hreach
  have htext : w ++ [';'] = t := by
    rw [hm, List.size_toArray, TextFrom, List.drop_length, List.append_nil] at ht
    exact ht
  have hsemicolon : withoutBlanks [';'] = [';'] := by decide
  have hkept : withoutBlanks w ++ [';'] = v ++ [';'] := by
    rw [← hv, ← htext, ← hsemicolon]
    exact (List.filter_append ..).symm
  rw [List.append_cancel_right hkept]
  exact hderives

end Grammar.Program

open Grammar

/-- **An arithmetic expression is a program, and both grammars read it as the same tree.** What is
read as an arithmetic expression and holds no blanks is read, with a semicolon behind it, as a
program of this one expression. A source that is read, with a semicolon behind it, as one expression
of literals and operators is read as this arithmetic expression, wherever its blanks stand. Sources
in which calls are nested too deeply for one of the readers are left out. -/
theorem readProgram_arithmetic (source : String) (e : Node) :
    ((∀ c ∈ source.toList, isBlank c = false) → readArithmetic source = .ok e →
      ¬NestedTooDeeply (readProgram (source ++ ";")) →
      readProgram (source ++ ";") = .ok [e]) ∧
    (e.isArithmetic = true → readProgram (source ++ ";") = .ok [e] →
      ¬NestedTooDeeply (readArithmetic source) → readArithmetic source = .ok e) := by
  have hcode : (source ++ ";").toList = source.toList ++ [';'] := String.toList_append
  have harithmetic : ¬NestedTooDeeply (readArithmetic source) → (readArithmetic source = .ok e ↔
      Arithmetic.Derives conversionError? .expression (withoutBlanks source.toList) e) := fun h =>
    (readWith_eq_ok_iff Arithmetic.rules_unroll Arithmetic.loops_layered h).trans
      Arithmetic.whole_matches_iff
  constructor
  · intro hblank hread hdepth
    have hkept : withoutBlanks source.toList = source.toList :=
      List.filter_eq_self.mpr fun c hc => by rw [hblank c hc]; rfl
    have hderives := (harithmetic (by rw [hread]; exact id)).mp hread
    rw [hkept] at hderives
    refine (readWith_eq_ok_iff Program.rules_unroll Program.loops_layered hdepth).mpr ?_
    rw [hcode]
    exact Program.whole_matches_of_derives hderives
  · intro harith hread hdepth
    have hprogram : ¬NestedTooDeeply (readProgram (source ++ ";")) := by rw [hread]; exact id
    obtain ⟨q, hq⟩ :=
      (readWith_eq_ok_iff Program.rules_unroll Program.loops_layered hprogram).mp hread
    rw [hcode] at hq
    exact (harithmetic hdepth).mpr (Program.derives_of_whole_matches harith hq)

/-- An expression without blanks, and one with blanks of several kinds. -/
theorem readProgram_arithmetic_blanks :
    (∃ e, readArithmetic "1.5*-(2-3)/007" = .ok e ∧
      readProgram ("1.5*-(2-3)/007" ++ ";") = .ok [e]) ∧
    ∃ e, readProgram ("2 *\n(- 3+\t1.0 ) " ++ ";") = .ok [e] ∧
      readArithmetic "2 *\n(- 3+\t1.0 ) " = .ok e := by
  constructor
  · have hnone : "1.5*-(2-3)/007".toList.all (isBlank · == false) = true := by decide +kernel
    have hreads : (readArithmetic "1.5*-(2-3)/007").isOk = true := by decide +kernel
    cases hread : readArithmetic "1.5*-(2-3)/007" with
    | error r => rw [hread] at hreads; cases hreads
    | ok e =>
      exact ⟨e, rfl, (readProgram_arithmetic "1.5*-(2-3)/007" e).1
        (fun c hc => eq_of_beq (List.all_eq_true.mp hnone c hc)) hread (by decide +kernel)⟩
  · have hreads : ((readProgram ("2 *\n(- 3+\t1.0 ) " ++ ";")).toOption.map fun body =>
        body.map Node.isArithmetic) = some [true] := by decide +kernel
    cases hread : readProgram ("2 *\n(- 3+\t1.0 ) " ++ ";") with
    | error r => rw [hread] at hreads; cases hreads
    | ok body =>
      rw [hread] at hreads
      replace hreads : body.map Node.isArithmetic = [true] := Option.some.inj hreads
      obtain ⟨e, rfl, harith⟩ := List.map_eq_singleton_iff.mp hreads
      exact ⟨e, rfl, (readProgram_arithmetic "2 *\n(- 3+\t1.0 ) " e).2 harith hread
        (by decide +kernel)⟩

end CalcScript
