import CalcScript.Grammar.Program
import CalcScript.Proofs.Floating.Rounding
import CalcScript.Proofs.Grammar.Literals

/-!
# Written programs

The programs that have a source text, and their texts. `IsStatement` says which trees are statements:
operands are expressions, names are names, literals are in range, and a return statement stands only
in the body of a function. `Written` relates a program to its texts with the fewest parentheses: an
operand is put in parentheses exactly if its level is below the one that its place asks for. The
text of a floating-point literal may be any that stands for its datum.

> `exists_written`: every program has a text.
-/

namespace CalcScript

/-- The level at which an operator binds its operands. -/
def Operator.level : Operator → Nat
  | .plus => 0
  | .minus => 0
  | .times => 1
  | .divide => 1

/-- The datum has a negative sign. -/
def Floating.isNegative : Floating → Bool
  | .nan => false
  | .infinity s => s
  | .finite s _ => s

/-- The level of an expression: sums and differences, products and quotients, negative literals, and
everything else. -/
def Node.level : Node → Nat
  | .bin op _ _ => op.level
  | .int n => if n < 0 then 2 else 3
  | .float x => if x.isNegative then 2 else 3
  | _ => 3

namespace Grammar.Program

open Packrat

/-! ## The trees that have texts -/

/-- A letter or an underscore, and letters, underscores and digits behind it. -/
def IsName (name : String) : Prop :=
  ∃ c cs, name.toList = c :: cs ∧ isNameStart c = true ∧ ∀ d ∈ cs, isNamePart d = true

/-- The node is an expression. -/
inductive IsExpression : Node → Prop where
  | int {n : Int} (h : n.natAbs ≤ largestInt) : IsExpression (.int n)
  | float {x : Floating} (h : x.IsLiteral) : IsExpression (.float x)
  | var {name : String} (h : IsName name) : IsExpression (.var name)
  | bin {op : Operator} {l r : Node} (left : IsExpression l) (right : IsExpression r) :
      IsExpression (.bin op l r)
  | call {f : Node} {es : List Node} (callee : IsExpression f)
      (args : ∀ e ∈ es, IsExpression e) : IsExpression (.call f es)

/-- The node is a statement, of a function's body or outside of functions. -/
inductive IsStatement : Bool → Node → Prop where
  | expression {inBody : Bool} {e : Node} (h : IsExpression e) : IsStatement inBody e
  | assign {inBody : Bool} {name : String} {e : Node} (hname : IsName name) (h : IsExpression e) :
      IsStatement inBody (.assign name e)
  | func {inBody : Bool} {name : String} {params : List String} {body : List Node}
      (hname : IsName name) (hparams : ∀ p ∈ params, IsName p)
      (hbody : ∀ s ∈ body, IsStatement true s) : IsStatement inBody (.func name params body)
  | ret {e : Node} (h : IsExpression e) : IsStatement true (.ret e)

/-- The nodes are the statements of a program. -/
def IsProgram (body : List Node) : Prop := ∀ s ∈ body, IsStatement false s

/-! ## Texts -/

/-- The text of an integer literal. -/
def intText (n : Int) : List Char :=
  if n < 0 then '-' :: Nat.toDigits 10 n.natAbs else Nat.toDigits 10 n.natAbs

/-- Names with commas between them. -/
def namesText : List String → List Char
  | [] => []
  | [name] => name.toList
  | name :: name' :: names => name.toList ++ ',' :: namesText (name' :: names)

/-- What is written. -/
inductive Phrase where
  /-- An expression as it stands. -/
  | bare (e : Node)
  /-- An expression in a place that asks for a level. -/
  | operand (place : Nat) (e : Node)
  /-- Expressions with commas between them. -/
  | arguments (es : List Node)
  | statement (s : Node)
  /-- Statements with a semicolon after each. -/
  | statements (body : List Node)

/-- The text is one that the phrase is written as. -/
inductive Written : Phrase → List Char → Prop where
  | int (n : Int) : Written (.bare (.int n)) (intText n)
  | float {x : Floating} {u w : List Char} (hu : IsDigits u) (hw : IsDigits w)
      (h : floatOfPointed (String.ofList (u ++ '.' :: w)) = .float x) :
      Written (.bare (.float x)) (u ++ '.' :: w)
  | negativeFloat {x : Floating} {u w : List Char} (hu : IsDigits u) (hw : IsDigits w)
      (h : floatOfPointed (String.ofList (u ++ '.' :: w)) = .float x) :
      Written (.bare (.float x.neg)) ('-' :: (u ++ '.' :: w))
  | var (name : String) : Written (.bare (.var name)) name.toList
  | bin {op : Operator} {l r : Node} {u w : List Char} (left : Written (.operand op.level l) u)
      (right : Written (.operand (op.level + 1) r) w) :
      Written (.bare (.bin op l r)) (u ++ symbol op :: w)
  | call {f : Node} {es : List Node} {u w : List Char} (callee : Written (.operand 3 f) u)
      (args : Written (.arguments es) w) :
      Written (.bare (.call f es)) (u ++ '(' :: (w ++ [')']))
  | unparenthesized {place : Nat} {e : Node} {w : List Char} (hlevel : place ≤ e.level)
      (h : Written (.bare e) w) : Written (.operand place e) w
  | parenthesized {place : Nat} {e : Node} {w : List Char} (hlevel : e.level < place)
      (h : Written (.bare e) w) : Written (.operand place e) ('(' :: (w ++ [')']))
  | noArgument : Written (.arguments []) []
  | oneArgument {e : Node} {w : List Char} (h : Written (.bare e) w) : Written (.arguments [e]) w
  | moreArguments {e e' : Node} {es : List Node} {u w : List Char} (h : Written (.bare e) u)
      (hs : Written (.arguments (e' :: es)) w) :
      Written (.arguments (e :: e' :: es)) (u ++ ',' :: w)
  | expression {e : Node} {w : List Char} (h : Written (.bare e) w) : Written (.statement e) w
  | assign {name : String} {e : Node} {w : List Char} (h : Written (.bare e) w) :
      Written (.statement (.assign name e)) (name.toList ++ '=' :: w)
  | ret {e : Node} {w : List Char} (h : Written (.bare e) w) :
      Written (.statement (.ret e)) ("return ".toList ++ w)
  | func {name : String} {params : List String} {body : List Node} {w : List Char}
      (h : Written (.statements body) w) :
      Written (.statement (.func name params body))
        ("function ".toList ++ (name.toList ++ '(' :: (namesText params ++ ')' :: '{' :: (w ++ ['}']))))
  | noStatement : Written (.statements []) []
  | moreStatements {s : Node} {body : List Node} {u w : List Char} (h : Written (.statement s) u)
      (hs : Written (.statements body) w) : Written (.statements (s :: body)) (u ++ ';' :: w)

/-! ## Every program has a text -/

theorem isDigits_toDigits (n : Nat) : IsDigits (Nat.toDigits 10 n) := by
  refine ⟨Nat.toDigits_ne_nil, fun c hc => ?_⟩
  have hdigit := Nat.isDigit_of_mem_toDigits (by decide) (by decide) hc
  rw [Char.isDigit, Bool.and_eq_true, decide_eq_true_iff, decide_eq_true_iff] at hdigit
  exact isDigit_iff.mpr hdigit

theorem isDigits_of_length {k : Nat} {w : List Char} (hlen : w.length = k + 1)
    (hw : ∀ c ∈ w, '0' ≤ c ∧ c ≤ '9') : IsDigits w := by
  refine ⟨?_, fun c hc => isDigit_iff.mpr (hw c hc)⟩
  rintro rfl
  cases hlen

theorem pointedValue_nonneg (u w : List Char) : 0 ≤ pointedValue u w := by
  unfold pointedValue
  positivity

/-- Every decimal fraction is written with digits around a point. -/
theorem exists_pointedValue (n k : Nat) :
    ∃ u w, IsDigits u ∧ IsDigits w ∧ pointedValue u w = (n : Rat) / 10 ^ (k + 1) := by
  have hpos : (0 : Rat) < 10 ^ (k + 1) := by positivity
  obtain ⟨w, hlen, hw, hval⟩ :=
    Decimal.exists_padded_digits (k + 1) (n % 10 ^ (k + 1)) (Nat.mod_lt n (by positivity))
  refine ⟨Nat.toDigits 10 (n / 10 ^ (k + 1)), w, isDigits_toDigits _, isDigits_of_length hlen hw, ?_⟩
  have hsplit : ((10 ^ (k + 1) * (n / 10 ^ (k + 1)) + n % 10 ^ (k + 1) : Nat) : Rat) = (n : Rat) := by
    rw [Nat.div_add_mod]
  push_cast at hsplit
  rw [pointedValue, Decimal.ofDigits_toDigits, hval, hlen, ← hsplit, add_div,
    mul_div_cancel_left₀ _ hpos.ne']

/-- A datum of single precision that is not negative is what some digits around a point stand
for. -/
theorem exists_pointed {x : Floating} (h : x.IsLiteral) (hsign : x.isNegative = false) :
    ∃ u w, IsDigits u ∧ IsDigits w ∧ Floating.readSingle false (pointedValue u w) = x := by
  cases x with
  | nan => exact absurd rfl h.number
  | infinity s =>
    cases hsign
    -- beyond the largest number of single precision, digits stand for the infinity
    refine ⟨Nat.toDigits 10 (10 ^ 40), Nat.toDigits 10 0, isDigits_toDigits _, isDigits_toDigits _, ?_⟩
    rw [pointedValue, Decimal.ofDigits_toDigits, Decimal.ofDigits_toDigits, Nat.cast_zero, zero_div,
      add_zero]
    decide +kernel
  | finite s m =>
    cases hsign
    have hm : 0 ≤ m := h.magnitude false m rfl
    obtain ⟨n, k, hn⟩ := Floating.exists_decimal_of_single h.single hm
    obtain ⟨u, w, hu, hw, hvalue⟩ := exists_pointedValue n k
    refine ⟨u, w, hu, hw, ?_⟩
    rw [hvalue, ← hn]
    exact Floating.readSingle_of_single h.single hm

theorem Written.ofBare {e : Node} {w : List Char} (h : Written (.bare e) w) (place : Nat) :
    ∃ v, Written (.operand place e) v := by
  by_cases hlevel : place ≤ e.level
  · exact ⟨w, .unparenthesized hlevel h⟩
  · exact ⟨_, .parenthesized (Nat.lt_of_not_le hlevel) h⟩

theorem isNegative_neg {x : Floating} (h : x ≠ .nan) : x.neg.isNegative = !x.isNegative := by
  cases x with
  | nan => exact absurd rfl h
  | infinity s => rfl
  | finite s m => rfl

theorem exists_written_float {x : Floating} (h : x.IsLiteral) :
    ∃ w, Written (.bare (.float x)) w := by
  cases hsign : x.isNegative with
  | false =>
    obtain ⟨u, w, hu, hw, hx⟩ := exists_pointed h hsign
    exact ⟨_, .float hu hw (by rw [floatOfPointed_eq hu, hx])⟩
  | true =>
    have hneg : x.neg.isNegative = false := by rw [isNegative_neg h.number, hsign]; rfl
    obtain ⟨u, w, hu, hw, hx⟩ := exists_pointed h.neg hneg
    rw [← Floating.neg_neg x]
    exact ⟨_, .negativeFloat hu hw (by rw [floatOfPointed_eq hu, hx])⟩

theorem exists_written_arguments {es : List Node} (h : ∀ e ∈ es, ∃ w, Written (.bare e) w) :
    ∃ w, Written (.arguments es) w := by
  induction es with
  | nil => exact ⟨[], .noArgument⟩
  | cons e es ih =>
    obtain ⟨u, hu⟩ := h e List.mem_cons_self
    obtain ⟨w, hw⟩ := ih fun e' he' => h e' (List.mem_cons_of_mem e he')
    cases es with
    | nil => exact ⟨u, .oneArgument hu⟩
    | cons e' es => exact ⟨_, .moreArguments hu hw⟩

theorem exists_written_expression {e : Node} (h : IsExpression e) :
    ∃ w, Written (.bare e) w := by
  induction h with
  | int h => exact ⟨_, .int _⟩
  | float h => exact exists_written_float h
  | var h => exact ⟨_, .var _⟩
  | @bin op l r _ _ ihl ihr =>
    obtain ⟨u, hu⟩ := ihl
    obtain ⟨w, hw⟩ := ihr
    obtain ⟨u', hu'⟩ := hu.ofBare op.level
    obtain ⟨w', hw'⟩ := hw.ofBare (op.level + 1)
    exact ⟨_, .bin hu' hw'⟩
  | call _ _ ihf ihs =>
    obtain ⟨u, hu⟩ := ihf
    obtain ⟨u', hu'⟩ := hu.ofBare 3
    obtain ⟨w, hw⟩ := exists_written_arguments ihs
    exact ⟨_, .call hu' hw⟩

theorem exists_written_statements {body : List Node}
    (h : ∀ s ∈ body, ∃ w, Written (.statement s) w) : ∃ w, Written (.statements body) w := by
  induction body with
  | nil => exact ⟨[], .noStatement⟩
  | cons s body ih =>
    obtain ⟨u, hu⟩ := h s List.mem_cons_self
    obtain ⟨w, hw⟩ := ih fun s' hs' => h s' (List.mem_cons_of_mem s hs')
    exact ⟨_, .moreStatements hu hw⟩

theorem exists_written_statement {inBody : Bool} {s : Node} (h : IsStatement inBody s) :
    ∃ w, Written (.statement s) w := by
  induction h with
  | expression h =>
    obtain ⟨w, hw⟩ := exists_written_expression h
    exact ⟨w, .expression hw⟩
  | assign _ h =>
    obtain ⟨w, hw⟩ := exists_written_expression h
    exact ⟨_, .assign hw⟩
  | func _ _ _ ih =>
    obtain ⟨w, hw⟩ := exists_written_statements ih
    exact ⟨_, .func hw⟩
  | ret h =>
    obtain ⟨w, hw⟩ := exists_written_expression h
    exact ⟨_, .ret hw⟩

/-- **Every program has a text.** -/
theorem exists_written {body : List Node} (h : IsProgram body) :
    ∃ w, Written (.statements body) w :=
  exists_written_statements fun s hs => exists_written_statement (h s hs)

end Grammar.Program

end CalcScript
