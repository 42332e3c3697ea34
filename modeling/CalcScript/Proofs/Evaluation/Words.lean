import CalcScript.Proofs.Evaluation.Representation

/-!
# Integers are evaluated as words

An expression of integer literals and operators has a value in the two's complement arithmetic of 32
bits (`Node.word?`): sums, differences and products wrap around, quotients are cut off toward zero.
Evaluation computes with integers that nothing bounds, and wraps what each operator gives.

> `Node.eval_words`: evaluation gives the value in two's complement arithmetic, and faults exactly
> if some divisor in the expression is zero. Where there is no division, wrapping the exact value
> once gives the same.

That once is enough without divisions is because wrapping goes through sums, differences and
products (`wrap_add_wrap` and the two lemmas behind it). It does not go through quotients.
-/

namespace CalcScript

/-! ## Expressions of integers -/

/-- The node is an expression of integers: literals of 32 bits, and operators between them. -/
inductive Node.IsIntegers : Node → Prop where
  | int {n : Int} (h : IsWord n) : IsIntegers (.int n)
  | bin (op : Operator) {l r : Node} (left : IsIntegers l) (right : IsIntegers r) :
      IsIntegers (.bin op l r)

/-- The operator in two's complement arithmetic. There is no quotient by zero. -/
def Operator.onWords : Operator → Int32 → Int32 → Option Int32
  | .plus, a, b => some (a + b)
  | .minus, a, b => some (a - b)
  | .times, a, b => some (a * b)
  | .divide, a, b => if b = 0 then none else some (a / b)

/-- A quotient is cut off toward zero, and the smallest integer divided by minus one wraps around. -/
example : Operator.divide.onWords (-7) 2 = some (-3) ∧
    Operator.divide.onWords Int32.minValue (-1) = some Int32.minValue := by
  decide

namespace Node

/-- The value of an expression of integers in two's complement arithmetic. -/
def word? : Node → Option Int32
  | .int n => some (Int32.ofInt n)
  | .bin op l r => l.word?.bind fun a => r.word?.bind fun b => op.onWords a b
  | _ => none

/-- The divisors of all divisions in an expression. -/
def divisors : Node → List Node
  | .bin op l r => (if op = .divide then [r] else []) ++ (l.divisors ++ r.divisors)
  | _ => []

/-- The value of an expression without divisions in integers that nothing bounds. -/
def exactValue : Node → Int
  | .int n => n
  | .bin .plus l r => l.exactValue + r.exactValue
  | .bin .minus l r => l.exactValue - r.exactValue
  | .bin .times l r => l.exactValue * r.exactValue
  | _ => 0

/-- How deeply the operators of an expression are nested. -/
def height : Node → Nat
  | .bin _ l r => max l.height r.height + 1
  | _ => 1

/-- An operator is one higher than the higher of its operands. -/
theorem height_bin (op : Operator) (l r : Node) :
    (bin op l r).height = max l.height r.height + 1 := rfl

end Node

/-- What evaluation gives for a value in two's complement arithmetic, and for none. -/
def wordResult : Option Int32 → Except Fault Value
  | some w => .ok (.int w.toInt)
  | none => .error .divisionByZero

/-! ## Operators -/

/-- Words are not divided by zero. -/
theorem Operator.onWords_divide_zero (a : Int32) : Operator.divide.onWords a 0 = none := by
  rw [onWords, if_pos rfl]

/-- There is nothing else that words do not give. -/
theorem Operator.onWords_eq_none {op : Operator} {a b : Int32} (h : op.onWords a b = none) :
    op = .divide ∧ b = 0 := by
  cases op with
  | divide =>
    rw [onWords] at h
    by_cases hb : b = 0
    · exact ⟨rfl, hb⟩
    · rw [if_neg hb] at h
      cases h
  | _ => cases h

/-- Only the word zero is the integer zero. -/
theorem toInt_eq_zero_iff {w : Int32} : w.toInt = 0 ↔ w = 0 := by
  rw [← Int32.toInt_zero, Int32.toInt_inj]

/-- An operator on integers gives what it gives on words. -/
theorem operate_words (op : Operator) (a b : Int32) :
    operate op (.int a.toInt) (.int b.toInt) = wordResult (op.onWords a b) := by
  cases op with
  | plus => rw [Operator.onWords, wordResult, Int32.toInt_add]; rfl
  | minus => rw [Operator.onWords, wordResult, Int32.toInt_sub]; rfl
  | times => rw [Operator.onWords, wordResult, Int32.toInt_mul]; rfl
  | divide =>
    rw [operate, intOperation, Operator.onWords]
    by_cases hb : b = 0
    · rw [if_pos (toInt_eq_zero_iff.mpr hb), if_pos hb]
      rfl
    · rw [if_neg (mt toInt_eq_zero_iff.mp hb), if_neg hb, wordResult, Int32.toInt_div]
      rfl

/-! ## Wrapping once -/

/-- Sums may be wrapped once, at the end. -/
theorem wrap_add_wrap (a b : Int) : wrap (wrap a + wrap b) = wrap (a + b) := by
  unfold wrap
  rw [Int.bmod_add_bmod, Int.add_bmod_bmod]

/-- So may differences. -/
theorem wrap_sub_wrap (a b : Int) : wrap (wrap a - wrap b) = wrap (a - b) := by
  unfold wrap
  rw [Int.bmod_sub_bmod, Int.sub_bmod_bmod]

/-- So may products. -/
theorem wrap_mul_wrap (a b : Int) : wrap (wrap a * wrap b) = wrap (a * b) := by
  unfold wrap
  rw [Int.bmod_mul_bmod, Int.mul_bmod_bmod]

/-! ## Expressions -/

namespace Node

variable {e d : Node}

theorem divisors_bin (op : Operator) (l r : Node) :
    (bin op l r).divisors = (if op = .divide then [r] else []) ++ (l.divisors ++ r.divisors) := rfl

/-- A divisor is the right operand of a division, or one further down. -/
theorem mem_divisors_bin {op : Operator} {l r : Node} :
    d ∈ (bin op l r).divisors ↔ (op = .divide ∧ d = r) ∨ d ∈ l.divisors ∨ d ∈ r.divisors := by
  rw [divisors_bin, List.mem_append, List.mem_append]
  by_cases hop : op = .divide
  · simp [hop]
  · simp [hop]

/-- The divisors among integers consist of integers. -/
theorem IsIntegers.of_mem_divisors (he : e.IsIntegers) (hd : d ∈ e.divisors) : d.IsIntegers := by
  induction he with
  | int h => cases hd
  | bin op _ right ihl ihr =>
    rcases mem_divisors_bin.mp hd with ⟨-, rfl⟩ | hl | hr
    · exact right
    · exact ihl hl
    · exact ihr hr

/-- An expression has no value exactly if some divisor in it is zero. -/
theorem IsIntegers.word?_eq_none_iff (he : e.IsIntegers) :
    e.word? = none ↔ ∃ d ∈ e.divisors, d.word? = some 0 := by
  induction he with
  | int h =>
    constructor
    · intro h
      cases h
    · rintro ⟨d, hd, -⟩
      cases hd
  | @bin op l r _ _ ihl ihr =>
    constructor
    · intro h
      rw [word?] at h
      cases hl : l.word? with
      | none =>
        obtain ⟨d, hd, hzero⟩ := ihl.mp hl
        exact ⟨d, mem_divisors_bin.mpr (.inr (.inl hd)), hzero⟩
      | some a =>
        cases hr : r.word? with
        | none =>
          obtain ⟨d, hd, hzero⟩ := ihr.mp hr
          exact ⟨d, mem_divisors_bin.mpr (.inr (.inr hd)), hzero⟩
        | some b =>
          rw [hl, hr] at h
          obtain ⟨hop, rfl⟩ := Operator.onWords_eq_none h
          exact ⟨r, mem_divisors_bin.mpr (.inl ⟨hop, rfl⟩), hr⟩
    · rintro ⟨d, hd, hzero⟩
      rw [word?]
      rcases mem_divisors_bin.mp hd with ⟨rfl, rfl⟩ | hmem | hmem
      · rw [hzero]
        cases l.word? with
        | none => rfl
        | some a => exact Operator.onWords_divide_zero a
      · rw [ihl.mpr ⟨d, hmem, hzero⟩]
        rfl
      · rw [ihr.mpr ⟨d, hmem, hzero⟩]
        cases l.word? with
        | none => rfl
        | some a => rfl

/-- Without divisions, the value is the exact one wrapped once. -/
theorem IsIntegers.word?_of_divisors_eq_nil (he : e.IsIntegers) (h : e.divisors = []) :
    ∃ w, e.word? = some w ∧ w.toInt = wrap e.exactValue := by
  induction he with
  | int _ => exact ⟨_, rfl, Int32.toInt_ofInt⟩
  | @bin op l r _ _ ihl ihr =>
    rw [divisors_bin, List.append_eq_nil_iff, List.append_eq_nil_iff] at h
    obtain ⟨hop, hl, hr⟩ := h
    obtain ⟨a, hla, hva⟩ := ihl hl
    obtain ⟨b, hrb, hvb⟩ := ihr hr
    rw [word?, hla, hrb]
    cases op with
    | plus =>
      refine ⟨a + b, rfl, ?_⟩
      rw [Int32.toInt_add, hva, hvb]
      exact wrap_add_wrap l.exactValue r.exactValue
    | minus =>
      refine ⟨a - b, rfl, ?_⟩
      rw [Int32.toInt_sub, hva, hvb]
      exact wrap_sub_wrap l.exactValue r.exactValue
    | times =>
      refine ⟨a * b, rfl, ?_⟩
      rw [Int32.toInt_mul, hva, hvb]
      exact wrap_mul_wrap l.exactValue r.exactValue
    | divide => cases hop

/-- Evaluation gives the value in two's complement arithmetic, unless it is cut off. By induction on
the expression: operators are applied to words only. -/
theorem IsIntegers.eval_eq (he : e.IsIntegers) (budget : Nat) (m : Machine) :
    Node.eval budget e m = (wordResult e.word?, m) ∨
      (Node.eval budget e m = (.error .recursionDepth, m) ∧ budget < e.height) := by
  induction he generalizing budget with
  | @int n h =>
    cases budget with
    | zero => exact .inr ⟨by rw [Node.eval], Nat.zero_lt_one⟩
    | succ budget =>
      have hword : (Int32.ofInt n).toInt = n :=
        Int32.toInt_ofInt_of_le h.1 (Int.lt_of_le_of_lt h.2 (by decide))
      refine .inl ?_
      rw [Node.eval, word?, wordResult, hword]
  | @bin op l r _ _ ihl ihr =>
    cases budget with
    | zero => exact .inr ⟨by rw [Node.eval], Nat.succ_pos _⟩
    | succ budget =>
      rw [Node.eval, word?, height_bin]
      rcases ihl budget with hl | ⟨hl, hheight⟩
      · cases hlw : l.word? with
        | none =>
          rw [hl, hlw]
          exact .inl rfl
        | some a =>
          rcases ihr budget with hr | ⟨hr, hheight⟩
          · cases hrw : r.word? with
            | none =>
              rw [hl, hlw, wordResult, Ending.andThen_ok, hr, hrw]
              exact .inl rfl
            | some b =>
              rw [hl, hlw, wordResult, Ending.andThen_ok, hr, hrw, wordResult, Ending.andThen_ok,
                operate_words]
              exact .inl rfl
          · rw [hl, hlw, wordResult, Ending.andThen_ok, hr]
            exact .inr ⟨rfl, by omega⟩
      · rw [hl]
        exact .inr ⟨rfl, by omega⟩

end Node

/-- **Integers are evaluated as words.** Unless its budget cuts it off, which takes as many nested
operators, the evaluation of an expression of integers leaves the machine alone and gives the value
of the expression in two's complement arithmetic, or faults for a division by zero if there is none.
There is none exactly if some divisor in the expression, an expression of integers itself, has the
value zero. And if nothing is divided, the value is the exact one wrapped once. -/
theorem Node.eval_words {e : Node} (he : e.IsIntegers) :
    (∀ budget m, Node.eval budget e m = (wordResult e.word?, m) ∨
      (Node.eval budget e m = (.error .recursionDepth, m) ∧ budget < e.height)) ∧
    (∀ d ∈ e.divisors, d.IsIntegers) ∧
    (e.word? = none ↔ ∃ d ∈ e.divisors, d.word? = some 0) ∧
    (e.divisors = [] → ∃ w, e.word? = some w ∧ w.toInt = wrap e.exactValue) :=
  ⟨he.eval_eq, fun _ => he.of_mem_divisors, he.word?_eq_none_iff, he.word?_of_divisors_eq_nil⟩

/-- The smallest integer divided by minus one, less one; and a division by a difference that is
zero, as an operand. -/
theorem Node.eval_words_smallestInteger :
    let e := bin .minus (bin .divide (int (-2147483648)) (int (-1))) (int 1)
    let d := bin .minus (int 7) (int 7)
    let e' := bin .times (int 2) (bin .divide (int 1) d)
    e.IsIntegers ∧ (∀ m, Node.eval 3 e m = (.ok (.int 2147483647), m)) ∧
    e'.IsIntegers ∧ d ∈ e'.divisors ∧ (∀ m, Node.eval 4 e' m = (.error .divisionByZero, m)) := by
  intro e d e'
  have he : e.IsIntegers := .bin _ (.bin _ (.int (by decide)) (.int (by decide))) (.int (by decide))
  have he' : e'.IsIntegers :=
    .bin _ (.int (by decide)) (.bin _ (.int (by decide)) (.bin _ (.int (by decide)) (.int (by decide))))
  obtain ⟨heval, -⟩ := Node.eval_words he
  obtain ⟨heval', -, hzero, -⟩ := Node.eval_words he'
  have hword : e.word? = some 2147483647 := by decide
  have hd : d ∈ e'.divisors := List.mem_cons_self
  have hnone : e'.word? = none := hzero.mpr ⟨d, hd, by decide⟩
  refine ⟨he, fun m => ?_, he', hd, fun m => ?_⟩
  · rcases heval 3 m with h | ⟨-, hcut⟩
    · rw [h, hword]
      rfl
    · exact absurd hcut (by decide)
  · rcases heval' 4 m with h | ⟨-, hcut⟩
    · rw [h, hnone]
      rfl
    · exact absurd hcut (by decide)

end CalcScript
