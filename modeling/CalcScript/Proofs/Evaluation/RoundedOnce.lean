import CalcScript.Proofs.Evaluation.Representation
import CalcScript.Proofs.Floating.Midpoints

/-!
# Operations round once

A floating-point operation brings its operands to single precision, rounds the exact result to double
precision and rounds that to single precision. What comes out is the exact result rounded once:

> `operate_rounds`: for every operator and all operands that are numbers, one of them a floating-point
> number, the result is the number of single precision nearest to the exact result of the operator.

The exact result is a rational number (`Operator.onRationals`), and what it is to be rounded once is
said without the way in which it is computed (`Precision.RoundsTo`).
-/

namespace CalcScript

open Precision

/-- The operator on rational numbers. -/
def Operator.onRationals : Operator → Rat → Rat → Rat
  | .plus, x, y => x + y
  | .minus, x, y => x - y
  | .times, x, y => x * y
  | .divide, x, y => x / y

/-- The value is an operand of a floating-point operation and stands for the number `x`: a finite number
of single precision for itself, an integer of 32 bits for the nearest number of single precision. -/
inductive Value.IsOperand : Value → Rat → Prop where
  | int {n : Int} {r : Floating} {x : Rat} (h : IsWord n) (hround : single.RoundsTo n r)
      (hx : r.value? = some x) : IsOperand (.int n) x
  | float {r : Floating} {x : Rat} (h : r.IsSinglePrecision) (hx : r.value? = some x) :
      IsOperand (.float r) x

namespace Floating

variable {s t : Bool} {m n x y : Rat}

/-! ## Exact results -/

/-- The factor that a sign is. -/
def signFactor (s : Bool) : Rat := if s then -1 else 1

theorem value?_finite (s : Bool) (m : Rat) : (finite s m).value? = some (signFactor s * m) := by
  cases s with
  | true => exact congrArg some (neg_one_mul m).symm
  | false => exact congrArg some (one_mul m).symm

theorem signFactor_of_ne (h : s ≠ t) : signFactor t = -signFactor s := by
  rw [Bool.eq_not_iff.mpr (Ne.symm h)]
  cases s <;> simp [signFactor]

theorem signFactor_xor (s t : Bool) : signFactor (s ^^ t) = signFactor s * signFactor t := by
  cases s <;> cases t <;> simp [signFactor]

theorem signFactor_div (s t : Bool) : signFactor (s ^^ t) = signFactor s / signFactor t := by
  cases s <;> cases t <;> simp [signFactor]

/-- The sign of a sum is that of the larger magnitude. -/
theorem exists_add (s t : Bool) (m n : Rat) :
    ∃ u k, (finite s m).add (finite t n) = finite u k ∧
      signFactor u * k = signFactor s * m + signFactor t * n ∧
      (k = m + n ∨ n < m ∧ k = m - n ∨ m < n ∧ k = n - m ∨ k = 0) := by
  show ∃ u k, (if s = t then finite s (m + n) else if n < m then finite s (m - n)
    else if m < n then finite t (n - m) else finite false 0) = finite u k ∧ _
  split_ifs with hsign hlt hlt'
  · refine ⟨s, m + n, rfl, ?_, Or.inl rfl⟩
    rw [← hsign]
    ring
  · refine ⟨s, m - n, rfl, ?_, Or.inr (Or.inl ⟨hlt, rfl⟩)⟩
    rw [signFactor_of_ne hsign]
    ring
  · refine ⟨t, n - m, rfl, ?_, Or.inr (Or.inr (Or.inl ⟨hlt', rfl⟩))⟩
    rw [signFactor_of_ne hsign]
    ring
  · refine ⟨false, 0, rfl, ?_, Or.inr (Or.inr (Or.inr rfl))⟩
    rw [signFactor_of_ne hsign, le_antisymm (le_of_not_gt hlt) (le_of_not_gt hlt')]
    ring

/-- The operation on finite data of single precision is finite, is worth what the operator gives on
their numbers, and is rounded twice as it is once. -/
theorem exists_exactOperation (op : Operator) (s t : Bool) (hm : single.Holds m) (hn : single.Holds n)
    (hdivisor : op = .divide → n ≠ 0) :
    ∃ u k, exactOperation op (finite s m) (finite t n) = finite u k ∧
      signFactor u * k = op.onRationals (signFactor s * m) (signFactor t * n) ∧
      0 ≤ k ∧ viaDouble k = single.nearest k := by
  -- sums and differences of magnitudes, whatever the signs
  have hsum : ∀ t' : Bool, ∃ u k, (finite s m).add (finite t' n) = finite u k ∧
      signFactor u * k = signFactor s * m + signFactor t' * n ∧
      0 ≤ k ∧ viaDouble k = single.nearest k := by
    intro t'
    obtain ⟨u, k, hadd, hvalue, hk⟩ := exists_add s t' m n
    refine ⟨u, k, hadd, hvalue, ?_⟩
    rcases hk with rfl | ⟨hlt, rfl⟩ | ⟨hlt, rfl⟩ | rfl
    · exact ⟨add_nonneg hm.nonneg hn.nonneg, viaDouble_add hm hn⟩
    · exact ⟨(sub_pos.mpr hlt).le, viaDouble_sub hm hn hlt⟩
    · exact ⟨(sub_pos.mpr hlt).le, viaDouble_sub hn hm hlt⟩
    · exact ⟨le_rfl, rfl⟩
  cases op with
  | plus => exact hsum t
  | minus =>
    obtain ⟨u, k, hadd, hvalue, hk⟩ := hsum (!t)
    refine ⟨u, k, hadd, ?_, hk⟩
    rw [hvalue, signFactor_of_ne (Bool.self_ne_not t)]
    show _ = signFactor s * m - signFactor t * n
    ring
  | times =>
    refine ⟨s ^^ t, m * n, rfl, ?_, mul_nonneg hm.nonneg hn.nonneg, viaDouble_mul hm hn⟩
    rw [signFactor_xor]
    show _ = signFactor s * m * (signFactor t * n)
    ring
  | divide =>
    have hn0 : n ≠ 0 := hdivisor rfl
    have hpos : 0 < n := lt_of_le_of_ne hn.nonneg (Ne.symm hn0)
    refine ⟨s ^^ t, m / n, ?_, ?_, div_nonneg hm.nonneg hn.nonneg, viaDouble_div hm hn hpos⟩
    · show (if n = 0 then _ else finite (s ^^ t) (m / n)) = _
      rw [if_neg hn0]
    · rw [signFactor_div]
      exact div_mul_div_comm _ _ _ _

/-- What the operation gives is its exact result, rounded once. -/
theorem floatOperation_roundsTo {x y : Floating} (op : Operator) (hx : x.toSingle = finite s m)
    (hy : y.toSingle = finite t n) (hm : single.Holds m) (hn : single.Holds n)
    (hdivisor : op = .divide → n ≠ 0) :
    single.RoundsTo (op.onRationals (signFactor s * m) (signFactor t * n)) (floatOperation op x y) := by
  obtain ⟨u, k, hexact, hvalue, hnonneg, honce⟩ := exists_exactOperation op s t hm hn hdivisor
  have hround : floatOperation op x y = single.round (finite u k) := by
    show (exactOperation op x.toSingle y.toSingle).toDouble.toSingle = _
    rw [hx, hy, hexact, toSingle_toDouble, honce]
    rfl
  rw [hround, ← hvalue]
  exact round_roundsTo two_le_single hnonneg (value?_finite u k)

end Floating

/-! ## Operands -/

theorem IsWord.toSingle_toDouble {n : Int} (h : IsWord n) :
    (Floating.ofInt n).toDouble.toSingle = (Floating.ofInt n).toSingle := by
  obtain ⟨hlow, hhigh⟩ := h
  have hholds : double.Holds (n.natAbs : Rat) := by
    rw [← mul_one (n.natAbs : Rat), ← zpow_zero (2 : Rat)]
    exact double_holds n.natAbs 0 (by omega) (by decide)
  show (Floating.finite _ _).toDouble.toSingle = _
  rw [Floating.toSingle_toDouble, viaDouble_of_double hholds]
  rfl

theorem Floating.value?_ofInt (n : Int) : (Floating.ofInt n).value? = some (n : Rat) := by
  show (Floating.finite (decide (n < 0)) (n.natAbs : Rat)).value? = _
  rw [Floating.value?_finite, Nat.cast_natAbs, Int.cast_abs]
  by_cases hneg : n < 0
  · have hcast : (n : Rat) < 0 := by exact_mod_cast hneg
    rw [decide_eq_true hneg, Floating.signFactor, if_pos rfl, abs_of_neg hcast, neg_mul_neg,
      one_mul]
  · have hcast : (0 : Rat) ≤ n := by exact_mod_cast not_lt.mp hneg
    rw [decide_eq_false hneg, Floating.signFactor, if_neg Bool.false_ne_true, abs_of_nonneg hcast,
      one_mul]

/-- An operand is brought to a datum of single precision, which is worth the number that the operand
stands for. -/
theorem Value.IsOperand.exists_toSingle {a : Value} {x : Rat} (h : a.IsOperand x) :
    ∃ r s m, a.number? = some r ∧ r.toSingle = .finite s m ∧ single.Holds m ∧
      x = Floating.signFactor s * m := by
  have hnumber : ∃ r : Floating, a.number? = some r ∧ r.HasMagnitude ∧ r.toSingle.value? = some x := by
    cases h with
    | @int n r _ h hround hx =>
      refine ⟨(Floating.ofInt n).toDouble, rfl, (Floating.hasMagnitude_ofInt n).round, ?_⟩
      rw [h.toSingle_toDouble]
      refine hround.unique ?_ hx
      exact round_roundsTo two_le_single (by positivity) (Floating.value?_ofInt n)
    | @float r _ h hx =>
      refine ⟨r, rfl, h.hasMagnitude, ?_⟩
      rw [h.isSingle]
      exact hx
  obtain ⟨r, hr, hmagnitude, hx⟩ := hnumber
  have hsingle := Floating.isSinglePrecision_toSingle hmagnitude
  refine ⟨r, ?_⟩
  cases hfinite : r.toSingle with
  | nan => rw [hfinite] at hx; cases hx
  | infinity s => rw [hfinite] at hx; cases hx
  | finite s m =>
    rw [hfinite, Floating.value?_finite] at hx
    rw [hfinite] at hsingle
    exact ⟨s, m, hr, rfl, hsingle.magnitude.1, (Option.some.inj hx).symm⟩

/-- Numbers that are not both integers are operands of a floating-point operation. -/
theorem operate_eq_floatOperation {a b : Value} {p q : Floating} (op : Operator)
    (ha : a.number? = some p) (hb : b.number? = some q) (hkind : a.kind = .float ∨ b.kind = .float) :
    operate op a b = .ok (.float (floatOperation op p q)) := by
  unfold operate
  split
  · rcases hkind with h | h <;> cases h
  · rw [ha, hb]

/-- An integer of 32 bits is far from what overflows. -/
theorem IsWord.exists_isOperand {n : Int} (h : IsWord n) : ∃ x, (Value.int n).IsOperand x := by
  have hbound : single.Holds (2 ^ (32 : Int)) := holds_two_zpow one_le_single (by decide)
  have hsmall : (n.natAbs : Rat) ≤ 2 ^ (32 : Int) := by
    obtain ⟨hlow, hhigh⟩ := h
    exact_mod_cast (by omega : n.natAbs ≤ 2 ^ 32)
  have hlt : single.nearest n.natAbs < 2 ^ single.overflow :=
    lt_of_le_of_lt (hbound.nearest_le one_le_single (by positivity) hsmall)
      (zpow_lt_zpow_right₀ (by norm_num) (by decide))
  have hround := round_roundsTo two_le_single (by positivity) (Floating.value?_ofInt n)
  have hfinite : single.round (.finite (decide (n < 0)) n.natAbs) =
      .finite (decide (n < 0)) (single.nearest n.natAbs) := if_neg (not_le_of_gt hlt)
  rw [hfinite] at hround
  exact ⟨_, .int h hround (Floating.value?_finite _ _)⟩

/-- **Floating-point operations round once.** The operands are the numbers of single precision and
all integers of 32 bits. -/
theorem operate_rounds :
    (∀ n, IsWord n → ∃ x, (Value.int n).IsOperand x) ∧
    ∀ op a b x y, Value.IsOperand a x → Value.IsOperand b y → (a.kind = .float ∨ b.kind = .float) →
      (op = .divide → y ≠ 0) →
      ∃ r, operate op a b = .ok (.float r) ∧ single.RoundsTo (op.onRationals x y) r := by
  constructor
  · intro n h
    exact h.exists_isOperand
  · intro op a b x y ha hb hkind hdivisor
    obtain ⟨p, s, m, hp, hs, hm, rfl⟩ := ha.exists_toSingle
    obtain ⟨q, t, n, hq, ht, hn, rfl⟩ := hb.exists_toSingle
    refine ⟨floatOperation op p q, operate_eq_floatOperation op hp hq hkind, ?_⟩
    refine Floating.floatOperation_roundsTo op hs ht hm hn fun hop hzero => ?_
    rw [hzero, mul_zero] at hdivisor
    exact hdivisor hop rfl

/-- The first integer that is no number of single precision, divided by minus three: the integer is
rounded to its predecessor before it is divided. -/
theorem operate_rounds_integer :
    (∃ x, (Value.int 16777217).IsOperand x) ∧
      Value.IsOperand (.int 16777217) 16777216 ∧ Value.IsOperand (.float (.finite true 3)) (-3) ∧
      ∃ r, operate .divide (.int 16777217) (.float (.finite true 3)) = .ok (.float r) ∧
        single.RoundsTo (16777216 / -3) r := by
  obtain ⟨htotal, hrounds⟩ := operate_rounds
  have hround : single.RoundsTo 16777217 (.finite false 16777216) := by
    have hnearest : single.round (.finite false 16777217) = .finite false 16777216 := by decide +kernel
    rw [← hnearest]
    exact round_roundsTo two_le_single (by norm_num) rfl
  have hint : Value.IsOperand (.int 16777217) 16777216 := .int (by decide) hround rfl
  have hfloat : Value.IsOperand (.float (.finite true 3)) (-3) :=
    .float (.finite 3 0 (by decide) (by decide) (by decide) (by norm_num)) rfl
  exact ⟨htotal _ (by decide), hint, hfloat,
    hrounds .divide _ _ _ _ hint hfloat (Or.inr rfl) fun _ => by norm_num⟩

end CalcScript
