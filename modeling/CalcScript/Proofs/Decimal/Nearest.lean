import CalcScript.Decimal.Basic
import CalcScript.Proofs.Floating.Multiples

/-!
# The nearest decimal

With a given number of significant digits, the decimals between two powers of ten are multiples of one
power of ten, as magnitudes between powers of two are multiples of a unit. `Decimal.nearest` takes the
nearest one, and that is nearest among all decimals which have no more digits:

> `Decimal.abs_sub_nearest_le`: no decimal with `count` digits or fewer is nearer.

Decimals with few digits are not close to each other (`Decimal.lt_abs_sub`).
-/

namespace CalcScript.Decimal

variable {count : Nat} {x y : Rat} {d : Decimal}

/-! ## Leading digits -/

theorem divisionsByTen_spec : ∀ rounds n : Nat, n ≠ 0 → n < 10 ^ (rounds + 1) →
    10 ^ divisionsByTen rounds n ≤ n ∧ n < 10 ^ (divisionsByTen rounds n + 1)
  | 0, n, hn, hlt => ⟨by rw [divisionsByTen, Nat.pow_zero]; omega, hlt⟩
  | rounds + 1, n, hn, hlt => by
    rw [divisionsByTen]
    split
    · rw [Nat.pow_zero, Nat.zero_add, Nat.pow_one]
      omega
    · rw [Nat.pow_succ] at hlt
      obtain ⟨hlow, hhigh⟩ := divisionsByTen_spec rounds (n / 10) (by omega) (by omega)
      rw [Nat.pow_succ] at hhigh
      rw [Nat.pow_succ, Nat.pow_succ]
      omega

/-- The leading decimal digit of a positive number. -/
theorem decimalExponent_spec (hx : 0 < x) :
    (10 : Rat) ^ decimalExponent x ≤ x ∧ x < (10 : Rat) ^ (decimalExponent x + 1) := by
  refine leadingExponent_spec 10 _ (by decide) (fun n hn => ?_) hx
  have hroom : n < 10 ^ (n.log2 + 1) :=
    lt_of_lt_of_le Nat.lt_log2_self (Nat.pow_le_pow_left (by decide) _)
  obtain ⟨hlow, hhigh⟩ := divisionsByTen_spec n.log2 n hn hroom
  constructor
  · exact_mod_cast hlow
  · exact_mod_cast hhigh

theorem ten_zpow_pos (e : Int) : (0 : Rat) < 10 ^ e := zpow_pos (by norm_num) e

theorem value_nonneg (d : Decimal) : 0 ≤ d.value :=
  mul_nonneg (Nat.cast_nonneg _) (ten_zpow_pos _).le

theorem ten_zpow_add_natCast (n : Nat) (e : Int) : (10 : Rat) ^ ((n : Int) + e) = 10 ^ n * 10 ^ e := by
  rw [zpow_add₀ (by norm_num), zpow_natCast]

/-- In units of a lower place, a decimal has more digits. -/
theorem value_eq_of_le {e : Int} (h : e ≤ d.exponent) :
    d.value = (d.coefficient * 10 ^ (d.exponent - e).toNat : Nat) * 10 ^ e := by
  have hpower : (10 : Rat) ^ d.exponent = 10 ^ (d.exponent - e).toNat * 10 ^ e := by
    rw [← ten_zpow_add_natCast, Int.toNat_of_nonneg (by omega), sub_add_cancel]
  rw [value, hpower]
  push_cast
  ring

/-- In units of its last place, a number has the digits that are asked for before the point. -/
theorem lastPlace_spec (hcount : 1 ≤ count) (hx : 0 < x) :
    10 ^ (count - 1) * (10 : Rat) ^ lastPlace count x ≤ x ∧
      x < 10 ^ count * (10 : Rat) ^ lastPlace count x := by
  obtain ⟨hlow, hhigh⟩ := decimalExponent_spec hx
  have hplace : lastPlace count x = decimalExponent x - ((count : Int) - 1) := rfl
  rw [← ten_zpow_add_natCast, ← ten_zpow_add_natCast]
  constructor
  · rwa [show ((count - 1 : Nat) : Int) + lastPlace count x = decimalExponent x by omega]
  · rwa [show (count : Int) + lastPlace count x = decimalExponent x + 1 by omega]

/-! ## Nearest decimals -/

theorem value_carry (hcount : 1 ≤ count) (d : Decimal) : (carry count d).value = d.value := by
  unfold carry
  split
  · next h =>
    obtain ⟨n, rfl⟩ : ∃ n, count = n + 1 := ⟨count - 1, by omega⟩
    rw [value, value, h]
    dsimp only
    rw [zpow_add_one₀ (by norm_num), Nat.add_sub_cancel, Nat.pow_eq, Nat.pow_eq, Nat.pow_succ]
    push_cast
    ring
  · rfl

theorem carry_coefficient_lt (hcount : 1 ≤ count) (h : d.coefficient ≤ 10 ^ count) :
    (carry count d).coefficient < 10 ^ count := by
  unfold carry
  split
  · exact Nat.pow_lt_pow_right (by decide) (by omega)
  · next hne => exact lt_of_le_of_ne h hne

/-- The nearest decimal is the nearest multiple of the last place. -/
theorem value_nearest (hcount : 1 ≤ count) (hx : 0 < x) :
    (nearest count x).value = nearestMultiple (10 ^ lastPlace count x) x := by
  have hpow := ten_zpow_pos (lastPlace count x)
  have hnonneg : 0 ≤ nearestInt (x / 10 ^ lastPlace count x) :=
    nearestInt_nonneg (div_nonneg hx.le hpow.le)
  have hcast : ((nearestInt (x / 10 ^ lastPlace count x)).toNat : Rat)
      = nearestInt (x / 10 ^ lastPlace count x) := by
    rw [← Int.cast_natCast, Int.toNat_of_nonneg hnonneg]
  rw [nearest, if_neg hx.ne']
  dsimp only
  rw [value_carry hcount, value]
  dsimp only
  rw [hcast]
  rfl

theorem nearest_coefficient_lt (hcount : 1 ≤ count) (hx : 0 < x) :
    (nearest count x).coefficient < 10 ^ count := by
  have hle : x / 10 ^ lastPlace count x ≤ ((10 ^ count : Int) : Rat) := by
    rw [div_le_iff₀ (ten_zpow_pos _)]
    push_cast
    exact (lastPlace_spec hcount hx).2.le
  have hroom : (nearestInt (x / 10 ^ lastPlace count x)).toNat ≤ 10 ^ count :=
    Int.toNat_le.mpr (by exact_mod_cast nearestInt_le hle)
  rw [nearest, if_neg hx.ne']
  exact carry_coefficient_lt hcount hroom

/-- The multiples of the last place are the decimals with as many digits; others are below the leading
digit. -/
theorem value_eq_mul (hcount : 1 ≤ count) (hd : d.coefficient < 10 ^ count) (x : Rat) :
    (∃ n : Nat, d.value = n * 10 ^ lastPlace count x) ∨
      d.value < 10 ^ (count - 1) * 10 ^ lastPlace count x := by
  rcases le_or_gt (lastPlace count x) d.exponent with hle | hlt
  · exact Or.inl ⟨_, value_eq_of_le hle⟩
  · right
    obtain ⟨n, rfl⟩ : ∃ n, count = n + 1 := ⟨count - 1, by omega⟩
    have hcast : (d.coefficient : Rat) < 10 ^ (n + 1) := by exact_mod_cast hd
    calc d.value < 10 ^ (n + 1) * 10 ^ d.exponent :=
          mul_lt_mul_of_pos_right hcast (ten_zpow_pos _)
      _ = 10 ^ n * 10 ^ (d.exponent + 1) := by rw [zpow_add_one₀ (by norm_num)]; ring
      _ ≤ 10 ^ n * 10 ^ lastPlace (n + 1) x :=
          mul_le_mul_of_nonneg_left (zpow_le_zpow_right₀ (by norm_num) (by omega)) (by positivity)

/-- **No decimal with as many digits is nearer.** -/
theorem abs_sub_nearest_le (hcount : 1 ≤ count) (hx : 0 < x) (hd : d.coefficient < 10 ^ count) :
    |x - (nearest count x).value| ≤ |x - d.value| := by
  have hpow := ten_zpow_pos (lastPlace count x)
  rw [value_nearest hcount hx]
  rcases value_eq_mul hcount hd x with ⟨n, hn⟩ | hlt
  · rw [hn]
    exact abs_sub_nearestMultiple_le hpow (n : Int)
  · have hlow := (lastPlace_spec hcount hx).1
    have hpower : (10 : Rat) ^ (count - 1) = ((10 ^ (count - 1) : Int) : Rat) := by push_cast; rfl
    refine le_trans (abs_sub_nearestMultiple_le hpow (10 ^ (count - 1))) ?_
    rw [← hpower, abs_of_nonneg (by linarith), abs_of_nonneg (by linarith)]
    linarith

/-- The nearest decimal is half of its last place away at most. -/
theorem abs_sub_nearest_le_half (hcount : 1 ≤ count) (hx : 0 < x) :
    |x - (nearest count x).value| * (2 * 10 ^ (count - 1)) ≤ x := by
  have hpow := ten_zpow_pos (lastPlace count x)
  rw [value_nearest hcount hx]
  have hhalf := abs_sub_nearestMultiple_le_half (x := x) hpow
  have hten : (0 : Rat) < 10 ^ (count - 1) := by positivity
  have hmul := mul_le_mul_of_nonneg_right hhalf hten.le
  linarith [(lastPlace_spec hcount hx).1]

/-! ## Decimals with few digits -/

/-- Two decimals with few digits are apart by more than a unit in the last digit of the smaller one. -/
theorem lt_abs_sub {a b : Decimal} (ha : a.coefficient < 10 ^ count) (hb : b.coefficient < 10 ^ count)
    (h : a.value ≠ b.value) : min a.value b.value < 10 ^ count * |a.value - b.value| := by
  wlog hle : a.exponent ≤ b.exponent generalizing a b
  · rw [min_comm, abs_sub_comm]
    exact this hb ha (Ne.symm h) (le_of_not_ge hle)
  · have hpow := ten_zpow_pos a.exponent
    have hb' := value_eq_of_le hle
    have hne : a.coefficient ≠ b.coefficient * 10 ^ (b.exponent - a.exponent).toNat := by
      intro heq
      rw [hb', value, heq] at h
      exact h rfl
    have hfar : (10 : Rat) ^ a.exponent ≤ |a.value - b.value| := by
      have hstep := le_abs_sub_add_abs_sub (x := a.value) hpow (n := a.coefficient)
        (k := (b.coefficient * 10 ^ (b.exponent - a.exponent).toNat : Nat)) (by exact_mod_cast hne)
      rw [Int.cast_natCast, Int.cast_natCast, ← hb', ← value, sub_self, abs_zero, zero_add] at hstep
      exact hstep
    have hcast : (a.coefficient : Rat) < 10 ^ count := by exact_mod_cast ha
    calc min a.value b.value ≤ a.value := min_le_left _ _
      _ < 10 ^ count * 10 ^ a.exponent := mul_lt_mul_of_pos_right hcast hpow
      _ ≤ 10 ^ count * |a.value - b.value| := mul_le_mul_of_nonneg_left hfar (by positivity)

end CalcScript.Decimal
