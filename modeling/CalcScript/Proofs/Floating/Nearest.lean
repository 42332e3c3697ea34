import CalcScript.Proofs.Floating.Multiples

/-!
# Rounding to the magnitudes of a precision

`Precision.nearest` computes with leading digits, which change from one power of two to the next. Two
facts carry most of what is proved about rounding elsewhere. Rounding keeps the order
(`Precision.nearest_mono`), so that no magnitude of the precision comes to lie on the other side of a
number by rounding it; and between two powers of two all magnitudes are multiples of one unit
(`Precision.nearest_of_inRange`). How near to a magnitude the numbers are that are rounded to it follows
from these:

> `Precision.Holds.nearest_above`, `Precision.Holds.nearest_below`: half a unit is near enough on both
> sides, but not below the power of two at which the range of a unit begins, where it takes a quarter.
-/

namespace CalcScript

namespace Precision

variable {p : Precision} {u : Int} {x y z : Rat}

/-! ## The range of a unit -/

/-- Around `x` the magnitudes of the precision are the multiples of `2 ^ u`: there are as many of them
below `x` as the precision has room for, and no less than half as many unless the unit is the
smallest one. -/
structure InRange (p : Precision) (u : Int) (x : Rat) : Prop where
  smallest : p.smallestUnit ≤ u
  low : u = p.smallestUnit ∨ 2 ^ p.digits * 2 ^ u ≤ 2 * x
  high : x ≤ 2 ^ p.digits * 2 ^ u

theorem inRange_unit (hx : 0 < x) : p.InRange (p.unit x) x := by
  obtain ⟨hlow, hhigh⟩ := binaryExponent_spec hx
  have hunit : p.unit x = max (binaryExponent x - (p.digits - 1)) p.smallestUnit := rfl
  refine ⟨Int.le_max_right _ _, ?_, ?_⟩
  · by_cases h : p.unit x = p.smallestUnit
    · exact Or.inl h
    · refine Or.inr ?_
      have hexponent : (p.digits : Int) + p.unit x = binaryExponent x + 1 := by omega
      rw [← two_zpow_add_natCast, hexponent, zpow_add_one₀ (by norm_num)]
      linarith
  · rw [← two_zpow_add_natCast]
    exact le_trans hhigh.le (zpow_le_zpow_right₀ (by norm_num) (by omega))

/-- Rounding is the same in the whole range of a unit, its end included. -/
theorem nearest_of_inRange (hdigits : 1 ≤ p.digits) (hx : 0 < x) (h : p.InRange u x) :
    p.nearest x = nearestMultiple (2 ^ u) x := by
  obtain ⟨hlow, hhigh⟩ := binaryExponent_spec hx
  obtain ⟨hsmallest, hbelow, habove⟩ := h
  have hunit : p.unit x = max (binaryExponent x - (p.digits - 1)) p.smallestUnit := rfl
  rw [← two_zpow_add_natCast] at hbelow habove
  have hexponent : binaryExponent x ≤ (p.digits : Int) + u :=
    (zpow_le_zpow_iff_right₀ (by norm_num : (1 : Rat) < 2)).mp (le_trans hlow habove)
  have hexponent' : u = p.smallestUnit ∨ (p.digits : Int) + u < binaryExponent x + 2 := by
    refine hbelow.imp_right fun h => ?_
    refine (zpow_lt_zpow_iff_right₀ (by norm_num : (1 : Rat) < 2)).mp (lt_of_le_of_lt h ?_)
    rw [show binaryExponent x + 2 = binaryExponent x + 1 + 1 by ring, zpow_add_one₀ (by norm_num),
      mul_comm]
    exact mul_lt_mul_of_pos_right hhigh (by norm_num)
  by_cases hend : binaryExponent x = (p.digits : Int) + u
  · -- the end of the range is a power of two, of which both units are divisors
    have hpow : x = 2 ^ ((p.digits : Int) + u) := le_antisymm habove (hend ▸ hlow)
    obtain ⟨n, hn⟩ := exists_two_zpow_eq_mul (show u ≤ (p.digits : Int) + u by omega)
    have hself : p.nearest x = x := by
      refine nearest_of_multiple (e := (p.digits : Int) + u) (n := 1) ?_ (by omega)
      rw [hpow, Int.cast_one, one_mul]
    rw [hself, hpow, hn, nearestMultiple_mul (zpow_pos (by norm_num) u)]
  · have heq : p.unit x = u := by omega
    rw [nearest, if_neg hx.ne', heq]
    rfl

/-- **Rounding keeps the order.** -/
theorem nearest_mono (hdigits : 1 ≤ p.digits) (hx : 0 ≤ x) (h : x ≤ y) :
    p.nearest x ≤ p.nearest y := by
  rcases eq_or_lt_of_le hx with rfl | hpos
  · exact nearest_nonneg p h
  · have hypos : 0 < y := lt_of_lt_of_le hpos h
    have hexponent : binaryExponent x ≤ binaryExponent y := by
      have hlt := lt_of_le_of_lt (le_trans (binaryExponent_spec hpos).1 h) (binaryExponent_spec hypos).2
      have := (zpow_lt_zpow_iff_right₀ (by norm_num : (1 : Rat) < 2)).mp hlt
      omega
    have hunitx : p.unit x = max (binaryExponent x - (p.digits - 1)) p.smallestUnit := rfl
    have hunity : p.unit y = max (binaryExponent y - (p.digits - 1)) p.smallestUnit := rfl
    rw [nearest_of_inRange hdigits hpos (inRange_unit hpos),
      nearest_of_inRange hdigits hypos (inRange_unit hypos)]
    rcases eq_or_lt_of_le (show p.unit x ≤ p.unit y by omega) with heq | hlt
    · rw [heq]
      exact nearestMultiple_mono (zpow_pos (by norm_num) _) h
    · -- the power of two at which the exponent of `y` begins stands between the two
      obtain ⟨n, hn⟩ := exists_two_zpow_eq_mul (show p.unit x ≤ binaryExponent y by omega)
      obtain ⟨k, hk⟩ := exists_two_zpow_eq_mul (show p.unit y ≤ binaryExponent y by omega)
      have hbelow : x ≤ 2 ^ binaryExponent y :=
        le_trans (binaryExponent_spec hpos).2.le (zpow_le_zpow_right₀ (by norm_num) (by omega))
      calc nearestMultiple (2 ^ p.unit x) x
          ≤ nearestMultiple (2 ^ p.unit x) (2 ^ binaryExponent y) :=
            nearestMultiple_mono (zpow_pos (by norm_num) _) hbelow
        _ = nearestMultiple (2 ^ p.unit y) (2 ^ binaryExponent y) := by
            rw [hn, nearestMultiple_mul (zpow_pos (by norm_num) _), ← hn, hk,
              nearestMultiple_mul (zpow_pos (by norm_num) _)]
        _ ≤ nearestMultiple (2 ^ p.unit y) y :=
            nearestMultiple_mono (zpow_pos (by norm_num) _) (binaryExponent_spec hypos).1

/-! ## The magnitudes of a precision -/

/-- The number is a magnitude of the precision, where exponents have no upper bound: a significand
that has room in the digits, times a power of two that is no less than the smallest unit. -/
def Holds (p : Precision) (x : Rat) : Prop :=
  ∃ (n : Nat) (e : Int), n < 2 ^ p.digits ∧ p.smallestUnit ≤ e ∧ x = n * 2 ^ e

theorem Holds.nonneg (h : p.Holds x) : 0 ≤ x := by
  obtain ⟨n, e, -, -, rfl⟩ := h
  positivity

/-- A carry does not lead out of the precision. -/
theorem holds_of_le {n : Nat} {e : Int} (hdigits : 1 ≤ p.digits) (hn : n ≤ 2 ^ p.digits)
    (he : p.smallestUnit ≤ e) : p.Holds (n * 2 ^ e) := by
  rcases eq_or_lt_of_le hn with rfl | hlt
  · refine ⟨1, p.digits + e, Nat.one_lt_two_pow (by omega), by omega, ?_⟩
    rw [two_zpow_add_natCast]
    push_cast
    rw [one_mul]
  · exact ⟨n, e, hlt, he, rfl⟩

theorem holds_two_zpow {e : Int} (hdigits : 1 ≤ p.digits) (he : p.smallestUnit ≤ e) :
    p.Holds (2 ^ e) :=
  ⟨1, e, Nat.one_lt_two_pow (by omega), he, by rw [Nat.cast_one, one_mul]⟩

theorem Holds.nearest_eq (h : p.Holds x) : p.nearest x = x := by
  obtain ⟨n, e, hn, he, rfl⟩ := h
  rcases Nat.eq_zero_or_pos n with rfl | hpos
  · push_cast
    rw [zero_mul]
    rfl
  · have hcast : (n : Rat) < 2 ^ p.digits := by exact_mod_cast hn
    have hpow : (0 : Rat) < 2 ^ e := zpow_pos (by norm_num) e
    have hexponent : binaryExponent (n * 2 ^ e) < p.digits + e := by
      refine binaryExponent_lt (by positivity) ?_
      rw [two_zpow_add_natCast]
      exact mul_lt_mul_of_pos_right hcast hpow
    have hunit : p.unit (n * 2 ^ e) = max (binaryExponent (n * 2 ^ e) - (p.digits - 1)) p.smallestUnit :=
      rfl
    exact nearest_of_multiple (n := n) (by push_cast; rfl) (by omega)

theorem holds_nearest (hdigits : 1 ≤ p.digits) (hx : 0 ≤ x) : p.Holds (p.nearest x) := by
  rcases eq_or_lt_of_le hx with rfl | hpos
  · exact ⟨0, p.smallestUnit, by positivity, le_rfl, by push_cast; rw [zero_mul]; rfl⟩
  · obtain ⟨n, hn, hnonneg, hle⟩ := nearest_eq_multiple p hpos
    lift n to Nat using hnonneg
    rw [hn, Int.cast_natCast]
    exact holds_of_le hdigits (by exact_mod_cast hle) (Int.le_max_right _ _)

/-- Rounding leaves a number on the side of a magnitude on which it is. -/
theorem Holds.le_nearest (h : p.Holds z) (hdigits : 1 ≤ p.digits) (hle : z ≤ x) :
    z ≤ p.nearest x := by
  rw [← h.nearest_eq]
  exact nearest_mono hdigits h.nonneg hle

theorem Holds.nearest_le (h : p.Holds z) (hdigits : 1 ≤ p.digits) (hx : 0 ≤ x) (hle : x ≤ z) :
    p.nearest x ≤ z := by
  rw [← h.nearest_eq]
  exact nearest_mono hdigits hx hle

/-- In the range of a unit and above it, magnitudes are multiples of the unit. -/
theorem Holds.eq_mul (h : p.Holds x) (hsmallest : p.smallestUnit ≤ u)
    (hlow : u = p.smallestUnit ∨ 2 ^ p.digits * 2 ^ u ≤ 2 * x) : ∃ n : Nat, x = n * 2 ^ u := by
  obtain ⟨n, e, hn, he, rfl⟩ := h
  have hle : u ≤ e := by
    rcases hlow with rfl | hlow
    · exact he
    · have hcast : (n : Rat) < 2 ^ p.digits := by exact_mod_cast hn
      have hpow : (0 : Rat) < 2 ^ e := zpow_pos (by norm_num) e
      have hlt : (2 : Rat) ^ p.digits * 2 ^ u < 2 ^ p.digits * 2 ^ (e + 1) := by
        rw [zpow_add_one₀ (by norm_num)]
        nlinarith
      have := (zpow_lt_zpow_iff_right₀ (by norm_num : (1 : Rat) < 2)).mp
        (lt_of_mul_lt_mul_left hlt (by positivity))
      omega
  refine ⟨n * 2 ^ (e - u).toNat, ?_⟩
  push_cast
  rw [mul_assoc, ← two_zpow_eq_mul hle]

/-- A magnitude is a multiple of its unit by no more than there is room for. -/
theorem Holds.eq_mul_unit (h : p.Holds x) (hx : 0 < x) :
    ∃ n : Nat, x = n * 2 ^ p.unit x ∧ 0 < n ∧ n < 2 ^ p.digits := by
  obtain ⟨hsmallest, hlow, -⟩ := inRange_unit (p := p) hx
  obtain ⟨n, hn⟩ := h.eq_mul hsmallest hlow
  have hpow : (0 : Rat) < 2 ^ p.unit x := zpow_pos (by norm_num) _
  have hbelow : x < 2 ^ ((p.digits : Int) + p.unit x) := by
    have hunit : p.unit x = max (binaryExponent x - (p.digits - 1)) p.smallestUnit := rfl
    exact lt_of_lt_of_le (binaryExponent_spec hx).2 (zpow_le_zpow_right₀ (by norm_num) (by omega))
  refine ⟨n, hn, ?_, ?_⟩
  · rw [hn] at hx
    exact_mod_cast pos_of_mul_pos_left hx hpow.le
  · have hlt : (n : Rat) * 2 ^ p.unit x < 2 ^ p.digits * 2 ^ p.unit x := by
      rw [← hn, ← two_zpow_add_natCast]
      exact hbelow
    exact_mod_cast lt_of_mul_lt_mul_right hlt hpow.le

/-! ## Numbers near a magnitude -/

section

variable (h : p.Holds z) (hdigits : 1 ≤ p.digits) (hz : 0 < z)
include h hdigits hz

/-- A number is rounded to a magnitude less than half a unit below it. -/
theorem Holds.nearest_above (hle : z ≤ x) (hx : x < z + 2 ^ p.unit z / 2) : p.nearest x = z := by
  obtain ⟨n, hn, -, hroom⟩ := h.eq_mul_unit hz
  have hrange := inRange_unit (p := p) hz
  have hpow : (0 : Rat) < 2 ^ p.unit z := zpow_pos (by norm_num) _
  have hnext : z + 2 ^ p.unit z ≤ 2 ^ p.digits * 2 ^ p.unit z := by
    have hcast : (n : Rat) + 1 ≤ 2 ^ p.digits := by exact_mod_cast hroom
    have hmul := mul_le_mul_of_nonneg_right hcast hpow.le
    rw [add_mul, one_mul, ← hn] at hmul
    exact hmul
  have hrange' : p.InRange (p.unit z) x :=
    ⟨hrange.smallest, hrange.low.imp_right fun hlow => by linarith, by linarith⟩
  rw [nearest_of_inRange hdigits (by linarith) hrange']
  have hnear : |x - ((n : Int) : Rat) * 2 ^ p.unit z| < 2 ^ p.unit z / 2 := by
    rw [Int.cast_natCast, ← hn, abs_of_nonneg (by linarith)]
    linarith
  rw [nearestMultiple_eq_of_lt hpow hnear, Int.cast_natCast, ← hn]

/-- A number is rounded to a magnitude less than half a unit above it, unless that is the power of two
at which the range of its unit begins. -/
theorem Holds.nearest_below
    (hlow : p.unit z = p.smallestUnit ∨ 2 ^ p.digits * 2 ^ p.unit z < 2 * z)
    (hx : z - 2 ^ p.unit z / 2 < x) (hle : x ≤ z) : p.nearest x = z := by
  obtain ⟨n, hn, hpos, -⟩ := h.eq_mul_unit hz
  have hrange := inRange_unit (p := p) hz
  have hpow : (0 : Rat) < 2 ^ p.unit z := zpow_pos (by norm_num) _
  have hunit : 2 ^ p.unit z ≤ z := by
    have hcast : (1 : Rat) ≤ n := by exact_mod_cast hpos
    have hmul := mul_le_mul_of_nonneg_right hcast hpow.le
    rw [one_mul, ← hn] at hmul
    exact hmul
  have hrange' : p.InRange (p.unit z) x := by
    refine ⟨hrange.smallest, hlow.imp_right fun hlow => ?_, le_trans hle hrange.high⟩
    -- twice the magnitude is a multiple of the unit beyond the beginning of the range
    have hcast : (2 : Rat) ^ p.digits + 1 ≤ 2 * n := by
      have hlt : (2 : Rat) ^ p.digits * 2 ^ p.unit z < 2 * n * 2 ^ p.unit z := by
        rw [mul_assoc, ← hn]
        exact hlow
      exact_mod_cast lt_of_mul_lt_mul_right hlt hpow.le
    have hmul := mul_le_mul_of_nonneg_right hcast hpow.le
    rw [add_mul, one_mul, mul_assoc, ← hn] at hmul
    linarith
  rw [nearest_of_inRange hdigits (by linarith) hrange']
  have hnear : |x - ((n : Int) : Rat) * 2 ^ p.unit z| < 2 ^ p.unit z / 2 := by
    rw [Int.cast_natCast, ← hn, abs_of_nonpos (by linarith)]
    linarith
  rw [nearestMultiple_eq_of_lt hpow hnear, Int.cast_natCast, ← hn]

/-- A number is rounded to any magnitude less than a quarter of a unit above it. -/
theorem Holds.nearest_below_quarter (hx : z - 2 ^ p.unit z / 4 < x) (hle : x ≤ z) :
    p.nearest x = z := by
  have hpow : (0 : Rat) < 2 ^ p.unit z := zpow_pos (by norm_num) _
  by_cases hlow : p.unit z = p.smallestUnit ∨ 2 ^ p.digits * 2 ^ p.unit z < 2 * z
  · exact h.nearest_below hdigits hz hlow (by linarith) hle
  · -- at the beginning of a range, magnitudes below are half as far apart
    rw [not_or, not_lt] at hlow
    obtain ⟨n, hn, -, -⟩ := h.eq_mul_unit hz
    have hrange := inRange_unit (p := p) hz
    have hbegin := hrange.low.resolve_left hlow.1
    have hhalf : (2 : Rat) ^ p.unit z = 2 ^ (p.unit z - 1) * 2 := by
      rw [← zpow_add_one₀ (by norm_num), sub_add_cancel]
    have hdigits' : (2 : Rat) ≤ 2 ^ p.digits := by
      exact_mod_cast Nat.pow_le_pow_right (by decide : 0 < 2) hdigits
    rw [hhalf] at hx hlow hbegin hpow
    have hpow' : (0 : Rat) < 2 ^ (p.unit z - 1) := by linarith
    have hwide := mul_le_mul_of_nonneg_right hdigits' hpow'.le
    have hrange' : p.InRange (p.unit z - 1) x := by
      refine ⟨?_, Or.inr (by linarith), by linarith [hlow.2]⟩
      have := hrange.smallest
      have := hlow.1
      omega
    rw [nearest_of_inRange hdigits (by linarith) hrange']
    have hn' : z = ((2 * n : Int) : Rat) * 2 ^ (p.unit z - 1) := by
      rw [hhalf] at hn
      push_cast
      linarith
    have hnear : |x - ((2 * n : Int) : Rat) * 2 ^ (p.unit z - 1)| < 2 ^ (p.unit z - 1) / 2 := by
      rw [← hn', abs_of_nonpos (by linarith)]
      linarith
    rw [nearestMultiple_eq_of_lt hpow' hnear, ← hn']

end

end Precision

end CalcScript
