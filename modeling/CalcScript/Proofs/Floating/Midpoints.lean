import CalcScript.Proofs.Floating.TwoRoundings
import Mathlib.Tactic.WLOG

/-!
# Results of operations and midpoints

Rounding twice differs from rounding once only next to a midpoint of two magnitudes of single precision.
The sums, products and quotients of such magnitudes are never so near to a midpoint, if they are none:

> `viaDouble_add`, `viaDouble_sub`, `viaDouble_mul`, `viaDouble_div`: on them, rounding twice is
> rounding once.

Products need no more digits than there are in double precision. Sums that need more are next to the
larger operand. A quotient is a fraction with a small denominator, which keeps it away from midpoints
(`viaDouble_of_fraction`).
-/

namespace CalcScript.Precision

variable {x y z : Rat}

/-! ## Midpoints -/

/-- Between two midpoints, and between a midpoint and a magnitude beside it, all numbers are rounded
alike. -/
theorem nearest_eq_of_cell {p : Precision} {u : Int} {n : Nat} (hdigits : 1 ≤ p.digits)
    (hrange : p.InRange u x) (hx : n * (2 ^ u / 2) < x) (hx' : x < (n + 1) * (2 ^ u / 2))
    (hy : n * (2 ^ u / 2) < y) (hy' : y < (n + 1) * (2 ^ u / 2)) : p.nearest y = p.nearest x := by
  have hpow : (0 : Rat) < 2 ^ u := zpow_pos (by norm_num) u
  have hnonneg : (0 : Rat) ≤ n * (2 ^ u / 2) := by positivity
  have hrange' : p.InRange u y := by
    refine ⟨hrange.smallest, hrange.low.imp_right fun hlow => ?_, ?_⟩
    · have hle : 2 ^ p.digits ≤ n := by
        have hlt : (2 : Rat) ^ p.digits * 2 ^ u < (n + 1) * 2 ^ u := by linarith
        have := lt_of_mul_lt_mul_right hlt hpow.le
        have : 2 ^ p.digits < n + 1 := by exact_mod_cast this
        omega
      have hcast : (2 : Rat) ^ p.digits ≤ n := by exact_mod_cast hle
      linarith [mul_le_mul_of_nonneg_right hcast hpow.le]
    · have hle : n + 1 ≤ 2 ^ p.digits * 2 := by
        have hlt : (n : Rat) * 2 ^ u < 2 ^ p.digits * 2 * 2 ^ u := by linarith [hrange.high]
        have := lt_of_mul_lt_mul_right hlt hpow.le
        exact_mod_cast this
      have hcast : (n : Rat) + 1 ≤ 2 ^ p.digits * 2 := by exact_mod_cast hle
      linarith [mul_le_mul_of_nonneg_right hcast hpow.le]
  -- the nearest multiple is the one at the even end of the cell
  have hmultiple : ∀ w : Rat, n * (2 ^ u / 2) < w → w < (n + 1) * (2 ^ u / 2) →
      nearestMultiple (2 ^ u) w = (((n + 1) / 2 : Nat) : Int) * 2 ^ u := by
    intro w hw hw'
    refine nearestMultiple_eq_of_lt hpow ?_
    rcases Nat.even_or_odd' n with ⟨k, rfl | rfl⟩
    · have hhalf : (2 * k + 1) / 2 = k := by omega
      rw [hhalf, abs_lt]
      push_cast at hw hw' ⊢
      constructor <;> linarith
    · have hhalf : (2 * k + 1 + 1) / 2 = k + 1 := by omega
      rw [hhalf, abs_lt]
      push_cast at hw hw' ⊢
      constructor <;> linarith
  rw [nearest_of_inRange hdigits (by linarith) hrange, nearest_of_inRange hdigits (by linarith) hrange',
    hmultiple x hx hx', hmultiple y hy hy']

/-- A number between two such points that is away from both by a part of `2 ^ 28` at least is rounded
once: there are numbers of double precision on both sides. -/
theorem viaDouble_of_cell {n : Nat} (hx : 0 < x)
    (hbelow : (n * 2 ^ 28 + 1 : Nat) * 2 ^ (single.unit x - 29) ≤ x)
    (habove : x ≤ (n * 2 ^ 28 + (2 ^ 28 - 1) : Nat) * 2 ^ (single.unit x - 29)) :
    viaDouble x = single.nearest x := by
  have hrange := inRange_unit (p := single) hx
  have hsmallest : -149 ≤ single.unit x := hrange.smallest
  have hhigh : x ≤ 2 ^ 24 * 2 ^ single.unit x := hrange.high
  have hpow : (0 : Rat) < 2 ^ (single.unit x - 29) := zpow_pos (by norm_num) _
  have hunit : (2 : Rat) ^ single.unit x = 2 ^ 29 * 2 ^ (single.unit x - 29) := by
    rw [two_zpow_eq_mul (show single.unit x - 29 ≤ single.unit x by omega), sub_sub_cancel]
    rfl
  have hroom : n < 2 ^ 25 := by
    have hle : ((n * 2 ^ 28 + 1 : Nat) : Rat) * 2 ^ (single.unit x - 29)
        ≤ ((2 ^ 53 : Nat) : Rat) * 2 ^ (single.unit x - 29) := by
      push_cast at hbelow ⊢
      linarith
    have hcast : n * 2 ^ 28 + 1 ≤ 2 ^ 53 := by exact_mod_cast le_of_mul_le_mul_right hle hpow
    omega
  have hholds := double_holds (n * 2 ^ 28 + 1) (single.unit x - 29) (by omega) (by omega)
  have hholds' := double_holds (n * 2 ^ 28 + (2 ^ 28 - 1)) (single.unit x - 29) (by omega) (by omega)
  have hdouble := hholds.le_nearest one_le_double hbelow
  have hdouble' := hholds'.nearest_le one_le_double hx.le habove
  push_cast at hbelow habove hdouble hdouble'
  refine nearest_eq_of_cell (n := n) one_le_single hrange ?_ ?_ ?_ ?_ <;> rw [hunit] <;> linarith

/-- A fraction of half a unit whose denominator has no more than 28 digits is rounded once: it is a
midpoint or a magnitude, or it is away from these by a part that the denominator is of one. -/
theorem viaDouble_of_fraction {n d : Nat} (hx : 0 < x) (hd : 0 < d) (hd' : d ≤ 2 ^ 28)
    (h : x * d = n * 2 ^ (single.unit x - 1)) : viaDouble x = single.nearest x := by
  have hrange := inRange_unit (p := single) hx
  have hsmallest : -149 ≤ single.unit x := hrange.smallest
  have hhigh : x ≤ 2 ^ 24 * 2 ^ single.unit x := hrange.high
  have hdpos : (0 : Rat) < d := by exact_mod_cast hd
  have hpow : (0 : Rat) < 2 ^ (single.unit x - 29) := zpow_pos (by norm_num) _
  have hunit : (2 : Rat) ^ (single.unit x - 1) = 2 ^ 28 * 2 ^ (single.unit x - 29) := by
    rw [two_zpow_eq_mul (show single.unit x - 29 ≤ single.unit x - 1 by omega), sub_sub_sub_cancel_left]
    rfl
  rw [hunit] at h
  -- the fraction lies in the cell of its quotient
  have hdiv : (n : Rat) = d * (n / d : Nat) + (n % d : Nat) := by exact_mod_cast (Nat.div_add_mod n d).symm
  rcases Nat.eq_zero_or_pos (n % d) with hzero | hrest
  · have hself : x = (n / d * 2 ^ 28 : Nat) * (2 : Rat) ^ (single.unit x - 29) := by
      refine mul_right_cancel₀ hdpos.ne' ?_
      rw [h, hdiv, hzero]
      push_cast
      ring
    have hroom : n / d * 2 ^ 28 ≤ 2 ^ 53 := by
      have hle : ((n / d * 2 ^ 28 : Nat) : Rat) * 2 ^ (single.unit x - 29)
          ≤ ((2 ^ 53 : Nat) : Rat) * 2 ^ (single.unit x - 29) := by
        rw [← hself]
        rw [← mul_div_cancel_left₀ ((2 : Rat) ^ single.unit x) (two_ne_zero), mul_div_assoc, two_zpow_half,
          hunit] at hhigh
        push_cast
        linarith
      exact_mod_cast le_of_mul_le_mul_right hle hpow
    refine viaDouble_of_double ?_
    rw [hself]
    exact double_holds _ _ hroom (by omega)
  · have hlt : n % d < d := Nat.mod_lt n hd
    have hone : (1 : Rat) ≤ (n % d : Nat) := by exact_mod_cast hrest
    have hone' : ((n % d : Nat) : Rat) + 1 ≤ d := by exact_mod_cast hlt
    have hdcast : (d : Rat) ≤ 2 ^ 28 := by exact_mod_cast hd'
    refine viaDouble_of_cell (n := n / d) hx ?_ ?_
    · refine le_of_mul_le_mul_right ?_ hdpos
      have hstep : (d : Rat) ≤ (n % d : Nat) * 2 ^ 28 := by linarith
      rw [h, hdiv]
      push_cast
      linarith [mul_le_mul_of_nonneg_right hstep hpow.le]
    · refine le_of_mul_le_mul_right ?_ hdpos
      have hstep : (d : Rat) ≤ (d - (n % d : Nat)) * 2 ^ 28 := by linarith
      rw [h, hdiv]
      push_cast
      linarith [mul_le_mul_of_nonneg_right hstep hpow.le]

/-- The same of a fraction that is a multiple of any power of two. -/
theorem viaDouble_of_ratio {a b : Nat} {e : Int} (hx : 0 < x) (hb : 0 < b)
    (hroom : b * 2 ^ (single.unit x - 1 - e).toNat ≤ 2 ^ 28) (h : x * b = a * 2 ^ e) :
    viaDouble x = single.nearest x := by
  rcases le_total (single.unit x - 1) e with hle | hle
  · refine viaDouble_of_fraction (n := a * 2 ^ (e - (single.unit x - 1)).toNat) hx hb
      (le_trans (Nat.le_mul_of_pos_right b (by positivity)) hroom) ?_
    push_cast
    rw [h, mul_assoc, ← two_zpow_eq_mul hle]
  · refine viaDouble_of_fraction (n := a) hx (by positivity) hroom ?_
    push_cast
    rw [← mul_assoc, h, two_zpow_eq_mul hle]
    ring

/-! ## Operations -/

/-- The double has room for all digits of a product. -/
theorem viaDouble_mul (hx : single.Holds x) (hy : single.Holds y) :
    viaDouble (x * y) = single.nearest (x * y) := by
  obtain ⟨a, i, ha, hi, rfl⟩ := hx
  obtain ⟨b, j, hb, hj, rfl⟩ := hy
  have ha' : a ≤ 2 ^ 24 := Nat.le_of_lt ha
  have hb' : b ≤ 2 ^ 24 := Nat.le_of_lt hb
  have hi' : -149 ≤ i := hi
  have hj' : -149 ≤ j := hj
  have hproduct : a * b ≤ 2 ^ 53 := le_trans (Nat.mul_le_mul ha' hb') (by decide)
  have heq : (a : Rat) * 2 ^ i * (b * 2 ^ j) = (a * b : Nat) * 2 ^ (i + j) := by
    rw [zpow_add₀ (by norm_num)]
    push_cast
    ring
  rw [heq]
  exact viaDouble_of_double (double_holds _ _ hproduct (by omega))

theorem nearest_eq_zero {p : Precision} (hdigits : 1 ≤ p.digits) (hx : 0 ≤ x)
    (h : x < 2 ^ p.smallestUnit / 2) : p.nearest x = 0 := by
  rcases eq_or_lt_of_le hx with rfl | hpos
  · rfl
  · have hpow : (0 : Rat) < 2 ^ p.smallestUnit := zpow_pos (by norm_num) _
    have hroom : (1 : Rat) ≤ 2 ^ p.digits := one_le_pow₀ (by norm_num)
    have hrange : p.InRange p.smallestUnit x :=
      ⟨le_rfl, Or.inl rfl, by linarith [mul_le_mul_of_nonneg_right hroom hpow.le]⟩
    have hnear : |x - ((0 : Int) : Rat) * 2 ^ p.smallestUnit| < 2 ^ p.smallestUnit / 2 := by
      rw [Int.cast_zero, zero_mul, sub_zero, abs_of_pos hpos]
      exact h
    rw [nearest_of_inRange hdigits hpos hrange, nearestMultiple_eq_of_lt hpow hnear, Int.cast_zero,
      zero_mul]

/-- What is far below the smallest unit is zero in single precision, whatever it is in double
precision. -/
theorem viaDouble_of_tiny (hx : 0 ≤ x) (h : x ≤ 2 ^ (-154 : Int)) : viaDouble x = single.nearest x := by
  have hzero : ∀ y : Rat, 0 ≤ y → y ≤ 2 ^ (-154 : Int) → single.nearest y = 0 := by
    intro y hy hle
    refine nearest_eq_zero one_le_single hy (lt_of_le_of_lt hle ?_)
    rw [two_zpow_half]
    exact zpow_lt_zpow_right₀ (by norm_num) (by decide)
  have hdouble := (holds_two_zpow one_le_double (by decide)).nearest_le one_le_double hx h
  rw [viaDouble, hzero x hx h, hzero _ (nearest_nonneg _ hx) hdouble]

/-- A quotient is a fraction whose denominator is a significand. Only quotients far below the smallest
unit may need a larger one. -/
theorem viaDouble_div (hx : single.Holds x) (hy : single.Holds y) (hpos : 0 < y) :
    viaDouble (x / y) = single.nearest (x / y) := by
  rcases eq_or_lt_of_le hx.nonneg with rfl | hxpos
  · rw [zero_div]
    rfl
  · have hquotient : 0 < x / y := div_pos hxpos hpos
    have hrange := inRange_unit (p := single) hquotient
    obtain ⟨a, i, ha, -, rfl⟩ := hx
    obtain ⟨b, j, hb, -, rfl⟩ := hy
    have hb' : b < 2 ^ 24 := hb
    generalize hq : (a : Rat) * 2 ^ i / (b * 2 ^ j) = q at hquotient hrange ⊢
    have hbpos : 0 < b := by
      refine Nat.pos_of_ne_zero ?_
      rintro rfl
      rw [Nat.cast_zero, zero_mul] at hpos
      exact lt_irrefl 0 hpos
    have hmul : q * b = a * 2 ^ (i - j) := by
      have hb0 : (b : Rat) ≠ 0 := by exact_mod_cast hbpos.ne'
      rw [← hq, zpow_sub₀ (by norm_num)]
      field_simp
    by_cases hroom : b * 2 ^ (single.unit q - 1 - (i - j)).toNat ≤ 2 ^ 28
    · exact viaDouble_of_ratio hquotient hbpos hroom hmul
    · have hle : i - j ≤ single.unit q - 1 := by
        by_contra hlt
        rw [Int.toNat_of_nonpos (by omega), Nat.pow_zero] at hroom
        omega
      -- the quotient is less than a sixteenth of half a unit
      have htiny : q < 2 ^ single.unit q / 32 := by
        have hwide : (2 : Rat) ^ 28 < (b * 2 ^ (single.unit q - 1 - (i - j)).toNat : Nat) := by
          exact_mod_cast not_le.mp hroom
        have hcast : (a : Rat) < 2 ^ 24 := by exact_mod_cast (show a < 2 ^ 24 from ha)
        have hpow : (0 : Rat) < 2 ^ (single.unit q - 1) := zpow_pos (by norm_num) _
        have hmul' : q * (b * 2 ^ (single.unit q - 1 - (i - j)).toNat : Nat)
            = a * 2 ^ (single.unit q - 1) := by
          push_cast
          rw [← mul_assoc, hmul, two_zpow_eq_mul hle]
          ring
        have hless := mul_lt_mul_of_pos_left hwide hquotient
        have hhalf := two_zpow_half (single.unit q)
        rw [hmul'] at hless
        linarith [mul_lt_mul_of_pos_right hcast hpow]
      have hpow : (0 : Rat) < 2 ^ single.unit q := zpow_pos (by norm_num) _
      have hsmallest : single.unit q = -149 := hrange.low.resolve_right fun hlow => by
        have hlow' : (2 : Rat) ^ 24 * 2 ^ single.unit q ≤ 2 * q := hlow
        linarith
      refine viaDouble_of_tiny hquotient.le ?_
      rw [hsmallest] at htiny
      norm_num at htiny ⊢
      linarith

/-- Beside a number, at a distance of a small part of its unit, the unit is half as large at least. -/
theorem half_unit_le (hlow : 2 ^ 24 * 2 ^ single.unit x ≤ 2 * x)
    (h : |x - z| ≤ 2 ^ single.unit x / 64) : 0 < z ∧ 2 ^ single.unit x / 2 ≤ (2 : Rat) ^ single.unit z := by
  have hpow : (0 : Rat) < 2 ^ single.unit x := zpow_pos (by norm_num) _
  obtain ⟨hbelow, habove⟩ := abs_le.mp h
  have hzpos : 0 < z := by linarith
  refine ⟨hzpos, ?_⟩
  have hlt : (2 : Rat) ^ (((22 : Nat) : Int) + single.unit x) < 2 ^ (binaryExponent z + 1) := by
    refine lt_trans ?_ (binaryExponent_spec hzpos).2
    rw [two_zpow_add_natCast]
    linarith
  have hexponent := (zpow_lt_zpow_iff_right₀ (by norm_num : (1 : Rat) < 2)).mp hlt
  have hunit : single.unit z = max (binaryExponent z - 23) (-149) := rfl
  rw [two_zpow_half]
  exact zpow_le_zpow_right₀ (by norm_num) (by push_cast at hexponent; omega)

/-- A number beside a magnitude of single precision, at a distance whose digits are those of single
precision as well, is rounded once. -/
theorem viaDouble_of_beside {n : Nat} {e : Int} (hz : single.Holds z) (hx : 0 < x) (he : -149 ≤ e)
    (hn : x = n * 2 ^ e) (h : |x - z| ≤ 2 ^ 24 * 2 ^ e) : viaDouble x = single.nearest x := by
  have hrange := inRange_unit (p := single) hx
  by_cases hfew : single.unit x - 1 ≤ e + 28
  · refine viaDouble_of_ratio (a := n) (b := 1) hx (by decide) ?_ (by rw [Nat.cast_one, mul_one]; exact hn)
    rw [one_mul]
    exact Nat.pow_le_pow_right (by decide) (by omega)
  · -- the distance is far less than a unit
    have hlow : (2 : Rat) ^ 24 * 2 ^ single.unit x ≤ 2 * x :=
      hrange.low.resolve_left fun hsmallest => by
        have : single.unit x = -149 := hsmallest
        omega
    have hfar : (2 : Rat) ^ 30 * 2 ^ e ≤ 2 ^ single.unit x := by
      rw [← two_zpow_add_natCast]
      exact zpow_le_zpow_right₀ (by norm_num) (by push_cast; omega)
    obtain ⟨hzpos, hunit⟩ := half_unit_le hlow (z := z) (by linarith)
    have hpow : (0 : Rat) < 2 ^ single.unit x := zpow_pos (by norm_num) _
    obtain ⟨hdouble, hsingle⟩ := viaDouble_of_near hz hzpos (x := x) (by linarith)
    rw [hdouble, hsingle]

theorem exists_eq_mul_of_le {n : Nat} {i j : Int} (h : i ≤ j) :
    ∃ k : Nat, (n : Rat) * 2 ^ j = k * 2 ^ i := by
  refine ⟨n * 2 ^ (j - i).toNat, ?_⟩
  push_cast
  rw [mul_assoc, ← two_zpow_eq_mul h]

/-- The operand with the larger exponent is beside the sum. -/
theorem viaDouble_add (hx : single.Holds x) (hy : single.Holds y) :
    viaDouble (x + y) = single.nearest (x + y) := by
  obtain ⟨a, i, ha, hi, hxa⟩ := hx
  obtain ⟨b, j, hb, hj, hyb⟩ := hy
  wlog hle : i ≤ j generalizing x y a b i j
  · rw [add_comm]
    exact this b j hb hj hyb a i ha hi hxa (le_of_not_ge hle)
  · obtain ⟨k, hk⟩ := exists_eq_mul_of_le (n := b) hle
    have hpow : (0 : Rat) < 2 ^ i := zpow_pos (by norm_num) i
    have hcast : (a : Rat) ≤ 2 ^ 24 := by exact_mod_cast Nat.le_of_lt ha
    have hsum : x + y = (a + k : Nat) * 2 ^ i := by
      rw [hxa, hyb, hk]
      push_cast
      ring
    rcases Nat.eq_zero_or_pos (a + k) with hzero | hpos
    · rw [hsum, hzero, Nat.cast_zero, zero_mul]
      rfl
    · have hsumpos : 0 < x + y := by
        rw [hsum]
        positivity
      refine viaDouble_of_beside ⟨b, j, hb, hj, hyb⟩ hsumpos hi hsum ?_
      rw [add_sub_cancel_right, hxa, abs_of_nonneg (by positivity)]
      exact mul_le_mul_of_nonneg_right hcast hpow.le

/-- The minuend is beside the difference, or the difference has no more digits than it has. -/
theorem viaDouble_sub (hx : single.Holds x) (hy : single.Holds y) (h : y < x) :
    viaDouble (x - y) = single.nearest (x - y) := by
  obtain ⟨a, i, ha, hi, hxa⟩ := hx
  obtain ⟨b, j, hb, hj, hyb⟩ := hy
  rcases le_total i j with hle | hle
  · obtain ⟨k, hk⟩ := exists_eq_mul_of_le (n := b) hle
    have hpow : (0 : Rat) < 2 ^ i := zpow_pos (by norm_num) i
    have hka : k ≤ a := by
      rw [hxa, hyb, hk] at h
      exact_mod_cast (lt_of_mul_lt_mul_right h hpow.le).le
    have hholds : single.Holds (x - y) := by
      refine ⟨a - k, i, lt_of_le_of_lt (Nat.sub_le a k) ha, hi, ?_⟩
      rw [Nat.cast_sub hka, hxa, hyb, hk]
      ring
    rw [viaDouble_of_single hholds, hholds.nearest_eq]
  · obtain ⟨k, hk⟩ := exists_eq_mul_of_le (n := a) hle
    have hpow : (0 : Rat) < 2 ^ j := zpow_pos (by norm_num) j
    have hcast : (b : Rat) ≤ 2 ^ 24 := by exact_mod_cast Nat.le_of_lt hb
    have hbk : b ≤ k := by
      rw [hxa, hyb, hk] at h
      exact_mod_cast (lt_of_mul_lt_mul_right h hpow.le).le
    have hdiff : x - y = (k - b : Nat) * 2 ^ j := by
      rw [Nat.cast_sub hbk, hxa, hyb, hk]
      ring
    refine viaDouble_of_beside ⟨a, i, ha, hi, hxa⟩ (sub_pos.mpr h) hj hdiff ?_
    rw [sub_sub_cancel_left, abs_neg, hyb, abs_of_nonneg (by positivity)]
    exact mul_le_mul_of_nonneg_right hcast hpow.le

end CalcScript.Precision
