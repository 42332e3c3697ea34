import CalcScript.Proofs.Decimal.NineDigits
import CalcScript.Proofs.Floating.SinglePrecision

/-!
# Shortest numerals

The search for the digits of a printed numeral tries one decimal for each number of digits, the nearest
one. Where the nearest one does not read back, another with as many digits may, and this has to be
excluded if the numeral is to be a shortest one.

> `singleCount_least`: the chosen number of digits is the least with which any decimal reads back, for
> all magnitudes but three powers of two.

Two neighbouring decimals, of which the nearer one does not read back and the other one does, are almost
exactly a unit apart where the numbers that read back reach as far on both sides. Powers of ten are not
that near to powers of two (`five_zpow_apart`). At the power of two where a range of units begins, the
numbers below reach half as far as those above, so the nearer decimal may be too far below and the other
one not too far above (`FallsShort`). There are three magnitudes that decimals are placed about like this
(`eq_of_fallsShort`).
-/

namespace CalcScript

open Precision

/-! ## Powers of two and powers of ten -/

/-- The binary digits of a power of five: it is not close to a power of two. -/
theorem five_pow_log2 : ∀ a < 45, 256 * 2 ^ Nat.log2 (5 ^ (a + 1)) ≤ 255 * 5 ^ (a + 1) ∧
    256 * 5 ^ (a + 1) ≤ 255 * 2 ^ (Nat.log2 (5 ^ (a + 1)) + 1) := by
  decide +kernel

/-- No power of two is within a part of 256 of a power of five. -/
theorem five_pow_apart {a : Nat} (hpos : 0 < a) (ha : a < 46) (e : Int) :
    (256 : Rat) * 2 ^ e ≤ 255 * 5 ^ a ∨ (256 : Rat) * 5 ^ a ≤ 255 * 2 ^ e := by
  obtain ⟨a, rfl⟩ : ∃ b, a = b + 1 := ⟨a - 1, by omega⟩
  obtain ⟨hlow, hhigh⟩ := five_pow_log2 a (by omega)
  generalize Nat.log2 (5 ^ (a + 1)) = k at hlow hhigh
  rcases le_or_gt e k with hle | hlt
  · left
    have hpow : (2 : Rat) ^ e ≤ 2 ^ k := by
      rw [← zpow_natCast]
      exact zpow_le_zpow_right₀ (by norm_num) hle
    have hcast : (256 : Rat) * 2 ^ k ≤ 255 * 5 ^ (a + 1) := by exact_mod_cast hlow
    linarith
  · right
    have hpow : (2 : Rat) ^ (k + 1) ≤ 2 ^ e := by
      rw [← zpow_natCast]
      exact zpow_le_zpow_right₀ (by norm_num) (by push_cast; omega)
    have hcast : (256 : Rat) * 5 ^ (a + 1) ≤ 255 * 2 ^ (k + 1) := by exact_mod_cast hhigh
    linarith

theorem five_zpow_apart {j : Int} (hj : -46 < j) (hj' : j < 46) (hne : j ≠ 0) (e : Int) :
    (256 : Rat) * 2 ^ e ≤ 255 * 5 ^ j ∨ (256 : Rat) * 5 ^ j ≤ 255 * 2 ^ e := by
  obtain ⟨a, rfl | rfl⟩ := j.eq_nat_or_neg
  · rw [zpow_natCast]
    exact five_pow_apart (by omega) (by omega) e
  · -- of the inverses, the larger one is the smaller one
    have htwo : (0 : Rat) < 2 ^ e := zpow_pos (by norm_num) e
    have hfive : (0 : Rat) < 5 ^ a := by positivity
    rw [zpow_neg, zpow_natCast, ← div_eq_mul_inv, ← div_eq_mul_inv, div_le_iff₀ hfive, le_div_iff₀ hfive]
    have h := five_pow_apart (a := a) (by omega) (by omega) (-e)
    rw [zpow_neg, ← div_eq_mul_inv, ← div_eq_mul_inv, div_le_iff₀ htwo, le_div_iff₀ htwo] at h
    rcases h with h | h
    · right
      linarith
    · left
      linarith

/-- Of all powers of ten in the range of single precision, one is almost a power of two. -/
theorem eq_zero_of_near {j u : Int} (hj : -46 < j) (hj' : j < 32)
    (hlow : (1020 : Rat) * 2 ^ u < 1024 * 10 ^ j) (hhigh : (1024 : Rat) * 10 ^ j < 1026 * 2 ^ u) :
    j = 0 ∧ u = 0 := by
  have hj0 : j = 0 := by
    by_contra hne
    have hpow : (0 : Rat) < 2 ^ j := zpow_pos (by norm_num) j
    have hten : (10 : Rat) ^ j = 5 ^ j * 2 ^ j := by
      rw [← mul_zpow]
      norm_num
    have htwo : (2 : Rat) ^ u = 2 ^ (u - j) * 2 ^ j := by
      rw [← zpow_add₀ (by norm_num), sub_add_cancel]
    rw [hten, htwo, ← mul_assoc, ← mul_assoc] at hlow hhigh
    have hlow' := lt_of_mul_lt_mul_right hlow hpow.le
    have hhigh' := lt_of_mul_lt_mul_right hhigh hpow.le
    rcases five_zpow_apart hj (by omega) hne (u - j) with h | h <;> linarith
  refine ⟨hj0, ?_⟩
  rw [hj0, zpow_zero] at hlow hhigh
  by_contra hne
  rcases lt_or_gt_of_ne hne with hlt | hlt
  · have := zpow_le_zpow_right₀ (by norm_num : (1 : Rat) ≤ 2) (by omega : u ≤ -1)
    norm_num at this
    linarith
  · have := zpow_le_zpow_right₀ (by norm_num : (1 : Rat) ≤ 2) (by omega : 1 ≤ u)
    norm_num at this
    linarith

/-! ## Powers of two that decimals are placed badly about -/

/-- Of the two integers about the fraction `a / b`, the one below is the nearer one and too far below,
and the one above is not too far above: what is too far is a quarter of a unit in the first case and half
of a unit in the second, and the fraction has `2 ^ 23` units. -/
def FallsShort (a b : Nat) : Prop :=
  255 * a < 2 ^ 33 * (a % b) ∧ 2 * (a % b) ≤ b ∧ 2 ^ 33 * (b - a % b) < 513 * a

instance (a b : Nat) : Decidable (FallsShort a b) := inferInstanceAs (Decidable (_ ∧ _))

/-- Where the powers of two begin that may fall short of multiples of a power of ten. They are larger by
the number of units, `2 ^ 23`, or a little more than that. Here and below, both powers are multiplied by
`2 ^ 150 * 10 ^ 46`, which makes natural numbers of all that are in the range of single precision. -/
def windowStart (j : Nat) : Nat := Nat.log2 (2 ^ 32 * (10 ^ j * 2 ^ 150) / (513 * 10 ^ 46))

theorem windowStart_spec : ∀ j < 78,
    513 * (2 ^ windowStart j * 10 ^ 46) ≤ 2 ^ 32 * (10 ^ j * 2 ^ 150) ∧
    2 ^ 32 * (10 ^ j * 2 ^ 150) ≤ 255 * (2 ^ (windowStart j + 3) * 10 ^ 46) := by
  decide +kernel

theorem fallsShort_window : ∀ j < 78, ∀ i < 3,
    FallsShort (2 ^ (windowStart j + i) * 10 ^ 46) (10 ^ j * 2 ^ 150) →
      windowStart j + i < 25 ∨ windowStart j + i = 54 ∨ windowStart j + i = 237 ∨
        windowStart j + i = 240 := by
  decide +kernel

/-- **There are three powers of two** in the range of single precision that decimals are placed about
badly. -/
theorem eq_of_fallsShort {i j : Nat} (hi : 25 ≤ i) (hj : j < 78)
    (h : FallsShort (2 ^ i * 10 ^ 46) (10 ^ j * 2 ^ 150)) : i = 54 ∨ i = 237 ∨ i = 240 := by
  obtain ⟨hlow, hhigh⟩ := windowStart_spec j hj
  have hmono : ∀ {k l : Nat}, k ≤ l → 2 ^ k * 10 ^ 46 ≤ 2 ^ l * 10 ^ 46 := fun hkl =>
    Nat.mul_le_mul_right _ (Nat.pow_le_pow_right (by decide) hkl)
  by_cases hstart : i < windowStart j
  · obtain ⟨-, hhalf, habove⟩ := h
    have := hmono hstart.le
    omega
  · by_cases hend : windowStart j + 3 ≤ i
    · obtain ⟨hbelow, hhalf, -⟩ := h
      have := hmono hend
      omega
    · have hwindow := fallsShort_window j hj (i - windowStart j) (by omega)
      rw [show windowStart j + (i - windowStart j) = i by omega] at hwindow
      rcases hwindow h with hsmall | hsome
      · omega
      · exact hsome

/-- The condition does not depend on the unit in which two numbers are measured. -/
theorem fallsShort_of_mul {p q n : Nat} {m w c : Rat} (hc : 0 < c) (hp : (p : Rat) = m * c)
    (hq : (q : Rat) = w * c) (hm : 0 < m) (hle : n * w ≤ m) (hbelow : 255 * m < 2 ^ 33 * (m - n * w))
    (hhalf : 2 * (m - n * w) ≤ w) (habove : 2 ^ 33 * (w - (m - n * w)) < 513 * m) : FallsShort p q := by
  have hle' : n * q ≤ p := by
    have hmul := mul_le_mul_of_nonneg_right hle hc.le
    rw [mul_assoc, ← hq, ← hp] at hmul
    exact_mod_cast hmul
  have hlt : p < (n + 1) * q := by
    have hmul := mul_lt_mul_of_pos_right (by linarith : m < (n + 1) * w) hc
    rw [mul_assoc, ← hq, ← hp] at hmul
    exact_mod_cast hmul
  have hmod : p % q = p - n * q := by
    rw [← Nat.div_eq_of_lt_le hle' hlt, Nat.mul_comm, Nat.mod_eq_sub_mul_div]
  have hrest : ((p - n * q : Nat) : Rat) = (m - n * w) * c := by
    rw [Nat.cast_sub hle']
    push_cast
    rw [hp, hq]
    ring
  have hrest' : ((q - (p - n * q) : Nat) : Rat) = (w - (m - n * w)) * c := by
    rw [Nat.cast_sub (by rw [Nat.succ_mul] at hlt; omega), hrest, hq]
    ring
  rw [FallsShort, hmod]
  refine ⟨?_, ?_, ?_⟩
  · have hmul := mul_lt_mul_of_pos_right hbelow hc
    rw [mul_assoc, mul_assoc, ← hp, ← hrest] at hmul
    exact_mod_cast hmul
  · have hmul := mul_le_mul_of_nonneg_right hhalf hc.le
    rw [mul_assoc, ← hq, ← hrest] at hmul
    exact_mod_cast hmul
  · have hmul := mul_lt_mul_of_pos_right habove hc
    rw [mul_assoc, mul_assoc, ← hp, ← hrest'] at hmul
    exact_mod_cast hmul

/-- The same of powers whose exponents may be negative. -/
theorem eq_of_between {m w : Rat} {b j : Int} {n : Nat} (hb : -125 ≤ b) (hj : -46 ≤ j) (hj' : j < 32)
    (hm : m = 2 ^ b) (hw : w = 10 ^ j) (hle : n * w ≤ m) (hbelow : 255 * m < 2 ^ 33 * (m - n * w))
    (hhalf : 2 * (m - n * w) ≤ w) (habove : 2 ^ 33 * (w - (m - n * w)) < 513 * m) :
    b = -96 ∨ b = 87 ∨ b = 90 := by
  obtain ⟨i, hi⟩ : ∃ i : Nat, (i : Int) = b + 150 := ⟨(b + 150).toNat, by omega⟩
  obtain ⟨k, hk⟩ : ∃ k : Nat, (k : Int) = j + 46 := ⟨(j + 46).toNat, by omega⟩
  have hscale : (0 : Rat) < 2 ^ 150 * 10 ^ 46 := by norm_num
  have hp : ((2 ^ i * 10 ^ 46 : Nat) : Rat) = m * (2 ^ 150 * 10 ^ 46) := by
    have hpow : (2 : Rat) ^ i = 2 ^ b * 2 ^ 150 := by
      rw [← zpow_natCast, hi, zpow_add₀ (by norm_num)]
      norm_num
    push_cast
    rw [hm, hpow]
    ring
  have hq : ((10 ^ k * 2 ^ 150 : Nat) : Rat) = w * (2 ^ 150 * 10 ^ 46) := by
    have hpow : (10 : Rat) ^ k = 10 ^ j * 10 ^ 46 := by
      rw [← zpow_natCast, hk, zpow_add₀ (by norm_num)]
      norm_num
    push_cast
    rw [hw, hpow]
    ring
  have hpos : 0 < m := by
    rw [hm]
    positivity
  have hfalls := fallsShort_of_mul hscale hp hq hpos hle hbelow hhalf habove
  rcases eq_of_fallsShort (by omega) (by omega) hfalls with h | h | h <;> omega

/-! ## Neighbouring decimals -/

namespace Decimal

variable {count : Nat} {m x y z : Rat} {d : Decimal}

theorem viaDouble_between (hx : 0 ≤ x) (hxm : viaDouble x = m) (hzm : viaDouble z = m) (hxy : x ≤ y)
    (hyz : y ≤ z) : viaDouble y = m :=
  le_antisymm (hzm ▸ viaDouble_mono (le_trans hx hxy) hyz) (hxm ▸ viaDouble_mono hx hxy)

/-- The units that a magnitude of single precision may have. -/
theorem unit_le (hpos : 0 < m) (hlt : m < 2 ^ single.overflow) : single.unit m ≤ 104 := by
  have hexponent : binaryExponent m < 128 := binaryExponent_lt hpos hlt
  have hunit : single.unit m = max (binaryExponent m - 23) (-149) := rfl
  omega

/-- The powers of ten that are about as large as units of single precision. -/
theorem place_bounds {j u : Int} (hu : -149 ≤ u) (hu' : u ≤ 104) (hlow : (510 : Rat) * 2 ^ u < 1024 * 10 ^ j)
    (hhigh : (1024 : Rat) * 10 ^ j < 1026 * 2 ^ u) : -46 < j ∧ j < 32 := by
  have hmin := zpow_le_zpow_right₀ (by norm_num : (1 : Rat) ≤ 2) hu
  have hmax := zpow_le_zpow_right₀ (by norm_num : (1 : Rat) ≤ 2) hu'
  constructor
  · refine (zpow_lt_zpow_iff_right₀ (by norm_num : (1 : Rat) < 10)).mp ?_
    norm_num at hmin ⊢
    linarith
  · refine (zpow_lt_zpow_iff_right₀ (by norm_num : (1 : Rat) < 10)).mp ?_
    norm_num at hmax ⊢
    linarith

/-- Between a magnitude and a number that reads back all do, so a nearer number that does not is on the
other side. -/
theorem across_of_nearer (hself : viaDouble m = m) (hpos : 0 < m) (hx : viaDouble x ≠ m) (hy : 0 ≤ y)
    (hym : viaDouble y = m) (hnearer : |m - x| ≤ |m - y|) : x < m ∧ m < y ∨ y < m ∧ m < x := by
  rcases lt_trichotomy x m with hxm | rfl | hxm
  · rw [abs_of_pos (by linarith)] at hnearer
    refine Or.inl ⟨hxm, ?_⟩
    by_contra hle
    rw [abs_of_nonneg (by linarith)] at hnearer
    exact hx (viaDouble_between hy hym hself (by linarith) hxm.le)
  · exact absurd hself hx
  · rw [abs_of_neg (by linarith)] at hnearer
    refine Or.inr ⟨?_, hxm⟩
    by_contra hle
    rw [abs_of_nonpos (by linarith)] at hnearer
    exact hx (viaDouble_between hpos.le hself hym hxm.le (by linarith))

/-- A decimal that reads back may be replaced by a multiple of the last place: if it is none, it is below
the power of ten at the leading digit of the magnitude. -/
theorem exists_multiple (hm : single.Holds m) (hpos : 0 < m) (hcount : 1 ≤ count)
    (hd : d.coefficient < 10 ^ count) (hread : viaDouble d.value = m) :
    ∃ n : Nat, viaDouble (n * 10 ^ lastPlace count m) = m := by
  rcases value_eq_mul hcount hd m with ⟨n, hn⟩ | hlt
  · exact ⟨n, by rw [← hn, hread]⟩
  · refine ⟨10 ^ (count - 1), viaDouble_between d.value_nonneg hread (viaDouble_of_single hm) ?_ ?_⟩
    · push_cast
      exact hlt.le
    · push_cast
      exact (lastPlace_spec hcount hpos).1

section

variable (hm : single.Holds m) (hpos : 0 < m) (hcount : 1 ≤ count) (hd : d.coefficient < 10 ^ count)
  (hread : viaDouble d.value = m) (hnear : viaDouble (nearest count m).value ≠ m)
include hm hpos hcount hd hread hnear

/-- If another decimal than the nearest one reads back, so does a number on the other side of the
magnitude, the two being a unit in the last place apart at least. -/
theorem exists_across :
    ∃ y, 0 ≤ y ∧ viaDouble y = m ∧ |m - (nearest count m).value| ≤ |m - y| ∧
      2 * |m - (nearest count m).value| ≤ 10 ^ lastPlace count m ∧
      10 ^ lastPlace count m ≤ |m - (nearest count m).value| + |m - y| ∧
      ((nearest count m).value < m ∧ m < y ∨ y < m ∧ m < (nearest count m).value) := by
  obtain ⟨n, hn⟩ := exists_multiple hm hpos hcount hd hread
  have hpow := ten_zpow_pos (lastPlace count m)
  have hhalf := abs_sub_nearestMultiple_le_half (x := m) hpow
  have hnearer := abs_sub_nearestMultiple_le (x := m) hpow (n : Int)
  have hyn : (0 : Rat) ≤ n * 10 ^ lastPlace count m := by positivity
  rw [value_nearest hcount hpos] at hnear ⊢
  rw [Int.cast_natCast] at hnearer
  refine ⟨_, hyn, hn, hnearer, by linarith, ?_,
    across_of_nearer (viaDouble_of_single hm) hpos hnear hyn hn hnearer⟩
  have hne : nearestInt (m / 10 ^ lastPlace count m) ≠ (n : Int) := by
    intro heq
    rw [nearestMultiple, heq, Int.cast_natCast] at hnear
    exact hnear hn
  have hstep := le_abs_sub_add_abs_sub (x := m) hpow hne
  rw [Int.cast_natCast] at hstep
  exact hstep

variable (hlt : m < 2 ^ single.overflow)
include hlt

/-- Where the numbers that read back reach as far below a magnitude as above it, the nearest decimal is
among them if any is. -/
theorem not_symmetric (hlow : single.unit m = -149 ∨ 2 ^ 24 * 2 ^ single.unit m < 2 * m) : False := by
  obtain ⟨y, hy, hym, hnearer, hhalf, hstep, hside⟩ := exists_across hm hpos hcount hd hread hnear
  have hfar : 510 / 1024 * 2 ^ single.unit m < |m - (nearest count m).value| := by
    by_contra hle
    rw [not_lt, abs_le] at hle
    rcases hside with ⟨hvm, -⟩ | ⟨-, hvm⟩
    · exact hnear (viaDouble_below hm hpos hlow (by linarith) hvm.le)
    · exact hnear (viaDouble_above hm hpos hvm.le (by linarith))
  have hclose : |m - y| < 513 / 1024 * 2 ^ single.unit m := by
    have habove := lt_of_viaDouble_eq hm hpos hym
    have hbelow := lt_of_viaDouble_eq_below hm hpos hym hy
    rw [abs_lt]
    constructor <;> linarith
  have hmin : (1020 : Rat) * 2 ^ single.unit m < 1024 * 10 ^ lastPlace count m := by linarith
  have hmax : (1024 : Rat) * 10 ^ lastPlace count m < 1026 * 2 ^ single.unit m := by linarith
  have hunit : (0 : Rat) < 2 ^ single.unit m := zpow_pos (by norm_num) _
  obtain ⟨hj, hj'⟩ := place_bounds (u := single.unit m) (Int.le_max_right _ _) (unit_le hpos hlt)
    (by linarith) hmax
  obtain ⟨hplace, hzero⟩ := eq_zero_of_near hj hj' hmin hmax
  -- both are one, and the magnitude is a decimal itself
  obtain ⟨n, hn, -, -⟩ := hm.eq_mul_unit hpos
  have hself : (nearest count m).value = m := by
    rw [value_nearest hcount hpos, hplace, zpow_zero]
    rw [hzero, zpow_zero] at hn
    rw [hn]
    exact_mod_cast nearestMultiple_mul (by norm_num : (0 : Rat) < 1) n
  rw [hself, viaDouble_of_single hm] at hnear
  exact hnear rfl

/-- **Where the nearest decimal does not read back** although another one with as many digits does, the
magnitude is one of three powers of two. -/
theorem eq_of_not_nearest : m = 2 ^ (-96 : Int) ∨ m = 2 ^ (87 : Int) ∨ m = 2 ^ (90 : Int) := by
  by_cases hlow : single.unit m = -149 ∨ 2 ^ 24 * 2 ^ single.unit m < 2 * m
  · exact (not_symmetric hm hpos hcount hd hread hnear hlt hlow).elim
  · obtain ⟨hne, hle⟩ := not_or.mp hlow
    have hrange := inRange_unit (p := single) hpos
    have hsmallest : -149 ≤ single.unit m := hrange.smallest
    have hbegin : m = 2 ^ 23 * 2 ^ single.unit m := by
      have hge : (2 : Rat) ^ 24 * 2 ^ single.unit m ≤ 2 * m := hrange.low.resolve_left hne
      linarith
    have hunit : (0 : Rat) < 2 ^ single.unit m := zpow_pos (by norm_num) _
    obtain ⟨y, hy, hym, hnearer, hhalf, hstep, hside⟩ := exists_across hm hpos hcount hd hread hnear
    have habove := lt_of_viaDouble_eq hm hpos hym
    have hbelow := lt_of_viaDouble_eq_begin hm hpos hym (by omega) hbegin hy
    rcases hside with ⟨hvm, hmy⟩ | ⟨hym', hmv⟩
    · have hfar : 255 / 1024 * 2 ^ single.unit m < m - (nearest count m).value := by
        by_contra hle
        exact hnear (viaDouble_below_quarter hm hpos (by linarith) hvm.le)
      rw [abs_of_pos (by linarith)] at hhalf hnearer hstep
      rw [abs_of_neg (by linarith)] at hnearer hstep
      obtain ⟨hj, hj'⟩ := place_bounds hsmallest (unit_le hpos hlt) (by linarith) (by linarith)
      have hnonneg : 0 ≤ nearestInt (m / 10 ^ lastPlace count m) :=
        nearestInt_nonneg (div_nonneg hpos.le (ten_zpow_pos _).le)
      obtain ⟨n, hn⟩ := Int.eq_ofNat_of_zero_le hnonneg
      have hvn : (nearest count m).value = n * 10 ^ lastPlace count m := by
        rw [value_nearest hcount hpos, nearestMultiple, hn]
        rfl
      rw [hvn] at hvm hfar hhalf hstep
      have hpower : m = 2 ^ (((23 : Nat) : Int) + single.unit m) := by
        rw [two_zpow_add_natCast]
        exact hbegin
      have hsome := eq_of_between (by push_cast; omega) hj.le hj' hpower rfl hvm.le (by linarith)
        (by linarith) (by linarith)
      rcases hsome with h | h | h
      · rw [h] at hpower
        exact Or.inl hpower
      · rw [h] at hpower
        exact Or.inr (Or.inl hpower)
      · rw [h] at hpower
        exact Or.inr (Or.inr hpower)
    · -- above the magnitude, a number twice as far away reads back
      rw [abs_of_neg (by linarith), abs_of_pos (by linarith)] at hnearer
      exact (hnear (viaDouble_above hm hpos hmv.le (by linarith))).elim

end

/-- At the three powers of two, a decimal with eight digits reads back, and nine are chosen. -/
theorem exists_eight_digits (h : m = 2 ^ (-96 : Int) ∨ m = 2 ^ (87 : Int) ∨ m = 2 ^ (90 : Int)) :
    singleCount m = 9 ∧ ∃ d : Decimal, d.coefficient < 10 ^ 8 ∧ viaDouble d.value = m := by
  rcases h with rfl | rfl | rfl
  · exact ⟨by decide +kernel, ⟨12621775, -36⟩, by decide, by decide +kernel⟩
  · exact ⟨by decide +kernel, ⟨15474251, 19⟩, by decide, by decide +kernel⟩
  · exact ⟨by decide +kernel, ⟨12379401, 20⟩, by decide, by decide +kernel⟩

end Decimal

/-- **The chosen number of digits is the least** with which any decimal reads back, unless the magnitude
is one of three powers of two. -/
theorem singleCount_least {s : Bool} {m : Rat} (h : (Floating.finite s m).IsSinglePrecision)
    (hpos : 0 < m) :
    (∀ (t : Bool) (d : Decimal) (k : Nat), k < Decimal.singleCount m → d.coefficient < 10 ^ k →
      Floating.readSingle t d.value ≠ .finite s m) ↔
    m ≠ 2 ^ (-96 : Int) ∧ m ≠ 2 ^ (87 : Int) ∧ m ≠ 2 ^ (90 : Int) := by
  obtain ⟨hm, hlt⟩ := h.magnitude
  rw [← not_or, ← not_or]
  constructor
  · intro hleast hthree
    obtain ⟨hnine, d, hd, hread⟩ := Decimal.exists_eight_digits hthree
    exact hleast s d 8 (by omega) hd ((Floating.readSingle_eq_finite_iff hlt).mpr ⟨rfl, hread⟩)
  · intro hthree t d k hk hd hread
    obtain ⟨-, hdm⟩ := (Floating.readSingle_eq_finite_iff hlt).mp hread
    obtain ⟨-, -, -, hfirst⟩ := Decimal.singleCount_spec hm hpos hlt
    rcases Nat.eq_zero_or_pos k with rfl | hkpos
    · -- without digits there is zero only
      have hzero : d.coefficient = 0 := by
        rw [Nat.pow_zero] at hd
        omega
      rw [Decimal.value, hzero, Nat.cast_zero, zero_mul] at hdm
      exact hpos.ne hdm
    · exact hthree (Decimal.eq_of_not_nearest hm hpos hkpos hd hdm (hfirst k hkpos hk) hlt)

/-- The number of single precision next to two thirds is printed with seven digits, and no decimal with
six reads back as it. -/
theorem singleCount_least_twoThirds :
    (Floating.finite true (11184811 * 2 ^ (-24 : Int))).IsSinglePrecision ∧
      (0 : Rat) < 11184811 * 2 ^ (-24 : Int) ∧
      Decimal.singleCount (11184811 * 2 ^ (-24 : Int)) = 7 ∧
      ∀ (t : Bool) (d : Decimal), d.coefficient < 10 ^ 6 →
        Floating.readSingle t d.value ≠ .finite true (11184811 * 2 ^ (-24 : Int)) := by
  have hsingle : (Floating.finite true (11184811 * 2 ^ (-24 : Int))).IsSinglePrecision :=
    .finite 11184811 (-24) (by decide) (by decide) (by decide) (by norm_num)
  have hpos : (0 : Rat) < 11184811 * 2 ^ (-24 : Int) := by norm_num
  have hcount : Decimal.singleCount (11184811 * 2 ^ (-24 : Int)) = 7 := by decide +kernel
  have hleast := (singleCount_least hsingle hpos).mpr ⟨by norm_num, by norm_num, by norm_num⟩
  exact ⟨hsingle, hpos, hcount, fun t d hd => hleast t d 6 (by omega) hd⟩

/-- The power of two that is printed as `1.54742505E26` is read from `1.5474251E26` as well. -/
theorem singleCount_not_least :
    ∃ (d : Decimal) (k : Nat), k < Decimal.singleCount (2 ^ (87 : Int)) ∧ d.coefficient < 10 ^ k ∧
      Floating.readSingle false d.value = .finite false (2 ^ (87 : Int)) :=
  ⟨⟨15474251, 19⟩, 8, by decide +kernel, by decide, by decide +kernel⟩

end CalcScript
