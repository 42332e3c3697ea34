import CalcScript.Proofs.Floating.Rounding

/-!
# Nearest integers and nearest multiples

What `nearestInt` computes with floors is the integer nearest to a number, and the even one of two
equally near ones (`nearestInt_eq_iff`). In units of a positive number it gives the nearest multiple of
the unit, which is what magnitudes of a precision and decimals with a number of digits are:

> `abs_sub_nearestMultiple_le`: no multiple is nearer than the nearest one.
> `nearestMultiple_mono`: rounding to multiples keeps the order.
-/

namespace CalcScript

/-! ## Nearest integers -/

/-- The nearest integer is less than a half away, or it is even. -/
theorem nearestInt_spec (x : Rat) :
    |x - nearestInt x| < 1 / 2 ∨ |x - nearestInt x| = 1 / 2 ∧ nearestInt x % 2 = 0 := by
  have hlow : (x.floor : Rat) ≤ x := Rat.floor_le x
  have hhigh : x < (x.floor : Rat) + 1 := by exact_mod_cast Rat.lt_floor_add_one x
  have hdown : |x - x.floor| = x - x.floor := abs_of_nonneg (by linarith)
  have hup : |x - (x.floor + 1 : Int)| = 1 - (x - x.floor) := by
    push_cast
    rw [abs_of_neg (by linarith)]
    ring
  unfold nearestInt
  dsimp only
  split_ifs with hless hmore heven
  · rw [hdown]
    exact Or.inl hless
  · rw [hup]
    exact Or.inl (by linarith)
  · rw [hdown]
    exact Or.inr ⟨le_antisymm (le_of_not_gt hmore) (le_of_not_gt hless), heven⟩
  · rw [hup]
    refine Or.inr ⟨?_, by omega⟩
    linarith [le_antisymm (le_of_not_gt hmore) (le_of_not_gt hless)]

/-- It is the only integer of which this is so. -/
theorem nearestInt_eq_iff {x : Rat} {n : Int} :
    nearestInt x = n ↔ |x - n| < 1 / 2 ∨ |x - n| = 1 / 2 ∧ n % 2 = 0 := by
  constructor
  · rintro rfl
    exact nearestInt_spec x
  · intro h
    -- two integers next to one number differ by one at most, and then they are not both even
    have hle : |x - n| ≤ 1 / 2 := h.elim le_of_lt fun h => h.1.le
    have hle' : |x - nearestInt x| ≤ 1 / 2 := (nearestInt_spec x).elim le_of_lt fun h => h.1.le
    rw [abs_le] at hle hle'
    have hdiff : nearestInt x ≤ n + 1 ∧ n ≤ nearestInt x + 1 := by
      constructor
      · exact_mod_cast (by linarith : (nearestInt x : Rat) ≤ n + 1)
      · exact_mod_cast (by linarith : (n : Rat) ≤ nearestInt x + 1)
    by_contra hne
    have hfar : |x - n| = 1 / 2 ∧ |x - nearestInt x| = 1 / 2 := by
      have hcases : nearestInt x = n + 1 ∨ n = nearestInt x + 1 := by omega
      rcases hcases with hx | hx
      · rw [hx] at hle' ⊢
        push_cast at hle' ⊢
        rw [abs_of_nonneg (by linarith), abs_of_nonpos (by linarith)]
        constructor <;> linarith
      · have hcast : (n : Rat) = nearestInt x + 1 := by exact_mod_cast hx
        rw [hcast] at hle ⊢
        rw [abs_of_nonpos (by linarith), abs_of_nonneg (by linarith)]
        constructor <;> linarith
    have heven : n % 2 = 0 := h.elim (fun h => absurd hfar.1 h.ne) fun h => h.2
    have heven' : nearestInt x % 2 = 0 :=
      (nearestInt_spec x).elim (fun h => absurd hfar.2 h.ne) fun h => h.2
    omega

theorem abs_sub_nearestInt_le (x : Rat) : |x - nearestInt x| ≤ 1 / 2 :=
  (nearestInt_spec x).elim le_of_lt fun h => h.1.le

theorem nearestInt_mono {x y : Rat} (h : x ≤ y) : nearestInt x ≤ nearestInt y := by
  by_contra hlt
  have hstep : (nearestInt y : Rat) + 1 ≤ nearestInt x := by
    exact_mod_cast (by omega : nearestInt y + 1 ≤ nearestInt x)
  have hx := abs_le.mp (abs_sub_nearestInt_le x)
  have hy := abs_le.mp (abs_sub_nearestInt_le y)
  -- both numbers are half-way between the two integers, so they are one number
  have heq : x = y := by linarith
  rw [heq] at hlt
  exact hlt le_rfl

/-! ## Nearest multiples -/

/-- The multiple of `w` nearest to a number, of two equally near ones the even one. -/
def nearestMultiple (w x : Rat) : Rat := nearestInt (x / w) * w

section

variable {w x y : Rat} (hw : 0 < w)
include hw

theorem abs_sub_mul (n : Int) : |x - n * w| = |x / w - n| * w := by
  have hsub : x - n * w = (x / w - n) * w := by field_simp
  rw [hsub, abs_mul, abs_of_pos hw]

theorem nearestMultiple_mono (h : x ≤ y) : nearestMultiple w x ≤ nearestMultiple w y := by
  have hint : nearestInt (x / w) ≤ nearestInt (y / w) :=
    nearestInt_mono (div_le_div_of_nonneg_right h hw.le)
  exact mul_le_mul_of_nonneg_right (by exact_mod_cast hint) hw.le

theorem nearestMultiple_eq_of_lt {n : Int} (h : |x - n * w| < w / 2) : nearestMultiple w x = n * w := by
  have hhalf : w / 2 = 1 / 2 * w := by ring
  rw [abs_sub_mul hw, hhalf] at h
  rw [nearestMultiple, nearestInt_eq_iff.mpr (Or.inl (lt_of_mul_lt_mul_right h hw.le))]

theorem nearestMultiple_mul (n : Int) : nearestMultiple w (n * w) = n * w := by
  refine nearestMultiple_eq_of_lt hw ?_
  rw [sub_self, abs_zero]
  linarith

theorem abs_sub_nearestMultiple_le_half : |x - nearestMultiple w x| ≤ w / 2 := by
  have hhalf : w / 2 = 1 / 2 * w := by ring
  rw [nearestMultiple, abs_sub_mul hw, hhalf]
  exact mul_le_mul_of_nonneg_right (abs_sub_nearestInt_le _) hw.le

/-- No number is near to two multiples. -/
theorem le_abs_sub_add_abs_sub {n k : Int} (h : n ≠ k) : w ≤ |x - n * w| + |x - k * w| := by
  have hone : (1 : Rat) ≤ |((n - k : Int) : Rat)| := by
    exact_mod_cast Int.one_le_abs (sub_ne_zero.mpr h)
  calc w ≤ |((n - k : Int) : Rat)| * w := le_mul_of_one_le_left hw.le hone
    _ = |n * w - k * w| := by rw [Int.cast_sub, ← sub_mul, abs_mul, abs_of_pos hw]
    _ ≤ |n * w - x| + |x - k * w| := abs_sub_le _ _ _
    _ = |x - n * w| + |x - k * w| := by rw [abs_sub_comm x (n * w)]

/-- No multiple is nearer than the nearest one. -/
theorem abs_sub_nearestMultiple_le (n : Int) : |x - nearestMultiple w x| ≤ |x - n * w| := by
  by_cases hn : n = nearestInt (x / w)
  · rw [hn]
    exact le_rfl
  · have hhalf := abs_sub_nearestMultiple_le_half (x := x) hw
    have hstep : w ≤ |x - n * w| + |x - nearestMultiple w x| := le_abs_sub_add_abs_sub hw hn
    linarith

/-- Where another multiple is as near, the nearest one is even. -/
theorem nearestInt_even_of_tie {n : Int} (hne : n * w ≠ nearestMultiple w x)
    (h : |x - n * w| = |x - nearestMultiple w x|) : nearestInt (x / w) % 2 = 0 := by
  have hn : n ≠ nearestInt (x / w) := by
    rintro rfl
    exact hne rfl
  have hhalf := abs_sub_nearestMultiple_le_half (x := x) hw
  have hstep : w ≤ |x - n * w| + |x - nearestMultiple w x| := le_abs_sub_add_abs_sub hw hn
  have htie : |x / w - nearestInt (x / w)| * w = 1 / 2 * w := by
    rw [← abs_sub_mul hw]
    show |x - nearestMultiple w x| = _
    linarith
  exact ((nearestInt_spec (x / w)).resolve_left (mul_right_cancel₀ hw.ne' htie).not_lt).2

end

theorem exists_two_zpow_eq_mul {u k : Int} (h : u ≤ k) : ∃ n : Int, (2 : Rat) ^ k = n * (2 : Rat) ^ u := by
  refine ⟨2 ^ (k - u).toNat, ?_⟩
  push_cast
  exact two_zpow_eq_mul h

end CalcScript
