import CalcScript.Proofs.Floating.CorrectRounding
import Mathlib.Tactic.LinearCombination

/-!
# Rounding to single precision by way of double precision

Results of operations and decimals are rounded twice, to double precision and then to single precision
(`Precision.viaDouble`). Twice may differ from once: a number next to a midpoint of two magnitudes of
single precision may be rounded to the midpoint first. So the numbers that lead to a magnitude are not
known exactly, but within a part of 1024 of its unit.

> `viaDouble_above`, `viaDouble_below`, `viaDouble_below_quarter`: how near to a magnitude a number is
> near enough for both roundings to lead there.
> `lt_of_viaDouble_eq`, `lt_of_viaDouble_eq_below`, `lt_of_viaDouble_eq_begin`: how near it is if they do.
-/

namespace CalcScript.Precision

variable {x y z : Rat}

/-- The magnitude of single precision nearest to that of double precision. -/
def viaDouble (x : Rat) : Rat := single.nearest (double.nearest x)

theorem two_le_single : 2 ≤ single.digits := by decide

theorem one_le_single : 1 ≤ single.digits := by decide

theorem one_le_double : 1 ≤ double.digits := by decide

/-- Rounding twice keeps the order. -/
theorem viaDouble_mono (hx : 0 ≤ x) (h : x ≤ y) : viaDouble x ≤ viaDouble y :=
  nearest_mono one_le_single (nearest_nonneg _ hx) (nearest_mono one_le_double hx h)

/-- There is room for 53 digits in double precision. -/
theorem double_holds (n : Nat) (e : Int) (hn : n ≤ 2 ^ 53) (he : -1074 ≤ e) : double.Holds (n * 2 ^ e) :=
  holds_of_le one_le_double hn he

/-- What single precision holds, double precision holds. -/
theorem Holds.inDouble (h : single.Holds x) : double.Holds x := by
  obtain ⟨n, e, hn, he, rfl⟩ := h
  have hroom : n < 2 ^ 24 := hn
  have hsmallest : -149 ≤ e := he
  exact double_holds n e (by omega) (by omega)

/-- What has room in double precision is rounded once. -/
theorem viaDouble_of_double (h : double.Holds x) : viaDouble x = single.nearest x := by
  rw [viaDouble, h.nearest_eq]

/-- What single precision holds is not rounded at all. -/
theorem viaDouble_of_single (h : single.Holds x) : viaDouble x = x := by
  rw [viaDouble_of_double h.inDouble, h.nearest_eq]

/-! ## Numbers near a magnitude -/

section

variable (h : single.Holds z) (hz : 0 < z)
include h hz

/-- In double precision, parts of a unit of single precision have room beside a magnitude. -/
theorem Holds.beside {k : Int} (hlow : -1024 ≤ k) (hhigh : k ≤ 1024) :
    double.Holds (z + k / 1024 * 2 ^ single.unit z) := by
  obtain ⟨n, hn, hpos, hroom⟩ := h.eq_mul_unit hz
  have hroom' : n < 2 ^ 24 := hroom
  have hsmallest : -149 ≤ single.unit z := Int.le_max_right _ _
  have hnat : (((1024 * n + k).toNat : Int) : Rat) = 1024 * n + k := by
    rw [Int.toNat_of_nonneg (by omega)]
    push_cast
    rfl
  have hunit : (2 : Rat) ^ single.unit z = 1024 * 2 ^ (single.unit z - 10) := by
    rw [zpow_sub₀ (by norm_num)]
    norm_num
    ring
  have hsum : z + k / 1024 * 2 ^ single.unit z
      = ((1024 * n + k).toNat : Nat) * (2 : Rat) ^ (single.unit z - 10) := by
    rw [← Int.cast_natCast, hnat]
    conv => lhs; lhs; rw [hn]
    rw [hunit]
    ring
  rw [hsum]
  exact double_holds _ _ (by omega) (by omega)

/-- Little less than half a unit above a number is rounded down to it. -/
theorem viaDouble_above (hle : z ≤ x) (hx : x ≤ z + 510 / 1024 * 2 ^ single.unit z) : viaDouble x = z := by
  have hpow : (0 : Rat) < 2 ^ single.unit z := zpow_pos (by norm_num) _
  have hbeside := h.beside hz (k := 510) (by decide) (by decide)
  push_cast at hbeside
  refine h.nearest_above one_le_single hz (h.inDouble.le_nearest one_le_double hle) ?_
  have := hbeside.nearest_le one_le_double (by linarith) hx
  linarith

/-- Little less than half a unit below is rounded up, but for powers of two. -/
theorem viaDouble_below
    (hlow : single.unit z = -149 ∨ 2 ^ 24 * 2 ^ single.unit z < 2 * z)
    (hx : z - 510 / 1024 * 2 ^ single.unit z ≤ x) (hle : x ≤ z) : viaDouble x = z := by
  have hpow : (0 : Rat) < 2 ^ single.unit z := zpow_pos (by norm_num) _
  have hbeside := h.beside hz (k := -510) (by decide) (by decide)
  push_cast at hbeside
  have hdouble := hbeside.le_nearest one_le_double (by linarith : _ ≤ x)
  have hnonneg : 0 ≤ x := le_trans hbeside.nonneg (by linarith)
  refine h.nearest_below one_le_single hz hlow (by linarith) ?_
  exact h.inDouble.nearest_le one_le_double hnonneg hle

/-- Little less than a quarter of a unit below is rounded up in any case. -/
theorem viaDouble_below_quarter (hx : z - 255 / 1024 * 2 ^ single.unit z ≤ x) (hle : x ≤ z) :
    viaDouble x = z := by
  have hpow : (0 : Rat) < 2 ^ single.unit z := zpow_pos (by norm_num) _
  have hbeside := h.beside hz (k := -255) (by decide) (by decide)
  push_cast at hbeside
  have hdouble := hbeside.le_nearest one_le_double (by linarith : _ ≤ x)
  have hnonneg : 0 ≤ x := le_trans hbeside.nonneg (by linarith)
  refine h.nearest_below_quarter one_le_single hz (by linarith) ?_
  exact h.inDouble.nearest_le one_le_double hnonneg hle

/-- A number is rounded to a magnitude by both ways if it is no more than an eighth of a unit away. -/
theorem viaDouble_of_near (hx : |x - z| ≤ 2 ^ single.unit z / 8) :
    viaDouble x = z ∧ single.nearest x = z := by
  have hpow : (0 : Rat) < 2 ^ single.unit z := zpow_pos (by norm_num) _
  obtain ⟨hlow, hhigh⟩ := abs_le.mp hx
  rcases le_total z x with hle | hle
  · exact ⟨viaDouble_above h hz hle (by linarith), h.nearest_above one_le_single hz hle (by linarith)⟩
  · exact ⟨viaDouble_below_quarter h hz (by linarith) hle,
      h.nearest_below_quarter one_le_single hz (by linarith) hle⟩

end

/-! ## Numbers read as a magnitude -/

/-- From a number of double precision on that is nearer to another magnitude above, no number is rounded
to a magnitude. -/
theorem lt_viaDouble {w : Rat} (hz : single.Holds z) (hw : single.Holds w) (hy : double.Holds y)
    (hzy : z ≤ y) (hnearer : |y - w| < |y - z|) (hx : y ≤ x) : z < viaDouble x := by
  have hnonneg : 0 ≤ y := le_trans hz.nonneg hzy
  have hfar := (nearest_isNearest two_le_single hnonneg).nearest w hw
  have hne : z ≠ single.nearest y := by
    intro heq
    rw [← heq] at hfar
    linarith
  calc z < single.nearest y := lt_of_le_of_ne (hz.le_nearest one_le_single hzy) hne
    _ ≤ viaDouble x := nearest_mono one_le_single hnonneg (hy.le_nearest one_le_double hx)

/-- Down to a number of double precision that is nearer to another magnitude below, likewise. -/
theorem viaDouble_lt {w : Rat} (hz : single.Holds z) (hw : single.Holds w) (hy : double.Holds y)
    (hyz : y ≤ z) (hnearer : |y - w| < |y - z|) (hx : 0 ≤ x) (hle : x ≤ y) : viaDouble x < z := by
  have hnonneg : 0 ≤ y := hy.nonneg
  have hfar := (nearest_isNearest two_le_single hnonneg).nearest w hw
  have hne : single.nearest y ≠ z := by
    intro heq
    rw [heq] at hfar
    linarith
  calc viaDouble x ≤ single.nearest y :=
        nearest_mono one_le_single (nearest_nonneg _ hx) (hy.nearest_le one_le_double hx hle)
    _ < z := lt_of_le_of_ne (hz.nearest_le one_le_single hnonneg hyz) hne

section

variable (h : single.Holds z) (hz : 0 < z) (hread : viaDouble x = z)
include h hz hread

/-- What is rounded to a number lies little more than half a unit above it at most. -/
theorem lt_of_viaDouble_eq : x < z + 513 / 1024 * 2 ^ single.unit z := by
  by_contra hle
  obtain ⟨n, hn, -, hroom⟩ := h.eq_mul_unit hz
  have hpow : (0 : Rat) < 2 ^ single.unit z := zpow_pos (by norm_num) _
  have hnext : single.Holds (z + 2 ^ single.unit z) := by
    have hsum : z + 2 ^ single.unit z = (n + 1 : Nat) * 2 ^ single.unit z := by
      push_cast
      linear_combination hn
    rw [hsum]
    exact holds_of_le one_le_single hroom (Int.le_max_right _ _)
  have hbeside := h.beside hz (k := 513) (by decide) (by decide)
  push_cast at hbeside
  refine absurd hread (lt_viaDouble h hnext hbeside (by linarith) ?_ (not_lt.mp hle)).ne'
  rw [abs_of_nonpos (by linarith), abs_of_nonneg (by linarith)]
  linarith

/-- It lies little more than half a unit below it at most. -/
theorem lt_of_viaDouble_eq_below (hx : 0 ≤ x) : z - 513 / 1024 * 2 ^ single.unit z < x := by
  by_contra hle
  obtain ⟨n, hn, hpos, hroom⟩ := h.eq_mul_unit hz
  have hpow : (0 : Rat) < 2 ^ single.unit z := zpow_pos (by norm_num) _
  have hnext : single.Holds (z - 2 ^ single.unit z) := by
    have hdiff : z - 2 ^ single.unit z = (n - 1 : Nat) * 2 ^ single.unit z := by
      rw [Nat.cast_sub hpos]
      push_cast
      linear_combination hn
    rw [hdiff]
    exact holds_of_le one_le_single (by omega) (Int.le_max_right _ _)
  have hbeside := h.beside hz (k := -513) (by decide) (by decide)
  push_cast at hbeside
  refine absurd hread (viaDouble_lt h hnext hbeside (by linarith) ?_ hx (by linarith)).ne
  rw [abs_of_nonneg (by linarith), abs_of_nonpos (by linarith)]
  linarith

/-- Below the power of two at which the range of a unit begins, magnitudes are half as far apart. -/
theorem lt_of_viaDouble_eq_begin (hsmallest : -149 < single.unit z)
    (hbegin : z = 2 ^ 23 * 2 ^ single.unit z) (hx : 0 ≤ x) :
    z - 257 / 1024 * 2 ^ single.unit z < x := by
  by_contra hle
  have hpow : (0 : Rat) < 2 ^ single.unit z := zpow_pos (by norm_num) _
  have hnext : single.Holds (z - 2 ^ single.unit z / 2) := by
    have hdiff : z - 2 ^ single.unit z / 2 = (2 ^ 24 - 1 : Nat) * 2 ^ (single.unit z - 1) := by
      rw [zpow_sub_one₀ (by norm_num)]
      push_cast
      linear_combination hbegin
    rw [hdiff]
    exact holds_of_le one_le_single (by decide) (show (-149 : Int) ≤ _ by omega)
  have hbeside := h.beside hz (k := -257) (by decide) (by decide)
  push_cast at hbeside
  refine absurd hread (viaDouble_lt h hnext hbeside (by linarith) ?_ hx (by linarith)).ne
  rw [abs_of_nonneg (by linarith), abs_of_nonpos (by linarith)]
  linarith

end

end CalcScript.Precision

namespace CalcScript.Floating

open Precision

/-- A datum is rounded twice as its magnitude is: what is beyond double precision is beyond single
precision. -/
theorem toSingle_toDouble (s : Bool) (m : Rat) :
    (finite s m).toDouble.toSingle =
      if 2 ^ single.overflow ≤ viaDouble m then infinity s else finite s (viaDouble m) := by
  have hlimit : single.Holds (2 ^ single.overflow) := holds_two_zpow one_le_single (by decide)
  have hdouble : (finite s m).toDouble =
      if 2 ^ double.overflow ≤ double.nearest m then infinity s else finite s (double.nearest m) := rfl
  rw [hdouble]
  split
  · next hbeyond =>
    have hle : (2 : Rat) ^ single.overflow ≤ double.nearest m :=
      le_trans (zpow_le_zpow_right₀ (by norm_num) (by decide)) hbeyond
    have hbeyond' : 2 ^ single.overflow ≤ viaDouble m := hlimit.le_nearest one_le_single hle
    rw [if_pos hbeyond']
    rfl
  · rfl

end CalcScript.Floating
