import CalcScript.Proofs.Decimal.Layout
import CalcScript.Proofs.Floating.Nearest

/-!
# Fifteen digits are kept

A decimal with fifteen digits or fewer may be rounded to double precision and displayed again: what is
displayed is the same number.

> `Decimal.value_doubleDigits`: the digits chosen for the nearest magnitude have the decimal's value.
> `Decimal.doubleText_nearest`: between a ten-thousandth and ten quadrillions, what is displayed is the
> positional layout of the decimal.

Double precision is finer than such decimals are close to each other, so that none of them but the one
that was rounded reads back as the magnitude (`Decimal.eq_of_near`).
-/

namespace CalcScript

open Precision

/-- Above the smallest magnitudes, rounding to double precision is off by a part of `2 ^ 53` at most. -/
theorem Precision.abs_sub_double_le {x : Rat} (hx : 2 ^ (-1022 : Int) ≤ x) :
    2 ^ 53 * |x - double.nearest x| ≤ x := by
  have hpos : 0 < x := lt_of_lt_of_le (zpow_pos (by norm_num) _) hx
  have hrange := inRange_unit (p := double) hpos
  have hpow : (0 : Rat) < 2 ^ double.unit x := zpow_pos (by norm_num) _
  have hhalf := abs_sub_nearestMultiple_le_half (x := x) hpow
  rw [← nearest_of_inRange (by decide) hpos hrange] at hhalf
  have hunit : (2 : Rat) ^ 53 * 2 ^ double.unit x ≤ 2 * x := by
    rcases hrange.low with hsmallest | hlow
    · have hsmallest' : double.unit x = -1074 := hsmallest
      have hpower : (2 : Rat) ^ 53 * 2 ^ (-1074 : Int) = 2 * 2 ^ (-1022 : Int) := by
        rw [← two_zpow_add_natCast, mul_comm, ← zpow_add_one₀ (by norm_num)]
        norm_num
      rw [hsmallest', hpower]
      linarith
    · exact hlow
  linarith

namespace Decimal

variable {a b d : Decimal} {count : Nat} {x : Rat}

theorem readsDouble_iff (hx : x < 2 ^ double.overflow) :
    d.readsDouble x = true ↔ double.nearest d.value = x := by
  rw [readsDouble, decide_eq_true_iff]
  show (if 2 ^ double.overflow ≤ double.nearest d.value then _ else _) = _ ↔ _
  constructor
  · intro h
    split at h
    · cases h
    · injection h
  · rintro rfl
    rw [if_neg (not_le_of_gt hx)]

/-- Two decimals with fifteen digits or fewer that are as near to a number as double precision brings
them are one number. -/
theorem eq_of_near (ha : a.coefficient < 10 ^ 15) (hb : b.coefficient < 10 ^ 15)
    (hpos : 0 < a.value) (hnear : 2 ^ 53 * |a.value - x| ≤ a.value)
    (hnear' : 2 ^ 53 * |x - b.value| ≤ a.value + b.value) : a.value = b.value := by
  by_contra hne
  have hfar := lt_abs_sub ha hb hne
  have htriangle := abs_sub_le a.value x b.value
  obtain ⟨hlow, hhigh⟩ := abs_le.mp (le_refl |a.value - b.value|)
  rcases le_total a.value b.value with hle | hle
  · rw [min_eq_left hle] at hfar
    linarith
  · rw [min_eq_right hle] at hfar
    linarith

theorem coefficient_lt_of_mem_neighbours (hcount : 1 ≤ count) (hx : 0 < x)
    (hd : d ∈ neighbours count x) : d.coefficient < 10 ^ count := by
  have hpow := ten_zpow_pos (lastPlace count x)
  have hroom := (lastPlace_spec hcount hx).2
  rw [← div_lt_iff₀ hpow] at hroom
  have hfloor : (x / 10 ^ lastPlace count x).floor.toNat < 10 ^ count := by
    have hlt := lt_of_le_of_lt (Rat.floor_le (x / 10 ^ lastPlace count x)) hroom
    exact (Int.toNat_lt' (by positivity)).mpr (by exact_mod_cast hlt)
  rw [neighbours, List.mem_cons, List.mem_singleton] at hd
  rcases hd with rfl | rfl
  · have hnearest := nearest_coefficient_lt hcount hx
    rw [nearest, if_neg hx.ne'] at hnearest
    exact hnearest
  · refine carry_coefficient_lt hcount ?_
    dsimp only
    split <;> omega

/-- **The digits chosen for the double nearest to a decimal** have the value of the decimal, if that has
no more than fifteen digits. -/
theorem value_doubleDigits (hcount : 1 ≤ count) (hcount' : count ≤ 15) (hd : d.coefficient < 10 ^ count)
    (hlow : 2 ^ (-1021 : Int) ≤ d.value) (hhigh : double.nearest d.value < 2 ^ double.overflow) :
    (doubleDigits (double.nearest d.value)).value = d.value := by
  have hpos : 0 < d.value := lt_of_lt_of_le (zpow_pos (by norm_num) _) hlow
  have herror := abs_sub_double_le (le_trans (zpow_le_zpow_right₀ (by norm_num) (by decide)) hlow)
  generalize hx : double.nearest d.value = x at hhigh herror ⊢
  have hxlow : 2 ^ (-1021 : Int) ≤ x := by
    rw [← hx]
    exact (holds_two_zpow (by decide) (by decide)).le_nearest (by decide) hlow
  have hxpos : 0 < x := lt_of_lt_of_le (zpow_pos (by norm_num) _) hxlow
  have hfew : ∀ {b : Decimal} {k : Nat}, k ≤ count → b.coefficient < 10 ^ k → b.coefficient < 10 ^ 15 :=
    fun hk hb => lt_of_lt_of_le hb (Nat.pow_le_pow_right (by decide) (le_trans hk hcount'))
  have hd15 := hfew le_rfl hd
  -- a candidate with as many digits that reads back is the same number
  have hsound : ∀ k, 1 ≤ k → k ≤ count → ∀ b ∈ neighbours k x, b.readsDouble x = true →
      b.value = d.value := by
    intro k hk hkc b hb hreads
    have hbx := (readsDouble_iff hhigh).mp hreads
    have hblow : 2 ^ (-1022 : Int) ≤ b.value := by
      by_contra hlt
      have hle := (holds_two_zpow (p := double) (by decide) (by decide)).nearest_le (by decide)
        b.value_nonneg (lt_of_not_ge hlt).le
      rw [hbx] at hle
      exact absurd (le_trans hxlow hle) (not_le_of_gt (zpow_lt_zpow_right₀ (by norm_num) (by decide)))
    have hberror := abs_sub_double_le hblow
    rw [hbx, abs_sub_comm] at hberror
    refine (eq_of_near hd15 (hfew hkc (coefficient_lt_of_mem_neighbours hk hxpos hb)) hpos herror ?_).symm
    exact le_add_of_nonneg_of_le hpos.le hberror
  -- the nearest decimal with as many digits is such a candidate
  have hfound : (nearest count x).value = d.value := by
    refine (eq_of_near hd15 (hfew le_rfl (nearest_coefficient_lt hcount hxpos)) hpos herror ?_).symm
    have hnearer := abs_sub_nearest_le hcount hxpos hd
    rw [abs_sub_comm x d.value] at hnearer
    exact le_add_of_le_of_nonneg (le_trans (mul_le_mul_of_nonneg_left hnearer (by norm_num)) herror)
      (value_nonneg _)
  have hmem : nearest count x ∈ neighbours count x := by
    rw [nearest, if_neg hxpos.ne']
    exact List.mem_cons_self
  have hreads : (nearest count x).readsDouble x = true :=
    (readsDouble_iff hhigh).mpr (by rw [hfound, hx])
  -- so the search ends among as many digits
  have hsplit : List.range' 1 17 = List.range' 1 count ++ List.range' (1 + count) (17 - count) := by
    rw [List.range'_append_1]
    congr 1
    omega
  rw [doubleDigits, if_neg hxpos.ne', hsplit, List.findSome?_append]
  cases hfind : (List.range' 1 count).findSome? fun k => (neighbours k x).find? (·.readsDouble x) with
  | none =>
    have hnone := List.findSome?_eq_none_iff.mp hfind count (List.mem_range'_1.mpr ⟨hcount, by omega⟩)
    exact absurd hreads (List.find?_eq_none.mp hnone _ hmem)
  | some b =>
    obtain ⟨k, hk, hb⟩ := List.exists_of_findSome?_eq_some hfind
    obtain ⟨hk, hkc⟩ := List.mem_range'_1.mp hk
    exact hsound k hk (by omega) b (List.mem_of_find?_eq_some hb)
      (List.find?_some (p := fun b : Decimal => b.readsDouble x) hb)

/-- **The double nearest to a decimal** is displayed as the decimal without zeros at the end, where the
display is positional. -/
theorem doubleText_nearest (hcount : 1 ≤ count) (hcount' : count ≤ 15) (hd : d.coefficient < 10 ^ count)
    (hlow : 10 ^ (-4 : Int) ≤ d.value) (hhigh : d.value < 10 ^ (16 : Int)) :
    doubleText (double.nearest d.value) = d.trim.positional := by
  have hpos : 0 < d.value := lt_of_lt_of_le (ten_zpow_pos _) hlow
  have hfinite : double.nearest d.value < 2 ^ double.overflow := by
    have hbound := (holds_two_zpow (p := double) (e := 64) (by decide) (by decide)).nearest_le
      (by decide) hpos.le (le_trans hhigh.le (by norm_num))
    exact lt_of_le_of_lt hbound (zpow_lt_zpow_right₀ (by norm_num) (by decide))
  have hnormal : 2 ^ (-1021 : Int) ≤ d.value := by
    refine le_trans ?_ hlow
    refine le_trans (zpow_le_zpow_right₀ (by norm_num) (by decide : (-1021 : Int) ≤ -16)) ?_
    norm_num
  have hvalue := value_doubleDigits hcount hcount' hd hnormal hfinite
  have htrim := trim_eq_of_value_eq hpos hvalue.symm
  obtain ⟨hleading, hleading'⟩ := leading_spec (d := d.trim) (by rwa [value_trim])
  rw [value_trim] at hleading hleading'
  have hmin := (zpow_lt_zpow_iff_right₀ (by norm_num : (1 : Rat) < 10)).mp (lt_of_le_of_lt hlow hleading')
  have hmax := (zpow_lt_zpow_iff_right₀ (by norm_num : (1 : Rat) < 10)).mp (lt_of_le_of_lt hleading hhigh)
  rw [doubleText, ← htrim]
  exact if_pos ⟨by omega, hmax⟩

end Decimal

end CalcScript
