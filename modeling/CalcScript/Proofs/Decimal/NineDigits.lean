import CalcScript.Decimal.Numeral
import CalcScript.Proofs.Decimal.Nearest
import CalcScript.Proofs.Floating.TwoRoundings

/-!
# Nine digits suffice

The search for the digits of a printed numeral ends at nine, whatever it has found by then. It has found
them (`Decimal.singleCount_spec`): a magnitude of single precision has 24 binary digits, and the nearest
decimal of nine digits is less than an eighth of a unit away, where both roundings lead back.
-/

namespace CalcScript

open Precision

variable {s t : Bool} {m x : Rat}

/-- Reading a decimal gives a finite datum if the sign is that of the datum and both roundings lead to
its magnitude. -/
theorem Floating.readSingle_eq_finite_iff (hm : m < 2 ^ single.overflow) :
    Floating.readSingle t x = .finite s m ↔ t = s ∧ viaDouble x = m := by
  have hread : Floating.readSingle t x =
      if 2 ^ single.overflow ≤ viaDouble x then .infinity t else .finite t (viaDouble x) :=
    Floating.toSingle_toDouble t x
  rw [hread]
  constructor
  · intro h
    split at h
    · cases h
    · exact Floating.finite.inj h
  · rintro ⟨rfl, rfl⟩
    rw [if_neg (not_le_of_gt hm)]

namespace Decimal

theorem readsSingle_iff {d : Decimal} (hm : m < 2 ^ single.overflow) :
    d.readsSingle m = true ↔ viaDouble d.value = m := by
  rw [readsSingle, decide_eq_true_iff, Floating.readSingle_eq_finite_iff hm]
  exact and_iff_right rfl

section

variable (hm : single.Holds m) (hpos : 0 < m)
include hm hpos

/-- A magnitude is less than `2 ^ 24` units, and half a unit in the ninth digit is a part of the
magnitude by `2 * 10 ^ 8`. -/
theorem viaDouble_nearest_nine : viaDouble (nearest 9 m).value = m := by
  have hrange := inRange_unit (p := single) hpos
  have hunits : m ≤ 2 ^ 24 * 2 ^ single.unit m := hrange.high
  have hhalf := abs_sub_nearest_le_half (by decide : 1 ≤ 9) hpos
  refine (viaDouble_of_near hm hpos ?_).1
  generalize (nearest 9 m).value = v at hhalf ⊢
  rw [abs_sub_comm]
  norm_num at hhalf hunits
  linarith

variable (hlt : m < 2 ^ single.overflow)
include hlt

/-- **The search for digits succeeds**, and finds the smallest number of digits with which the nearest
decimal reads back. -/
theorem singleCount_spec :
    1 ≤ singleCount m ∧ singleCount m ≤ 9 ∧ viaDouble (nearest (singleCount m) m).value = m ∧
      ∀ k, 1 ≤ k → k < singleCount m → viaDouble (nearest k m).value ≠ m := by
  cases hfind : (List.range' 1 9).find? fun count => (nearest count m).readsSingle m with
  | none =>
    have hnine := List.find?_eq_none.mp hfind 9 (by decide)
    exact absurd ((readsSingle_iff hlt).mpr (viaDouble_nearest_nine hm hpos)) hnine
  | some c =>
    have hcount : singleCount m = c := by rw [singleCount, hfind, Option.getD_some]
    obtain ⟨hreads, hmem, hfirst⟩ := List.find?_range'_eq_some.mp hfind
    obtain ⟨hlow, hhigh⟩ := List.mem_range'_1.mp hmem
    rw [hcount]
    refine ⟨hlow, by omega, (readsSingle_iff hlt).mp hreads, fun k hk hkc hread => ?_⟩
    have hnot := hfirst k hk hkc
    rw [(readsSingle_iff hlt).mpr hread] at hnot
    cases hnot

end

theorem singleDigits_zero : singleDigits 0 = ⟨0, 0⟩ := by
  rw [singleDigits, nearest, if_pos rfl]

/-- **The digits of a printed numeral read back.** -/
theorem viaDouble_singleDigits (hm : single.Holds m) (hlt : m < 2 ^ single.overflow) :
    viaDouble (singleDigits m).value = m := by
  rcases eq_or_lt_of_le hm.nonneg with rfl | hpos
  · rw [singleDigits_zero, value, Nat.cast_zero, zero_mul]
    rfl
  · exact (singleCount_spec hm hpos hlt).2.2.1

end Decimal

end CalcScript
