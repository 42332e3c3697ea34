import CalcScript.Evaluation.Operation
import CalcScript.Proofs.Floating.Nearest

/-!
# Numbers of single precision

A number of single precision is a multiple of a power of two by less than `2 ^ 24`; the exponents go
from `-149` to `104`. This says what rounding leaves, without saying how it rounds:

> `isSinglePrecision_toSingle`: rounding to single precision gives such numbers, infinities and
> `nan`, and nothing else.
> `isSinglePrecision_floatOperation`: so do the four operations.

Operations are exact before they round. What they have to keep until then is that the sign stands
apart from the magnitude (`HasMagnitude`).
-/

namespace CalcScript.Floating

variable {x y : Floating} {p : Precision} {s : Bool} {m : Rat}

/-- The datum is a number of single precision, an infinity or no number. -/
inductive IsSinglePrecision : Floating → Prop where
  | nan : IsSinglePrecision .nan
  | infinity (s : Bool) : IsSinglePrecision (.infinity s)
  | finite {s : Bool} {m : Rat} (n : Nat) (e : Int) (hn : n < 2 ^ 24) (hlow : -149 ≤ e)
      (hhigh : e ≤ 104) (hm : m = n * (2 : Rat) ^ e) : IsSinglePrecision (.finite s m)

/-- The sign of a finite datum stands apart from its magnitude. -/
def HasMagnitude (x : Floating) : Prop := ∀ s m, x = .finite s m → 0 ≤ m

theorem hasMagnitude_nan : HasMagnitude .nan := fun _ _ h => Floating.noConfusion h

theorem hasMagnitude_infinity (s : Bool) : HasMagnitude (.infinity s) :=
  fun _ _ h => Floating.noConfusion h

/-- A finite number has a magnitude if it is not negative. -/
theorem hasMagnitude_finite : HasMagnitude (.finite s m) ↔ 0 ≤ m := by
  constructor
  · intro h
    exact h s m rfl
  · intro h s' m' heq
    cases heq
    exact h

/-- A number of single precision has a magnitude. -/
theorem IsSinglePrecision.hasMagnitude (h : x.IsSinglePrecision) : x.HasMagnitude := by
  cases h with
  | nan => exact hasMagnitude_nan
  | infinity s => exact hasMagnitude_infinity s
  | finite n e hn hlow hhigh hm =>
    rw [hasMagnitude_finite, hm]
    positivity

/-! ## What rounding keeps -/

/-- The magnitude of a finite datum of single precision is one of the precision, and not too large. -/
theorem IsSinglePrecision.magnitude (h : (Floating.finite s m).IsSinglePrecision) :
    Precision.single.Holds m ∧ m < 2 ^ Precision.single.overflow := by
  cases h with
  | finite n e hn hlow hhigh hm =>
    have hcast : (n : Rat) < 2 ^ 24 := by exact_mod_cast hn
    have hpow : (0 : Rat) < 2 ^ e := zpow_pos (by norm_num) e
    refine ⟨⟨n, e, hn, hlow, hm⟩, ?_⟩
    calc m = n * 2 ^ e := hm
      _ < 2 ^ 24 * 2 ^ e := mul_lt_mul_of_pos_right hcast hpow
      _ = 2 ^ (((24 : Nat) : Int) + e) := (two_zpow_add_natCast 24 e).symm
      _ ≤ 2 ^ Precision.single.overflow :=
        zpow_le_zpow_right₀ (by norm_num) (show ((24 : Nat) : Int) + e ≤ 128 by omega)

/-- **Rounding keeps data of single precision.** -/
theorem IsSinglePrecision.isSingle (h : x.IsSinglePrecision) : x.IsSingle := by
  cases x with
  | nan => rfl
  | infinity s => rfl
  | finite s m =>
    obtain ⟨hholds, hlt⟩ := h.magnitude
    exact isSingle_finite_iff.mpr ⟨hholds.nearest_eq, hlt⟩

/-! ## What rounding gives -/

/-- A magnitude that rounds to itself and does not overflow is one of single precision. -/
theorem isSinglePrecision_of_isSingle (h : (finite s m).IsSingle) (hm : 0 ≤ m) :
    (finite s m).IsSinglePrecision := by
  obtain ⟨hnearest, hlt⟩ := isSingle_finite_iff.mp h
  rcases eq_or_lt_of_le hm with rfl | hpos
  · exact .finite 0 0 (by decide) (by decide) (by decide) (by norm_num)
  · obtain ⟨n, hn⟩ := Precision.multiple_of_nearest_eq hnearest hm
    have hexponent : binaryExponent m < 128 := binaryExponent_lt hpos hlt
    have hunit : Precision.single.unit m = max (binaryExponent m - 23) (-149) := rfl
    refine .finite n (Precision.single.unit m) ?_ (by omega) (by omega) hn
    -- in units, the magnitude has no more than 24 digits
    have hpow : (0 : Rat) < (2 : Rat) ^ Precision.single.unit m := by positivity
    have hdigits : m < (2 : Rat) ^ ((24 : Nat) + Precision.single.unit m) :=
      lt_of_lt_of_le (binaryExponent_spec hpos).2 (zpow_le_zpow_right₀ (by norm_num) (by omega))
    rw [two_zpow_add_natCast] at hdigits
    have hcast : (n : Rat) < 2 ^ 24 := by
      refine lt_of_mul_lt_mul_right ?_ hpow.le
      rw [← hn]
      exact hdigits
    exact_mod_cast hcast

/-- A literal has single precision. -/
theorem IsLiteral.isSinglePrecision (h : x.IsLiteral) : x.IsSinglePrecision := by
  cases x with
  | nan => exact .nan
  | infinity s => exact .infinity s
  | finite s m => exact isSinglePrecision_of_isSingle h.single (h.magnitude s m rfl)

/-- **Rounding gives data of single precision.** -/
theorem isSinglePrecision_toSingle (h : x.HasMagnitude) : x.toSingle.IsSinglePrecision := by
  by_cases hnan : x = .nan
  · rw [hnan]
    exact .nan
  · exact (isLiteral_toSingle hnan h).isSinglePrecision

/-! ## Operations -/

/-- Rounding keeps a magnitude. -/
theorem HasMagnitude.round (h : x.HasMagnitude) : (p.round x).HasMagnitude := by
  cases x with
  | nan => exact hasMagnitude_nan
  | infinity s => exact hasMagnitude_infinity s
  | finite s m =>
    unfold Precision.round
    dsimp only
    split
    · exact hasMagnitude_infinity s
    · exact hasMagnitude_finite.mpr (p.nearest_nonneg (hasMagnitude_finite.mp h))

/-- The magnitude of an integer is its absolute value. -/
theorem hasMagnitude_ofInt (n : Int) : (ofInt n).HasMagnitude :=
  hasMagnitude_finite.mpr (by positivity)

/-- Negation changes no magnitude. -/
theorem HasMagnitude.neg (h : x.HasMagnitude) : x.neg.HasMagnitude := by
  cases x with
  | nan => exact hasMagnitude_nan
  | infinity s => exact hasMagnitude_infinity _
  | finite s m => exact hasMagnitude_finite.mpr (hasMagnitude_finite.mp h)

/-- A sum has a magnitude, whatever the signs. -/
theorem HasMagnitude.add (hx : x.HasMagnitude) (hy : y.HasMagnitude) : (x.add y).HasMagnitude := by
  unfold Floating.add
  split
  · exact hasMagnitude_nan
  · exact hasMagnitude_nan
  · split
    · exact hasMagnitude_infinity _
    · exact hasMagnitude_nan
  · exact hasMagnitude_infinity _
  · exact hasMagnitude_infinity _
  · rw [hasMagnitude_finite] at hx hy
    -- of magnitudes with different signs, the smaller one is taken from the larger one
    split_ifs with hsign hlt hlt'
    · exact hasMagnitude_finite.mpr (add_nonneg hx hy)
    · exact hasMagnitude_finite.mpr (sub_nonneg.mpr hlt.le)
    · exact hasMagnitude_finite.mpr (sub_nonneg.mpr hlt'.le)
    · exact hasMagnitude_finite.mpr (le_refl 0)

/-- So has a product. -/
theorem HasMagnitude.mul (hx : x.HasMagnitude) (hy : y.HasMagnitude) : (x.mul y).HasMagnitude := by
  unfold Floating.mul
  split
  · exact hasMagnitude_nan
  · exact hasMagnitude_nan
  · exact hasMagnitude_infinity _
  · split
    · exact hasMagnitude_nan
    · exact hasMagnitude_infinity _
  · split
    · exact hasMagnitude_nan
    · exact hasMagnitude_infinity _
  · rw [hasMagnitude_finite] at hx hy
    exact hasMagnitude_finite.mpr (mul_nonneg hx hy)

/-- So has a quotient, zero divisors included. -/
theorem HasMagnitude.div (hx : x.HasMagnitude) (hy : y.HasMagnitude) : (x.div y).HasMagnitude := by
  unfold Floating.div
  split
  · exact hasMagnitude_nan
  · exact hasMagnitude_nan
  · exact hasMagnitude_nan
  · exact hasMagnitude_infinity _
  · exact hasMagnitude_finite.mpr (le_refl 0)
  · rw [hasMagnitude_finite] at hx hy
    split_ifs with hzero hboth
    · exact hasMagnitude_nan
    · exact hasMagnitude_infinity _
    · exact hasMagnitude_finite.mpr (div_nonneg hx hy)

/-- So has what any operator gives. -/
theorem HasMagnitude.exactOperation (hx : x.HasMagnitude) (hy : y.HasMagnitude) (op : Operator) :
    (exactOperation op x y).HasMagnitude := by
  cases op with
  | plus => exact hx.add hy
  | minus => exact hx.add hy.neg
  | times => exact hx.mul hy
  | divide => exact hx.div hy

/-- **Operations give data of single precision.** -/
theorem isSinglePrecision_floatOperation (op : Operator) (hx : x.HasMagnitude)
    (hy : y.HasMagnitude) : (floatOperation op x y).IsSinglePrecision :=
  isSinglePrecision_toSingle (HasMagnitude.exactOperation hx.round hy.round op).round

end CalcScript.Floating
