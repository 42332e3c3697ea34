import CalcScript.Proofs.Decimal.FifteenDigits
import CalcScript.Proofs.Decimal.NineDigits
import CalcScript.Proofs.Floating.SinglePrecision

/-!
# Printed numerals read back

A printed numeral is read as a sign, a decimal and two roundings (`Floating.ofText`). Every finite datum
of single precision is read back from its text, the zeros with their signs:

> `text_reads_back`: the text of a finite datum is a plain or an exponent numeral, as its magnitude asks
> for; it is read as the datum; and different data have different texts.

A plain numeral is the display of the double that the chosen digits are read as. The chosen digits are
few enough to stand in the display as they were (`Decimal.singleText_plain`).
-/

namespace CalcScript

open Precision

variable {s t : Bool} {m n : Rat}

/-! ## The texts of magnitudes -/

namespace Decimal

/-- The chosen digits are no farther away than half of the magnitude. -/
theorem singleDigits_near (hm : single.Holds m) (hpos : 0 < m) (hlt : m < 2 ^ single.overflow) :
    2 * |m - (singleDigits m).value| ≤ m := by
  obtain ⟨hcount, -, -, -⟩ := singleCount_spec hm hpos hlt
  have hhalf := abs_sub_nearest_le_half hcount hpos
  have hten : (1 : Rat) ≤ 10 ^ (singleCount m - 1) := one_le_pow₀ (by norm_num)
  rw [singleDigits]
  refine le_trans ?_ hhalf
  have := mul_le_mul_of_nonneg_left hten (abs_nonneg (m - (nearest (singleCount m) m).value))
  linarith

/-- The bound below which magnitudes are not plain is less than a thousandth by a rounding. -/
theorem le_of_isPlain (h : IsPlain m) (hpos : 0 < m) : 2 ^ (-10 : Int) ≤ m ∧ m < 10000000 := by
  obtain ⟨hlow, hhigh⟩ := h.resolve_left hpos.ne'
  refine ⟨le_trans ?_ hlow, hhigh⟩
  exact (holds_two_zpow one_le_double (by decide)).le_nearest one_le_double (by norm_num)

/-- **A plain numeral is the display of a double**: the one that the chosen digits are read as. -/
theorem singleText_plain (hm : single.Holds m) (hlt : m < 2 ^ single.overflow) (h : IsPlain m) :
    singleText m = doubleText (double.nearest (singleDigits m).value) := by
  rw [singleText, if_pos h]
  rcases eq_or_lt_of_le hm.nonneg with rfl | hpos
  · rw [singleDigits_zero, value, Nat.cast_zero, zero_mul]
    decide +kernel
  · obtain ⟨hcount, hcount', -, -⟩ := singleCount_spec hm hpos hlt
    obtain ⟨hlow, hhigh⟩ := le_of_isPlain h hpos
    obtain ⟨hnear, hnear'⟩ := abs_le.mp (le_div_iff₀' (by norm_num) |>.mpr (singleDigits_near hm hpos hlt))
    refine (doubleText_nearest hcount (by omega) (nearest_coefficient_lt hcount hpos) ?_ ?_).symm
    · show _ ≤ (singleDigits m).value
      norm_num at hlow ⊢
      linarith
    · show (singleDigits m).value < _
      norm_num
      linarith

/-- **The text of a magnitude** is a numeral of the form that its size asks for, and is read as the
magnitude. -/
theorem singleText_spec (hm : single.Holds m) (hlt : m < 2 ^ single.overflow) :
    (if IsPlain m then IsPlainNumeral (singleText m) else IsExponentNumeral (singleText m)) ∧
      viaDouble (ofNumeral (singleText m)).value = m := by
  have hread := viaDouble_singleDigits hm hlt
  rw [singleText]
  split
  · obtain ⟨hform, hvalue⟩ := positional_spec (singleDigits m).trim
    rw [hvalue, value_trim]
    exact ⟨hform, hread⟩
  · obtain ⟨hform, hvalue⟩ := scientific_spec (singleDigits m)
    rw [hvalue]
    exact ⟨hform, hread⟩

end Decimal

/-! ## The texts of data -/

namespace Floating

/-- The datum that a printed numeral is read as: a decimal, maybe with a minus sign before it, rounded
to double precision and then to single precision. -/
def ofText (text : String) : Floating :=
  match text.toList with
  | '-' :: w => readSingle true (Decimal.ofNumeral w).value
  | w => readSingle false (Decimal.ofNumeral w).value

/-- The sign is told from the digits. -/
theorem ofText_signed {w : List Char} (hw : ∀ v, w ≠ '-' :: v) (s : Bool) :
    ofText (String.ofList (signText s ++ w)) = readSingle s (Decimal.ofNumeral w).value := by
  rw [ofText, String.toList_ofList]
  cases s with
  | true => rfl
  | false =>
    show (match w with
      | '-' :: w => readSingle true (Decimal.ofNumeral w).value
      | w => readSingle false (Decimal.ofNumeral w).value) = _
    split
    · next v => exact absurd rfl (hw v)
    · rfl

theorem ofText_text (h : (finite s m).IsSinglePrecision) : ofText (finite s m).text = finite s m := by
  obtain ⟨hm, hlt⟩ := h.magnitude
  obtain ⟨hform, hread⟩ := Decimal.singleText_spec hm hlt
  have hdigit : ∀ v, Decimal.singleText m ≠ '-' :: v := by
    refine Decimal.ne_cons_of_numeral ?_ rfl
    split at hform
    · exact Or.inl hform
    · exact Or.inr hform
  rw [text, ofText_signed hdigit, readSingle_eq_finite_iff hlt]
  exact ⟨rfl, hread⟩

end Floating

/-- **Printed floating-point numbers read back.** The text of a finite datum is a plain numeral or an
exponent numeral with the sign before it, and the datum is read from it; so no text belongs to two
data. -/
theorem text_reads_back :
    (∀ s m, (Floating.finite s m).IsSinglePrecision →
      (∃ w, (Floating.finite s m).text = String.ofList (signText s ++ w) ∧
        (if Decimal.IsPlain m then
          Decimal.IsPlainNumeral w ∧ w = Decimal.doubleText (double.nearest (Decimal.singleDigits m).value)
        else Decimal.IsExponentNumeral w)) ∧
      Floating.ofText (Floating.finite s m).text = .finite s m) ∧
    ∀ s m t n, (Floating.finite s m).IsSinglePrecision → (Floating.finite t n).IsSinglePrecision →
      (Floating.finite s m).text = (Floating.finite t n).text → Floating.finite s m = .finite t n := by
  constructor
  · intro s m h
    obtain ⟨hm, hlt⟩ := h.magnitude
    have hform := (Decimal.singleText_spec hm hlt).1
    refine ⟨⟨_, rfl, ?_⟩, Floating.ofText_text h⟩
    split at hform
    · next hplain =>
      rw [if_pos hplain]
      exact ⟨hform, Decimal.singleText_plain hm hlt hplain⟩
    · next hplain =>
      rw [if_neg hplain]
      exact hform
  · intro s m t n hx hy htext
    rw [← Floating.ofText_text hx, htext, Floating.ofText_text hy]

/-- The smallest number below zero reads back, and the two zeros have different texts. -/
theorem text_reads_back_smallest :
    (Floating.finite true (2 ^ (-149 : Int))).IsSinglePrecision ∧
      Floating.ofText (Floating.finite true (2 ^ (-149 : Int))).text = .finite true (2 ^ (-149 : Int)) ∧
      (Floating.finite true 0).text ≠ (Floating.finite false 0).text := by
  obtain ⟨hreads, hinjective⟩ := text_reads_back
  have hsmallest : (Floating.finite true (2 ^ (-149 : Int))).IsSinglePrecision :=
    .finite 1 (-149) (by decide) (by decide) (by decide) (by rw [Nat.cast_one, one_mul])
  have hzero : ∀ s, (Floating.finite s 0).IsSinglePrecision := fun s =>
    .finite 0 0 (by decide) (by decide) (by decide) (by rw [Nat.cast_zero, zero_mul])
  refine ⟨hsmallest, (hreads _ _ hsmallest).2, fun htext => ?_⟩
  cases hinjective _ _ _ _ (hzero true) (hzero false) htext

end CalcScript
