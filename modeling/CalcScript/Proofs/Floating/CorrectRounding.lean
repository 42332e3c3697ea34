import CalcScript.Proofs.Floating.Nearest

/-!
# Correct rounding

What `Precision.nearest` computes can be said without the way in which it is computed: of all magnitudes
of the precision, the one nearest to a number, and of two equally near ones the one with an even
significand.

> `Precision.nearest_isNearest`: this is what `Precision.nearest` gives.
> `Precision.IsNearest.unique`: and there is one such magnitude.

For data there are a sign and an overflow in addition (`Precision.RoundsTo`).
-/

namespace CalcScript.Precision

variable {p : Precision} {u : Int} {x y z : Rat}

/-- The number is a magnitude of the precision with an even significand. -/
def HoldsEven (p : Precision) (x : Rat) : Prop :=
  ∃ (n : Nat) (e : Int), 2 * n < 2 ^ p.digits ∧ p.smallestUnit ≤ e ∧ x = (2 * n : Nat) * 2 ^ e

/-- Of all magnitudes of the precision, the one nearest to `x`; of two equally near ones, the one with
an even significand. -/
structure IsNearest (p : Precision) (x y : Rat) : Prop where
  holds : p.Holds y
  nearest : ∀ z, p.Holds z → |x - y| ≤ |x - z|
  even : ∀ z, p.Holds z → z ≠ y → |x - z| = |x - y| → p.HoldsEven y

/-- The ends of a range are multiples of the unit. -/
theorem InRange.nearestMultiple (h : p.InRange u x) (hdigits : 1 ≤ p.digits) :
    p.InRange u (nearestMultiple (2 ^ u) x) := by
  have hpow : (0 : Rat) < 2 ^ u := zpow_pos (by norm_num) u
  obtain ⟨d, hd⟩ : ∃ d, p.digits = d + 1 := ⟨p.digits - 1, by omega⟩
  refine ⟨h.smallest, h.low.imp_right fun hlow => ?_, ?_⟩
  · have hbegin : ((2 ^ d : Int) : Rat) * 2 ^ u ≤ x := by
      push_cast
      rw [hd, pow_succ] at hlow
      linarith
    have hle := nearestMultiple_mono hpow hbegin
    rw [nearestMultiple_mul hpow] at hle
    push_cast at hle
    rw [hd, pow_succ]
    linarith
  · have hend : x ≤ ((2 ^ p.digits : Int) : Rat) * 2 ^ u := by
      push_cast
      exact h.high
    have hle := nearestMultiple_mono hpow hend
    rw [nearestMultiple_mul hpow] at hle
    push_cast at hle
    exact hle

/-- An even multiple of the unit has an even significand, after a carry too. -/
theorem InRange.holdsEven {n : Int} (h : p.InRange u (n * 2 ^ u)) (hdigits : 2 ≤ p.digits) (hn : 0 ≤ n)
    (heven : n % 2 = 0) : p.HoldsEven (n * 2 ^ u) := by
  obtain ⟨k, rfl⟩ : ∃ k : Nat, n = 2 * k := ⟨n.toNat / 2, by omega⟩
  have hpow : (0 : Rat) < 2 ^ u := zpow_pos (by norm_num) u
  have hle : 2 * k ≤ 2 ^ p.digits := by exact_mod_cast le_of_mul_le_mul_right h.high hpow
  rcases eq_or_lt_of_le hle with hcarry | hlt
  · obtain ⟨d, hd⟩ : ∃ d, p.digits = d + 2 := ⟨p.digits - 2, by omega⟩
    have hk : k = 2 * 2 ^ d := by
      rw [hd, Nat.pow_add] at hcarry
      omega
    have hroom : 2 * 2 ^ d < 2 ^ p.digits := by
      rw [hd, Nat.pow_add]
      have := Nat.two_pow_pos d
      omega
    refine ⟨2 ^ d, u + 1, hroom, by have := h.smallest; omega, ?_⟩
    rw [hk, zpow_add_one₀ (by norm_num)]
    push_cast
    ring
  · exact ⟨k, u, hlt, h.smallest, by push_cast; rfl⟩

/-- **Rounding gives the nearest magnitude**, and the even one of two. -/
theorem nearest_isNearest (hdigits : 2 ≤ p.digits) (hx : 0 ≤ x) : p.IsNearest x (p.nearest x) := by
  have hholds := holds_nearest (p := p) (by omega) hx
  rcases eq_or_lt_of_le hx with rfl | hpos
  · refine ⟨hholds, fun z _ => ?_, fun z _ hne htie => absurd ?_ hne⟩
    · show |(0 : Rat) - 0| ≤ _
      rw [sub_zero, abs_zero]
      exact abs_nonneg _
    · have hz : |0 - z| = |(0 : Rat) - 0| := htie
      rw [sub_zero, abs_zero, abs_eq_zero, zero_sub, neg_eq_zero] at hz
      exact hz
  · have hrange := inRange_unit (p := p) hpos
    have hpow : (0 : Rat) < 2 ^ p.unit x := zpow_pos (by norm_num) _
    have hnearest := nearest_of_inRange (by omega) hpos hrange
    have hunit : p.unit x = max (binaryExponent x - (p.digits - 1)) p.smallestUnit := rfl
    -- magnitudes below the range are farther away than its beginning, which is a multiple
    have hcases : ∀ z, p.Holds z →
        (∃ n : Nat, z = n * 2 ^ p.unit x) ∨ |x - p.nearest x| < |x - z| := by
      intro z hz
      by_cases hlow : p.unit x = p.smallestUnit ∨ 2 ^ p.digits * 2 ^ p.unit x ≤ 2 * z
      · exact Or.inl (hz.eq_mul hrange.smallest hlow)
      · rw [not_or, not_le] at hlow
        obtain ⟨hne, hbelow⟩ := hlow
        have hbegin := hrange.low.resolve_left hne
        obtain ⟨n, hn⟩ := exists_two_zpow_eq_mul (show p.unit x ≤ binaryExponent x by omega)
        have hhalf : (2 : Rat) ^ p.digits * 2 ^ p.unit x = 2 * 2 ^ binaryExponent x := by
          rw [← two_zpow_add_natCast, mul_comm, ← zpow_add_one₀ (by norm_num)]
          congr 1
          omega
        refine Or.inr ?_
        rw [hnearest]
        refine lt_of_le_of_lt (abs_sub_nearestMultiple_le hpow n) ?_
        rw [← hn, abs_of_nonneg (by linarith), abs_of_nonneg (by linarith)]
        linarith
    refine ⟨hholds, fun z hz => ?_, fun z hz hne htie => ?_⟩
    · rcases hcases z hz with ⟨n, rfl⟩ | hlt
      · rw [hnearest]
        exact abs_sub_nearestMultiple_le hpow (n : Int)
      · exact hlt.le
    · rcases hcases z hz with ⟨n, rfl⟩ | hlt
      · rw [hnearest] at hne htie ⊢
        have heven := nearestInt_even_of_tie hpow (n := (n : Int)) hne htie
        have hnonneg : 0 ≤ nearestInt (x / 2 ^ p.unit x) := nearestInt_nonneg (by positivity)
        exact (hrange.nearestMultiple (by omega)).holdsEven hdigits hnonneg heven
      · exact absurd htie hlt.ne'

/-! ## Rounded data -/

theorem exists_even_eq_mul {n : Nat} {i j : Int} (h : i ≤ j) :
    ∃ k : Nat, ((2 * n : Nat) : Rat) * 2 ^ j = (2 * k : Nat) * 2 ^ i := by
  refine ⟨n * 2 ^ (j - i).toNat, ?_⟩
  push_cast
  rw [two_zpow_eq_mul h]
  ring

/-- Between two magnitudes with even significands there is another magnitude. -/
theorem HoldsEven.exists_between (hy : p.HoldsEven y) (hz : p.HoldsEven z) (h : y < z) :
    ∃ w, p.Holds w ∧ y < w ∧ w < z := by
  obtain ⟨a, i, ha, hi, rfl⟩ := hy
  obtain ⟨b, j, hb, hj, rfl⟩ := hz
  have hdigits : 1 ≤ p.digits := by
    refine Nat.one_le_iff_ne_zero.mpr fun hzero => ?_
    rw [hzero, Nat.pow_zero] at ha hb
    have hazero : a = 0 := by omega
    have hbzero : b = 0 := by omega
    rw [hazero, hbzero] at h
    push_cast at h
    linarith
  -- a neighbour of the one with the smaller exponent lies between them
  rcases le_total i j with hle | hle
  · obtain ⟨k, hk⟩ := exists_even_eq_mul (n := b) hle
    have hpow : (0 : Rat) < 2 ^ i := zpow_pos (by norm_num) i
    rw [hk] at h ⊢
    have hlt : 2 * a < 2 * k := by exact_mod_cast lt_of_mul_lt_mul_right h hpow.le
    refine ⟨(2 * a + 1 : Nat) * 2 ^ i, holds_of_le hdigits (by omega) hi, ?_, ?_⟩
    · exact mul_lt_mul_of_pos_right (by exact_mod_cast (by omega : 2 * a < 2 * a + 1)) hpow
    · exact mul_lt_mul_of_pos_right (by exact_mod_cast (by omega : 2 * a + 1 < 2 * k)) hpow
  · obtain ⟨k, hk⟩ := exists_even_eq_mul (n := a) hle
    have hpow : (0 : Rat) < 2 ^ j := zpow_pos (by norm_num) j
    rw [hk] at h ⊢
    have hlt : 2 * k < 2 * b := by exact_mod_cast lt_of_mul_lt_mul_right h hpow.le
    refine ⟨(2 * k + 1 : Nat) * 2 ^ j, holds_of_le hdigits (by omega) hj, ?_, ?_⟩
    · exact mul_lt_mul_of_pos_right (by exact_mod_cast (by omega : 2 * k < 2 * k + 1)) hpow
    · exact mul_lt_mul_of_pos_right (by exact_mod_cast (by omega : 2 * k + 1 < 2 * b)) hpow

/-- There is one nearest magnitude. -/
theorem IsNearest.unique (hy : p.IsNearest x y) (hz : p.IsNearest x z) : y = z := by
  by_contra hne
  have htie : |x - y| = |x - z| := le_antisymm (hy.nearest z hz.holds) (hz.nearest y hy.holds)
  have hyeven := hy.even z hz.holds (Ne.symm hne) htie.symm
  have hzeven := hz.even y hy.holds hne htie
  -- a magnitude between the two is nearer than both
  have hnearer : ∀ y z, p.HoldsEven y → p.HoldsEven z → |x - y| = |x - z| → p.IsNearest x y → ¬y < z := by
    intro y z hyeven hzeven htie hy hlt
    obtain ⟨w, hw, hyw, hwz⟩ := hyeven.exists_between hzeven hlt
    have hle := hy.nearest w hw
    have hmid : x - y = z - x := by
      rcases abs_cases (x - y) with ⟨h, _⟩ | ⟨h, _⟩ <;> rcases abs_cases (x - z) with ⟨h', _⟩ | ⟨h', _⟩ <;>
        linarith
    rw [abs_of_nonneg (by linarith : 0 ≤ x - y)] at hle
    have : |x - w| < x - y := by
      rw [abs_lt]
      constructor <;> linarith
    linarith
  rcases lt_or_gt_of_ne hne with hlt | hlt
  · exact hnearer y z hyeven hzeven htie hy hlt
  · exact hnearer z y hzeven hyeven htie.symm hz hlt

/-- The datum is a number rounded once: its magnitude is the nearest one, and where that is beyond the
largest finite one it is infinite. The sign is that of the number; a zero may have either. -/
def RoundsTo (p : Precision) (x : Rat) (r : Floating) : Prop :=
  ∃ y, p.IsNearest |x| y ∧
    if 2 ^ p.overflow ≤ y then r = .infinity (decide (x < 0))
    else r.value? = some (if x < 0 then -y else y)

/-- Numbers do not round to two numbers. -/
theorem RoundsTo.unique {r r' : Floating} (h : p.RoundsTo x r) (h' : p.RoundsTo x r')
    (hy : r.value? = some y) : r'.value? = some y := by
  obtain ⟨m, hm, hr⟩ := h
  obtain ⟨m', hm', hr'⟩ := h'
  rw [← hm.unique hm'] at hr'
  split at hr
  · rw [hr] at hy
    cases hy
  · next hfinite =>
    rw [if_neg hfinite, ← hr, hy] at hr'
    exact hr'

/-- **Rounding a datum rounds its number once.** -/
theorem round_roundsTo (hdigits : 2 ≤ p.digits) {s : Bool} {m : Rat} (hm : 0 ≤ m)
    (hx : (Floating.finite s m).value? = some x) : p.RoundsTo x (p.round (.finite s m)) := by
  have habs : |x| = m := by
    cases s with
    | true =>
      cases hx
      rw [abs_neg, abs_of_nonneg hm]
    | false =>
      cases hx
      exact abs_of_nonneg hm
  refine ⟨p.nearest m, by rw [habs]; exact nearest_isNearest hdigits hm, ?_⟩
  have hsign : 0 < m → decide (x < 0) = s := by
    intro hpos
    cases s with
    | true =>
      cases hx
      exact decide_eq_true (by linarith)
    | false =>
      cases hx
      exact decide_eq_false (by linarith)
  rcases eq_or_lt_of_le hm with rfl | hpos
  · have hpow : (0 : Rat) < 2 ^ p.overflow := zpow_pos (by norm_num) _
    have hzero : p.nearest 0 = 0 := rfl
    have hx0 : x = 0 := abs_eq_zero.mp habs
    rw [hzero, if_neg (not_le_of_gt hpow), hx0, if_neg (lt_irrefl 0)]
    show (if 2 ^ p.overflow ≤ p.nearest 0 then Floating.infinity s else .finite s (p.nearest 0)).value? = _
    rw [hzero, if_neg (not_le_of_gt hpow)]
    cases s <;> rfl
  · rw [← hsign hpos]
    show if _ then (if _ then Floating.infinity _ else _) = _ else (if _ then _ else Floating.finite _ _).value? = _
    split
    · rfl
    · by_cases hneg : x < 0
      · rw [if_pos hneg, decide_eq_true hneg]
        rfl
      · rw [if_neg hneg, decide_eq_false hneg]
        rfl

end CalcScript.Precision
