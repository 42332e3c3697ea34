import CalcScript.Floating.Rounding
import Mathlib.Algebra.Order.Field.Power
import Mathlib.Algebra.Order.Field.Rat
import Mathlib.Tactic.FieldSimp
import Mathlib.Tactic.Linarith
import Mathlib.Tactic.Positivity
import Mathlib.Tactic.Ring

/-!
# Rounding keeps what is representable

A magnitude that is a multiple of its unit in the last place is its own nearest magnitude, and
rounding gives such magnitudes only:

> `Precision.nearest_nearest`: rounding a second time changes nothing.

A carry is what needs care: rounding up may reach the next power of two, whose unit is larger.
Magnitudes of single precision are magnitudes of double precision as well, so a decimal that stands
for one exactly reads back as it (`Floating.readSingle_of_single`), and whatever a decimal reads back
as is a datum of single precision (`Floating.isLiteral_readSingle`).
-/

namespace CalcScript

/-! ## Nearest integers -/

/-- The nearest integer of an integer is itself. -/
theorem nearestInt_intCast (n : Int) : nearestInt n = n := by
  have hrest : (n : Rat) - ((n : Rat).floor : Int) < 1 / 2 := by
    rw [Rat.floor_intCast, sub_self]
    norm_num
  unfold nearestInt
  rw [if_pos hrest, Rat.floor_intCast]

/-- The nearest integer is the floor, or the next integer if there is anything beyond the floor. -/
theorem nearestInt_cases (x : Rat) :
    nearestInt x = x.floor ∨ (nearestInt x = x.floor + 1 ∧ (x.floor : Rat) < x) := by
  have hbeyond : ¬(x - (x.floor : Int) < 1 / 2) → (x.floor : Rat) < x := by
    intro h
    linarith
  unfold nearestInt
  dsimp only
  split
  · exact Or.inl rfl
  · next h =>
    split
    · exact Or.inr ⟨rfl, hbeyond h⟩
    · split
      · exact Or.inl rfl
      · exact Or.inr ⟨rfl, hbeyond h⟩

/-- Rounding crosses no zero. -/
theorem nearestInt_nonneg {x : Rat} (h : 0 ≤ x) : 0 ≤ nearestInt x := by
  have hfloor : (0 : Int) ≤ x.floor := Rat.le_floor_iff.mpr (by exact_mod_cast h)
  rcases nearestInt_cases x with hx | ⟨hx, _⟩
  · omega
  · omega

/-- Rounding crosses no integer. -/
theorem nearestInt_le {x : Rat} {n : Int} (h : x ≤ n) : nearestInt x ≤ n := by
  have hfloor : (x.floor : Rat) ≤ x := Rat.floor_le x
  rcases nearestInt_cases x with hx | ⟨hx, hlt⟩
  · have hle : ((x.floor : Int) : Rat) ≤ (n : Rat) := le_trans hfloor h
    rw [hx]
    exact_mod_cast hle
  · have hlt' : ((x.floor : Int) : Rat) < (n : Rat) := lt_of_lt_of_le hlt h
    have hfn : x.floor < n := by exact_mod_cast hlt'
    omega

/-! ## Leading digits -/

/-- A unit that is larger by a number of binary places. -/
theorem two_zpow_add_natCast (d : Nat) (u : Int) :
    (2 : Rat) ^ ((d : Int) + u) = 2 ^ d * (2 : Rat) ^ u := by
  rw [zpow_add₀ (by norm_num : (2 : Rat) ≠ 0), zpow_natCast]

/-- A power of two is a multiple of every smaller one. -/
theorem two_zpow_eq_mul {u k : Int} (h : u ≤ k) : (2 : Rat) ^ k = 2 ^ (k - u).toNat * (2 : Rat) ^ u := by
  rw [← two_zpow_add_natCast, Int.toNat_of_nonneg (by omega), sub_add_cancel]

/-- Half a unit is the unit one place below. -/
theorem two_zpow_half (u : Int) : (2 : Rat) ^ u / 2 = 2 ^ (u - 1) := by
  rw [zpow_sub_one₀ (by norm_num), div_eq_mul_inv]

/-- A bound for a product, taken to one factor. -/
theorem lt_zpow_sub {base x d : Rat} {a b : Int} (hbase : 0 < base) (hx : 0 ≤ x) (hd : base ^ b ≤ d)
    (h : x * d < base ^ a) : x < base ^ (a - b) := by
  have hpow : 0 < base ^ b := zpow_pos hbase b
  have hmul : x * base ^ b ≤ x * d := mul_le_mul_of_nonneg_left hd hx
  refine lt_of_mul_lt_mul_right ?_ hpow.le
  rw [← zpow_add₀ hbase.ne', sub_add_cancel]
  exact lt_of_le_of_lt hmul h

/-- The same from below. -/
theorem zpow_sub_le {base x d : Rat} {a b : Int} (hbase : 0 < base) (hx : 0 ≤ x) (hd : d ≤ base ^ b)
    (h : base ^ a ≤ x * d) : base ^ (a - b) ≤ x := by
  have hpow : 0 < base ^ b := zpow_pos hbase b
  have hmul : x * d ≤ x * base ^ b := mul_le_mul_of_nonneg_left hd hx
  refine le_of_mul_le_mul_right ?_ hpow
  rw [← zpow_add₀ hbase.ne', sub_add_cancel]
  exact le_trans h hmul

/-- The leading digit of a positive number to a base, if that of a natural number is known: the
leading digits of numerator and denominator leave two places for it. -/
theorem leadingExponent_spec (base : Nat) (exponent : Nat → Nat) (hbase : 0 < base)
    (hexponent : ∀ n : Nat, n ≠ 0 → (base : Rat) ^ (exponent n : Int) ≤ n ∧
      (n : Rat) < (base : Rat) ^ ((exponent n : Int) + 1)) {x : Rat} (hx : 0 < x) :
    (base : Rat) ^ leadingExponent base exponent x ≤ x ∧
      x < (base : Rat) ^ (leadingExponent base exponent x + 1) := by
  have hpos : (0 : Rat) < base := by exact_mod_cast hbase
  have hnum : 0 < x.num := Rat.num_pos.mpr hx
  obtain ⟨hnlow, hnhigh⟩ := hexponent x.num.natAbs (by omega)
  obtain ⟨hdlow, hdhigh⟩ := hexponent x.den x.den_nz
  have hval : x * x.den = (x.num.natAbs : Rat) := by
    have habs : (x.num.natAbs : Int) = x.num := Int.natAbs_of_nonneg hnum.le
    rw [Rat.mul_den_eq_num, ← Int.cast_natCast, habs]
  rw [← hval] at hnlow hnhigh
  have hup := lt_zpow_sub hpos hx.le hdlow hnhigh
  have hdown := zpow_sub_le hpos hx.le hdhigh.le hnlow
  unfold leadingExponent
  dsimp only
  split
  · next hle =>
    refine ⟨hle, ?_⟩
    rw [sub_add_eq_add_sub]
    exact hup
  · next hnot =>
    rw [sub_add_cancel, sub_sub]
    exact ⟨hdown, lt_of_not_ge hnot⟩

/-- A positive natural number lies between the powers of two around its leading digit. -/
theorem two_zpow_log2 {n : Nat} (h : n ≠ 0) :
    (2 : Rat) ^ (Nat.log2 n : Int) ≤ n ∧ (n : Rat) < (2 : Rat) ^ ((Nat.log2 n : Int) + 1) := by
  constructor
  · rw [zpow_natCast]
    exact_mod_cast Nat.log2_self_le h
  · have hcast : ((Nat.log2 n : Int) + 1) = ((Nat.log2 n + 1 : Nat) : Int) := by push_cast; rfl
    rw [hcast, zpow_natCast]
    exact_mod_cast Nat.lt_log2_self

/-- The leading binary digit of a positive number. -/
theorem binaryExponent_spec {x : Rat} (hx : 0 < x) :
    (2 : Rat) ^ binaryExponent x ≤ x ∧ x < (2 : Rat) ^ (binaryExponent x + 1) :=
  leadingExponent_spec 2 Nat.log2 (by decide) (fun _ hn => two_zpow_log2 hn) hx

/-- The binary exponent of what lies below a power is below its exponent. -/
theorem binaryExponent_lt {x : Rat} {k : Int} (hx : 0 < x) (h : x < (2 : Rat) ^ k) :
    binaryExponent x < k := by
  have hlow := (binaryExponent_spec hx).1
  exact (zpow_lt_zpow_iff_right₀ (by norm_num : (1 : Rat) < 2)).mp (lt_of_le_of_lt hlow h)

/-! ## Nearest magnitudes -/

namespace Precision

variable {p : Precision} {x : Rat}

/-- A multiple of a power of two that is no smaller than its unit is its own nearest magnitude. -/
theorem nearest_of_multiple {e n : Int} (hx : x = n * (2 : Rat) ^ e) (he : p.unit x ≤ e) :
    p.nearest x = x := by
  unfold nearest
  split
  · next h => exact h.symm
  · have htwo : (2 : Rat) ≠ 0 := by norm_num
    have hpow : (2 : Rat) ^ p.unit x ≠ 0 := zpow_ne_zero _ htwo
    have hnat : ((e - p.unit x).toNat : Int) = e - p.unit x := Int.toNat_of_nonneg (by omega)
    -- in units, the magnitude is an integer
    have hint : x / (2 : Rat) ^ p.unit x = ((n * 2 ^ (e - p.unit x).toNat : Int) : Rat) := by
      rw [div_eq_iff hpow]
      push_cast
      rw [mul_assoc, ← zpow_natCast, ← zpow_add₀ htwo, hnat, sub_add_cancel]
      exact hx
    rw [hint, nearestInt_intCast, ← hint, div_mul_cancel₀ _ hpow]

/-- What is nearest to a magnitude is one. -/
theorem nearest_nonneg (p : Precision) (hx : 0 ≤ x) : 0 ≤ p.nearest x := by
  unfold nearest
  split
  · exact le_refl 0
  · have hpow : (0 : Rat) < (2 : Rat) ^ p.unit x := by positivity
    have hint : 0 ≤ nearestInt (x / (2 : Rat) ^ p.unit x) :=
      nearestInt_nonneg (div_nonneg hx hpow.le)
    have hcast : (0 : Rat) ≤ (nearestInt (x / (2 : Rat) ^ p.unit x) : Int) := by exact_mod_cast hint
    exact mul_nonneg hcast hpow.le

/-- The nearest magnitude has no more digits than the precision, or it is the next power of two. -/
theorem nearest_eq_multiple (p : Precision) (hx : 0 < x) :
    ∃ n : Int, p.nearest x = n * (2 : Rat) ^ p.unit x ∧ 0 ≤ n ∧ n ≤ 2 ^ p.digits := by
  have hpow : (0 : Rat) < (2 : Rat) ^ p.unit x := by positivity
  refine ⟨nearestInt (x / (2 : Rat) ^ p.unit x), if_neg hx.ne', ?_, ?_⟩
  · exact nearestInt_nonneg (div_nonneg hx.le hpow.le)
  · refine nearestInt_le ?_
    rw [div_le_iff₀ hpow]
    push_cast
    have hhigh := (binaryExponent_spec hx).2
    have hunit : binaryExponent x - (p.digits - 1) ≤ p.unit x := Int.le_max_left _ _
    have hle : (2 : Rat) ^ (binaryExponent x + 1) ≤ (2 : Rat) ^ ((p.digits : Int) + p.unit x) :=
      zpow_le_zpow_right₀ (by norm_num) (by omega)
    rw [two_zpow_add_natCast] at hle
    exact le_trans hhigh.le hle

/-- **Rounding a second time changes nothing.** -/
theorem nearest_nearest (hp : 1 ≤ p.digits) (hx : 0 ≤ x) :
    p.nearest (p.nearest x) = p.nearest x := by
  rcases eq_or_lt_of_le hx with rfl | hpos
  · rfl
  · obtain ⟨n, hn, hnonneg, hle⟩ := nearest_eq_multiple p hpos
    have hsmallest : p.smallestUnit ≤ p.unit x := Int.le_max_right _ _
    have hunit : ∀ y : Rat, ∀ k : Int, binaryExponent y < k → p.smallestUnit ≤ k - p.digits →
        p.unit y ≤ k - p.digits := by
      intro y k hk hs
      unfold unit
      omega
    have hpow : (0 : Rat) < (2 : Rat) ^ p.unit x := by positivity
    rcases eq_or_lt_of_le hle with hcarry | hlt
    · -- a carry: the magnitude is a power of two and its unit may be the next larger one
      have hy : p.nearest x = (2 : Rat) ^ ((p.digits : Int) + p.unit x) := by
        rw [hn, hcarry, two_zpow_add_natCast]
        push_cast
        rfl
      have hypos : 0 < p.nearest x := by rw [hy]; positivity
      have hexp : binaryExponent (p.nearest x) < (p.digits : Int) + p.unit x + 1 :=
        binaryExponent_lt hypos (by rw [hy]; exact zpow_lt_zpow_right₀ (by norm_num) (by omega))
      refine nearest_of_multiple (e := p.unit x + 1) (n := 2 ^ (p.digits - 1)) ?_ ?_
      · have hd : ((p.digits - 1 : Nat) : Int) = (p.digits : Int) - 1 := by omega
        rw [hy]
        push_cast
        rw [← zpow_natCast, ← zpow_add₀ (by norm_num : (2 : Rat) ≠ 0), hd]
        congr 1
        ring
      · have := hunit _ _ hexp (by omega)
        omega
    · rcases eq_or_lt_of_le hnonneg with rfl | hnpos
      · rw [hn]
        push_cast
        rw [zero_mul]
        rfl
      · have hncast : (0 : Rat) < (n : Rat) := by exact_mod_cast hnpos
        have hypos : 0 < p.nearest x := by rw [hn]; exact mul_pos hncast hpow
        have hexp : binaryExponent (p.nearest x) < (p.digits : Int) + p.unit x := by
          refine binaryExponent_lt hypos ?_
          rw [hn, two_zpow_add_natCast]
          have hlt' : (n : Rat) < (2 : Rat) ^ p.digits := by exact_mod_cast hlt
          exact mul_lt_mul_of_pos_right hlt' hpow
        refine nearest_of_multiple hn ?_
        have := hunit _ _ hexp (by omega)
        omega

/-- Where a magnitude rounds to itself, it is a multiple of its unit. -/
theorem multiple_of_nearest_eq (h : p.nearest x = x) (hx : 0 ≤ x) :
    ∃ n : Nat, x = n * (2 : Rat) ^ p.unit x := by
  rcases eq_or_lt_of_le hx with rfl | hpos
  · exact ⟨0, by push_cast; rw [zero_mul]⟩
  · obtain ⟨n, hn, hnonneg, _⟩ := nearest_eq_multiple p hpos
    rw [h] at hn
    refine ⟨n.toNat, ?_⟩
    have hcast : ((n.toNat : Int) : Rat) = (n : Rat) := by rw [Int.toNat_of_nonneg hnonneg]
    rw [← Int.cast_natCast, hcast]
    exact hn

/-- Rounding to single precision twice is rounding once. -/
theorem single_nearest_nearest (hx : 0 ≤ x) :
    single.nearest (single.nearest x) = single.nearest x :=
  nearest_nearest (by decide) hx

/-- The unit of single precision is no smaller than that of double precision. -/
theorem double_unit_le (x : Rat) : double.unit x ≤ single.unit x := by
  unfold unit double single
  dsimp only
  omega

/-- What has single precision has double precision. -/
theorem double_nearest_of_single (h : single.nearest x = x) (hx : 0 ≤ x) :
    double.nearest x = x := by
  obtain ⟨n, hn⟩ := multiple_of_nearest_eq h hx
  exact nearest_of_multiple (n := n) (by exact_mod_cast hn) (double_unit_le x)

end Precision

/-! ## Data of single precision -/

namespace Floating

variable {x : Floating} {m : Rat} {s : Bool}

/-- What a literal stands for, or its negative: a number or an infinity of single precision, with
the sign kept apart from the magnitude. -/
structure IsLiteral (x : Floating) : Prop where
  single : x.IsSingle
  number : x ≠ .nan
  magnitude : ∀ s m, x = .finite s m → 0 ≤ m

/-- A literal may be too large for single precision and stand for an infinity. -/
theorem isLiteral_infinity (s : Bool) : (infinity s).IsLiteral :=
  ⟨rfl, Floating.noConfusion, fun _ _ h => Floating.noConfusion h⟩

/-- The sign of a datum is kept apart by rounding, too. -/
theorem toSingle_neg (x : Floating) : x.neg.toSingle = x.toSingle.neg := by
  cases x with
  | nan => rfl
  | infinity s => rfl
  | finite s m =>
    unfold toSingle neg Precision.round
    dsimp only
    split <;> rfl

/-- The negative of such a datum is one. -/
theorem IsLiteral.neg (h : x.IsLiteral) : x.neg.IsLiteral := by
  refine ⟨?_, ?_, ?_⟩
  · show x.neg.toSingle = x.neg
    rw [toSingle_neg, h.single]
  · intro heq
    refine h.number ?_
    rw [← neg_neg x, heq]
    rfl
  · intro s m heq
    refine h.magnitude (!s) m ?_
    rw [← neg_neg x, heq]
    rfl

/-- A finite datum of single precision is its own nearest magnitude, and not too large. -/
theorem isSingle_finite_iff :
    (finite s m).IsSingle ↔ Precision.single.nearest m = m ∧ m < 2 ^ Precision.single.overflow := by
  unfold IsSingle toSingle Precision.round
  dsimp only
  constructor
  · intro h
    split at h
    · cases h
    · next hlt =>
      injection h with _ hm
      rw [hm] at hlt
      exact ⟨hm, lt_of_not_ge hlt⟩
  · intro hread
    obtain ⟨hm, hlt⟩ := hread
    rw [hm, if_neg (not_le_of_gt hlt)]

/-- What rounding a datum to single precision gives is a literal's datum, if it is a number. -/
theorem isLiteral_toSingle (hnumber : x ≠ .nan) (hmag : ∀ s m, x = .finite s m → 0 ≤ m) :
    x.toSingle.IsLiteral := by
  cases x with
  | nan => exact absurd rfl hnumber
  | infinity s => exact isLiteral_infinity s
  | finite s m =>
    have hm : 0 ≤ m := hmag s m rfl
    unfold toSingle Precision.round
    dsimp only
    split
    · exact isLiteral_infinity s
    · next hlt =>
      refine ⟨isSingle_finite_iff.mpr ⟨?_, lt_of_not_ge hlt⟩, Floating.noConfusion, ?_⟩
      · exact Precision.single_nearest_nearest hm
      · intro s' m' heq
        cases heq
        exact Precision.nearest_nonneg _ hm

/-- Whatever a decimal reads back as is a literal's datum. -/
theorem isLiteral_readSingle (hm : 0 ≤ m) : (readSingle s m).IsLiteral := by
  unfold readSingle
  refine isLiteral_toSingle ?_ ?_
  · unfold toDouble Precision.round
    dsimp only
    split <;> exact Floating.noConfusion
  · intro s' m' heq
    unfold toDouble Precision.round at heq
    dsimp only at heq
    split at heq
    · cases heq
    · cases heq
      exact Precision.nearest_nonneg _ hm

/-- Double precision keeps a datum of single precision. -/
theorem toDouble_of_single (h : (finite s m).IsSingle) (hm : 0 ≤ m) :
    (finite s m).toDouble = finite s m := by
  obtain ⟨hnearest, hlt⟩ := isSingle_finite_iff.mp h
  have hoverflow : m < 2 ^ Precision.double.overflow :=
    lt_trans hlt (zpow_lt_zpow_right₀ (by norm_num) (by decide))
  unfold toDouble Precision.round
  dsimp only
  rw [Precision.double_nearest_of_single hnearest hm, if_neg (not_le_of_gt hoverflow)]

/-- Double precision changes nothing in such a datum. -/
theorem IsLiteral.toDouble (h : x.IsLiteral) : x.toDouble = x := by
  cases x with
  | nan => rfl
  | infinity s => rfl
  | finite s m => exact toDouble_of_single h.single (h.magnitude s m rfl)

/-- A decimal that stands for a datum of single precision is read as that datum. -/
theorem readSingle_of_single (h : (finite s m).IsSingle) (hm : 0 ≤ m) :
    readSingle s m = finite s m := by
  unfold readSingle
  rw [toDouble_of_single h hm]
  exact h

/-- A finite datum of single precision is a decimal fraction: the smallest unit has 149 binary
places, and so has no more decimal places. -/
theorem exists_decimal_of_single (h : (finite s m).IsSingle) (hm : 0 ≤ m) :
    ∃ n k : Nat, m = (n : Rat) / 10 ^ (k + 1) := by
  obtain ⟨n, hn⟩ := Precision.multiple_of_nearest_eq (isSingle_finite_iff.mp h).1 hm
  have hunit : -149 ≤ Precision.single.unit m := Int.le_max_right _ _
  have hnat : ((Precision.single.unit m + 149).toNat : Int) = Precision.single.unit m + 149 :=
    Int.toNat_of_nonneg (by omega)
  refine ⟨n * 2 ^ (Precision.single.unit m + 149).toNat * 5 ^ 149, 148, ?_⟩
  have hpow : (2 : Rat) ^ (Precision.single.unit m + 149).toNat
      = (2 : Rat) ^ Precision.single.unit m * 2 ^ 149 := by
    rw [← zpow_natCast, hnat, zpow_add₀ (by norm_num)]
    rfl
  have hten : (10 : Rat) ^ 149 = 2 ^ 149 * 5 ^ 149 := by rw [← mul_pow]; norm_num
  push_cast
  rw [hpow, hten, eq_div_iff (by positivity), ← mul_assoc]
  conv => lhs; rw [hn]
  ring

end Floating

end CalcScript
