import CalcScript.Decimal.Basic
import Mathlib.Algebra.Order.Field.Rat
import Mathlib.Tactic.FieldSimp
import Mathlib.Tactic.Ring

/-!
# Digits

What texts of digits stand for: a text behind another is added to its shifted value
(`Decimal.ofDigits_append`), and a numeral with a point stands for its whole part and the decimal
fraction of the digits behind the point (`Decimal.value_ofPointed`). Every natural number is written
with its digits, and with any number of digits that it has room in.
-/

namespace CalcScript.Decimal

theorem ofDigits_eq (w : List Char) : ofDigits w = Nat.ofDigitChars 10 w 0 := by
  rw [Nat.ofDigitChars_eq_foldl]
  rfl

/-- The value of digits behind digits. -/
theorem ofDigits_append (u w : List Char) :
    ofDigits (u ++ w) = ofDigits u * 10 ^ w.length + ofDigits w := by
  rw [ofDigits_eq, ofDigits_eq, ofDigits_eq, Nat.ofDigitChars_append,
    Nat.ofDigitChars_eq_ofDigitChars_zero, Nat.mul_comm]

/-- The digits of a number stand for the number. -/
theorem ofDigits_toDigits (n : Nat) : ofDigits (Nat.toDigits 10 n) = n := by
  rw [ofDigits_eq, Nat.ofDigitChars_ten_toDigits]

theorem ofDigits_singleton (c : Char) : ofDigits [c] = digitValue c := by
  rw [ofDigits, List.foldl_cons, List.foldl_nil]
  omega

/-- A text is divided at the first place where a character stands. -/
theorem divided_at {c : Char} {u : List Char} (w : List Char) (hu : c ∉ u) :
    (u ++ c :: w).takeWhile (· ≠ c) = u ∧ (u ++ c :: w).dropWhile (· ≠ c) = c :: w := by
  have hbefore : ∀ x ∈ u, decide (x ≠ c) = true := by
    intro x hx
    refine decide_eq_true fun heq => hu ?_
    rw [← heq]
    exact hx
  have hmark : ¬decide (c ≠ c) = true := by
    rw [decide_eq_true_iff, not_not]
  constructor
  · rw [List.takeWhile_append_of_pos hbefore, List.takeWhile_cons_of_neg (p := (· ≠ c)) hmark,
      List.append_nil]
  · rw [List.dropWhile_append_of_pos hbefore, List.dropWhile_cons_of_neg (p := (· ≠ c)) hmark]

theorem ofPointed_eq {u : List Char} (w : List Char) (hu : '.' ∉ u) :
    ofPointed (u ++ '.' :: w) = ⟨ofDigits (u ++ w), -(w.length : Int)⟩ := by
  obtain ⟨htake, hdrop⟩ := divided_at w hu
  rw [ofPointed, htake, hdrop, List.drop_succ_cons, List.drop_zero]

/-- **A numeral with a point is worth its whole part and its decimal fraction.** -/
theorem value_ofPointed {u : List Char} (w : List Char) (hu : '.' ∉ u) :
    (ofPointed (u ++ '.' :: w)).value = ofDigits u + ofDigits w / 10 ^ w.length := by
  have hpow : (10 : Rat) ^ w.length ≠ 0 := pow_ne_zero _ (by decide)
  rw [ofPointed_eq w hu, value, ofDigits_append]
  dsimp only
  rw [zpow_neg, zpow_natCast]
  push_cast
  field_simp

/-! ## Writing numbers -/

/-- The digit of ASCII with a value. -/
theorem exists_digit {d : Nat} (h : d < 10) :
    ∃ c : Char, '0' ≤ c ∧ c ≤ '9' ∧ digitValue c = d := by
  refine ⟨Char.ofNat (48 + d), ?_⟩
  have hd : d ∈ List.range 10 := List.mem_range.mpr h
  revert d
  decide

/-- A number below a power of ten is written with as many digits. -/
theorem exists_padded_digits (k : Nat) :
    ∀ n, n < 10 ^ k → ∃ w : List Char, w.length = k ∧ (∀ c ∈ w, '0' ≤ c ∧ c ≤ '9') ∧
      ofDigits w = n := by
  induction k with
  | zero =>
    intro n hn
    have hzero : n = 0 := by rw [Nat.pow_zero] at hn; omega
    exact ⟨[], rfl, fun _ hc => absurd hc List.not_mem_nil, hzero.symm⟩
  | succ k ih =>
    intro n hn
    rw [Nat.pow_succ] at hn
    obtain ⟨w, hlen, hw, hval⟩ := ih (n / 10) (by omega)
    obtain ⟨c, hlow, hhigh, hc⟩ := exists_digit (Nat.mod_lt n (by decide : 10 > 0))
    refine ⟨w ++ [c], by rw [List.length_append, hlen]; rfl, ?_, ?_⟩
    · intro d hd
      rcases List.mem_append.mp hd with hd | hd
      · exact hw d hd
      · rw [List.mem_singleton.mp hd]
        exact ⟨hlow, hhigh⟩
    · rw [ofDigits_append, hval, ofDigits_singleton, hc, List.length_singleton]
      omega

end CalcScript.Decimal
