import CalcScript.Decimal.Numeral
import CalcScript.Proofs.Decimal.Nearest
import CalcScript.Proofs.Grammar.Written
import Mathlib.Data.List.TakeWhile

/-!
# Layouts read back

What the texts of decimals look like, and which numbers they are read as. A plain numeral is made of
digits around a point; an exponent numeral has one digit before the point, and behind its digits a mark
and an exponent. `Decimal.ofNumeral` reads both.

> `Decimal.positional_spec`, `Decimal.scientific_spec`: the two layouts are such numerals, and are read
> as the decimals that are laid out.

Trimming a decimal before it is laid out keeps its value, and leaves one decimal for each number
(`Decimal.trim_eq_of_value_eq`).
-/

namespace CalcScript

open Grammar Grammar.Program

namespace Decimal

variable {u w e : List Char}

/-! ## Numerals -/

/-- The integer of digits, which may have a minus sign before them. -/
def ofSigned : List Char → Int
  | '-' :: w => -(ofDigits w : Int)
  | w => ofDigits w

/-- The decimal that a numeral is read as: digits with a point among them and, behind the mark of an
exponent, the power of ten that they are multiplied by. -/
def ofNumeral (text : List Char) : Decimal :=
  let mantissa := ofPointed (text.takeWhile (· ≠ 'E'))
  ⟨mantissa.coefficient, mantissa.exponent + ofSigned ((text.dropWhile (· ≠ 'E')).drop 1)⟩

/-- Digits, a point, digits. -/
def IsPlainNumeral (text : List Char) : Prop :=
  ∃ u w, IsDigits u ∧ IsDigits w ∧ text = u ++ '.' :: w

/-- A digit, a point, digits, the mark of the exponent, and its digits, maybe with a minus sign. -/
def IsExponentNumeral (text : List Char) : Prop :=
  ∃ c w sign e, isDigit c = true ∧ IsDigits w ∧ (sign = [] ∨ sign = ['-']) ∧ IsDigits e ∧
    text = [c] ++ '.' :: w ++ 'E' :: (sign ++ e)

/-- A character that is no digit does not occur among digits. -/
theorem not_mem_of_isDigits {c : Char} (hu : IsDigits u) (hc : isDigit c = false) : c ∉ u := by
  intro hmem
  rw [hu.2 c hmem] at hc
  cases hc

/-- No numeral begins with a sign. -/
theorem ne_cons_of_numeral {text : List Char} (h : IsPlainNumeral text ∨ IsExponentNumeral text) {c : Char}
    (hc : isDigit c = false) (v : List Char) : text ≠ c :: v := by
  have hhead : ∃ d w, text = d :: w ∧ isDigit d = true := by
    rcases h with ⟨u, w, hu, -, rfl⟩ | ⟨d, w, sign, e, hd, -, -, -, rfl⟩
    · obtain ⟨d, v, rfl, hd⟩ := hu.head
      exact ⟨d, _, rfl, hd⟩
    · exact ⟨d, _, rfl, hd⟩
  obtain ⟨d, w, rfl, hd⟩ := hhead
  intro heq
  cases heq
  rw [hc] at hd
  cases hd

/-- There is no mark of an exponent in a plain numeral. -/
theorem mark_not_mem (hu : IsDigits u) (hw : IsDigits w) : 'E' ∉ u ++ '.' :: w := by
  rw [List.mem_append, List.mem_cons, not_or, not_or]
  exact ⟨not_mem_of_isDigits hu rfl, by decide, not_mem_of_isDigits hw rfl⟩

/-- A numeral with a point stands for its digits, moved by those behind the point. -/
theorem ofNumeral_plain (hu : IsDigits u) (hw : IsDigits w) :
    ofNumeral (u ++ '.' :: w) = ⟨ofDigits (u ++ w), -(w.length : Int)⟩ := by
  have hall : ∀ c ∈ u ++ '.' :: w, decide (c ≠ 'E') = true := by
    intro c hc
    refine decide_eq_true fun heq => mark_not_mem hu hw ?_
    rw [← heq]
    exact hc
  rw [ofNumeral, List.takeWhile_eq_self_iff.mpr hall, List.dropWhile_eq_nil_iff.mpr hall,
    ofPointed_eq w (not_mem_of_isDigits hu rfl)]
  show Decimal.mk _ (_ + 0) = _
  rw [add_zero]

/-- An exponent moves the point once more. -/
theorem ofNumeral_exponent (hu : IsDigits u) (hw : IsDigits w) (e : List Char) :
    ofNumeral (u ++ '.' :: w ++ 'E' :: e) = ⟨ofDigits (u ++ w), -(w.length : Int) + ofSigned e⟩ := by
  obtain ⟨htake, hdrop⟩ := divided_at e (mark_not_mem hu hw)
  rw [ofNumeral, htake, hdrop, ofPointed_eq w (not_mem_of_isDigits hu rfl)]
  rfl

/-! ## Positional layout -/

/-- Digits with more digits behind them. -/
theorem isDigits_append (hu : IsDigits u) (hw : ∀ c ∈ w, isDigit c = true) : IsDigits (u ++ w) := by
  refine ⟨List.append_ne_nil_of_left_ne_nil hu.1 w, fun c hc => ?_⟩
  rcases List.mem_append.mp hc with hc | hc
  · exact hu.2 c hc
  · exact hw c hc

/-- Zeros are digits. -/
theorem isDigit_of_mem_zeros {n : Nat} {c : Char} (hc : c ∈ zeros n) : isDigit c = true := by
  rw [List.eq_of_mem_replicate hc]
  rfl

/-- Zeros stand for zero, however many there are. -/
theorem ofDigits_zeros (n : Nat) : ofDigits (zeros n) = 0 := by
  induction n with
  | zero => rfl
  | succ n ih =>
    show ofDigits ('0' :: zeros n) = 0
    rw [← List.singleton_append, ofDigits_append, ih]
    show 0 * _ + 0 = 0
    omega

theorem length_zeros (n : Nat) : (zeros n).length = n := List.length_replicate

/-- One digit is enough. -/
theorem isDigits_cons_nil {c : Char} (hc : isDigit c = true) : IsDigits [c] := by
  refine ⟨List.cons_ne_nil c [], fun x hx => ?_⟩
  rw [List.mem_singleton.mp hx]
  exact hc

/-- **The positional layout** is a plain numeral that stands for the decimal. -/
theorem positional_spec (d : Decimal) :
    IsPlainNumeral d.positional ∧ (ofNumeral d.positional).value = d.value := by
  have hdigits : IsDigits d.digits := isDigits_toDigits d.coefficient
  have hvalue : ofDigits d.digits = d.coefficient := ofDigits_toDigits d.coefficient
  rw [positional]
  split
  · next hexponent =>
    have hu : IsDigits (d.digits ++ zeros d.exponent.toNat) :=
      isDigits_append hdigits fun c hc => isDigit_of_mem_zeros hc
    have hw : IsDigits ['0'] := isDigits_cons_nil rfl
    have hread : ofDigits (d.digits ++ zeros d.exponent.toNat ++ ['0'])
        = d.coefficient * 10 ^ d.exponent.toNat * 10 := by
      rw [ofDigits_append, ofDigits_append, hvalue, ofDigits_zeros, length_zeros]
      rfl
    have hnat : ((d.exponent.toNat : Nat) : Int) = d.exponent := Int.toNat_of_nonneg hexponent
    refine ⟨⟨_, _, hu, hw, rfl⟩, ?_⟩
    rw [ofNumeral_plain hu hw, hread, value, value, ← hnat, zpow_natCast]
    push_cast
    show _ * (10 : Rat) ^ (-1 : Int) = _
    rw [zpow_neg_one, mul_inv_cancel_right₀ (by norm_num)]
    rfl
  · next hexponent =>
    dsimp only
    generalize hplaces : (-d.exponent).toNat = places
    generalize hpadded : zeros (places + 1 - d.digits.length) ++ d.digits = padded
    -- there is a digit before the point, and there are as many behind it as there are places
    have hall : ∀ c ∈ padded, isDigit c = true := by
      intro c hc
      rw [← hpadded] at hc
      exact (List.mem_append.mp hc).elim isDigit_of_mem_zeros (hdigits.2 c)
    have hlength : places + 1 ≤ padded.length := by
      rw [← hpadded, List.length_append, length_zeros]
      omega
    have hread : ofDigits padded = d.coefficient := by
      rw [← hpadded, ofDigits_append, ofDigits_zeros, hvalue, zero_mul, zero_add]
    have hplace : (padded.drop (padded.length - places)).length = places := by
      rw [List.length_drop]
      omega
    have hu : IsDigits (padded.take (padded.length - places)) := by
      refine ⟨List.ne_nil_of_length_pos ?_, fun c hc => hall c (List.mem_of_mem_take hc)⟩
      rw [List.length_take]
      omega
    have hw : IsDigits (padded.drop (padded.length - places)) := by
      refine ⟨List.ne_nil_of_length_pos ?_, fun c hc => hall c (List.mem_of_mem_drop hc)⟩
      omega
    refine ⟨⟨_, _, hu, hw, rfl⟩, ?_⟩
    have hexponent' : -(places : Int) = d.exponent := by omega
    rw [ofNumeral_plain hu hw, List.take_append_drop, hread, hplace, hexponent']

/-! ## Trimming -/

/-- Taking a zero from the end changes no value, in any number of rounds. -/
theorem value_trimRounds (rounds : Nat) (d : Decimal) : (trimRounds rounds d).value = d.value := by
  induction rounds generalizing d with
  | zero => rfl
  | succ rounds ih =>
    rw [trimRounds]
    split
    · next hzero =>
      have hdiv : (d.coefficient : Rat) = (d.coefficient / 10 : Nat) * 10 := by
        exact_mod_cast (Nat.div_mul_cancel (Nat.dvd_of_mod_eq_zero hzero)).symm
      rw [ih, value, value, zpow_add_one₀ (by norm_num), hdiv]
      ring
    · rfl

/-- Zeros at the end do not count. -/
theorem value_trim (d : Decimal) : d.trim.value = d.value := by
  rw [trim]
  split
  · next hzero => rw [value, value, hzero, Nat.cast_zero, zero_mul, zero_mul]
  · exact value_trimRounds _ d

/-- With as many rounds as digits, no zero is left at the end. -/
theorem trimRounds_last_ne_zero (rounds : Nat) (d : Decimal) (hne : d.coefficient ≠ 0)
    (hlt : d.coefficient < 10 ^ rounds) : (trimRounds rounds d).coefficient % 10 ≠ 0 := by
  induction rounds generalizing d with
  | zero =>
    rw [Nat.pow_zero] at hlt
    omega
  | succ rounds ih =>
    rw [Nat.pow_succ] at hlt
    rw [trimRounds]
    split
    · exact ih _ (by dsimp only; omega) (by dsimp only; omega)
    · next hlast => exact hlast

/-- A coefficient is bounded by the number of its digits. -/
theorem coefficient_lt (d : Decimal) : d.coefficient < 10 ^ d.digits.length :=
  (Nat.length_toDigits_le_iff (by decide) Nat.length_toDigits_pos).mp le_rfl

/-- Without zeros at the end, decimals that stand for one number are one decimal. -/
theorem eq_of_value_eq {a b : Decimal} (ha : a.coefficient % 10 ≠ 0) (hb : b.coefficient % 10 ≠ 0)
    (h : a.value = b.value) : a = b := by
  wlog hle : a.exponent ≤ b.exponent generalizing a b
  · exact (this hb ha h.symm (le_of_not_ge hle)).symm
  · have hcoefficient : a.coefficient = b.coefficient * 10 ^ (b.exponent - a.exponent).toNat := by
      rw [value_eq_of_le hle, value] at h
      exact_mod_cast mul_right_cancel₀ (ten_zpow_pos a.exponent).ne' h
    rcases eq_or_lt_of_le hle with heq | hlt
    · rw [heq, sub_self, Int.toNat_zero, Nat.pow_zero, Nat.mul_one] at hcoefficient
      cases a
      cases b
      rw [Decimal.mk.injEq]
      exact ⟨hcoefficient, heq⟩
    · obtain ⟨k, hk⟩ : ∃ k : Nat, (b.exponent - a.exponent).toNat = k + 1 :=
        ⟨(b.exponent - a.exponent).toNat - 1, by omega⟩
      rw [hcoefficient, hk, Nat.pow_succ, ← Nat.mul_assoc, Nat.mul_mod_left] at ha
      exact absurd rfl ha

/-- A decimal that is trimmed ends in no zero. -/
theorem trim_last_ne_zero {d : Decimal} (h : d.coefficient ≠ 0) : d.trim.coefficient % 10 ≠ 0 := by
  rw [trim, if_neg h]
  exact trimRounds_last_ne_zero _ d h d.coefficient_lt

/-- **Decimals that stand for one number are trimmed alike.** -/
theorem trim_eq_of_value_eq {a b : Decimal} (hpos : 0 < a.value) (h : a.value = b.value) :
    a.trim = b.trim := by
  have hne : ∀ d : Decimal, 0 < d.value → d.coefficient ≠ 0 := by
    intro d hd hzero
    rw [value, hzero, Nat.cast_zero, zero_mul] at hd
    exact lt_irrefl 0 hd
  refine eq_of_value_eq (trim_last_ne_zero (hne a hpos)) (trim_last_ne_zero (hne b (h ▸ hpos))) ?_
  rw [value_trim, value_trim, h]

/-- The leading digit of a decimal other than zero. -/
theorem leading_spec {d : Decimal} (hpos : 0 < d.value) :
    (10 : Rat) ^ d.leading ≤ d.value ∧ d.value < (10 : Rat) ^ (d.leading + 1) := by
  have hpow := ten_zpow_pos d.exponent
  obtain ⟨n, hn⟩ : ∃ n, d.digits.length = n + 1 :=
    ⟨d.digits.length - 1, (Nat.sub_add_cancel Nat.length_toDigits_pos).symm⟩
  have hleading : d.leading = n + d.exponent := by
    rw [leading, hn]
    push_cast
    ring
  constructor
  · have hle : 10 ^ n ≤ d.coefficient := by
      rcases Nat.eq_zero_or_pos n with rfl | hnpos
      · refine Nat.one_le_iff_ne_zero.mpr fun hzero => ?_
        rw [value, hzero, Nat.cast_zero, zero_mul] at hpos
        exact lt_irrefl 0 hpos
      · by_contra hlt
        have hlen := (Nat.length_toDigits_le_iff (by decide) hnpos).mpr (not_le.mp hlt)
        have hlen' : (Nat.toDigits 10 d.coefficient).length = n + 1 := hn
        omega
    rw [hleading, ten_zpow_add_natCast, value]
    exact mul_le_mul_of_nonneg_right (by exact_mod_cast hle) hpow.le
  · have hlt := d.coefficient_lt
    rw [hn] at hlt
    rw [hleading, show (n : Int) + d.exponent + 1 = ((n + 1 : Nat) : Int) + d.exponent by push_cast; ring,
      ten_zpow_add_natCast, value]
    exact mul_lt_mul_of_pos_right (by exact_mod_cast hlt) hpow

/-! ## Exponent layout -/

/-- An exponent is printed with a minus sign if it is negative, and then its digits. -/
theorem exponentText_printed (e : Int) :
    exponentText printedStyle e = (if e < 0 then ['-'] else []) ++ Nat.toDigits 10 e.natAbs := by
  have hlength : 1 - (Nat.toDigits 10 e.natAbs).length = 0 := by
    have := Nat.length_toDigits_pos (b := 10) (n := e.natAbs)
    omega
  show (if e < 0 then ['-'] else []) ++ zeros (1 - (Nat.toDigits 10 e.natAbs).length) ++ _ = _
  rw [hlength]
  show _ ++ [] ++ _ = _
  rw [List.append_nil]

/-- Digits without a sign are read as a natural number. -/
theorem ofSigned_of_isDigits (hu : IsDigits u) : ofSigned u = ofDigits u := by
  obtain ⟨c, w, rfl, hc⟩ := hu.head
  unfold ofSigned
  split
  · next heq =>
    cases heq
    cases hc
  · rfl

/-- A printed exponent is read back. -/
theorem ofSigned_exponentText (e : Int) : ofSigned (exponentText printedStyle e) = e := by
  rw [exponentText_printed]
  split
  · show -(ofDigits (Nat.toDigits 10 e.natAbs) : Int) = e
    rw [ofDigits_toDigits]
    omega
  · rw [List.nil_append, ofSigned_of_isDigits (isDigits_toDigits _), ofDigits_toDigits]
    omega

/-- A printed exponent is digits with a minus sign at most in front. -/
theorem exponentText_isSigned (e : Int) :
    ∃ sign w, (sign = [] ∨ sign = ['-']) ∧ IsDigits w ∧ exponentText printedStyle e = sign ++ w := by
  refine ⟨_, _, ?_, isDigits_toDigits e.natAbs, exponentText_printed e⟩
  split
  · exact Or.inr rfl
  · exact Or.inl rfl

/-- **The exponent layout** is an exponent numeral that stands for the decimal. -/
theorem scientific_spec (d : Decimal) :
    IsExponentNumeral (d.scientific printedStyle) ∧
      (ofNumeral (d.scientific printedStyle)).value = d.value := by
  have hdigits : IsDigits d.digits := isDigits_toDigits d.coefficient
  have hvalue : ofDigits d.digits = d.coefficient := ofDigits_toDigits d.coefficient
  obtain ⟨c, rest, hcons, hc⟩ := hdigits.head
  have hleading : d.leading = d.exponent + rest.length := by
    rw [leading, hcons, List.length_cons]
    push_cast
    ring
  -- the digits behind the point, which are a zero if the decimal has none
  have hmantissa : ∃ w, IsDigits w ∧
      d.scientific printedStyle = [c] ++ '.' :: w ++ 'E' :: exponentText printedStyle d.leading ∧
      ofDigits ([c] ++ w) * (10 : Rat) ^ (-(w.length : Int) + d.leading) = d.value := by
    cases rest with
    | nil =>
      refine ⟨['0'], isDigits_cons_nil rfl, ?_, ?_⟩
      · rw [scientific, hcons]
        rfl
      · rw [ofDigits_append, ← hcons, hvalue, hleading, value]
        show ((d.coefficient * 10 + 0 : Nat) : Rat) * 10 ^ (-1 + (d.exponent + 0)) = _
        rw [add_zero, add_zero, zpow_add₀ (by norm_num), zpow_neg_one]
        push_cast
        ring
    | cons c' rest =>
      refine ⟨c' :: rest, ⟨List.cons_ne_nil _ _, fun x hx => ?_⟩, ?_, ?_⟩
      · refine hdigits.2 x ?_
        rw [hcons]
        exact List.mem_cons_of_mem c hx
      · rw [scientific, hcons]
        rfl
      · have hexponent : -((c' :: rest).length : Int) + d.leading = d.exponent := by omega
        rw [List.singleton_append, ← hcons, hvalue, hexponent]
        rfl
  obtain ⟨w, hw, htext, hread⟩ := hmantissa
  obtain ⟨sign, e, hsign, he, hexponent⟩ := exponentText_isSigned d.leading
  constructor
  · refine ⟨c, w, sign, e, hc, hw, hsign, he, ?_⟩
    rw [htext, hexponent]
  · rw [htext, ofNumeral_exponent (isDigits_cons_nil hc) hw, ofSigned_exponentText]
    exact hread

end Decimal

end CalcScript
