import CalcScript.Grammar.Number
import CalcScript.Proofs.Decimal.Digits
import CalcScript.Proofs.Packrat.Errors
import CalcScript.Proofs.Packrat.TextForm

/-!
# Literals and operators

What both grammars read literals and operators as. A literal is read where its digits end: what
stands behind it must not go on with a digit, and behind an integer literal there must be no point
either, since a literal with a point is tried first.
-/

namespace CalcScript.Grammar

open Packrat

variable {ρ : Type} {Res : ρ → Type} {readers : Array Char → Reader ρ Res} {code : Array Char}
  {reader : Reader ρ Res} {p q : Nat} {t u w rest : List Char} {e : Node} {ops : List Operator}
  {op : Operator} {error? : String → Option String}

/-- Decimal digits, at least one. -/
def IsDigits (w : List Char) : Prop := w ≠ [] ∧ ∀ c ∈ w, isDigit c = true

/-- The number that digits around a point stand for. -/
def pointedValue (u w : List Char) : Rat :=
  Decimal.ofDigits u + Decimal.ofDigits w / 10 ^ w.length

/-- The digits of ASCII stand one after the other. -/
theorem isDigit_iff {c : Char} : isDigit c = true ↔ '0' ≤ c ∧ c ≤ '9' := by
  rw [isDigit, Bool.and_eq_true, decide_eq_true_iff, decide_eq_true_iff]

/-- The first of some digits is one. -/
theorem IsDigits.head (h : IsDigits w) : ∃ c v, w = c :: v ∧ isDigit c = true := by
  obtain ⟨hne, hall⟩ := h
  cases w with
  | nil => exact absurd rfl hne
  | cons c v => exact ⟨c, v, rfl, hall c List.mem_cons_self⟩

/-- A literal with a point is the number that its digits stand for, in single precision. -/
theorem floatOfPointed_eq (hu : IsDigits u) (w : List Char) :
    floatOfPointed (String.ofList (u ++ '.' :: w))
      = .float (Floating.readSingle false (pointedValue u w)) := by
  have hpoint : '.' ∉ u := fun hmem => Bool.noConfusion (hu.2 '.' hmem)
  rw [floatOfPointed, String.toList_ofList, Decimal.value_ofPointed w hpoint]
  rfl

/-! ## Where digits are converted -/

/-- The text has a part of digits that the host complains about when it converts them. -/
def Unconvertible (text : List Char) (message : String) : Prop :=
  ∃ w, w <:+: text ∧ IsDigits w ∧ conversionError? (String.ofList w) = some message

/-- Digits that are not too many are converted. -/
theorem conversionError?_eq_none (h : t.length ≤ conversionLimit) :
    conversionError? (String.ofList t) = none := by
  rw [conversionError?, String.toList_ofList]
  exact if_neg fun hlimits => Nat.not_lt.mpr h hlimits.2

/-- Digits that the host complains about are too many. -/
theorem Unconvertible.long {text : List Char} {message : String} (h : Unconvertible text message) :
    ∃ w, w <:+: text ∧ IsDigits w ∧ conversionLimit < w.length := by
  obtain ⟨w, hpart, hdigits, herror⟩ := h
  refine ⟨w, hpart, hdigits, Nat.lt_of_not_le fun hle => ?_⟩
  rw [conversionError?_eq_none hle] at herror
  cases herror

/-- Digits of any number are converted. -/
def noError (_ : String) : Option String := none

/-- If digits of any number were converted, an integer literal would be read alike, unless the host
complains about it. -/
theorem checkedInt_trusts {reader' : Reader ρ Res} :
    Reading.Trusts (Unconvertible code.toList)
      ((checkedInt conversionError? : Form ρ Res Node).read code reader p)
      ((checkedInt noError : Form ρ Res Node).read code reader' p) := by
  refine Reading.Trusts.andThen ?_ fun text stop => by cases intOfDigits text <;> rfl
  rw [Form.read, Form.read, Form.read, Form.read]
  cases hstop : Matcher.stop? code (.lexeme [.many1 isDigit]) p with
  | none => rfl
  | some stop =>
    rw [Reading.andThen_matched, Reading.andThen_matched]
    have hmatch : (Form.lexeme [.many1 isDigit] : Form ρ Res String).Matches code reader p
        (textBetween code p stop) stop := ⟨0, by rw [Form.read, hstop]⟩
    obtain ⟨t, hto, ⟨t₁, t₂, rfl, hdigits, rfl⟩, htext⟩ := hmatch.lexeme
    rw [List.append_nil] at hto htext
    rw [htext]
    cases herror : conversionError? (String.ofList t₁) with
    | none => rfl
    | some message => exact ⟨t₁, hto.isInfix, hdigits, herror⟩

/-- With digits of any number converted, reading an integer literal comes to no error. -/
theorem checkedInt_noError_trusts {reader' : Reader ρ Res} :
    Reading.Trusts (fun _ => False) ((checkedInt noError : Form ρ Res Node).read code reader p)
      ((checkedInt noError : Form ρ Res Node).read code reader' p) := by
  refine Reading.Trusts.andThen ?_ fun text stop => by cases intOfDigits text <;> rfl
  rw [Form.read, Form.read, Form.read, Form.read]
  cases Matcher.stop? code (.lexeme [.many1 isDigit]) p <;> rfl

/-! ## Where literals are read -/

/-- All digits are taken up to something that is none. -/
theorem digits_taken? (ht : IsDigits t) (hrest : NotStarting isDigit rest) :
    (Piece.many1 isDigit).taken? (t ++ rest) = some t :=
  Piece.taken?_many1 ht.1 ht.2 hrest

/-- Digits that pass the check are read as an integer, unless it is too large. -/
theorem checkedInt_parses (ht : IsDigits t) (hrest : NotStarting isDigit rest)
    (hle : Decimal.ofDigits t ≤ largestInt) (hconv : error? (String.ofList t) = none) :
    (checkedInt error? : Form ρ Res Node).Parses readers t rest (.int (Decimal.ofDigits t)) := by
  have hlex : Lexeme.taken? [.many1 isDigit] (t ++ rest) = some t := by
    rw [Lexeme.taken?_singleton]
    exact digits_taken? ht hrest
  refine ((Form.Parses.lexeme hlex).checked hconv).refine ?_
  rw [intOfDigits, String.toList_ofList]
  exact if_pos hle

/-- Digits with a point among them are read as a floating-point number. -/
theorem floatLiteral_parses (hu : IsDigits u) (ht : IsDigits t)
    (hrest : NotStarting isDigit rest) :
    (floatLiteral : Form ρ Res Node).Parses readers (u ++ '.' :: t) rest
      (.float (Floating.readSingle false (pointedValue u t))) := by
  have hpoint : NotStarting isDigit ('.' :: (t ++ rest)) := notStarting_cons rfl
  have hlex : Lexeme.taken? [.many1 isDigit, .one (· = '.'), .many1 isDigit]
      ((u ++ '.' :: t) ++ rest) = some (u ++ '.' :: t) := by
    have hone : (Piece.one (· = '.')).taken? (['.'] ++ (t ++ rest)) = some ['.'] :=
      Piece.taken?_one rfl
    rw [List.append_assoc, List.cons_append, Lexeme.taken?_cons (digits_taken? hu hpoint)]
    show (Lexeme.taken? _ (['.'] ++ (t ++ rest))).map (u ++ ·) = _
    rw [Lexeme.taken?_cons hone, Lexeme.taken?_singleton, digits_taken? ht hrest]
    rfl
  rw [← floatOfPointed_eq hu]
  exact (Form.Parses.lexeme hlex).map

/-- Digits with an error in them end the reading. -/
theorem checkedInt_breaks {message : String} (ht : IsDigits t) (hrest : NotStarting isDigit rest)
    (herror : error? (String.ofList t) = some message) :
    (checkedInt error? : Form ρ Res Node).Breaks readers (t ++ rest) message := by
  have hlex : Lexeme.taken? [.many1 isDigit] (t ++ rest) = some t := by
    rw [Lexeme.taken?_singleton]
    exact digits_taken? ht hrest
  exact ((Form.Parses.lexeme hlex).checked_breaks herror).refine

/-- No literal is read where no digit stands. -/
theorem checkedInt_refuses (h : NotStarting isDigit w) :
    (checkedInt error? : Form ρ Res Node).Refuses readers w :=
  (Form.Refuses.lexeme (Lexeme.taken?_cons_eq_none (Piece.taken?_many1_eq_none h))).checked.refine

/-- Neither is one with a point. -/
theorem floatLiteral_refuses (h : NotStarting isDigit w) :
    (floatLiteral : Form ρ Res Node).Refuses readers w :=
  (Form.Refuses.lexeme (Lexeme.taken?_cons_eq_none (Piece.taken?_many1_eq_none h))).map

/-- No literal with a point is read where digits stand with no point behind them. -/
theorem floatLiteral_refuses_digits (ht : IsDigits t) (hrest : NotStarting isDigit rest)
    (hpoint : rest.head? ≠ some '.') :
    (floatLiteral : Form ρ Res Node).Refuses readers (t ++ rest) := by
  refine (Form.Refuses.lexeme ?_).map
  have hone : (Piece.one (· = '.')).taken? rest = none :=
    Piece.taken?_one_eq_none fun c hc => decide_eq_false fun heq => hpoint (by rw [hc, heq])
  rw [Lexeme.taken?_cons (digits_taken? ht hrest), Lexeme.taken?_cons_eq_none hone]
  rfl

/-! ## What literals are read from -/

/-- An integer literal is read from digits that pass the check. -/
theorem matches_checkedInt
    (h : (checkedInt error? : Form ρ Res Node).Matches code reader p e q) :
    ∃ t, TextTo code p t q ∧ IsDigits t ∧ Decimal.ofDigits t ≤ largestInt ∧
      error? (String.ofList t) = none ∧ e = .int (Decimal.ofDigits t) := by
  obtain ⟨text, htext, hint⟩ := Form.matches_refine.mp h
  obtain ⟨hlexeme, hconv⟩ := Form.matches_checked.mp htext
  obtain ⟨t, hto, ⟨t₁, t₂, rfl, hdigits, rfl⟩, rfl⟩ := hlexeme.lexeme
  rw [List.append_nil] at hto hint hconv
  rw [intOfDigits, String.toList_ofList] at hint
  split at hint
  next hle => cases hint; exact ⟨t₁, hto, hdigits, hle, hconv, rfl⟩
  next => cases hint

/-- A floating-point literal is read from digits with a point among them. -/
theorem matches_floatLiteral
    (h : (floatLiteral : Form ρ Res Node).Matches code reader p e q) :
    ∃ u t, TextTo code p (u ++ '.' :: t) q ∧ IsDigits u ∧ IsDigits t ∧
      e = .float (Floating.readSingle false (pointedValue u t)) := by
  obtain ⟨text, htext, rfl⟩ := Form.matches_map.mp h
  obtain ⟨_, hto, ⟨u, _, rfl, hu, ⟨_, _, rfl, ⟨c, rfl, hc⟩, ⟨t, _, rfl, ht, rfl⟩⟩⟩, rfl⟩ :=
    htext.lexeme
  have hpoint : c = '.' := of_decide_eq_true hc
  rw [hpoint, List.append_nil, List.singleton_append] at hto ⊢
  exact ⟨u, t, hto, hu, ht, floatOfPointed_eq hu t⟩

/-! ## Operators -/

/-- No two operators are written alike. -/
theorem symbol_injective : Function.Injective symbol := by
  intro op op' h
  cases op <;> cases op' <;> first | rfl | exact absurd h (by decide)

/-- An operator is read where its character stands. -/
theorem oneOf_parses (h : op ∈ ops) :
    (oneOf ops : Form ρ Res Operator).Parses readers [symbol op] rest op := by
  induction ops with
  | nil => cases h
  | cons o ops ih =>
    by_cases ho : op = o
    · rw [ho]
      exact (Form.Parses.char.map).first_head
    · refine Form.Parses.first_tail (Form.Refuses.char ?_).map (ih ?_)
      · rintro heq
        exact ho (symbol_injective (Option.some.inj heq))
      · exact (List.mem_cons.mp h).resolve_left ho

/-- None is read where the character of none stands. -/
theorem oneOf_refuses (h : ∀ op ∈ ops, w.head? ≠ some (symbol op)) :
    (oneOf ops : Form ρ Res Operator).Refuses readers w := by
  refine Form.Refuses.first fun f hf => ?_
  obtain ⟨op, hop, rfl⟩ := List.mem_map.mp hf
  exact (Form.Refuses.char (h op hop)).map

/-- A character is read where it stands. -/
theorem matches_char {c : Char} {text : String}
    (h : (Form.char c : Form ρ Res String).Matches code reader p text q) : TextTo code p [c] q := by
  obtain ⟨t, hto, ⟨t₁, t₂, rfl, ⟨d, rfl, hd⟩, rfl⟩, rfl⟩ := h.lexeme
  have hdc : d = c := of_decide_eq_true hd
  rw [hdc] at hto
  exact hto

/-- An operator is read from its character. -/
theorem matches_oneOf (h : (oneOf ops : Form ρ Res Operator).Matches code reader p op q) :
    op ∈ ops ∧ TextTo code p [symbol op] q := by
  obtain ⟨f, hf, hmatch⟩ := h.first
  obtain ⟨op', hop, rfl⟩ := List.mem_map.mp hf
  obtain ⟨text, htext, rfl⟩ := Form.matches_map.mp hmatch
  exact ⟨hop, matches_char htext⟩

end CalcScript.Grammar
