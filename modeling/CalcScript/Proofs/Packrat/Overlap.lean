import CalcScript.Proofs.Packrat.Layers
import CalcScript.Proofs.Packrat.TextAt

/-!
# Codes that overlap

Two codes overlap if positions of the first, those that are covered, have the same surroundings `k`
positions further on in the second, as far as some lexemes can see. What is made of these lexemes
then reads alike in both codes.

> `Overlap.form_carried`, `Overlap.reader_carried`: what is read from a covered position of the
> first code is read `k` positions further on in the second, with the same result.

One way to overlap is that a whole code stands behind another text (`Overlap.behind`); everything is
read alike there, the end of the input too.
-/

namespace CalcScript.Packrat

variable {ρ : Type} {Res : ρ → Type} {α β : Type}

/-! ## Readings at two places -/

/-- The second reading is the first one `k` positions further on. What the second has of failures
before `k` does not count. -/
def Reading.Moved (k : Nat) : Reading α → Reading α → Prop
  | .matched a stop reach, .matched a' stop' reach' =>
    a' = a ∧ stop' = stop + k ∧ max k reach' = reach + k
  | .failed reach, .failed reach' => max k reach' = reach + k
  | .error message, .error message' => message' = message
  | _, _ => False

/-- The reading is a match that ends at a covered position, or it is no match. -/
def Reading.EndsIn (covers : Nat → Prop) : Reading α → Prop
  | .matched _ stop _ => covers stop
  | .failed _ => True
  | .error _ => True

/-- What is read at one place is read alike at another one `k` positions further on. -/
def Carried (covers : Nat → Prop) (k : Nat) (o o' : Option (Reading α)) : Prop :=
  ∀ rd, o = some rd → rd.EndsIn covers ∧ ∃ rd', o' = some rd' ∧ rd.Moved k rd'

namespace Reading.Moved

variable {k : Nat} {rd rd' : Reading α}

/-- A match that is moved ends as many characters later. -/
theorem eq_matched {a : α} {stop reach : Nat} (h : (Reading.matched a stop reach).Moved k rd') :
    ∃ reach', rd' = .matched a (stop + k) reach' ∧ max k reach' = reach + k := by
  cases rd' with
  | matched a' stop' reach' =>
    obtain ⟨rfl, rfl, hreach⟩ := h
    exact ⟨reach', rfl, hreach⟩
  | failed reach' => exact h.elim
  | error message => exact h.elim

/-- A failure that is moved has failed as many characters later. -/
theorem eq_failed {reach : Nat} (h : (Reading.failed reach : Reading α).Moved k rd') :
    ∃ reach', rd' = .failed reach' ∧ max k reach' = reach + k := by
  cases rd' with
  | matched a' stop' reach' => exact h.elim
  | failed reach' => exact ⟨reach', rfl, h⟩
  | error message => exact h.elim

/-- An error has no position to be moved. -/
theorem eq_error {message : String} (h : (Reading.error message : Reading α).Moved k rd') :
    rd' = .error message := by
  cases rd' with
  | matched a' stop' reach' => exact h.elim
  | failed reach' => exact h.elim
  | error message' => exact congrArg Reading.error h

/-- A reading that is moved by nothing is the same. -/
theorem eq_of_zero (h : rd.Moved 0 rd') : rd' = rd := by
  cases rd with
  | matched a stop reach =>
    obtain ⟨reach', rfl, hreach⟩ := h.eq_matched
    rw [Nat.zero_max] at hreach
    rw [hreach]
    rfl
  | failed reach =>
    obtain ⟨reach', rfl, hreach⟩ := h.eq_failed
    rw [Nat.zero_max] at hreach
    rw [hreach]
    rfl
  | error message => exact h.eq_error

/-- Failures that went before are counted alike. -/
theorem after {n n' : Nat} (hn : max k n' = n + k) (h : rd.Moved k rd') :
    (rd.after n).Moved k (rd'.after n') := by
  cases rd with
  | matched a stop reach =>
    obtain ⟨reach', rfl, hreach⟩ := h.eq_matched
    exact ⟨rfl, rfl, by omega⟩
  | failed reach =>
    obtain ⟨reach', rfl, hreach⟩ := h.eq_failed
    exact show max k (max n' reach') = max n reach + k by omega
  | error message =>
    obtain rfl := h.eq_error
    rfl

/-- A failure at one more position is moved with it. -/
theorem orFailAt (h : rd.Moved k rd') (p : Nat) : (rd.orFailAt p).Moved k (rd'.orFailAt (p + k)) := by
  cases rd with
  | matched a stop reach =>
    obtain ⟨reach', rfl, hreach⟩ := h.eq_matched
    exact ⟨rfl, rfl, hreach⟩
  | failed reach =>
    obtain ⟨reach', rfl, hreach⟩ := h.eq_failed
    exact show max k (max reach' (p + k)) = max reach p + k by omega
  | error message =>
    obtain rfl := h.eq_error
    rfl

/-- A change of the result is not touched by moving. -/
theorem map (f : α → β) (h : rd.Moved k rd') : (rd.map f).Moved k (rd'.map f) := by
  cases rd with
  | matched a stop reach =>
    obtain ⟨reach', rfl, hreach⟩ := h.eq_matched
    exact ⟨rfl, rfl, hreach⟩
  | failed reach =>
    obtain ⟨reach', rfl, hreach⟩ := h.eq_failed
    exact hreach
  | error message =>
    obtain rfl := h.eq_error
    rfl

end Reading.Moved

namespace Reading.EndsIn

variable {covers : Nat → Prop} {rd : Reading α}

theorem after (h : rd.EndsIn covers) (n : Nat) : (rd.after n).EndsIn covers := by
  cases rd <;> exact h

theorem orFailAt (h : rd.EndsIn covers) (p : Nat) : (rd.orFailAt p).EndsIn covers := by
  cases rd <;> exact h

theorem map (h : rd.EndsIn covers) (f : α → β) : (rd.map f).EndsIn covers := by
  cases rd <;> exact h

end Reading.EndsIn

namespace Carried

variable {covers : Nat → Prop} {k p : Nat} {o o' : Option (Reading α)}

theorem matched (hp : covers p) (a : α) :
    Carried covers k (some (.matched a p 0)) (some (.matched a (p + k) 0)) := by
  intro rd h
  cases h
  exact ⟨hp, _, rfl, rfl, rfl, by omega⟩

theorem failed (p : Nat) :
    Carried covers k (some (.failed p : Reading α)) (some (.failed (p + k))) := by
  intro rd h
  cases h
  exact ⟨trivial, _, rfl, show max k (p + k) = p + k by omega⟩

theorem error (message : String) :
    Carried covers k (some (.error message : Reading α)) (some (.error message)) := by
  intro rd h
  cases h
  exact ⟨trivial, _, rfl, rfl⟩

/-- A sequence is carried over if its parts are, the second behind each match of the first. -/
theorem andThen {next next' : α → Nat → Option (Reading β)} (h : Carried covers k o o')
    (hnext : ∀ a stop, covers stop → Carried covers k (next a stop) (next' a (stop + k))) :
    Carried covers k (Reading.andThen o next) (Reading.andThen o' next') := by
  intro rd hrd
  cases o with
  | none => cases hrd
  | some x =>
    obtain ⟨hends, x', rfl, hmoved⟩ := h x rfl
    cases x with
    | failed reach =>
      cases hrd
      obtain ⟨reach', rfl, hreach⟩ := hmoved.eq_failed
      exact ⟨trivial, _, rfl, hreach⟩
    | error message =>
      cases hrd
      obtain rfl := hmoved.eq_error
      exact ⟨trivial, _, rfl, rfl⟩
    | matched a stop reach =>
      obtain ⟨reach', rfl, hreach⟩ := hmoved.eq_matched
      rw [Reading.andThen_matched] at hrd ⊢
      obtain ⟨y, hy, rfl⟩ := Option.map_eq_some_iff.mp hrd
      obtain ⟨hends', y', hy', hmoved'⟩ := hnext a stop hends y hy
      rw [hy']
      exact ⟨hends'.after reach, _, rfl, hmoved'.after hreach⟩

/-- A choice is carried over if both alternatives are. -/
theorem orElse {second second' : Option (Reading α)} (h : Carried covers k o o')
    (hsecond : Carried covers k second second') :
    Carried covers k (Reading.orElse p o second) (Reading.orElse (p + k) o' second') := by
  intro rd hrd
  cases o with
  | none => cases hrd
  | some x =>
    obtain ⟨hends, x', rfl, hmoved⟩ := h x rfl
    cases x with
    | matched a stop reach =>
      cases hrd
      obtain ⟨reach', rfl, hreach⟩ := hmoved.eq_matched
      exact ⟨hends, _, rfl, hmoved⟩
    | error message =>
      cases hrd
      obtain rfl := hmoved.eq_error
      exact ⟨trivial, _, rfl, rfl⟩
    | failed reach =>
      obtain ⟨reach', rfl, hreach⟩ := hmoved.eq_failed
      obtain ⟨y, hy, rfl⟩ := Option.map_eq_some_iff.mp hrd
      obtain ⟨hends', y', rfl, hmoved'⟩ := hsecond y hy
      exact ⟨(hends'.orFailAt p).after reach, _, rfl, (hmoved'.orFailAt p).after hreach⟩

/-- A repetition is read alike if its step is. The rounds do not matter as long as they outnumber
the characters that are left. -/
theorem many {size size' : Nat} {taking : Bool} {step step' : Nat → Option (Reading α)}
    (hinside : ∀ q, covers q → q ≤ size ∧ q + k ≤ size')
    (hadv : ∀ q x, step q = some x → x.Advances size q taking)
    (hstep : ∀ q, covers q → Carried covers k (step q) (step' (q + k))) :
    ∀ (rounds rounds' q : Nat), covers q → size - q < rounds → size' - (q + k) < rounds' →
      Carried covers k (readMany step rounds q) (readMany step' rounds' (q + k)) := by
  intro rounds
  induction rounds with
  | zero => intro rounds' q _ hlt; omega
  | succ rounds ih =>
    intro rounds' q hq hlt hlt' rd hrd
    cases rounds' with
    | zero => omega
    | succ rounds' =>
      rw [readMany] at hrd ⊢
      cases hx : step q with
      | none => rw [hx] at hrd; cases hrd
      | some x =>
        obtain ⟨hends, x', hx', hmoved⟩ := hstep q hq x hx
        have hadv := hadv q x hx
        rw [hx] at hrd
        rw [hx']
        cases x with
        | failed reach =>
          cases hrd
          obtain ⟨reach', rfl, hreach⟩ := hmoved.eq_failed
          exact ⟨hq, _, rfl, rfl, rfl, hreach⟩
        | error message =>
          cases hrd
          obtain rfl := hmoved.eq_error
          exact ⟨trivial, _, rfl, rfl⟩
        | matched a stop reach =>
          obtain ⟨reach', rfl, hreach⟩ := hmoved.eq_matched
          dsimp only at hrd ⊢
          by_cases hs : stop = q
          · rw [if_pos hs] at hrd
            rw [if_pos (by omega : stop + k = q + k)]
            cases hrd
            exact ⟨hends, _, rfl, rfl, rfl, hreach⟩
          · rw [if_neg hs] at hrd
            rw [if_neg (by omega : ¬stop + k = q + k)]
            obtain ⟨y, hy, rfl⟩ := Option.map_eq_some_iff.mp hrd
            -- the step has taken a character, of both codes
            obtain ⟨hle, hmax, _⟩ := hadv
            obtain ⟨hsize, hsize'⟩ := hinside stop hends
            obtain ⟨hends', y', hy', hmoved'⟩ :=
              ih rounds' stop hends (by omega) (by omega) y hy
            rw [hy']
            exact ⟨(hends'.map _).after reach, _, rfl, (hmoved'.map _).after hreach⟩

end Carried

/-! ## Forms made of some lexemes -/

/-- The matcher is one of certain lexemes. -/
def Matcher.madeOf (lexemes : Lexeme → Bool) : Matcher → Bool
  | .lexeme l => lexemes l
  | .scanner _ => false

/-- A form that is made of lexemes has no other matchers. -/
theorem Matcher.eq_lexeme_of_madeOf {lexemes : Lexeme → Bool} {m : Matcher}
    (h : m.madeOf lexemes = true) : ∃ l, m = .lexeme l ∧ lexemes l = true := by
  cases m with
  | lexeme l => exact ⟨l, rfl, h⟩
  | scanner m => cases h

/-- The form is made of certain lexemes and calls of certain rules; the end of the input may be
asked for or not. -/
def Form.madeOf (lexemes : Lexeme → Bool) (atEnd : Bool) (rules : ρ → Bool) :
    {α : Type} → Form ρ Res α → Bool
  | _, .pattern m => m.madeOf lexemes
  | _, .endOfInput => atEnd
  | _, .skip _ => true
  | _, .fail => true
  | _, .pair f g => f.madeOf lexemes atEnd rules && g.madeOf lexemes atEnd rules
  | _, .map _ f => f.madeOf lexemes atEnd rules
  | _, .refine _ f => f.madeOf lexemes atEnd rules
  | _, .checked _ f => f.madeOf lexemes atEnd rules
  | _, .orElse f g => f.madeOf lexemes atEnd rules && g.madeOf lexemes atEnd rules
  | _, .optional f => f.madeOf lexemes atEnd rules
  | _, .many f => f.madeOf lexemes atEnd rules
  | _, .call r => rules r

/-- Two codes that look alike from covered positions of the first, `k` positions further on in the
second, to certain lexemes. -/
structure Overlap (code code' : Array Char) (k : Nat) where
  covers : Nat → Prop
  lexemes : Lexeme → Bool
  /-- The codes end alike. -/
  atEnd : Bool
  inside {p : Nat} : covers p → p ≤ code.size ∧ p + k ≤ code'.size
  stop?_eq {l : Lexeme} {p : Nat} : lexemes l = true → covers p →
    l.stop? code' (p + k) = (l.stop? code p).map (· + k)
  stop?_covered {l : Lexeme} {p stop : Nat} : lexemes l = true → covers p →
    l.stop? code p = some stop →
    covers stop ∧ textBetween code' (p + k) (stop + k) = textBetween code p stop
  end_iff {p : Nat} : atEnd = true → covers p → (p + k = code'.size ↔ p = code.size)

namespace Overlap

variable {code code' : Array Char} {k : Nat} {reader reader' : Reader ρ Res} {takes : ρ → Bool}
  {rules : ρ → Bool}

/-- What is made of lexemes that see no difference is read alike if the calls in it are. -/
theorem form_carried (O : Overlap code code' k) (hadv : reader.Advances code.size takes)
    (hcalls : ∀ r, rules r = true → ∀ p, O.covers p →
      Carried O.covers k (reader r p) (reader' r (p + k)))
    (form : Form ρ Res α) (hform : form.madeOf O.lexemes O.atEnd rules = true) :
    ∀ p, O.covers p →
      Carried O.covers k (form.read code reader p) (form.read code' reader' (p + k)) := by
  induction form with
  | pattern m =>
    intro p hp
    obtain ⟨l, rfl, hform⟩ := Matcher.eq_lexeme_of_madeOf hform
    rw [Form.read, Form.read, Matcher.stop?, Matcher.stop?, O.stop?_eq hform hp]
    cases hstop : l.stop? code p with
    | none => exact .failed p
    | some stop =>
      obtain ⟨hcovers, htext⟩ := O.stop?_covered hform hp hstop
      rw [Option.map_some]
      dsimp only
      rw [htext]
      exact .matched hcovers _
  | endOfInput =>
    intro p hp
    have hend := O.end_iff hform hp
    rw [Form.read, Form.read]
    by_cases h : p = code.size
    · rw [if_pos h, if_pos (hend.mpr h)]
      exact .matched hp _
    · rw [if_neg h, if_neg fun h' => h (hend.mp h')]
      exact .failed p
  | skip a => intro p hp; exact .matched hp a
  | fail => intro p hp; exact .failed p
  | pair f g ihf ihg =>
    intro p hp
    rw [Form.madeOf, Bool.and_eq_true] at hform
    refine (ihf hform.1 p hp).andThen fun a mid hmid => ?_
    exact (ihg hform.2 mid hmid).andThen fun b stop hstop => .matched hstop _
  | map h f ih =>
    intro p hp
    exact (ih hform p hp).andThen fun a stop hstop => .matched hstop _
  | refine h f ih =>
    intro p hp
    refine (ih hform p hp).andThen fun a stop hstop => ?_
    cases h a with
    | none => exact .failed stop
    | some b => exact .matched hstop b
  | checked e f ih =>
    intro p hp
    refine (ih hform p hp).andThen fun a stop hstop => ?_
    cases e a with
    | none => exact .matched hstop a
    | some message => exact .error message
  | orElse f g ihf ihg =>
    intro p hp
    rw [Form.madeOf, Bool.and_eq_true] at hform
    exact (ihf hform.1 p hp).orElse (ihg hform.2 p hp)
  | optional f ih =>
    intro p hp rd hrd
    rw [Form.read] at hrd ⊢
    cases hx : f.read code reader p with
    | none => rw [hx] at hrd; cases hrd
    | some x =>
      obtain ⟨hends, x', hx', hmoved⟩ := ih hform p hp x hx
      rw [hx] at hrd
      rw [hx']
      cases x with
      | failed reach =>
        cases hrd
        obtain ⟨reach', rfl, hreach⟩ := hmoved.eq_failed
        exact ⟨hp, _, rfl, rfl, rfl, hreach⟩
      | error message =>
        cases hrd
        obtain rfl := hmoved.eq_error
        exact ⟨trivial, _, rfl, rfl⟩
      | matched a stop reach =>
        cases hrd
        obtain ⟨reach', rfl, hreach⟩ := hmoved.eq_matched
        exact ⟨hends, _, rfl, rfl, rfl, hreach⟩
  | many f ih =>
    intro p hp
    have hsize := O.inside hp
    exact Carried.many (fun q hq => O.inside hq) (Form.read_advances hadv f) (ih hform) _ _ p hp
      (by omega) (by omega)
  | call r => intro p hp; exact hcalls r hform p hp

variable {G : Grammar ρ Res} {L : Layers ρ}

/-- Rules made of lexemes that see no difference are read alike. -/
theorem reader_carried (O : Overlap code code' k) (hG : G.Layered L)
    (hrules : ∀ r, rules r = true → (G r).form.madeOf O.lexemes O.atEnd rules = true) (r : ρ)
    (hr : rules r = true) (p : Nat) (hp : O.covers p) :
    Carried O.covers k (G.reader code L.height r p) (G.reader code' L.height r (p + k)) := by
  -- to one depth of calls in both codes, and then for the depths of both readers
  have hdepth : ∀ depth r, rules r = true → ∀ p, O.covers p →
      Carried O.covers k (G.readRule code depth r p) (G.readRule code' depth r (p + k)) := by
    intro depth
    induction depth with
    | zero => intro r _ p _ rd hrd; cases hrd
    | succ depth ih =>
      intro r hr p hp
      exact O.form_carried (Grammar.readRule_advances hG.takes depth) ih (G r).form
        (hrules r hr) p hp
  intro rd hrd
  obtain ⟨hends, rd', hrd', hmoved⟩ := hdepth _ r hr p hp rd hrd
  obtain ⟨rd'', hrd''⟩ := Option.isSome_iff_exists.mp (Grammar.reader_isSome hG code' r (p + k))
  have heq : rd'' = rd' := Grammar.Reads.unique ⟨_, hrd''⟩ ⟨_, hrd'⟩
  exact ⟨hends, rd', heq ▸ hrd'', hmoved⟩

/-- Forms made of lexemes that see no difference are read alike by the readers of a grammar. -/
theorem read_carried (O : Overlap code code' k) (hG : G.Layered L)
    (hrules : ∀ r, rules r = true → (G r).form.madeOf O.lexemes O.atEnd rules = true)
    (form : Form ρ Res α) (hform : form.madeOf O.lexemes O.atEnd rules = true) (p : Nat)
    (hp : O.covers p) :
    Carried O.covers k (form.read code (G.reader code L.height) p)
      (form.read code' (G.reader code' L.height) (p + k)) :=
  O.form_carried (Grammar.readRule_advances hG.takes _) (O.reader_carried hG hrules) form hform p
    hp

end Overlap

/-! ## Where codes overlap -/

/-- A lexeme that takes as much of a text in one code as of a text in another stops alike and reads
the same. -/
theorem Lexeme.stop?_alike {code code' : Array Char} {l : Lexeme} {p k : Nat} {w w' : List Char}
    (hw : TextFrom code p w) (hw' : TextFrom code' (p + k) w') (htaken : l.taken? w' = l.taken? w) :
    l.stop? code' (p + k) = (l.stop? code p).map (· + k) ∧
    ∀ stop, l.stop? code p = some stop →
      textBetween code' (p + k) (stop + k) = textBetween code p stop := by
  rw [Lexeme.stop?_eq hw, Lexeme.stop?_eq hw', htaken]
  cases ht : l.taken? w with
  | none => exact ⟨rfl, fun stop h => by cases h⟩
  | some t =>
    rw [Lexeme.taken?_append ht] at hw
    rw [Lexeme.taken?_append (htaken.trans ht)] at hw'
    constructor
    · show some (p + k + t.length) = some (p + t.length + k)
      rw [Nat.add_right_comm]
    · intro stop h
      cases h
      rw [hw.textBetween, Nat.add_right_comm, hw'.textBetween]

/-- The lexeme takes no more than there is. -/
theorem Lexeme.length_le_of_taken? {l : Lexeme} {w t : List Char} (h : l.taken? w = some t) :
    t.length ≤ w.length := by
  have hlen := congrArg List.length (Lexeme.taken?_append h)
  rw [List.length_append] at hlen
  omega

/-- What stands in a code stands in the longer one as well, moved. -/
theorem textFrom_behind (u w : List Char) (p : Nat) :
    TextFrom (u ++ w).toArray (p + u.length) (w.drop p) := by
  rw [TextFrom, Nat.add_comm, ← List.drop_drop, List.drop_left]

/-- The longer code is longer by the text in front. -/
theorem size_behind (u w : List Char) : (u ++ w).toArray.size = w.toArray.size + u.length := by
  rw [List.size_toArray, List.size_toArray, List.length_append, Nat.add_comm]

/-- A lexeme takes the same characters behind a text that is put in front. -/
theorem Lexeme.stop?_behind (u : List Char) {w : List Char} {l : Lexeme} {p stop : Nat}
    (hp : p ≤ w.toArray.size) (h : l.stop? w.toArray p = some stop) :
    stop ≤ w.toArray.size ∧
      textBetween (u ++ w).toArray (p + u.length) (stop + u.length) =
        textBetween w.toArray p stop := by
  have hstop := (Lexeme.stop?_advances h).2.1
  exact ⟨by omega, (Lexeme.stop?_alike rfl (textFrom_behind u w p) rfl).2 stop h⟩

/-- A text that stands behind another one reads as it does by itself. -/
def Overlap.behind (u w : List Char) : Overlap w.toArray (u ++ w).toArray u.length where
  covers p := p ≤ w.toArray.size
  lexemes _ := true
  atEnd := true
  inside h := ⟨h, size_behind u w ▸ Nat.add_le_add_right h _⟩
  stop?_eq _ _ := (Lexeme.stop?_alike rfl (textFrom_behind u w _) rfl).1
  stop?_covered _ hp h := Lexeme.stop?_behind u hp h
  end_iff _ _ := size_behind u w ▸ Nat.add_right_cancel_iff

end CalcScript.Packrat
