import CalcScript.Proofs.Packrat.Reading

/-!
# Readings advance

Reading never goes back before the position it starts at nor beyond the end of the code, and a
failure is never before the position at which reading starts. `Form.takes` is a check on forms: a
form that passes it takes a character whenever it matches, provided that the rules do which are
said to.

> `Form.read_advances`, `Grammar.readRule_advances`: every reading advances, and takes a character
> where the check says so.

`readMany_stop_le_reach` is what it says of repetitions: a repetition of what takes characters stops
because its step fails there, never because it has run out of rounds.
-/

namespace CalcScript.Packrat

variable {ρ : Type} {Res : ρ → Type} {α β : Type}

/-! ## Forms that take a character -/

/-- The piece takes a character whenever it matches. -/
def Piece.takes : Piece → Bool
  | .one _ => true
  | .many1 _ => true
  | .many _ => false

/-- The matcher is known to take a character whenever it matches. -/
def Matcher.takes : Matcher → Bool
  | .lexeme l => l.any Piece.takes
  | .scanner _ => false

/-- The form takes a character whenever it matches, if the rules do for which `takesRule` says
so. A form that never matches passes too. -/
def Form.takes (takesRule : ρ → Bool) : {α : Type} → Form ρ Res α → Bool
  | _, .pattern m => m.takes
  | _, .endOfInput => false
  | _, .skip _ => false
  | _, .fail => true
  | _, .pair f g => f.takes takesRule || g.takes takesRule
  | _, .map _ f => f.takes takesRule
  | _, .refine _ f => f.takes takesRule
  | _, .checked _ f => f.takes takesRule
  | _, .orElse f g => f.takes takesRule && g.takes takesRule
  | _, .optional _ => false
  | _, .many _ => false
  | _, .call r => takesRule r

/-- A reading from `pos` of a code of a given size lies in the code from there on, and it ends
behind `pos` if it is one of what takes a character. -/
def Reading.Advances (size pos : Nat) (taking : Bool) : Reading α → Prop
  | .matched _ stop reach =>
    pos ≤ stop ∧ stop ≤ max pos size ∧ reach ≤ max pos size ∧ (taking = true → pos < stop)
  | .failed reach => pos ≤ reach ∧ reach ≤ max pos size
  | .error _ => True

/-- All readings of a reader advance. -/
def Reader.Advances (size : Nat) (takesRule : ρ → Bool) (reader : Reader ρ Res) : Prop :=
  ∀ r pos rd, reader r pos = some rd → rd.Advances size pos (takesRule r)

/-! ## Lexemes -/

theorem runEnd_le_max (accepts : Char → Bool) (code : Array Char) (rounds pos : Nat) :
    runEnd accepts code rounds pos ≤ max pos code.size := by
  rcases Nat.le_total pos code.size with hle | hle
  · have := runEnd_le_size accepts code rounds pos hle
    omega
  · cases rounds with
    | zero => exact Nat.le_max_left _ _
    | succ rounds =>
      have hnone : code[pos]? = none := Array.getElem?_eq_none hle
      rw [runEnd, hnone]
      exact Nat.le_max_left _ _

theorem Piece.stop?_advances {code : Array Char} {pos stop : Nat} {piece : Piece}
    (h : piece.stop? code pos = some stop) :
    pos ≤ stop ∧ stop ≤ max pos code.size ∧ (piece.takes = true → pos < stop) := by
  cases piece with
  | one accepts =>
    rw [Piece.stop?] at h
    split at h
    next c hc =>
      obtain ⟨hlt, _⟩ := Array.getElem?_eq_some_iff.mp hc
      split at h
      next => cases h; exact ⟨Nat.le_succ _, by omega, fun _ => Nat.lt_succ_self _⟩
      next => cases h
    next => cases h
  | many1 accepts =>
    have hle := le_runEnd accepts code (code.size - pos) pos
    have hmax := runEnd_le_max accepts code (code.size - pos) pos
    simp only [Piece.stop?] at h
    split at h
    next => cases h
    next hne => cases h; exact ⟨hle, hmax, fun _ => by omega⟩
  | many accepts =>
    simp only [Piece.stop?] at h
    cases h
    exact ⟨le_runEnd .., runEnd_le_max .., fun ht => by cases ht⟩

theorem Lexeme.stop?_advances {code : Array Char} {lexeme : Lexeme} :
    ∀ {pos stop : Nat}, lexeme.stop? code pos = some stop →
      pos ≤ stop ∧ stop ≤ max pos code.size ∧ (lexeme.any Piece.takes = true → pos < stop) := by
  induction lexeme with
  | nil =>
    intro pos stop h
    cases h
    exact ⟨Nat.le_refl _, Nat.le_max_left _ _, fun ht => by cases ht⟩
  | cons piece rest ih =>
    intro pos stop h
    rw [Lexeme.stop?] at h
    split at h
    next mid hmid =>
      obtain ⟨hle, hmax, htakes⟩ := Piece.stop?_advances hmid
      obtain ⟨hle', hmax', htakes'⟩ := ih h
      refine ⟨by omega, by omega, fun ht => ?_⟩
      rw [List.any_cons, Bool.or_eq_true] at ht
      rcases ht with ht | ht
      · have := htakes ht
        omega
      · have := htakes' ht
        omega
    next => cases h

theorem Matcher.stop?_advances {code : Array Char} {matcher : Matcher} {pos stop : Nat}
    (h : matcher.stop? code pos = some stop) :
    pos ≤ stop ∧ stop ≤ max pos code.size ∧ (matcher.takes = true → pos < stop) := by
  cases matcher with
  | lexeme l => exact Lexeme.stop?_advances h
  | scanner m =>
    obtain ⟨hle, hmax⟩ := m.bounds code pos stop h
    exact ⟨hle, hmax, fun ht => by cases ht⟩

/-! ## Forms -/

theorem Reading.andThen_advances {size pos : Nat} {taking taking' : Bool}
    {first : Option (Reading α)} {next : α → Nat → Option (Reading β)} {rd : Reading β}
    (hfirst : ∀ x, first = some x → x.Advances size pos taking)
    (hnext : ∀ a stop x, next a stop = some x → x.Advances size stop taking')
    (h : Reading.andThen first next = some rd) :
    rd.Advances size pos (taking || taking') := by
  cases first with
  | none => cases h
  | some x =>
    have hx := hfirst x rfl
    cases x with
    | failed reach => cases h; exact hx
    | error message => cases h; trivial
    | matched a stop reach =>
      rw [andThen_matched] at h
      obtain ⟨y, hy, rfl⟩ := Option.map_eq_some_iff.mp h
      have hy := hnext a stop y hy
      obtain ⟨hle, hmax, hreach, htakes⟩ := hx
      cases y with
      | error message => trivial
      | failed reach' =>
        obtain ⟨hle', hreach'⟩ := hy
        exact ⟨by omega, by omega⟩
      | matched b stop' reach' =>
        obtain ⟨hle', hmax', hreach', htakes'⟩ := hy
        refine ⟨by omega, by omega, by omega, fun ht => ?_⟩
        rcases Bool.or_eq_true _ _ ▸ ht with ht | ht
        · have := htakes ht
          omega
        · have := htakes' ht
          omega

/-- What goes on without taking anything leaves a reading as advanced as it was. -/
theorem Reading.andThen_advances_left {size pos : Nat} {taking : Bool}
    {first : Option (Reading α)} {next : α → Nat → Option (Reading β)} {rd : Reading β}
    (hfirst : ∀ x, first = some x → x.Advances size pos taking)
    (hnext : ∀ a stop x, next a stop = some x → x.Advances size stop false)
    (h : Reading.andThen first next = some rd) : rd.Advances size pos taking := by
  have hadv := Reading.andThen_advances hfirst hnext h
  rwa [Bool.or_false] at hadv

theorem Reading.matched_advances (a : α) (size pos : Nat) :
    (Reading.matched a pos 0).Advances size pos false :=
  ⟨Nat.le_refl _, Nat.le_max_left _ _, Nat.zero_le _, fun ht => by cases ht⟩

theorem Reading.failed_advances (size pos : Nat) (taking : Bool) :
    (Reading.failed pos : Reading α).Advances size pos taking :=
  ⟨Nat.le_refl _, Nat.le_max_left _ _⟩

theorem readMany_advances {size : Nat} {step : Nat → Option (Reading α)} {taking : Bool}
    (hstep : ∀ pos x, step pos = some x → x.Advances size pos taking) :
    ∀ (rounds pos : Nat) (rd : Reading (List α)),
      readMany step rounds pos = some rd → rd.Advances size pos false := by
  intro rounds
  induction rounds with
  | zero => intro pos rd h; cases h; exact Reading.matched_advances _ _ _
  | succ rounds ih =>
    intro pos rd h
    rw [readMany] at h
    cases hx : step pos with
    | none => rw [hx] at h; cases h
    | some x =>
      have hadv := hstep pos x hx
      rw [hx] at h
      cases x with
      | failed reach =>
        cases h
        exact ⟨Nat.le_refl _, Nat.le_max_left _ _, hadv.2, fun ht => by cases ht⟩
      | error message => cases h; trivial
      | matched a stop reach =>
        obtain ⟨hle, hmax, hreach, _⟩ := hadv
        dsimp only at h
        by_cases hs : stop = pos
        · rw [if_pos hs] at h
          cases h
          exact ⟨hle, hmax, hreach, fun ht => by cases ht⟩
        · rw [if_neg hs] at h
          obtain ⟨y, hy, rfl⟩ := Option.map_eq_some_iff.mp h
          have hy := ih stop y hy
          cases y with
          | error message => trivial
          | failed reach' =>
            obtain ⟨hle', hreach'⟩ := hy
            exact ⟨by omega, by omega⟩
          | matched as stop' reach' =>
            obtain ⟨hle', hmax', hreach', _⟩ := hy
            exact ⟨by omega, by omega, by omega, fun ht => by cases ht⟩

/-- A form read with a reader whose readings advance has readings that advance. -/
theorem Form.read_advances {code : Array Char} {reader : Reader ρ Res} {takesRule : ρ → Bool}
    (hr : reader.Advances code.size takesRule) (form : Form ρ Res α) :
    ∀ (pos : Nat) (rd : Reading α), form.read code reader pos = some rd →
      rd.Advances code.size pos (form.takes takesRule) := by
  induction form with
  | pattern m =>
    intro pos rd h
    rw [Form.read] at h
    split at h
    next stop hstop =>
      cases h
      obtain ⟨hle, hmax, htakes⟩ := Matcher.stop?_advances hstop
      exact ⟨hle, hmax, Nat.zero_le _, htakes⟩
    next => cases h; exact Reading.failed_advances _ _ _
  | endOfInput =>
    intro pos rd h
    rw [Form.read] at h
    split at h
    next => cases h; exact Reading.matched_advances _ _ _
    next => cases h; exact Reading.failed_advances _ _ _
  | skip a => intro pos rd h; cases h; exact Reading.matched_advances _ _ _
  | fail => intro pos rd h; cases h; exact Reading.failed_advances _ _ _
  | pair f g ihf ihg =>
    intro pos rd h
    refine Reading.andThen_advances (ihf pos) (fun a mid x hx => ?_) h
    refine Reading.andThen_advances_left (ihg mid) (fun b stop y hy => ?_) hx
    cases hy
    exact Reading.matched_advances _ _ _
  | map k f ih =>
    intro pos rd h
    refine Reading.andThen_advances_left (ih pos) (fun a stop y hy => ?_) h
    cases hy
    exact Reading.matched_advances _ _ _
  | refine k f ih =>
    intro pos rd h
    refine Reading.andThen_advances_left (ih pos) (fun a stop y hy => ?_) h
    -- a refused result fails where its match has stopped
    split at hy
    · cases hy; exact Reading.matched_advances _ _ _
    · cases hy; exact Reading.failed_advances _ _ _
  | checked e f ih =>
    intro pos rd h
    refine Reading.andThen_advances_left (ih pos) (fun a stop y hy => ?_) h
    split at hy
    · cases hy; trivial
    · cases hy; exact Reading.matched_advances _ _ _
  | orElse f g ihf ihg =>
    intro pos rd h
    rw [Form.read] at h
    cases hx : f.read code reader pos with
    | none => rw [hx] at h; cases h
    | some x =>
      have hf := ihf pos x hx
      rw [hx] at h
      cases x with
      | error message => cases h; trivial
      | matched a stop reach =>
        cases h
        obtain ⟨hle, hmax, hreach, htakes⟩ := hf
        exact ⟨hle, hmax, hreach, fun ht => htakes (Bool.and_eq_true _ _ ▸ ht).1⟩
      | failed reach =>
        obtain ⟨y, hy, rfl⟩ := Option.map_eq_some_iff.mp h
        have hg := ihg pos y hy
        obtain ⟨hle, hreach⟩ := hf
        cases y with
        | error message => trivial
        | failed reach' =>
          obtain ⟨hle', hreach'⟩ := hg
          exact ⟨by omega, by omega⟩
        | matched b stop reach' =>
          obtain ⟨hle', hmax', hreach', htakes'⟩ := hg
          exact ⟨by omega, by omega, by omega, fun ht => htakes' (Bool.and_eq_true _ _ ▸ ht).2⟩
  | optional f ih =>
    intro pos rd h
    rw [Form.read] at h
    cases hx : f.read code reader pos with
    | none => rw [hx] at h; cases h
    | some x =>
      have hf := ih pos x hx
      rw [hx] at h
      cases x with
      | error message => cases h; trivial
      | matched a stop reach =>
        cases h
        exact ⟨hf.1, hf.2.1, hf.2.2.1, fun ht => by cases ht⟩
      | failed reach =>
        cases h
        exact ⟨Nat.le_refl _, Nat.le_max_left _ _, hf.2, fun ht => by cases ht⟩
  | many f ih =>
    intro pos rd h
    exact readMany_advances ih _ pos rd h
  | call r => intro pos rd h; exact hr r pos rd h

/-- Readings of rule calls advance if every rule that is said to take a character has a form that
does. -/
theorem Grammar.readRule_advances {G : Grammar ρ Res} {code : Array Char} {takesRule : ρ → Bool}
    (htakes : ∀ r, takesRule r = true → (G r).form.takes takesRule = true) :
    ∀ depth, (G.readRule code depth).Advances code.size takesRule
  | 0 => fun _ _ _ h => by cases h
  | depth + 1 => fun r pos rd h => by
    have hadv := Form.read_advances (readRule_advances htakes depth) (G r).form pos rd h
    cases rd with
    | failed reach => exact hadv
    | error message => trivial
    | matched a stop reach =>
      obtain ⟨hle, hmax, hreach, hlt⟩ := hadv
      exact ⟨hle, hmax, hreach, fun ht => hlt (htakes r ht)⟩

/-! ## Repetitions end with a failure -/

/-- A repetition of a step that takes characters stops where the step has failed, if there are more
rounds than characters. -/
theorem readMany_stop_le_reach {size : Nat} {step : Nat → Option (Reading α)}
    (hstep : ∀ pos x, step pos = some x → x.Advances size pos true) :
    ∀ (rounds pos : Nat) {items : List α} {stop reach : Nat}, size - pos < rounds →
      readMany step rounds pos = some (.matched items stop reach) → stop ≤ reach := by
  intro rounds
  induction rounds with
  | zero => intro pos items stop reach hlt _; omega
  | succ rounds ih =>
    intro pos items stop reach hlt h
    rw [readMany] at h
    cases hx : step pos with
    | none => rw [hx] at h; cases h
    | some x =>
      have hadv := hstep pos x hx
      rw [hx] at h
      cases x with
      | failed reach' => cases h; exact hadv.1
      | error message => cases h
      | matched a mid reach' =>
        -- each match leaves one character less, so the rounds last for the rest of the code
        obtain ⟨_, hmax, _, htakes⟩ := hadv
        have hmid : pos < mid := htakes rfl
        dsimp only at h
        rw [if_neg (by omega : ¬mid = pos)] at h
        obtain ⟨y, hy, he⟩ := Option.map_eq_some_iff.mp h
        cases y with
        | failed reach'' => cases he
        | error message => cases he
        | matched as stop' reach'' =>
          cases he
          have := ih mid (by omega) hy
          omega

end CalcScript.Packrat
