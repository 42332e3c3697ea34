import CalcScript.Proofs.Packrat.Errors
import CalcScript.Proofs.Packrat.Matching
import CalcScript.Source.Reading

/-!
# What settles the reading of a source

A source is read with a memo table and a budget for nested calls. What it is read as is settled by
the loops of the grammar alone:

> `readWith_settled`: if the budget suffices, a source is accepted with the result that the loops
> read, and rejected where their reading has failed furthest; and an error that they come to is a
> failure.
> `parse_of_readForm`: for all large budgets recognition ends as the loops read.

`readWith_eq_ok_iff` and `recognises_iff` say so of acceptance alone, in terms of matches.

> `readWith_trusts`: a source that is not read with a failure is read as loops without checks say.
-/

namespace CalcScript

open Packrat

variable {ρ : Type} [DecidableEq ρ] {Res : ρ → Type} {α : Type}

/-- The source is rejected because calls are nested too deeply. -/
def NestedTooDeeply : Except Unreadable α → Prop
  | .error (.rejected r) => r.cause = .tooDeep
  | _ => False

instance (o : Except Unreadable α) : Decidable (NestedTooDeeply o) :=
  match o with
  | .ok _ => inferInstanceAs (Decidable False)
  | .error (.rejected r) => inferInstanceAs (Decidable (r.cause = .tooDeep))
  | .error (.failure _) => inferInstanceAs (Decidable False)

/-- What is accepted is not nested too deeply. -/
theorem not_nestedTooDeeply {o : Except Unreadable α} {a : α} (h : o = .ok a) :
    ¬NestedTooDeeply o := by
  rw [h]
  exact id

/-- How a source is rejected: why, and where in the text that was read and in the source. -/
def rejectedAt : Except Unreadable α → Option (RejectionCause × Nat × Nat)
  | .error (.rejected r) => some (r.cause, r.reached, r.index)
  | _ => none

theorem exists_of_rejectedAt {o : Except Unreadable α} {cause : RejectionCause}
    {reached index : Nat} (h : rejectedAt o = some (cause, reached, index)) :
    ∃ r, o = .error (.rejected r) ∧ r.cause = cause ∧ r.reached = reached ∧ r.index = index := by
  match o, h with
  | .error (.rejected r), h =>
    cases h
    exact ⟨r, rfl, rfl, rfl, rfl⟩

/-- The reading of a code settles what its source is read as: the result of the match, a rejection
that points to where the furthest failure lies in the source, or a failure for an error. -/
def Packrat.Reading.Settles (toSource : Nat → Nat) (rd : Reading α) (o : Except Unreadable α) :
    Prop :=
  match rd with
  | .matched a _ _ => o = .ok a
  | .failed reach =>
    ∃ r, o = .error (.rejected r) ∧ r.cause = .invalid ∧ r.reached = reach ∧
      r.index = toSource reach
  | .error message => o = .error (.failure message)

section

variable {L : Layers ρ} {G H : Grammar ρ Res}

/-- With any budget that is large enough, recognition ends as the loops of the grammar read. -/
theorem parse_of_readForm (hGH : G.Unrolls L H) (hH : H.Layered L) (code : Array Char)
    (form : Form ρ Res α) {budget : Nat} (hle : L.height * (code.size + 1) ≤ budget) :
    (G.parse code budget form .start).Agrees (fun s reach => s.furthest = reach)
      (H.readForm hH code form 0) :=
  Grammar.recognise_start_agrees hGH
    (Form.read_mono (Grammar.readRule_mono hle) form 0 _ (Grammar.read_eq_readForm hH code form 0))

/-- A source that is not nested too deeply is read as the loops of the grammar say. -/
theorem readWith_settled (hGH : G.Unrolls L H) (hH : H.Layered L) (whole : Form ρ Res α)
    (source : String) (code : List Char) (toSource : Nat → Nat)
    (h : ¬NestedTooDeeply (readWith G whole source code toSource)) :
    (H.readForm hH code.toArray whole 0).Settles toSource
      (readWith G whole source code toSource) := by
  -- the budget of sources need not cover all depths, the larger of the two does
  have hlarge := parse_of_readForm hGH hH code.toArray whole
    (Nat.le_max_right nestingBudget (L.height * (code.toArray.size + 1)))
  have hdecided : (G.parse code.toArray nestingBudget whole .start).Decided := by
    rw [readWith] at h
    cases ho : G.parse code.toArray nestingBudget whole .start with
    | matched a s => trivial
    | failed s => trivial
    | stopped cause s =>
      rw [ho] at h
      cases cause with
      | tooDeep => exact absurd rfl h
      | error message => exact Stop.noConfusion
  have hsame : G.parse code.toArray (max nestingBudget (L.height * (code.toArray.size + 1)))
      whole .start = G.parse code.toArray nestingBudget whole .start :=
    Grammar.recognise_mono (Nat.le_max_left _ _) whole _ hdecided
  rw [hsame] at hlarge
  rw [readWith]
  cases hrd : H.readForm hH code.toArray whole 0 with
  | matched a stop reach =>
    rw [hrd] at hlarge
    obtain ⟨s, hs, _⟩ := hlarge.eq_matched
    rw [hs]
    rfl
  | failed reach =>
    rw [hrd] at hlarge
    obtain ⟨s, hs, hfur⟩ := hlarge.eq_failed
    rw [hs]
    exact ⟨_, rfl, rfl, hfur, congrArg toSource hfur⟩
  | error message =>
    rw [hrd] at hlarge
    obtain ⟨s, hs⟩ := hlarge.eq_error
    rw [hs]
    rfl

/-- A source that is not nested too deeply ends in a failure, one that the checks of the loops find
in the code, or it is read as loops without these checks say. -/
theorem readWith_trusts {K : Grammar ρ Res} (hGH : G.Unrolls L H) (hH : H.Layered L)
    (hK : K.Layered L) {P : String → Prop} {whole : Form ρ Res α} (hwhole : whole.unchecked = true)
    (source : String) (code : List Char) (toSource : Nat → Nat) (htrusts : H.Trusts K P code.toArray)
    (h : ¬NestedTooDeeply (readWith G whole source code toSource)) :
    (∃ message, readWith G whole source code toSource = .error (.failure message) ∧ P message) ∨
      (∀ message, readWith G whole source code toSource ≠ .error (.failure message)) ∧
      (K.readForm hK code.toArray whole 0).Settles toSource
        (readWith G whole source code toSource) := by
  have hsettled := readWith_settled hGH hH whole source code toSource h
  rcases Grammar.readForm_trusts htrusts hH hK whole hwhole with
    ⟨message, herror, hmessage⟩ | ⟨hne, hsame⟩
  · rw [herror] at hsettled
    exact .inl ⟨message, hsettled, hmessage⟩
  · rw [hsame]
    refine .inr ⟨fun message hfailure => ?_, hsettled⟩
    cases hrd : H.readForm hH code.toArray whole 0 with
    | matched a stop reach => rw [hrd, hfailure] at hsettled; cases hsettled
    | failed reach => rw [hrd, hfailure] at hsettled; obtain ⟨r, heq, -⟩ := hsettled; cases heq
    | error message => exact hne message hrd

/-- A failure is one that the checks of the loops find in the code. -/
theorem failure_of_trusts {K : Grammar ρ Res} (hGH : G.Unrolls L H) (hH : H.Layered L)
    (hK : K.Layered L) {P : String → Prop} {whole : Form ρ Res α} (hwhole : whole.unchecked = true)
    {source : String} {code : List Char} {toSource : Nat → Nat}
    (htrusts : H.Trusts K P code.toArray) {message : String}
    (h : readWith G whole source code toSource = .error (.failure message)) : P message := by
  have hdepth : ¬NestedTooDeeply (readWith G whole source code toSource) := by rw [h]; exact id
  rcases readWith_trusts hGH hH hK hwhole source code toSource htrusts hdepth with
    ⟨message', heq, hmessage⟩ | ⟨hne, -⟩
  · rw [h] at heq
    cases heq
    exact hmessage
  · exact absurd h (hne message)

/-! ## Acceptance -/

/-- With all budgets that are large enough, the form is recognised at the start of the code. -/
def Packrat.Grammar.Recognises (G : Grammar ρ Res) (code : Array Char) (form : Form ρ Res α)
    (a : α) : Prop :=
  ∃ enough, ∀ budget, enough ≤ budget → ∃ s, G.parse code budget form .start = .matched a s

omit [DecidableEq ρ] in
theorem matches_iff_readForm (hH : H.Layered L) {code : Array Char} {form : Form ρ Res α} {a : α} :
    (∃ q, form.Matches code (H.reader code L.height) 0 a q) ↔
      ∃ q reach, H.readForm hH code form 0 = .matched a q reach := by
  constructor
  · intro hread
    obtain ⟨q, reach, h⟩ := hread
    rw [Grammar.read_eq_readForm hH] at h
    exact ⟨q, reach, Option.some.inj h⟩
  · intro hread
    obtain ⟨q, reach, h⟩ := hread
    exact ⟨q, reach, by rw [Grammar.read_eq_readForm hH, h]⟩

/-- A form is recognised if the loops of the grammar match it, budgets aside. -/
theorem recognises_iff (hGH : G.Unrolls L H) (hH : H.Layered L) {code : Array Char}
    {form : Form ρ Res α} {a : α} :
    G.Recognises code form a ↔ ∃ q, form.Matches code (H.reader code L.height) 0 a q := by
  rw [matches_iff_readForm hH]
  have hparse : ∀ budget, L.height * (code.size + 1) ≤ budget →
      (G.parse code budget form .start).Agrees (fun s reach => s.furthest = reach)
        (H.readForm hH code form 0) :=
    fun _ => parse_of_readForm hGH hH code form
  constructor
  · intro hread
    obtain ⟨enough, henough⟩ := hread
    obtain ⟨s, hs⟩ := henough _ (Nat.le_max_left enough (L.height * (code.size + 1)))
    have hagrees := hparse _ (Nat.le_max_right enough (L.height * (code.size + 1)))
    rw [hs] at hagrees
    cases hrd : H.readForm hH code form 0 with
    | matched b q reach =>
      rw [hrd] at hagrees
      obtain ⟨rfl, _⟩ := hagrees
      exact ⟨q, reach, rfl⟩
    | failed reach => rw [hrd] at hagrees; exact hagrees.elim
    | error message => rw [hrd] at hagrees; exact hagrees.elim
  · intro hread
    obtain ⟨q, reach, hrd⟩ := hread
    refine ⟨L.height * (code.size + 1), fun budget hle => ?_⟩
    have hagrees := hparse budget hle
    rw [hrd] at hagrees
    obtain ⟨s, hs, _⟩ := hagrees.eq_matched
    exact ⟨s, hs⟩

omit [DecidableEq ρ] in
/-- What a source is read as is settled by the loops: it is accepted with what they match. -/
theorem Packrat.Reading.Settles.eq_ok_iff (hH : H.Layered L) {whole : Form ρ Res α}
    {code : Array Char} {toSource : Nat → Nat} {o : Except Unreadable α} {a : α}
    (h : (H.readForm hH code whole 0).Settles toSource o) :
    o = .ok a ↔ ∃ q, whole.Matches code (H.reader code L.height) 0 a q := by
  rw [matches_iff_readForm hH]
  cases hrd : H.readForm hH code whole 0 with
  | matched b q reach =>
    rw [hrd] at h
    have hok : o = .ok b := h
    rw [hok]
    constructor
    · intro heq; cases heq; exact ⟨q, reach, rfl⟩
    · intro hread
      obtain ⟨q', reach', heq⟩ := hread
      cases heq
      rfl
  | failed reach =>
    rw [hrd] at h
    obtain ⟨r, hr, _⟩ := h
    rw [hr]
    constructor
    · intro heq; cases heq
    · intro hread
      obtain ⟨q', reach', heq⟩ := hread
      cases heq
  | error message =>
    rw [hrd] at h
    have hfailure : o = .error (.failure message) := h
    rw [hfailure]
    constructor
    · intro heq; cases heq
    · intro hread
      obtain ⟨q', reach', heq⟩ := hread
      cases heq

/-- A source that is not nested too deeply is accepted with what the loops match. -/
theorem readWith_eq_ok_iff (hGH : G.Unrolls L H) (hH : H.Layered L) {whole : Form ρ Res α}
    {source : String} {code : List Char} {toSource : Nat → Nat} {a : α}
    (h : ¬NestedTooDeeply (readWith G whole source code toSource)) :
    readWith G whole source code toSource = .ok a ↔
      ∃ q, whole.Matches code.toArray (H.reader code.toArray L.height) 0 a q :=
  (readWith_settled hGH hH whole source code toSource h).eq_ok_iff hH

end

end CalcScript
