import CalcScript.Proofs.Packrat.Layers
import CalcScript.Proofs.Packrat.Termination

/-!
# Errors aside, checks change nothing

A result that is checked and found to be an error ends the reading. Two grammars that differ in
nothing but a check read alike for as long as the check finds nothing:

> `Grammar.readForm_trusts`: what the grammar with the check reads is one of the errors that the
> check finds in the code, or no error, and then it is what the other grammar reads.

Where neither grammar has a check, this says that no reading is an error.
-/

namespace CalcScript.Packrat

variable {ρ : Type} {Res : ρ → Type} {α β : Type} {P : String → Prop}

/-- The second reading is the same as the first, or the first is an error, one of the given ones. -/
def Reading.Trusts (P : String → Prop) : Option (Reading α) → Option (Reading α) → Prop
  | none, _ => True
  | some (.error message), _ => P message
  | some (.matched a stop reach), o' => o' = some (.matched a stop reach)
  | some (.failed reach), o' => o' = some (.failed reach)

namespace Reading.Trusts

variable {o o' p p' : Option (Reading α)}

theorem after (h : Trusts P o o') (n : Nat) :
    Trusts P (o.map (Reading.after n)) (o'.map (Reading.after n)) := by
  match o, h with
  | none, _ => trivial
  | some (.error message), h => exact h
  | some (.matched a stop reach), h => cases h; rfl
  | some (.failed reach), h => cases h; rfl

theorem map (h : Trusts P o o') (f : α → β) :
    Trusts P (o.map (Reading.map f)) (o'.map (Reading.map f)) := by
  match o, h with
  | none, _ => trivial
  | some (.error message), h => exact h
  | some (.matched a stop reach), h => cases h; rfl
  | some (.failed reach), h => cases h; rfl

theorem orFailAt (h : Trusts P o o') (pos : Nat) :
    Trusts P (o.map (Reading.orFailAt pos)) (o'.map (Reading.orFailAt pos)) := by
  match o, h with
  | none, _ => trivial
  | some (.error message), h => exact h
  | some (.matched a stop reach), h => cases h; rfl
  | some (.failed reach), h => cases h; rfl

theorem andThen {next next' : α → Nat → Option (Reading β)} (h : Trusts P o o')
    (hnext : ∀ a stop, Trusts P (next a stop) (next' a stop)) :
    Trusts P (Reading.andThen o next) (Reading.andThen o' next') := by
  match o, h with
  | none, _ => trivial
  | some (.error message), h => exact h
  | some (.matched a stop reach), h => cases h; exact (hnext a stop).after reach
  | some (.failed reach), h => cases h; rfl

theorem orElse (h : Trusts P o o') (h' : Trusts P p p') (pos : Nat) :
    Trusts P (Reading.orElse pos o p) (Reading.orElse pos o' p') := by
  match o, h with
  | none, _ => trivial
  | some (.error message), h => exact h
  | some (.matched a stop reach), h => cases h; rfl
  | some (.failed reach), h =>
    cases h
    have hboth := (h'.orFailAt pos).after reach
    rw [Option.map_map, Option.map_map] at hboth
    exact hboth

end Reading.Trusts

theorem readMany_trusts {step step' : Nat → Option (Reading α)}
    (h : ∀ pos, Reading.Trusts P (step pos) (step' pos)) :
    ∀ rounds pos, Reading.Trusts P (readMany step rounds pos) (readMany step' rounds pos) := by
  intro rounds
  induction rounds with
  | zero => intro pos; rfl
  | succ rounds ih =>
    intro pos
    have hstep := h pos
    rw [readMany, readMany]
    generalize step pos = o, step' pos = o' at hstep
    cases o with
    | none => trivial
    | some reading =>
      cases reading with
      | error message => exact hstep
      | failed reach => cases hstep; rfl
      | matched a stop reach =>
        cases hstep
        dsimp only
        split
        next => rfl
        next =>
          have hrest := ((ih stop).map (a :: ·)).after reach
          rw [Option.map_map, Option.map_map] at hrest
          exact hrest

/-- A form without checks is read alike with two readers, errors of the first aside. -/
theorem Form.read_trusts {code : Array Char} {reader reader' : Reader ρ Res}
    (hcalls : ∀ r pos, Reading.Trusts P (reader r pos) (reader' r pos)) (form : Form ρ Res α)
    (hform : form.unchecked = true) (pos : Nat) :
    Reading.Trusts P (form.read code reader pos) (form.read code reader' pos) := by
  induction form generalizing pos with
  | pattern m => rw [Form.read, Form.read]; split <;> rfl
  | endOfInput => rw [Form.read, Form.read]; split <;> rfl
  | skip a => rfl
  | fail => rfl
  | pair f g ihf ihg =>
    rw [Form.unchecked, Bool.and_eq_true] at hform
    exact (ihf hform.1 pos).andThen fun a mid =>
      (ihg hform.2 mid).andThen fun b stop => rfl
  | map h f ih => exact (ih hform pos).andThen fun a stop => rfl
  | refine h f ih =>
    refine (ih hform pos).andThen fun a stop => ?_
    cases h a <;> rfl
  | checked e f ih => cases hform
  | orElse f g ihf ihg =>
    rw [Form.unchecked, Bool.and_eq_true] at hform
    exact (ihf hform.1 pos).orElse (ihg hform.2 pos) pos
  | optional f ih =>
    have hinner := ih hform pos
    rw [Form.read, Form.read]
    generalize f.read code reader pos = o, f.read code reader' pos = o' at hinner
    cases o with
    | none => trivial
    | some reading =>
      cases reading with
      | error message => exact hinner
      | matched a stop reach => cases hinner; rfl
      | failed reach => cases hinner; rfl
  | many f ih => exact readMany_trusts (ih hform) _ pos
  | call r => exact hcalls r pos

namespace Grammar

variable {G H : Grammar ρ Res} {L : Layers ρ} {code : Array Char}

/-- The rules of the grammars have the same form, without checks, or forms that are read alike but
for the errors of the first. -/
def Trusts (G H : Grammar ρ Res) (P : String → Prop) (code : Array Char) : Prop :=
  ∀ r, (G r).form.unchecked = true ∧ (H r).form = (G r).form ∨
    ∀ reader reader' pos,
      Reading.Trusts P ((G r).form.read code reader pos) ((H r).form.read code reader' pos)

/-- Calls are read alike, errors aside: by induction on the depth. -/
theorem Trusts.readRule (h : G.Trusts H P code) :
    ∀ depth r pos, Reading.Trusts P (G.readRule code depth r pos) (H.readRule code depth r pos) := by
  intro depth
  induction depth with
  | zero => intro r pos; trivial
  | succ depth ih =>
    intro r pos
    rw [Grammar.readRule, Grammar.readRule]
    rcases h r with ⟨hform, hsame⟩ | hforms
    · rw [hsame]
      exact Form.read_trusts ih _ hform pos
    · exact hforms _ _ pos

/-- **Errors aside, checks change nothing.** In grammars with the same layers, a form without checks
is read alike, or else its reading is one of the errors. -/
theorem readForm_trusts (h : G.Trusts H P code) (hG : G.Layered L) (hH : H.Layered L)
    (form : Form ρ Res α) (hform : form.unchecked = true) :
    (∃ message, G.readForm hG code form 0 = .error message ∧ P message) ∨
      (∀ message, G.readForm hG code form 0 ≠ .error message) ∧
      H.readForm hH code form 0 = G.readForm hG code form 0 := by
  have hread : Reading.Trusts P (form.read code (G.reader code L.height) 0)
      (form.read code (H.reader code L.height) 0) := Form.read_trusts (h.readRule _) form hform 0
  rw [read_eq_readForm hG, read_eq_readForm hH] at hread
  cases hrd : G.readForm hG code form 0 with
  | error message => rw [hrd] at hread; exact .inl ⟨message, rfl, hread⟩
  | matched a stop reach =>
    rw [hrd] at hread
    exact .inr ⟨fun _ h => (by cases h), Option.some.inj hread⟩
  | failed reach =>
    rw [hrd] at hread
    exact .inr ⟨fun _ h => (by cases h), Option.some.inj hread⟩

end Grammar

end CalcScript.Packrat
