import CalcScript.Proofs.Packrat.Unrolling

/-!
# Memo tables change no outcome

A grammar without growing rules can be run with all its rules `plain`: nothing is recorded then, and
every call runs the form of its rule.

> `Grammar.recognise_allPlain`: if that comes to an end, recognition with the memo table comes to
> the same end, from the start of any code and for any form and rules.

Both sides follow one reading. With all rules `plain` the run is exact: it is too deep wherever the
reading is (`Grammar.allPlain_follows`). With the memo table it need not be, since a replayed call
goes no deeper.
-/

namespace CalcScript.Packrat

variable {ρ : Type} {Res : ρ → Type} {α : Type}

/-- The outcomes are the same: both match, with the same result and end, or both fail, and the
largest position at which anything has failed is the same. -/
def Outcome.Same : Outcome (Progress ρ Res) α → Outcome (Progress ρ Res) α → Prop
  | .matched a s, .matched b t => a = b ∧ s.pos = t.pos ∧ s.furthest = t.furthest
  | .failed s, .failed t => s.furthest = t.furthest
  | _, _ => False

/-- Outcomes that agree with one reading are the same, if one of them is a match or a failure. -/
theorem Outcome.Agrees.same {o o' : Outcome (Progress ρ Res) α} {rd : Reading α}
    (hfinished : o.Finished) (h : o.Agrees (fun s reach => s.furthest = reach) rd)
    (h' : o'.Agrees (fun s reach => s.furthest = reach) rd) : o.Same o' := by
  cases rd with
  | matched a stop reach =>
    obtain ⟨s, rfl, hpos, hfur⟩ := h.eq_matched
    obtain ⟨s', rfl, hpos', hfur'⟩ := h'.eq_matched
    exact ⟨rfl, hpos.trans hpos'.symm, hfur.trans hfur'.symm⟩
  | failed reach =>
    obtain ⟨s, rfl, hfur⟩ := h.eq_failed
    obtain ⟨s', rfl, hfur'⟩ := h'.eq_failed
    exact hfur.trans hfur'.symm
  | error message =>
    obtain ⟨s, rfl⟩ := h.eq_error
    exact hfinished.elim

namespace Grammar

/-- The grammar with the same forms in which every rule is `plain`. -/
def allPlain (G : Grammar ρ Res) : Grammar ρ Res := fun r => ⟨.plain, (G r).form⟩

/-- All rules in one layer: nothing is said about what they take or which they call first. -/
def oneLayer : Layers ρ := ⟨fun _ => false, fun _ => 0, 1, fun _ => Nat.zero_lt_one⟩

theorem startsBeyond_oneLayer (form : Form ρ Res α) (pos : Nat) :
    form.StartsBeyond oneLayer 0 1 pos :=
  Form.StartsBeyond.later
    (Or.inr ⟨rfl, Form.startsBelow_of_forall (fun _ => Nat.zero_lt_one) form⟩) (Nat.zero_le pos)

/-- A grammar without growing rules is its own unrolling. -/
theorem unrolls_self {G : Grammar ρ Res} (hG : ∀ r, (G r).strategy ≠ .grow) :
    G.Unrolls oneLayer G where
  takes _ h := Bool.noConfusion h
  same _ _ := ⟨rfl, Form.startsBelow_of_forall (fun _ => Nat.zero_lt_one) _⟩
  loop r h := absurd h (hG r)

variable [DecidableEq ρ]

/-- With all rules `plain`, a call follows its reading exactly, and no table is needed for that. -/
theorem allPlain_follows (G : Grammar ρ Res) (code : Array Char) :
    ∀ (budget : Nat) (r : ρ) (s : Progress ρ Res),
      (G.allPlain.callRule code budget r s).Follows True
        (Progress.Tracks G code (fun _ _ => False) s) (G.readRule code budget r s.pos) := by
  intro budget
  induction budget with
  | zero => intro r s _ hf; exact hf rfl
  | succ budget ih =>
    intro r s
    have hadv : (G.readRule code budget).Advances code.size oneLayer.takes :=
      readRule_advances (fun r h => Bool.noConfusion h) budget
    have hrun := Form.run_follows hadv (fun r s _ _ => ih r s) (G r).form (s.enter r)
      (startsBeyond_oneLayer _ _) (fun _ _ _ h => h.elim)
    exact hrun.imp fun s' n hs' => ⟨hs'.furthest, hs'.sound, hs'.kept⟩

/-- With all rules `plain`, what is recognised from the start is what is read. -/
theorem allPlain_recognise_agrees {G : Grammar ρ Res} {code : Array Char} {budget : Nat}
    {form : Form ρ Res α} (h : (G.allPlain.recognise code budget form .start).Finished) :
    ∃ rd, form.read code (G.readRule code budget) 0 = some rd ∧
      (G.allPlain.recognise code budget form .start).Agrees
        (fun s reach => s.furthest = reach) rd := by
  have hadv : (G.readRule code budget).Advances code.size oneLayer.takes :=
    readRule_advances (fun r h => Bool.noConfusion h) budget
  have hrun := Form.run_follows hadv (fun r s _ _ => allPlain_follows G code budget r s) form
    .start (startsBeyond_oneLayer form 0) (start_sound G code _)
  change Outcome.Follows True _ _ (form.read code (G.readRule code budget) 0) at hrun
  cases hrd : form.read code (G.readRule code budget) 0 with
  | none => rw [hrd] at hrun; exact absurd h.decided (hrun trivial)
  | some rd =>
    rw [hrd] at hrun
    exact ⟨rd, rfl, Outcome.Agrees.imp
      (fun s n hs => hs.furthest.trans (Nat.zero_max n)) hrun⟩

/-- **Memo tables change no outcome.** If recognition of a form with all rules `plain` ends within
a budget, recognition with the memo table ends alike within that budget and any larger one. -/
theorem recognise_allPlain (G : Grammar ρ Res) (hG : ∀ r, (G r).strategy ≠ .grow)
    (code : Array Char) (form : Form ρ Res α) {budget budget' : Nat}
    (h : (G.allPlain.recognise code budget form .start).Finished) (hle : budget ≤ budget') :
    (G.allPlain.recognise code budget form .start).Same
      (G.recognise code budget' form .start) := by
  obtain ⟨rd, hrd, hplain⟩ := allPlain_recognise_agrees h
  -- without growing rules the reading is by the forms themselves
  have hmemo := recognise_start_agrees (unrolls_self hG) hrd
  rw [recognise_mono hle form .start hmemo.decided]
  exact hplain.same h hmemo

end Grammar

/-- Letters `a` that are closed by a `b` or a `c` each, but for the last. -/
def closedLetters : Grammar Unit (fun _ => String) := fun _ =>
  ⟨.memo, .first [.char 'a' *> .call () <* .char 'b', .char 'a' *> .call () <* .char 'c',
    .char 'a']⟩

/-- Here the second alternative replays what the first has recorded at every letter but the last. -/
theorem recognise_allPlain_closedLetters :
    (∀ r, (closedLetters r).strategy ≠ .grow) ∧
    (closedLetters.allPlain.recognise #['a', 'a', 'a', 'c', 'b'] 4 (.call ()) .start).Finished ∧
    4 ≤ 400 ∧
    (closedLetters.allPlain.recognise #['a', 'a', 'a', 'c', 'b'] 4 (.call ()) .start).Same
      (closedLetters.recognise #['a', 'a', 'a', 'c', 'b'] 400 (.call ()) .start) :=
  ⟨fun _ => Strategy.noConfusion, trivial, by decide,
    Grammar.recognise_allPlain closedLetters (fun _ => Strategy.noConfusion) _ _ trivial
      (by decide)⟩

end CalcScript.Packrat
