import CalcScript.Proofs.Packrat.Endings

/-!
# Finished attempts are endings

`Grammar.Ends` has no budget and counts no rounds, recognition has and does. `Endings` shows that
every ending is reached with large budgets; here is the other half:

> `Grammar.ends_of_finished`: what recognition has finished, with any budget, is the ending of the
> attempt.

The rounds that recognition counts cannot run out inside a code: a repetition has one more than
there are characters left, a growing match two more. So what holds of endings holds of all that
recognition does (`Grammar.ends_iff`).
-/

namespace CalcScript.Packrat

variable {ρ : Type} [DecidableEq ρ] {Res : ρ → Type} {α : Type}
  {G : Grammar ρ Res} {code : Array Char}

/-- What the form has finished, with some answers to calls, are endings. -/
def Form.EndsWith (G : Grammar ρ Res) (code : Array Char) (calls : Calls ρ Res)
    (form : Form ρ Res α) : Prop :=
  ∀ s : Progress ρ Res, s.Inside code.size → (form.run code calls s).Finished →
    G.Ends code (.recognise form) s (form.run code calls s)

/-! ## Loops -/

/-- A repetition ends before its rounds do. -/
theorem repeatStep_ends {calls : Calls ρ Res} {form : Form ρ Res α}
    (hform : form.EndsWith G code calls) :
    ∀ (rounds : Nat) (items : List α) (s : Progress ρ Res), s.Inside code.size →
      code.size - s.pos < rounds → (repeatStep (form.run code calls) rounds items s).Finished →
      G.Ends code (.again form items) s (repeatStep (form.run code calls) rounds items s) := by
  intro rounds
  induction rounds with
  | zero => intro items s _ hrounds _; omega
  | succ rounds ih =>
    intro items s hs hrounds h
    have hstep := hform s hs
    rw [repeatStep] at h ⊢
    cases ho : form.run code calls s with
    | stopped c s' => rw [ho] at h; exact h.elim
    | failed s' => rw [ho] at hstep; exact .noMore (hstep trivial)
    | matched a s' =>
      rw [ho] at h hstep
      have step := hstep trivial
      dsimp only at h ⊢
      by_cases hpos : s'.pos = s.pos
      · rw [if_pos hpos]
        exact .last step hpos
      · rw [if_neg hpos] at h ⊢
        -- the item has taken a character, so fewer are left for the rounds that are left
        obtain ⟨hle, hleads⟩ := step.reached hs trivial
        rw [Task.origin] at hle
        have hsize := hleads.inside.pos
        exact .next step hpos (ih _ s' hleads.inside (by omega) h)

/-- A match stops growing before its rounds do. -/
theorem growMatch_ends {calls : Calls ρ Res} {r : ρ} {start : Nat} (hstart : start ≤ code.size)
    (hform : (G r).form.EndsWith G code calls) :
    ∀ (rounds : Nat) (best : Option (Res r × Nat)) (s : Progress ρ Res), s.Inside code.size →
      (Task.grow r start best : Task ρ Res (Res r)).Fits code.size →
      roundsLeft code.size best < rounds →
      (growMatch r ((G r).form.run code calls) start rounds best s).Finished →
      G.Ends code (.grow r start best) s
        (growMatch r ((G r).form.run code calls) start rounds best s) := by
  intro rounds
  induction rounds with
  | zero => intro best s _ _ hrounds _; omega
  | succ rounds ih =>
    intro best s hs hfits hrounds h
    have hentered := (hs.leads.goTo hstart).enter r
    have hbody := hform _ hentered.inside
    rw [growMatch] at h ⊢
    cases ho : (G r).form.run code calls ((s.goTo start).enter r) with
    | stopped c s' => rw [ho] at h; exact h.elim
    | failed s' => rw [ho] at hbody; exact .growFailed (hbody trivial)
    | matched a s' =>
      rw [ho] at h hbody
      have body := hbody trivial
      dsimp only at h ⊢
      by_cases hlonger : best.any (s'.pos ≤ ·.2) = true
      · rw [if_pos hlonger]
        exact .growNoLonger body hlonger
      · rw [if_neg hlonger] at h ⊢
        obtain ⟨hle, hleads⟩ := body.reached hentered.inside trivial
        have hrecord := (hentered.trans hleads).recordMatched a hle
        have hfewer := roundsLeft_lt a hleads.inside.pos hlonger
        exact .growLonger body hlonger (ih _ _ hrecord.inside
          (Task.fits_some r a hstart hle hleads.inside.pos) (by omega) h)

/-! ## Forms -/

/-- Forms end if the calls do that they make. -/
theorem Form.endsWith_of_calls {calls : Calls ρ Res}
    (hcalls : ∀ r, (Form.call r : Form ρ Res (Res r)).EndsWith G code calls)
    (form : Form ρ Res α) : form.EndsWith G code calls := by
  induction form with
  | pattern m =>
    intro s hs h
    rw [Form.run]
    cases hstop : m.stop? code s.pos with
    | none => exact .noPattern hstop
    | some stop => exact .pattern hstop
  | endOfInput =>
    intro s hs h
    rw [Form.run]
    by_cases hend : s.pos = code.size
    · rw [if_pos hend]; exact .endOfInput hend
    · rw [if_neg hend]; exact .noEndOfInput hend
  | skip a => intro s hs h; exact .skip
  | fail => intro s hs h; exact .fail
  | pair f g ihf ihg =>
    intro s hs h
    have hf := ihf s hs
    rw [Form.run] at h ⊢
    cases ho : f.run code calls s with
    | stopped c s' => rw [ho] at h; exact h.elim
    | failed s' => rw [ho] at hf; exact .noPair (hf trivial)
    | matched a s' =>
      rw [ho] at h hf
      have first := hf trivial
      rw [Outcome.andThen_matched] at h ⊢
      have hg := ihg s' (first.reached hs trivial).2.inside
      refine .pair first (hg ?_)
      cases ho' : g.run code calls s' with
      | stopped c s'' => rw [ho'] at h; exact h.elim
      | failed s'' => trivial
      | matched b s'' => trivial
  | map k f ih =>
    intro s hs h
    have hf := ih s hs
    rw [Form.run] at h ⊢
    refine .map (hf ?_)
    cases ho : f.run code calls s with
    | stopped c s' => rw [ho] at h; exact h.elim
    | failed s' => trivial
    | matched a s' => trivial
  | refine k f ih =>
    intro s hs h
    have hf := ih s hs
    rw [Form.run] at h ⊢
    refine .refine (hf ?_)
    cases ho : f.run code calls s with
    | stopped c s' => rw [ho] at h; exact h.elim
    | failed s' => trivial
    | matched a s' => trivial
  | checked e f ih =>
    intro s hs h
    have hf := ih s hs
    rw [Form.run] at h ⊢
    cases ho : f.run code calls s with
    | stopped c s' => rw [ho] at h; exact h.elim
    | failed s' => rw [ho] at hf; exact .noChecked (hf trivial)
    | matched a s' =>
      rw [ho] at h hf
      rw [Outcome.andThen_matched] at h ⊢
      cases he : e a with
      | some message => rw [he] at h; exact h.elim
      | none => exact .checked (hf trivial) he
  | orElse f g ihf ihg =>
    intro s hs h
    have hf := ihf s hs
    rw [Form.run] at h ⊢
    cases ho : f.run code calls s with
    | stopped c s' => rw [ho] at h; exact h.elim
    | matched a s' => rw [ho] at hf; exact .left (hf trivial)
    | failed s₁ =>
      rw [ho] at h hf
      have first := hf trivial
      have hg := ihg (s₁.goTo s.pos) ((first.reached hs trivial).goTo hs.pos).inside
      dsimp only at h ⊢
      cases ho' : g.run code calls (s₁.goTo s.pos) with
      | stopped c s₂ => rw [ho'] at h; exact h.elim
      | matched a s₂ => rw [ho'] at hg; exact .right first (hg trivial)
      | failed s₂ => rw [ho'] at hg; exact .neither first (hg trivial)
  | optional f ih =>
    intro s hs h
    have hf := ih s hs
    rw [Form.run] at h ⊢
    cases ho : f.run code calls s with
    | stopped c s' => rw [ho] at h; exact h.elim
    | matched a s' => rw [ho] at hf; exact .given (hf trivial)
    | failed s' => rw [ho] at hf; exact .missing (hf trivial)
  | many f ih =>
    intro s hs h
    exact .many (repeatStep_ends ih _ [] s hs (by omega) h)
  | call r => exact hcalls r

/-! ## Calls -/

namespace Grammar

/-- A call that has finished has come to its ending. -/
theorem callRule_ends (G : Grammar ρ Res) (code : Array Char) :
    ∀ (budget : Nat) (r : ρ),
      (Form.call r : Form ρ Res (Res r)).EndsWith G code (G.callRule code budget) := by
  intro budget
  induction budget with
  | zero => intro r s hs h; exact h.elim
  | succ budget ih =>
    intro r s hs h
    -- the calls inside the form have one less to go, so the induction speaks of them
    have hform := Form.endsWith_of_calls ih (G r).form
    have hbody := hform (s.enter r) (hs.leads.enter r).inside
    change (G.callRule code (budget + 1) r s).Finished at h
    show G.Ends code _ s (G.callRule code (budget + 1) r s)
    cases hstrategy : (G r).strategy with
    | plain =>
      rw [callRule_plain hstrategy] at h ⊢
      exact .plain hstrategy (hbody h)
    | memo =>
      cases hfind : s.memo.find? r s.pos with
      | some entry =>
        have hne : (G r).strategy ≠ .plain := by rw [hstrategy]; decide
        rw [callRule_replayed hne hfind]
        exact .replayed hne hfind
      | none =>
        rw [callRule_memo hstrategy hfind, runMemo] at h ⊢
        cases ho : (G r).form.run code (G.callRule code budget) (s.enter r) with
        | stopped c s' => rw [ho] at h; exact h.elim
        | matched a s' => rw [ho] at hbody; exact .memoMatched hstrategy hfind (hbody trivial)
        | failed s' => rw [ho] at hbody; exact .memoFailed hstrategy hfind (hbody trivial)
    | grow =>
      cases hfind : s.memo.find? r s.pos with
      | some entry =>
        have hne : (G r).strategy ≠ .plain := by rw [hstrategy]; decide
        rw [callRule_replayed hne hfind]
        exact .replayed hne hfind
      | none =>
        rw [callRule_grow hstrategy hfind] at h ⊢
        exact .grown hstrategy hfind (growMatch_ends hs.pos hform _ none _
          (hs.leads.recordFailed r s.pos).inside (Task.fits_none r hs.pos)
          (Nat.lt_succ_self (code.size + 1)) h)

/-- **What recognition has finished is the ending of the attempt**, whatever the budget was. -/
theorem ends_of_finished {form : Form ρ Res α} {s : Progress ρ Res} (hs : s.Inside code.size)
    {budget : Nat} (h : (G.recognise code budget form s).Finished) :
    G.Ends code (.recognise form) s (G.recognise code budget form s) :=
  Form.endsWith_of_calls (callRule_ends G code budget) form s hs h

/-- An attempt ends in what recognition finishes it with, and in nothing else. -/
theorem ends_iff {form : Form ρ Res α} {s : Progress ρ Res} (hs : s.Inside code.size)
    {o : Outcome (Progress ρ Res) α} :
    G.Ends code (.recognise form) s o ↔
      ∃ budget, G.recognise code budget form s = o ∧ o.Finished := by
  constructor
  · intro h
    obtain ⟨enough, heq⟩ := h.recognise_eq hs
    exact ⟨enough, heq enough (Nat.le_refl _), (h.reached hs trivial).finished⟩
  · rintro ⟨budget, rfl, h⟩
    exact ends_of_finished hs h

end Grammar

end CalcScript.Packrat
