import CalcScript.Packrat.Grammar

/-!
# More budget changes no outcome

A call that ends before its budget does ends alike with any larger budget: same outcome, same state.

> `Grammar.callRule_mono`, `Grammar.recognise_mono`: an outcome that is not too deep is the outcome
> for every larger budget.

So what an attempt comes to does not depend on the budget, as long as that is large enough.
-/

namespace CalcScript.Packrat

variable {ρ : Type} {Res : ρ → Type} {α β σ : Type}

/-- The outcome is a match or a failure, or recognition is stopped for one of some causes. -/
def Outcome.Among (stops : Stop → Prop) : Outcome σ α → Prop
  | .matched _ _ => True
  | .failed _ => True
  | .stopped cause _ => stops cause

/-- The outcome is a match or a failure. -/
def Outcome.Finished (o : Outcome σ α) : Prop := o.Among fun _ => False

/-- The outcome is not that calls are nested too deeply: the budget has sufficed. -/
def Outcome.Decided (o : Outcome σ α) : Prop := o.Among (· ≠ .tooDeep)

theorem Outcome.Finished.decided {o : Outcome σ α} (h : o.Finished) : o.Decided := by
  cases o with
  | matched a s => trivial
  | failed s => trivial
  | stopped c s => exact h.elim

variable {stops : Stop → Prop}

theorem Outcome.andThen_mono {o o' : Outcome σ α} {next next' : α → σ → Outcome σ β}
    (ho : o.Among stops → o' = o) (hnext : ∀ a s, (next a s).Among stops → next' a s = next a s)
    (h : (o.andThen next).Among stops) : o'.andThen next' = o.andThen next := by
  cases o with
  | stopped c s => rw [ho h]; rfl
  | failed s => rw [ho trivial]; rfl
  | matched a s => rw [ho trivial]; exact hnext a s h

theorem repeatStep_mono {step step' : Progress ρ Res → Outcome (Progress ρ Res) α}
    (hstep : ∀ s, (step s).Among stops → step' s = step s) :
    ∀ (rounds : Nat) (items : List α) (s : Progress ρ Res),
      (repeatStep step rounds items s).Among stops →
      repeatStep step' rounds items s = repeatStep step rounds items s := by
  intro rounds
  induction rounds with
  | zero => intro items s _; rfl
  | succ rounds ih =>
    intro items s h
    rw [repeatStep] at h ⊢
    have hs := hstep s
    cases ho : step s with
    | stopped c s' => rw [ho] at h hs; rw [repeatStep, hs h, ho]
    | failed s' => rw [ho] at hs; rw [repeatStep, hs trivial, ho]
    | matched a s' =>
      rw [ho] at h hs
      rw [repeatStep, hs trivial, ho]
      dsimp only at h ⊢
      by_cases hp : s'.pos = s.pos
      · rw [if_pos hp, if_pos hp]
      · rw [if_neg hp] at h
        rw [if_neg hp, if_neg hp]
        exact ih _ s' h

/-- A form is recognised alike if the calls it makes are answered alike. -/
theorem Form.run_mono {code : Array Char} {calls calls' : Calls ρ Res}
    (hcalls : ∀ r s, (calls r s).Among stops → calls' r s = calls r s) (form : Form ρ Res α) :
    ∀ s, (form.run code calls s).Among stops → form.run code calls' s = form.run code calls s := by
  induction form with
  | pattern m => intro s _; rfl
  | endOfInput => intro s _; rfl
  | skip a => intro s _; rfl
  | fail => intro s _; rfl
  | pair f g ihf ihg =>
    intro s h
    exact Outcome.andThen_mono (ihf s)
      (fun a s' hn => Outcome.andThen_mono (ihg s') (fun _ _ _ => rfl) hn) h
  | map k f ih => intro s h; exact Outcome.andThen_mono (ih s) (fun _ _ _ => rfl) h
  | refine k f ih => intro s h; exact Outcome.andThen_mono (ih s) (fun _ _ _ => rfl) h
  | checked e f ih => intro s h; exact Outcome.andThen_mono (ih s) (fun _ _ _ => rfl) h
  | orElse f g ihf ihg =>
    intro s h
    rw [Form.run] at h
    rw [Form.run, Form.run]
    have hf := ihf s
    cases ho : f.run code calls s with
    | stopped c s' => rw [ho] at h hf; rw [hf h]
    | matched a s' => rw [ho] at hf; rw [hf trivial]
    | failed s₁ =>
      rw [ho] at h hf
      rw [hf trivial]
      dsimp only at h ⊢
      -- the second form starts from the state that the first has left
      have hg := ihg (s₁.goTo s.pos)
      cases hr : g.run code calls (s₁.goTo s.pos) with
      | stopped c s' => rw [hr] at h hg; rw [hg h]
      | matched a s' => rw [hr] at hg; rw [hg trivial]
      | failed s' => rw [hr] at hg; rw [hg trivial]
  | optional f ih =>
    intro s h
    rw [Form.run] at h
    rw [Form.run, Form.run]
    have hf := ih s
    cases ho : f.run code calls s with
    | stopped c s' => rw [ho] at h hf; rw [hf h]
    | matched a s' => rw [ho] at hf; rw [hf trivial]
    | failed s' => rw [ho] at hf; rw [hf trivial]
  | many f ih => intro s h; exact repeatStep_mono ih _ _ s h
  | call r => intro s h; exact hcalls r s h

variable [DecidableEq ρ]

/-! ## Calls -/

theorem runMemo_mono {r : ρ} {body body' : Progress ρ Res → Outcome (Progress ρ Res) (Res r)}
    (hbody : ∀ s, (body s).Among stops → body' s = body s) (s : Progress ρ Res)
    (h : (runMemo r body s).Among stops) : runMemo r body' s = runMemo r body s := by
  rw [runMemo] at h
  rw [runMemo, runMemo]
  have hb := hbody (s.enter r)
  cases ho : body (s.enter r) with
  | stopped c s' => rw [ho] at h hb; rw [hb h]
  | matched a s' => rw [ho] at hb; rw [hb trivial]
  | failed s' => rw [ho] at hb; rw [hb trivial]

theorem growMatch_mono {r : ρ} {body body' : Progress ρ Res → Outcome (Progress ρ Res) (Res r)}
    (hbody : ∀ s, (body s).Among stops → body' s = body s) (start : Nat) :
    ∀ (rounds : Nat) (best : Option (Res r × Nat)) (s : Progress ρ Res),
      (growMatch r body start rounds best s).Among stops →
      growMatch r body' start rounds best s = growMatch r body start rounds best s := by
  intro rounds
  induction rounds with
  | zero => intro best s _; rfl
  | succ rounds ih =>
    intro best s h
    rw [growMatch] at h
    rw [growMatch, growMatch]
    have hb := hbody ((s.goTo start).enter r)
    cases ho : body ((s.goTo start).enter r) with
    | stopped c s' => rw [ho] at h hb; rw [hb h]
    | failed s' => rw [ho] at hb; rw [hb trivial]
    | matched a s' =>
      rw [ho] at h hb
      rw [hb trivial]
      dsimp only at h ⊢
      by_cases hp : best.any (s'.pos ≤ ·.2) = true
      · rw [if_pos hp, if_pos hp]
      · rw [if_neg hp] at h
        rw [if_neg hp, if_neg hp]
        exact ih _ _ h

namespace Grammar

variable {G : Grammar ρ Res} {code : Array Char}

theorem callRule_succ (G : Grammar ρ Res) (code : Array Char) :
    ∀ budget r s, (G.callRule code budget r s).Decided →
      G.callRule code (budget + 1) r s = G.callRule code budget r s := by
  intro budget
  induction budget with
  | zero => intro r s h; exact absurd rfl h
  | succ budget ih =>
    intro r s h
    -- calls inside the form have one less to go, so the induction speaks of them
    have hbody : ∀ s, ((G r).form.run code (G.callRule code budget) s).Decided →
        (G r).form.run code (G.callRule code (budget + 1)) s
          = (G r).form.run code (G.callRule code budget) s :=
      Form.run_mono ih (G r).form
    rw [callRule] at h
    rw [callRule, callRule]
    cases hstrategy : (G r).strategy with
    | plain =>
      rw [hstrategy] at h
      exact hbody _ h
    | memo =>
      rw [hstrategy] at h
      dsimp only at h ⊢
      cases hfind : s.memo.find? r s.pos with
      | some entry => rfl
      | none => rw [hfind] at h; exact runMemo_mono hbody s h
    | grow =>
      rw [hstrategy] at h
      dsimp only at h ⊢
      cases hfind : s.memo.find? r s.pos with
      | some entry => rfl
      | none => rw [hfind] at h; exact growMatch_mono hbody _ _ _ _ h

/-- A call that is not too deep with one budget ends alike with any larger one. -/
theorem callRule_mono {budget budget' : Nat} (hle : budget ≤ budget') (r : ρ)
    (s : Progress ρ Res) (h : (G.callRule code budget r s).Decided) :
    G.callRule code budget' r s = G.callRule code budget r s := by
  induction hle with
  | refl => rfl
  | step _ ih => rw [callRule_succ G code _ r s (ih.symm ▸ h), ih]

/-- A form that is not too deep with one budget is recognised alike with any larger one. -/
theorem recognise_mono {budget budget' : Nat} (hle : budget ≤ budget') (form : Form ρ Res α)
    (s : Progress ρ Res) (h : (G.recognise code budget form s).Decided) :
    G.recognise code budget' form s = G.recognise code budget form s :=
  Form.run_mono (fun r s hr => callRule_mono hle r s hr) form s h

end Grammar

end CalcScript.Packrat
