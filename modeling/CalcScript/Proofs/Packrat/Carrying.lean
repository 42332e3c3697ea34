import CalcScript.Proofs.Packrat.Consistency

/-!
# What forms and calls carry on

Some relations between a progress and a later one have nothing to do with positions: that entries
are kept, or how often the body of a rule has run in between. A form moves the position about, but
it records nothing and runs no bodies; only the calls it makes do.

> `Form.run_carries`: a relation that holds of the calls that a form makes holds of the form.
> `growMatch_induct`: what is true of a growing match as long as it grows is true at its end.
> `Grammar.answer_carries`: a relation that holds of the calls inside a call holds of the call, if
> it is not broken when a body begins to run or an entry is recorded where there was none.

What remains to be shown of such a relation is about single steps.
-/

namespace CalcScript.Packrat

variable {ρ : Type} {Res : ρ → Type} {α β : Type}

/-- A relation that is carried from one attempt to the next, wherever the second one begins, and is
not broken by a failure. -/
structure Progress.Carried (R : Progress ρ Res → Progress ρ Res → Prop) : Prop where
  refl (s : Progress ρ Res) : R s s
  trans {s s' s'' : Progress ρ Res} : R s s' → R s' s'' → R s s''
  goTo {s s' : Progress ρ Res} (pos : Nat) : R s s' → R s (s'.goTo pos)
  fail {s s' : Progress ρ Res} : R s s' → R s { s' with furthest := max s'.furthest s'.pos }

namespace Progress.Carried

variable {R : Progress ρ Res → Progress ρ Res → Prop} {s s' : Progress ρ Res}

/-- A relation that is carried holds for a sequence if it holds for its parts. -/
theorem andThen (hR : Progress.Carried R) {o : Outcome (Progress ρ Res) α}
    {next : α → Progress ρ Res → Outcome (Progress ρ Res) β} (hfirst : o.Finished → R s o.state)
    (hnext : ∀ a s', o = .matched a s' → (next a s').Finished → R s' (next a s').state)
    (h : (o.andThen next).Finished) : R s (o.andThen next).state := by
  cases o with
  | stopped c s' => exact h.elim
  | failed s' => exact hfirst trivial
  | matched a s' => exact hR.trans (hfirst trivial) (hnext a s' rfl h)

/-- Replaying an entry carries it. -/
theorem replay (hR : Progress.Carried R) (h : R s s') (entry : Entry α) :
    R s (replay entry s').state := by
  cases entry with
  | failed => exact hR.fail h
  | matched a stop => exact hR.goTo stop h

/-- So does harvesting a match. -/
theorem harvest (hR : Progress.Carried R) (h : R s s') (start : Nat) (best : Option (α × Nat)) :
    R s (harvest start best s').state := by
  cases best with
  | none => exact hR.fail (hR.goTo start h)
  | some found => exact hR.goTo found.2 h

end Progress.Carried

instance (o : Outcome (Progress ρ Res) α) : Decidable o.Finished :=
  match o with
  | .matched _ _ => .isTrue trivial
  | .failed _ => .isTrue trivial
  | .stopped _ _ => .isFalse id

/-- The first part of a finished sequence is finished. -/
theorem Outcome.Finished.first {o : Outcome (Progress ρ Res) α}
    {next : α → Progress ρ Res → Outcome (Progress ρ Res) β} (h : (o.andThen next).Finished) :
    o.Finished := by
  cases o with
  | stopped c s' => exact h
  | failed s' => trivial
  | matched a s' => trivial

variable [DecidableEq ρ] {G : Grammar ρ Res} {code : Array Char} {budget : Nat}
  {calls : Calls ρ Res}

/-- Wherever these calls are answered, the grammar answers them alike. -/
def Calls.AgreeWith (G : Grammar ρ Res) (code : Array Char) (budget : Nat)
    (calls : Calls ρ Res) : Prop :=
  ∀ r s, (calls r s).Finished → G.callRule code budget r s = calls r s

/-- Recognition that is finished leads onward from where it begins. -/
theorem Grammar.recognise_onward {form : Form ρ Res α} {s : Progress ρ Res}
    (hs : s.Consistent code.size) (h : (G.recognise code budget form s).Finished) :
    (G.recognise code budget form s).Onward code.size s.pos s :=
  (ends_of_finished hs.inside h).onward hs trivial

/-- A form that is run goes onward. -/
theorem Form.run_onward (hagree : calls.AgreeWith G code budget) (form : Form ρ Res α)
    {s : Progress ρ Res} (hs : s.Consistent code.size) (h : (form.run code calls s).Finished) :
    (form.run code calls s).Onward code.size s.pos s := by
  have hsame := Form.run_mono hagree form s h
  rw [← hsame] at h ⊢
  exact Grammar.recognise_onward hs h

/-- A change of position inside the code keeps progress consistent. -/
theorem Progress.Consistent.goTo {size pos : Nat} {s : Progress ρ Res} (hs : s.Consistent size)
    (hpos : pos ≤ size) : (s.goTo pos).Consistent size :=
  (hs.onward.goTo (Nat.le_refl pos) hpos).consistent

/-- So does the note that a rule has been entered. -/
theorem Progress.Consistent.enter {size : Nat} {s : Progress ρ Res} (hs : s.Consistent size)
    (r : ρ) : (s.enter r).Consistent size :=
  (hs.onward.enter r).consistent

/-- So does the failure that a growing rule starts with. -/
theorem Progress.Consistent.seed {size : Nat} {s : Progress ρ Res} (hs : s.Consistent size)
    (r : ρ) : (s.record r s.pos .failed).Consistent size := by
  have hseed : s.Onward size s.pos (s.record r s.pos .failed) :=
    hs.onward.record ⟨Nat.le_refl _, hs.pos⟩
  exact hseed.consistent

/-! ## Forms -/

section Forms

variable {R : Progress ρ Res → Progress ρ Res → Prop}

/-- A repetition carries what its form does: by induction on the rounds. -/
theorem repeatStep_carries (hR : Progress.Carried R) (hagree : calls.AgreeWith G code budget)
    {form : Form ρ Res α}
    (hform : ∀ s : Progress ρ Res, s.Consistent code.size → (form.run code calls s).Finished →
      R s (form.run code calls s).state) :
    ∀ (rounds : Nat) (items : List α) (s : Progress ρ Res), s.Consistent code.size →
      (repeatStep (form.run code calls) rounds items s).Finished →
      R s (repeatStep (form.run code calls) rounds items s).state := by
  intro rounds
  induction rounds with
  | zero => intro items s _ _; exact hR.refl s
  | succ rounds ih =>
    intro items s hs h
    have hstep := hform s hs
    have honward := form.run_onward hagree hs
    rw [repeatStep] at h ⊢
    cases ho : form.run code calls s with
    | stopped c s' => rw [ho] at h; exact h.elim
    | failed s' => rw [ho] at hstep; exact hR.goTo s.pos (hstep trivial)
    | matched a s' =>
      rw [ho] at h hstep honward
      dsimp only at h ⊢
      by_cases hpos : s'.pos = s.pos
      · rw [if_pos hpos]
        exact hstep trivial
      · rw [if_neg hpos] at h ⊢
        exact hR.trans (hstep trivial) (ih _ s' (honward trivial).consistent h)

/-- **A form carries what its calls carry.** -/
theorem Form.run_carries (hR : Progress.Carried R) (hagree : calls.AgreeWith G code budget)
    (hcalls : ∀ r s, s.Consistent code.size → (calls r s).Finished → R s (calls r s).state)
    (form : Form ρ Res α) :
    ∀ s : Progress ρ Res, s.Consistent code.size → (form.run code calls s).Finished →
      R s (form.run code calls s).state := by
  induction form with
  | pattern m =>
    intro s _ _
    rw [Form.run]
    split
    · exact hR.goTo _ (hR.refl s)
    · exact hR.fail (hR.refl s)
  | endOfInput =>
    intro s _ _
    rw [Form.run]
    split
    · exact hR.refl s
    · exact hR.fail (hR.refl s)
  | skip a => intro s _ _; exact hR.refl s
  | fail => intro s _ _; exact hR.fail (hR.refl s)
  | pair f g ihf ihg =>
    intro s hs h
    rw [Form.run] at h ⊢
    refine hR.andThen (ihf s hs) (fun a s' ho hn => ?_) h
    have honward := f.run_onward hagree hs h.first
    rw [ho] at honward
    exact hR.andThen (ihg s' honward.consistent) (fun b s'' _ _ => hR.refl s'') hn
  | map k f ih =>
    intro s hs h
    rw [Form.run] at h ⊢
    exact hR.andThen (ih s hs) (fun a s' _ _ => hR.refl s') h
  | refine k f ih =>
    intro s hs h
    rw [Form.run] at h ⊢
    refine hR.andThen (ih s hs) (fun a s' _ _ => ?_) h
    split
    · exact hR.refl s'
    · exact hR.fail (hR.refl s')
  | checked e f ih =>
    intro s hs h
    rw [Form.run] at h ⊢
    refine hR.andThen (ih s hs) (fun a s' _ _ => ?_) h
    split
    · exact hR.refl s'
    · exact hR.refl s'
  | orElse f g ihf ihg =>
    intro s hs h
    have hf := ihf s hs
    have honward := f.run_onward hagree hs
    rw [Form.run] at h ⊢
    cases ho : f.run code calls s with
    | stopped c s' => rw [ho] at h; exact h.elim
    | matched a s' => rw [ho] at hf; exact hf trivial
    | failed s₁ =>
      rw [ho] at h hf honward
      have hg := ihg (s₁.goTo s.pos) ((honward trivial).1.consistent.goTo hs.pos)
      have hback : R s (s₁.goTo s.pos) := hR.goTo s.pos (hf trivial)
      dsimp only at h ⊢
      cases ho' : g.run code calls (s₁.goTo s.pos) with
      | stopped c s₂ => rw [ho'] at h; exact h.elim
      | matched a s₂ => rw [ho'] at hg; exact hR.trans hback (hg trivial)
      | failed s₂ => rw [ho'] at hg; exact hR.fail (hR.goTo s.pos (hR.trans hback (hg trivial)))
  | optional f ih =>
    intro s hs h
    have hf := ih s hs
    rw [Form.run] at h ⊢
    cases ho : f.run code calls s with
    | stopped c s' => rw [ho] at h; exact h.elim
    | matched a s' => rw [ho] at hf; exact hf trivial
    | failed s' => rw [ho] at hf; exact hR.goTo s.pos (hf trivial)
  | many f ih => intro s hs h; exact repeatStep_carries hR hagree ih _ _ s hs h
  | call r => intro s hs h; exact hcalls r s hs h

end Forms

/-! ## Growing matches -/

section Growing

variable {r : ρ} {start : Nat}

/-- Where the body of a growing rule begins its next run. -/
theorem Progress.Consistent.again {s : Progress ρ Res} (hs : s.Consistent code.size)
    (hstart : start ≤ code.size) : ((s.goTo start).enter r).Consistent code.size :=
  (hs.goTo hstart).enter r

/-- Induction along a growing match. `P` holds each time before the body runs, of the best match so
far and the progress there; then `Q` holds of the end, whatever has stopped the match. -/
theorem growMatch_induct (hagree : calls.AgreeWith G code budget) (hstart : start ≤ code.size)
    {P : Option (Res r × Nat) → Progress ρ Res → Prop}
    {Q : Outcome (Progress ρ Res) (Res r) → Prop}
    (hend : ∀ best s, P best s → Q (harvest start best s))
    (hrun : ∀ best s, s.Consistent code.size → P best s →
      ((G r).form.run code calls ((s.goTo start).enter r)).Finished →
        Q (harvest start best ((G r).form.run code calls ((s.goTo start).enter r)).state))
    (hlonger : ∀ best s a s', s.Consistent code.size → P best s →
      (G r).form.run code calls ((s.goTo start).enter r) = .matched a s' → start ≤ s'.pos →
        s'.pos ≤ code.size → ¬best.any (s'.pos ≤ ·.2) = true →
          P (some (a, s'.pos)) (s'.record r start (.matched a s'.pos))) :
    ∀ (rounds : Nat) (best : Option (Res r × Nat)) (s : Progress ρ Res), s.Consistent code.size →
      P best s → (growMatch r ((G r).form.run code calls) start rounds best s).Finished →
        Q (growMatch r ((G r).form.run code calls) start rounds best s) := by
  intro rounds
  induction rounds with
  | zero => intro best s _ hP _; exact hend best s hP
  | succ rounds ih =>
    intro best s hs hP h
    have honward := (G r).form.run_onward hagree (hs.again (r := r) hstart)
    have hstop := hrun best s hs hP
    rw [growMatch] at h ⊢
    cases ho : (G r).form.run code calls ((s.goTo start).enter r) with
    | stopped c s' => rw [ho] at h; exact h.elim
    | failed s' => rw [ho] at hstop; exact hstop trivial
    | matched a s' =>
      rw [ho] at h hstop honward
      dsimp only at h ⊢
      by_cases hlong : best.any (s'.pos ≤ ·.2) = true
      · rw [if_pos hlong]
        exact hstop trivial
      · rw [if_neg hlong] at h ⊢
        have hmatch := honward trivial
        have hle : start ≤ s'.pos := hmatch.origin
        have hsize := hmatch.consistent.pos
        have hrecord : Progress.Onward code.size start ((s.goTo start).enter r)
            (s'.record r start (.matched a s'.pos)) := hmatch.record ⟨hle, hsize⟩
        exact ih _ _ hrecord.consistent (hlonger best s a s' hs hP ho hle hsize hlong) h

end Growing

namespace Grammar

/-! ## Calls that are answered from the calls inside -/

/-- How a call of a rule is answered if the calls inside its body are answered so. -/
def answer (G : Grammar ρ Res) (code : Array Char) (calls : Calls ρ Res) : Calls ρ Res :=
  fun r s =>
    let body := (G r).form.run code calls
    match (G r).strategy with
    | .plain => body (s.enter r)
    | .memo =>
      match s.memo.find? r s.pos with
      | some entry => replay entry s
      | none => runMemo r body s
    | .grow =>
      match s.memo.find? r s.pos with
      | some entry => replay entry s
      | none => growMatch r body s.pos (code.size + 2) none (s.record r s.pos .failed)

/-- With one more call to go, a call is answered by calls with one less. -/
theorem callRule_eq_answer (G : Grammar ρ Res) (code : Array Char) (budget : Nat) :
    G.callRule code (budget + 1) = G.answer code (G.callRule code budget) := rfl

section Answers

variable {r : ρ} {s : Progress ρ Res}

/-- A plain rule runs its form. -/
theorem answer_plain (hstrategy : (G r).strategy = .plain) :
    G.answer code calls r s = (G r).form.run code calls (s.enter r) := by
  rw [answer, hstrategy]

/-- A rule that has an entry replays it. -/
theorem answer_replayed {entry : Entry (Res r)} (hstrategy : (G r).strategy ≠ .plain)
    (hfind : s.memo.find? r s.pos = some entry) : G.answer code calls r s = replay entry s := by
  rw [answer]
  split
  · next hplain => exact absurd hplain hstrategy
  · rw [hfind]
  · rw [hfind]

/-- A rule with a memo and no entry runs its form and records what comes of it. -/
theorem answer_memo (hstrategy : (G r).strategy = .memo) (hfind : s.memo.find? r s.pos = none) :
    G.answer code calls r s = runMemo r ((G r).form.run code calls) s := by
  rw [answer, hstrategy]
  dsimp only
  rw [hfind]

/-- A growing rule with no entry starts with a recorded failure. -/
theorem answer_grow (hstrategy : (G r).strategy = .grow) (hfind : s.memo.find? r s.pos = none) :
    G.answer code calls r s = growMatch r ((G r).form.run code calls) s.pos (code.size + 2) none
      (s.record r s.pos .failed) := by
  rw [answer, hstrategy]
  dsimp only
  rw [hfind]

/-- With one more for the budget, the call itself is answered as the grammar does too. -/
theorem answer_agrees (hagree : calls.AgreeWith G code budget) :
    (G.answer code calls).AgreeWith G code (budget + 1) := by
  intro r s h
  have hbody : ∀ s, ((G r).form.run code calls s).Finished →
      (G r).form.run code (G.callRule code budget) s = (G r).form.run code calls s :=
    Form.run_mono hagree (G r).form
  cases hstrategy : (G r).strategy with
  | plain =>
    rw [answer_plain hstrategy] at h ⊢
    rw [callRule_plain hstrategy]
    exact hbody _ h
  | memo =>
    cases hfind : s.memo.find? r s.pos with
    | some entry =>
      have hne : (G r).strategy ≠ .plain := hstrategy ▸ Strategy.noConfusion
      rw [answer_replayed hne hfind, callRule_replayed hne hfind]
    | none =>
      rw [answer_memo hstrategy hfind] at h ⊢
      rw [callRule_memo hstrategy hfind]
      exact runMemo_mono hbody s h
  | grow =>
    cases hfind : s.memo.find? r s.pos with
    | some entry =>
      have hne : (G r).strategy ≠ .plain := hstrategy ▸ Strategy.noConfusion
      rw [answer_replayed hne hfind, callRule_replayed hne hfind]
    | none =>
      rw [answer_grow hstrategy hfind] at h ⊢
      rw [callRule_grow hstrategy hfind]
      exact growMatch_mono hbody _ _ _ _ h

/-- **A call carries what the calls inside its body carry**, if that is not broken by running the
body from where the rule is called, nor by recording an entry there when there has been none. -/
theorem answer_carries {R : Progress ρ Res → Progress ρ Res → Prop} (hR : Progress.Carried R)
    (hagree : calls.AgreeWith G code budget)
    (hcalls : ∀ r s, s.Consistent code.size → (calls r s).Finished → R s (calls r s).state)
    (henter : ∀ s' : Progress ρ Res, s'.pos = s.pos → R s' (s'.enter r))
    (hrecord : ∀ (s' : Progress ρ Res) entry, s.memo.find? r s.pos = none → R s s' →
      R s (s'.record r s.pos entry))
    (hs : s.Consistent code.size) (h : (G.answer code calls r s).Finished) :
    R s (G.answer code calls r s).state := by
  have hform := (G r).form.run_carries hR hagree hcalls
  cases hstrategy : (G r).strategy with
  | plain =>
    rw [answer_plain hstrategy] at h ⊢
    exact hR.trans (henter s rfl) (hform (s.enter r) (hs.enter r) h)
  | memo =>
    cases hfind : s.memo.find? r s.pos with
    | some entry =>
      rw [answer_replayed (hstrategy ▸ Strategy.noConfusion) hfind]
      exact hR.replay (hR.refl s) entry
    | none =>
      rw [answer_memo hstrategy hfind, runMemo] at h ⊢
      have hbody := hform (s.enter r) (hs.enter r)
      cases ho : (G r).form.run code calls (s.enter r) with
      | stopped c s' => rw [ho] at h; exact h.elim
      | matched a s' =>
        rw [ho] at hbody
        exact hrecord s' _ hfind (hR.trans (henter s rfl) (hbody trivial))
      | failed s' =>
        rw [ho] at hbody
        exact hrecord s' _ hfind (hR.trans (henter s rfl) (hbody trivial))
  | grow =>
    cases hfind : s.memo.find? r s.pos with
    | some entry =>
      rw [answer_replayed (hstrategy ▸ Strategy.noConfusion) hfind]
      exact hR.replay (hR.refl s) entry
    | none =>
      rw [answer_grow hstrategy hfind] at h ⊢
      have hagain : ∀ s', R s s' → R s ((s'.goTo s.pos).enter r) := fun s' hR' =>
        hR.trans (hR.goTo s.pos hR') (henter _ rfl)
      refine growMatch_induct (P := fun _ s' => R s s') (Q := fun o => R s o.state) hagree hs.pos
        ?_ ?_ ?_ _ none _ (hs.seed r) (hrecord s _ hfind (hR.refl s)) h
      · intro best s' hR'
        exact hR.harvest hR' s.pos best
      · intro best s' hs' hR' hbody
        have hrun := hform ((s'.goTo s.pos).enter r) (hs'.again hs.pos) hbody
        exact hR.harvest (hR.trans (hagain s' hR') hrun) s.pos best
      · intro best s' a s'' hs' hR' hbody _ _ _
        have hrun := hform ((s'.goTo s.pos).enter r) (hs'.again hs.pos)
        rw [hbody] at hrun
        exact hrecord s'' _ hfind (hR.trans (hagain s' hR') (hrun trivial))

end Answers

end Grammar

end CalcScript.Packrat
