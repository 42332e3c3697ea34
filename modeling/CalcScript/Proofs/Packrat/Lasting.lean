import CalcScript.Proofs.Packrat.Carrying
import Mathlib.Logic.Relation

/-!
# What one attempt leaves, later ones find

> `Grammar.attempts_lasting`: what is recorded when an attempt has ended is recorded for good. Once
> a form has been attempted from the start of a code, every later attempt at it from there comes to
> the same, without a failure that lies further and without running the body of a rule that records.

While an attempt goes on, entries do change: a seed gives way to longer matches, and a rule that is
called again where it is still running is recorded twice. But an entry is changed only by the call
that has found none (`Grammar.callRule_remains`), and when this call has ended, the entry is what it
has been answered (`Grammar.callRule_recorded`). So a form that is run again finds recorded what
each of its calls was answered before (`Form.RunsAgain`), however that came about.
-/

namespace CalcScript.Packrat

variable {ρ : Type} {Res : ρ → Type} {α β : Type} [DecidableEq ρ]

/-! ## Entries are kept -/

/-- What has been recorded is recorded later on, and alike, and what has failed is counted. -/
structure Progress.RemainsIn (s t : Progress ρ Res) : Prop where
  entries : ∀ r pos entry, s.memo.find? r pos = some entry → t.memo.find? r pos = some entry
  furthest : s.furthest ≤ t.furthest

namespace Progress

variable {s s' : Progress ρ Res}

/-- What has been recorded remains through every step of recognition. -/
theorem remainsIn_carried :
    Progress.Carried (RemainsIn : Progress ρ Res → Progress ρ Res → Prop) where
  refl _ := ⟨fun _ _ _ h => h, Nat.le_refl _⟩
  trans h h' := ⟨fun r pos entry hfind => h'.entries r pos entry (h.entries r pos entry hfind),
    Nat.le_trans h.furthest h'.furthest⟩
  goTo _ h := ⟨h.entries, h.furthest⟩
  fail h := ⟨h.entries, Nat.le_trans h.furthest (Nat.le_max_left _ _)⟩

theorem RemainsIn.refl (s : Progress ρ Res) : s.RemainsIn s := remainsIn_carried.refl s

/-- What remains in what remains, remains. -/
theorem RemainsIn.trans {t : Progress ρ Res} (h : s.RemainsIn s') (h' : s'.RemainsIn t) :
    s.RemainsIn t :=
  remainsIn_carried.trans h h'

/-- An entry may be recorded where there was none. -/
theorem RemainsIn.record (h : s.RemainsIn s') {r : ρ} {pos : Nat}
    (hopen : s.memo.find? r pos = none) (entry : Entry (Res r)) :
    s.RemainsIn (s'.record r pos entry) := by
  refine ⟨fun r' q entry' hfind => ?_, h.furthest⟩
  have hne : ¬(r' = r ∧ q = pos) := by
    rintro ⟨rfl, rfl⟩
    cases hopen.symm.trans hfind
  rw [Progress.record, Memo.find?_insert_of_ne _ _ hne]
  exact h.entries r' q entry' hfind

end Progress

namespace Grammar

variable {G : Grammar ρ Res} {code : Array Char}

/-- A call changes no entry that it has found. -/
theorem callRule_remains (G : Grammar ρ Res) (code : Array Char) :
    ∀ (budget : Nat) (r : ρ) (s : Progress ρ Res), s.Consistent code.size →
      (G.callRule code budget r s).Finished → s.RemainsIn (G.callRule code budget r s).state := by
  intro budget
  induction budget with
  | zero => intro r s _ h; exact h.elim
  | succ budget ih =>
    intro r s hs h
    rw [callRule_eq_answer] at h ⊢
    refine answer_carries Progress.remainsIn_carried (fun _ _ _ => rfl) ih ?_ ?_ hs h
    · intro s' _
      exact ⟨fun _ _ _ hfind => hfind, Nat.le_refl _⟩
    · intro s' entry hopen hremains
      exact hremains.record hopen entry

/-- A finished attempt takes nothing back that has been recorded before it. -/
theorem recognise_remains {form : Form ρ Res α} {budget : Nat} {s : Progress ρ Res}
    (hs : s.Consistent code.size) (h : (G.recognise code budget form s).Finished) :
    s.RemainsIn (G.recognise code budget form s).state :=
  form.run_carries Progress.remainsIn_carried (fun _ _ _ => rfl) (callRule_remains G code budget) s
    hs h

end Grammar

/-! ## A call is recorded as it was answered -/

/-- What the outcome says is recorded for the rule at the position where it was called. -/
def Outcome.RecordedAt (r : ρ) (pos : Nat) : Outcome (Progress ρ Res) (Res r) → Prop
  | .matched a s => s.memo.find? r pos = some (.matched a s.pos)
  | .failed s => s.memo.find? r pos = some .failed
  | .stopped _ _ => False

/-- The entry that stands for the best match so far. -/
def bestEntry : Option (α × Nat) → Entry α
  | none => .failed
  | some (a, stop) => .matched a stop

/-- The best match of a growing rule is harvested as it is recorded. -/
theorem harvest_recordedAt {r : ρ} {start : Nat} {best : Option (Res r × Nat)}
    {s : Progress ρ Res} (h : s.memo.find? r start = some (bestEntry best)) :
    (harvest start best s).RecordedAt r start := by
  cases best with
  | none => exact h
  | some found => exact h

/-- When a call of a rule that records has ended, it is recorded as it was answered. -/
theorem Grammar.callRule_recorded {G : Grammar ρ Res} {code : Array Char} {budget : Nat} {r : ρ}
    {s : Progress ρ Res} (hstrategy : (G r).strategy ≠ .plain) (hs : s.Consistent code.size)
    (h : (G.callRule code budget r s).Finished) :
    (G.callRule code budget r s).RecordedAt r s.pos := by
  cases budget with
  | zero => exact h.elim
  | succ budget =>
    cases hfind : s.memo.find? r s.pos with
    | some entry =>
      rw [callRule_replayed hstrategy hfind]
      cases entry with
      | failed => exact hfind
      | matched a stop => exact hfind
    | none =>
      cases hstrategy' : (G r).strategy with
      | plain => exact absurd hstrategy' hstrategy
      | memo =>
        rw [callRule_memo hstrategy' hfind, runMemo] at h ⊢
        cases ho : (G r).form.run code (G.callRule code budget) (s.enter r) with
        | stopped c s' => rw [ho] at h; exact h.elim
        | matched a s' => exact Memo.find?_insert_self _ _ _ _
        | failed s' => exact Memo.find?_insert_self _ _ _ _
      | grow =>
        rw [callRule_grow hstrategy' hfind] at h ⊢
        refine growMatch_induct (P := fun best s' => s'.memo.find? r s.pos = some (bestEntry best))
          (Q := fun o => o.RecordedAt r s.pos) (fun _ _ _ => rfl) hs.pos ?_ ?_ ?_ _ none _
          (hs.seed r) (Memo.find?_insert_self _ _ _ _) h
        · intro best s' hbest
          exact harvest_recordedAt hbest
        · -- the body finds the match so far recorded, and leaves it so
          intro best s' hs' hbest hbody
          exact harvest_recordedAt
            ((recognise_remains (hs'.again hs.pos) hbody).entries r s.pos _ hbest)
        · intro best s' a s'' _ _ _ _ _ _
          exact Memo.find?_insert_self _ _ _ _

/-! ## The same again -/

/-- Since a progress nothing has been recorded, nothing has failed further on, and no bodies but
those of plain rules have been run. -/
structure Progress.Idles (G : Grammar ρ Res) (t t' : Progress ρ Res) : Prop where
  memo : t'.memo = t.memo
  furthest : t'.furthest = t.furthest
  runs : ∃ plain, t'.runs = plain ++ t.runs ∧ ∀ run ∈ plain, (G run.1).strategy = .plain

/-- The second outcome is the first one again: it is a match or a failure as well, with the same
result and the same end if it is a match. Since `t` nothing has been done for it but looking up. -/
def Outcome.Again (G : Grammar ρ Res) (t : Progress ρ Res) :
    Outcome (Progress ρ Res) α → Outcome (Progress ρ Res) α → Prop
  | .matched a s, .matched b t' => b = a ∧ t'.pos = s.pos ∧ t.Idles G t'
  | .failed _, .failed t' => t.Idles G t'
  | _, _ => False

section Again

variable {G : Grammar ρ Res} {s t t' t'' : Progress ρ Res}

omit [DecidableEq ρ] in
/-- Nothing done is nothing new. -/
theorem Progress.Idles.refl (G : Grammar ρ Res) (t : Progress ρ Res) : t.Idles G t :=
  ⟨rfl, rfl, [], rfl, fun _ hmem => (nomatch hmem)⟩

omit [DecidableEq ρ] in
/-- Idling may go on. -/
theorem Progress.Idles.trans (h : t.Idles G t') (h' : t'.Idles G t'') : t.Idles G t'' := by
  obtain ⟨plain, hruns, hplain⟩ := h.runs
  obtain ⟨plain', hruns', hplain'⟩ := h'.runs
  refine ⟨h'.memo.trans h.memo, h'.furthest.trans h.furthest, plain' ++ plain, ?_, ?_⟩
  · rw [hruns', hruns, List.append_assoc]
  · exact List.forall_mem_append.mpr ⟨hplain', hplain⟩

omit [DecidableEq ρ] in
/-- A change of position is nothing new. -/
theorem Progress.Idles.goTo (h : t.Idles G t') (pos : Nat) : t.Idles G (t'.goTo pos) :=
  ⟨h.memo, h.furthest, h.runs⟩

omit [DecidableEq ρ] in
/-- Neither is the run of a plain rule. -/
theorem Progress.Idles.ofEnter {r : ρ} (hstrategy : (G r).strategy = .plain)
    (h : (t.enter r).Idles G t') : t.Idles G t' := by
  obtain ⟨plain, hruns, hplain⟩ := h.runs
  refine ⟨h.memo, h.furthest, plain ++ [(r, t.pos)], ?_, ?_⟩
  · rw [hruns, List.append_assoc]
    rfl
  · exact List.forall_mem_append.mpr ⟨hplain, List.forall_mem_singleton.mpr hstrategy⟩

/-- What is recorded is still recorded after idling. -/
theorem Progress.RemainsIn.idles (h : s.RemainsIn t) (hidles : t.Idles G t') :
    s.RemainsIn t' := by
  refine ⟨fun r pos entry hfind => ?_, ?_⟩
  · rw [hidles.memo]
    exact h.entries r pos entry hfind
  · rw [hidles.furthest]
    exact h.furthest

omit [DecidableEq ρ] in
/-- A match comes again with the same result at the same position. -/
theorem Outcome.again_matched {a : α} {o : Outcome (Progress ρ Res) α} :
    (Outcome.matched a s).Again G t o ↔
      ∃ t', o = .matched a t' ∧ t'.pos = s.pos ∧ t.Idles G t' := by
  constructor
  · intro h
    cases o with
    | matched b t' =>
      obtain ⟨rfl, hpos, hidles⟩ := h
      exact ⟨t', rfl, hpos, hidles⟩
    | failed t' => exact h.elim
    | stopped c t' => exact h.elim
  · rintro ⟨t', rfl, hpos, hidles⟩
    exact ⟨rfl, hpos, hidles⟩

omit [DecidableEq ρ] in
/-- A failure comes again. -/
theorem Outcome.again_failed {o : Outcome (Progress ρ Res) α} :
    (Outcome.failed s).Again G t o ↔ ∃ t', o = .failed t' ∧ t.Idles G t' := by
  constructor
  · intro h
    cases o with
    | matched b t' => exact h.elim
    | failed t' => exact ⟨t', rfl, h⟩
    | stopped c t' => exact h.elim
  · rintro ⟨t', rfl, hidles⟩
    exact hidles

omit [DecidableEq ρ] in
/-- What comes again is finished. -/
theorem Outcome.Again.finished {o o' : Outcome (Progress ρ Res) α} (h : o.Again G t o') :
    o'.Finished := by
  cases o' with
  | stopped c t' => cases o <;> exact h.elim
  | matched a t' => trivial
  | failed t' => trivial

omit [DecidableEq ρ] in
/-- Idling beforehand changes nothing in what comes again. -/
theorem Outcome.Again.ofIdles {o o' : Outcome (Progress ρ Res) α} (hidles : t.Idles G t')
    (h : o.Again G t' o') : o.Again G t o' := by
  cases o with
  | stopped c s₁ => exact h.elim
  | matched a s₁ =>
    obtain ⟨t₁, rfl, hpos, hidles'⟩ := again_matched.mp h
    exact ⟨rfl, hpos, hidles.trans hidles'⟩
  | failed s₁ =>
    obtain ⟨t₁, rfl, hidles'⟩ := again_failed.mp h
    exact hidles.trans hidles'

omit [DecidableEq ρ] in
/-- Neither does the run of a plain rule. -/
theorem Outcome.Again.ofEnter {r : ρ} {o o' : Outcome (Progress ρ Res) α}
    (hstrategy : (G r).strategy = .plain) (h : o.Again G (t.enter r) o') : o.Again G t o' := by
  cases o with
  | stopped c s₁ => exact h.elim
  | matched a s₁ =>
    obtain ⟨t₁, rfl, hpos, hidles⟩ := again_matched.mp h
    exact ⟨rfl, hpos, hidles.ofEnter hstrategy⟩
  | failed s₁ =>
    obtain ⟨t₁, rfl, hidles⟩ := again_failed.mp h
    exact hidles.ofEnter hstrategy

omit [DecidableEq ρ] in
/-- A failure that has been counted already is no news. -/
theorem Progress.Idles.fail_again (h : t.Idles G t') (s : Progress ρ Res)
    (hpos : t'.pos ≤ t.furthest) :
    (Outcome.failed s : Outcome (Progress ρ Res) α).Again G t t'.fail := by
  refine ⟨h.memo, ?_, h.runs⟩
  show max t'.furthest t'.pos = t.furthest
  rw [h.furthest, Nat.max_eq_left hpos]

/-- A sequence comes again if both its parts do, where all that they have recorded is still there.
-/
theorem Outcome.Again.andThen {o o' : Outcome (Progress ρ Res) α}
    {next : α → Progress ρ Res → Outcome (Progress ρ Res) β}
    (hfirst : o.Finished → o.state.RemainsIn t → o.Again G t o')
    (hlater : ∀ a s', o = .matched a s' → (next a s').Finished →
      s'.RemainsIn (next a s').state)
    (hnext : ∀ a s' t', o = .matched a s' → t'.pos = s'.pos → (next a s').Finished →
      (next a s').state.RemainsIn t' → (next a s').Again G t' (next a t'))
    (h : (o.andThen next).Finished) (hremains : (o.andThen next).state.RemainsIn t) :
    (o.andThen next).Again G t (o'.andThen next) := by
  cases o with
  | stopped c s₁ => exact h.elim
  | failed s₁ =>
    obtain ⟨t', rfl, hidles⟩ := again_failed.mp (hfirst trivial hremains)
    exact hidles
  | matched a s₁ =>
    rw [andThen_matched] at h hremains ⊢
    have hfound := hfirst trivial ((hlater a s₁ rfl h).trans hremains)
    obtain ⟨t', rfl, hpos, hidles⟩ := again_matched.mp hfound
    exact (hnext a s₁ t' rfl hpos h (hremains.idles hidles)).ofIdles hidles

end Again

/-! ## Forms that are run again -/

section Forms

variable {G : Grammar ρ Res} {code : Array Char} {budget : Nat}

/-- Where the form has been recognised once, it is recognised later on with the same outcome. -/
def Form.RunsAgain (G : Grammar ρ Res) (code : Array Char) (budget : Nat)
    (form : Form ρ Res α) : Prop :=
  ∀ s t : Progress ρ Res, s.Consistent code.size → t.pos = s.pos →
    (form.run code (G.callRule code budget) s).Finished →
      (form.run code (G.callRule code budget) s).state.RemainsIn t →
        (form.run code (G.callRule code budget) s).Again G t
          (form.run code (G.callRule code budget) t)

/-- The rounds of a repetition come again one after the other: by induction on the rounds. -/
theorem repeatStep_again {form : Form ρ Res α} (hform : form.RunsAgain G code budget) :
    ∀ (rounds : Nat) (items : List α) (s t : Progress ρ Res), s.Consistent code.size →
      t.pos = s.pos →
      (repeatStep (form.run code (G.callRule code budget)) rounds items s).Finished →
      (repeatStep (form.run code (G.callRule code budget)) rounds items s).state.RemainsIn t →
      (repeatStep (form.run code (G.callRule code budget)) rounds items s).Again G t
        (repeatStep (form.run code (G.callRule code budget)) rounds items t) := by
  intro rounds
  induction rounds with
  | zero => intro items s t _ hpos _ _; exact ⟨rfl, hpos, .refl G t⟩
  | succ rounds ih =>
    intro items s t hs hpos h hremains
    have hstep := hform s t hs hpos
    have hagree : (G.callRule code budget).AgreeWith G code budget := fun _ _ _ => rfl
    have honward := form.run_onward hagree hs
    rw [repeatStep] at h hremains ⊢
    cases ho : form.run code (G.callRule code budget) s with
    | stopped c s' => rw [ho] at h; exact h.elim
    | failed s' =>
      rw [ho] at hstep hremains
      have hleft : s'.RemainsIn t := ⟨hremains.entries, hremains.furthest⟩
      obtain ⟨t', ht', hidles⟩ := Outcome.again_failed.mp (hstep trivial hleft)
      rw [repeatStep, ht']
      exact ⟨rfl, hpos, hidles.goTo _⟩
    | matched a s' =>
      rw [ho] at h hstep hremains honward
      dsimp only at h hremains ⊢
      by_cases hend : s'.pos = s.pos
      · rw [if_pos hend] at hremains ⊢
        obtain ⟨t', ht', hpos', hidles⟩ := Outcome.again_matched.mp (hstep trivial hremains)
        have hend' : t'.pos = t.pos := by rw [hpos', hend, hpos]
        rw [repeatStep, ht']
        dsimp only
        rw [if_pos hend']
        exact ⟨rfl, hpos', hidles⟩
      · rw [if_neg hend] at h hremains ⊢
        have hs' := (honward trivial).consistent
        have hlater := repeatStep_carries Progress.remainsIn_carried (fun _ _ _ => rfl)
          (fun s => Grammar.recognise_remains) rounds (a :: items) s' hs' h
        obtain ⟨t', ht', hpos', hidles⟩ :=
          Outcome.again_matched.mp (hstep trivial (hlater.trans hremains))
        have hend' : ¬t'.pos = t.pos := by rw [hpos', hpos]; exact hend
        rw [repeatStep, ht']
        dsimp only
        rw [if_neg hend']
        exact (ih _ s' t' hs' hpos' h (hremains.idles hidles)).ofIdles hidles

/-- A form is run again alike if its calls are answered again alike. -/
theorem Form.runsAgain_of_calls
    (hcalls : ∀ r, (Form.call r : Form ρ Res (Res r)).RunsAgain G code budget)
    (form : Form ρ Res α) : form.RunsAgain G code budget := by
  have hagree : (G.callRule code budget).AgreeWith G code budget := fun _ _ _ => rfl
  induction form with
  | pattern m =>
    intro s t _ hpos _ hremains
    rw [Form.run] at hremains ⊢
    rw [Form.run, hpos]
    cases hstop : m.stop? code s.pos with
    | some stop => exact ⟨rfl, rfl, (Progress.Idles.refl G t).goTo stop⟩
    | none =>
      rw [hstop] at hremains
      refine (Progress.Idles.refl G t).fail_again _ ?_
      rw [hpos]
      exact Nat.le_trans (Nat.le_max_right _ _) hremains.furthest
  | endOfInput =>
    intro s t _ hpos _ hremains
    rw [Form.run] at hremains ⊢
    rw [Form.run, hpos]
    by_cases hend : s.pos = code.size
    · rw [if_pos hend, if_pos hend]
      exact ⟨rfl, hpos, .refl G t⟩
    · rw [if_neg hend] at hremains ⊢
      rw [if_neg hend]
      refine (Progress.Idles.refl G t).fail_again _ ?_
      rw [hpos]
      exact Nat.le_trans (Nat.le_max_right _ _) hremains.furthest
  | skip a => intro s t _ hpos _ _; exact ⟨rfl, hpos, .refl G t⟩
  | fail =>
    intro s t _ hpos _ hremains
    refine (Progress.Idles.refl G t).fail_again _ ?_
    rw [hpos]
    exact Nat.le_trans (Nat.le_max_right _ _) hremains.furthest
  | pair f g ihf ihg =>
    intro s t hs hpos h hremains
    rw [Form.run] at h hremains ⊢
    rw [Form.run]
    have hconsistent : ∀ a s', f.run code (G.callRule code budget) s = .matched a s' →
        s'.Consistent code.size := by
      intro a s' ho
      have honward := f.run_onward hagree hs h.first
      rw [ho] at honward
      exact honward.consistent
    refine .andThen (ihf s t hs hpos) ?_ ?_ h hremains
    · intro a s' ho hn
      exact Progress.remainsIn_carried.andThen
        (fun hg => Grammar.recognise_remains (hconsistent a s' ho) hg)
        (fun _ s'' _ _ => .refl s'') hn
    · intro a s' t' ho hpos' hn hremains'
      refine .andThen (ihg s' t' (hconsistent a s' ho) hpos') ?_ ?_ hn hremains'
      · intro b s'' _ _
        exact .refl s''
      · intro b s'' t'' _ hpos'' _ _
        exact ⟨rfl, hpos'', .refl G t''⟩
  | map k f ih =>
    intro s t hs hpos h hremains
    rw [Form.run] at h hremains ⊢
    rw [Form.run]
    refine .andThen (ih s t hs hpos) ?_ ?_ h hremains
    · intro a s' _ _
      exact .refl s'
    · intro a s' t' _ hpos' _ _
      exact ⟨rfl, hpos', .refl G t'⟩
  | refine k f ih =>
    intro s t hs hpos h hremains
    rw [Form.run] at h hremains ⊢
    rw [Form.run]
    refine .andThen (ih s t hs hpos) ?_ ?_ h hremains
    · intro a s' _ _
      cases k a with
      | some b => exact .refl s'
      | none => exact Progress.remainsIn_carried.fail (.refl s')
    · intro a s' t' _ hpos' _ hremains'
      cases hk : k a with
      | some b => exact ⟨rfl, hpos', .refl G t'⟩
      | none =>
        rw [hk] at hremains'
        refine (Progress.Idles.refl G t').fail_again _ ?_
        rw [hpos']
        exact Nat.le_trans (Nat.le_max_right _ _) hremains'.furthest
  | checked e f ih =>
    intro s t hs hpos h hremains
    rw [Form.run] at h hremains ⊢
    rw [Form.run]
    refine .andThen (ih s t hs hpos) ?_ ?_ h hremains
    · intro a s' _ _
      cases e a with
      | some message => exact .refl s'
      | none => exact .refl s'
    · intro a s' t' _ hpos' hchecked _
      cases he : e a with
      | some message => rw [he] at hchecked; exact hchecked.elim
      | none => exact ⟨rfl, hpos', .refl G t'⟩
  | orElse f g ihf ihg =>
    intro s t hs hpos h hremains
    have hf := ihf s t hs hpos
    have honward := f.run_onward hagree hs
    rw [Form.run] at h hremains ⊢
    rw [Form.run]
    cases ho : f.run code (G.callRule code budget) s with
    | stopped c s' => rw [ho] at h; exact h.elim
    | matched a s' =>
      rw [ho] at hf hremains
      obtain ⟨t', ht', hpos', hidles⟩ := Outcome.again_matched.mp (hf trivial hremains)
      rw [ht']
      exact ⟨rfl, hpos', hidles⟩
    | failed s₁ =>
      rw [ho] at h hf hremains honward
      have hback := (honward trivial).1.consistent.goTo hs.pos
      have hg : ∀ t' : Progress ρ Res, t'.pos = s.pos → _ := fun t' => ihg (s₁.goTo s.pos) t' hback
      have hlater : _ → (s₁.goTo s.pos).RemainsIn (G.recognise code budget g _).state :=
        Grammar.recognise_remains hback
      rw [Grammar.recognise] at hlater
      dsimp only at h hremains ⊢
      cases ho' : g.run code (G.callRule code budget) (s₁.goTo s.pos) with
      | stopped c s₂ => rw [ho'] at h; exact h.elim
      | matched a s₂ =>
        rw [ho'] at hg hlater hremains
        have hleft := (hlater trivial).trans hremains
        obtain ⟨t₁, ht₁, hidles⟩ :=
          Outcome.again_failed.mp (hf trivial ⟨hleft.entries, hleft.furthest⟩)
        have hback' := hidles.goTo t.pos
        obtain ⟨t₂, ht₂, hpos₂, hidles₂⟩ :=
          Outcome.again_matched.mp (hg (t₁.goTo t.pos) hpos trivial (hremains.idles hback'))
        rw [ht₁]
        dsimp only
        rw [ht₂]
        exact ⟨rfl, hpos₂, hback'.trans hidles₂⟩
      | failed s₂ =>
        rw [ho'] at hg hlater hremains
        -- the failure behind both alternatives is the last one that is counted
        have hremains₂ : s₂.RemainsIn t :=
          ⟨hremains.entries, Nat.le_trans (Nat.le_max_left _ _) hremains.furthest⟩
        have hleft := (hlater trivial).trans hremains₂
        obtain ⟨t₁, ht₁, hidles⟩ :=
          Outcome.again_failed.mp (hf trivial ⟨hleft.entries, hleft.furthest⟩)
        have hback' := hidles.goTo t.pos
        obtain ⟨t₂, ht₂, hidles₂⟩ :=
          Outcome.again_failed.mp (hg (t₁.goTo t.pos) hpos trivial (hremains₂.idles hback'))
        rw [ht₁]
        dsimp only
        rw [ht₂]
        refine ((hback'.trans hidles₂).goTo t.pos).fail_again _ ?_
        show t.pos ≤ t.furthest
        rw [hpos]
        exact Nat.le_trans (Nat.le_max_right _ _) hremains.furthest
  | optional f ih =>
    intro s t hs hpos h hremains
    have hf := ih s t hs hpos
    rw [Form.run] at h hremains ⊢
    rw [Form.run]
    cases ho : f.run code (G.callRule code budget) s with
    | stopped c s' => rw [ho] at h; exact h.elim
    | matched a s' =>
      rw [ho] at hf hremains
      obtain ⟨t', ht', hpos', hidles⟩ := Outcome.again_matched.mp (hf trivial hremains)
      rw [ht']
      exact ⟨rfl, hpos', hidles⟩
    | failed s' =>
      rw [ho] at hf hremains
      have hleft : s'.RemainsIn t := ⟨hremains.entries, hremains.furthest⟩
      obtain ⟨t', ht', hidles⟩ := Outcome.again_failed.mp (hf trivial hleft)
      rw [ht']
      exact ⟨rfl, hpos, hidles.goTo _⟩
  | many f ih =>
    intro s t hs hpos h hremains
    exact repeatStep_again ih _ _ s t hs hpos h hremains
  | call r => exact hcalls r

end Forms

/-! ## Calls that are made again -/

namespace Grammar

variable {G : Grammar ρ Res} {code : Array Char}

/-- A call that finds recorded what it was answered before is answered so again. -/
theorem callRule_runsAgain (G : Grammar ρ Res) (code : Array Char) :
    ∀ (budget : Nat) (r : ρ), (Form.call r : Form ρ Res (Res r)).RunsAgain G code budget := by
  intro budget
  induction budget with
  | zero => intro r s t _ _ h _; exact h.elim
  | succ budget ih =>
    intro r s t hs hpos h hremains
    rw [Form.run] at h hremains ⊢
    rw [Form.run]
    by_cases hstrategy : (G r).strategy = .plain
    · rw [callRule_plain hstrategy] at h hremains ⊢
      rw [callRule_plain hstrategy]
      have hbody : Outcome.Again G (t.enter r) _ _ :=
        Form.runsAgain_of_calls ih (G r).form (s.enter r) (t.enter r) (hs.enter r) hpos h
          ⟨hremains.entries, hremains.furthest⟩
      exact hbody.ofEnter hstrategy
    · have hrecorded := callRule_recorded hstrategy hs h
      have honward : _ → (G.recognise code (budget + 1) (.call r) s).Onward _ _ _ :=
        recognise_onward hs
      rw [recognise, Form.run] at honward
      cases ho : G.callRule code (budget + 1) r s with
      | stopped c s' => rw [ho] at h; exact h.elim
      | matched a s' =>
        rw [ho] at hremains hrecorded
        have hfind := hremains.entries r s.pos _ hrecorded
        rw [← hpos] at hfind
        rw [callRule_replayed hstrategy hfind]
        exact ⟨rfl, rfl, (Progress.Idles.refl G t).goTo _⟩
      | failed s' =>
        rw [ho] at hremains hrecorded honward
        have hfind := hremains.entries r s.pos _ hrecorded
        rw [← hpos] at hfind
        rw [callRule_replayed hstrategy hfind]
        -- the call has failed at its start or behind it, and that has been counted
        obtain ⟨hfailed, hcounted⟩ := honward trivial
        refine (Progress.Idles.refl G t).fail_again s' ?_
        rw [hpos]
        exact Nat.le_trans hfailed.origin (Nat.le_trans hcounted hremains.furthest)

/-- Every form is run again alike. -/
theorem runsAgain (G : Grammar ρ Res) (code : Array Char) (budget : Nat) (form : Form ρ Res α) :
    form.RunsAgain G code budget :=
  Form.runsAgain_of_calls (callRule_runsAgain G code budget) form

/-! ## Later attempts -/

/-- One more attempt on a code, or back to its start with what is recorded by then. -/
inductive Step (G : Grammar ρ Res) (code : Array Char) (s : Progress ρ Res) :
    Progress ρ Res → Prop where
  | rewind : Step G code s (s.goTo 0)
  | attempt {α : Type} (form : Form ρ Res α) (budget : Nat)
      (h : (G.recognise code budget form s).Finished) :
      Step G code s (G.recognise code budget form s).state

/-- Where any number of further attempts may lead. -/
def Later (G : Grammar ρ Res) (code : Array Char) : Progress ρ Res → Progress ρ Res → Prop :=
  Relation.ReflTransGen (G.Step code)

/-- A step keeps what has been recorded. -/
theorem Step.remains {s t : Progress ρ Res} (h : G.Step code s t) (hs : s.Consistent code.size) :
    t.Consistent code.size ∧ s.RemainsIn t := by
  cases h with
  | rewind => exact ⟨hs.goTo (Nat.zero_le _), Progress.remainsIn_carried.goTo 0 (.refl s)⟩
  | attempt form budget h =>
    exact ⟨(recognise_onward hs h).progress.consistent, recognise_remains hs h⟩

/-- So do any number of steps. -/
theorem Later.remains {s t : Progress ρ Res} (h : G.Later code s t) (hs : s.Consistent code.size) :
    t.Consistent code.size ∧ s.RemainsIn t := by
  induction h with
  | refl => exact ⟨hs, .refl s⟩
  | tail _ hstep ih =>
    obtain ⟨hconsistent, hremains⟩ := hstep.remains ih.1
    exact ⟨hconsistent, ih.2.trans hremains⟩

/-- **What attempts leave lasts.** After any attempts on a code, with any rules, entries and the
count of failures remain in whatever further attempts lead to. If one of the attempts has been at a
form from the start of the code, then every later one at it from there, with as much budget or at
least enough to be finished, comes to the same again: a match of the same with the same end or a
failure, with nothing recorded, no failure further on and no body run but of plain rules. -/
theorem attempts_lasting {s : Progress ρ Res} (hs : G.Attempted code s) :
    (∀ t, G.Later code s t → s.RemainsIn t) ∧
    ∀ {α : Type} (root : Form ρ Res α) (budget : Nat), (G.parse code budget root s).Finished →
      ∀ t, G.Later code (G.parse code budget root s).state t →
        ∀ budget', budget ≤ budget' ∨ (G.parse code budget' root t).Finished →
          (G.parse code budget root s).Again G t (G.parse code budget' root t) := by
  refine ⟨fun t hlater => (hlater.remains hs.consistent).2, ?_⟩
  intro α root budget h t hlater budget' hbudget
  have hback := hs.consistent.goTo (Nat.zero_le code.size)
  have hfirst := (recognise_onward hback h).progress.consistent
  have hremains := (hlater.remains hfirst).2
  have hagain : (G.parse code budget root s).Again G t (G.parse code budget root t) :=
    (G.runsAgain code budget root (s.goTo 0) (t.goTo 0) hback rfl h
      (Progress.remainsIn_carried.goTo 0 hremains)).ofIdles ((Progress.Idles.refl G t).goTo 0)
  have hsame : G.parse code budget' root t = G.parse code budget root t := by
    obtain hle | hfinished := hbudget
    · exact recognise_mono hle root _ hagain.finished.decided
    · obtain hle | hle := Nat.le_total budget budget'
      · exact recognise_mono hle root _ hagain.finished.decided
      · exact (recognise_mono hle root _ hfinished.decided).symm
  rw [hsame]
  exact hagain

end Grammar

/-- The blanks before the first letter are recorded, and then all letters are matched. When a letter
has been missed behind them, the letters are matched again as before. -/
theorem attempts_lasting_joinedLetters :
    let code := #['a', '+', 'a']
    let s := (joinedLetters.recognise code 5 (.call .blanks) .start).state
    let first := joinedLetters.parse code 5 (.call .joined) s
    let t := (joinedLetters.recognise code 5 (.call .behindBlanks) first.state).state
    joinedLetters.Attempted code s ∧ first.Finished ∧ first.state.pos = 3 ∧
    joinedLetters.Later code first.state t ∧
    s.RemainsIn first.state ∧
    first.Again joinedLetters t (joinedLetters.parse code 7 (.call .joined) t) := by
  intro code
  have hcode : code = #['a', '+', 'a'] := rfl
  -- only the outcomes are computed; the rest is true of any code that has them
  clear_value code
  intro s first t
  have hblanks : (joinedLetters.recognise code 5 (.call .blanks) .start).Finished := by
    subst hcode; decide +kernel
  have hfinished : first.Finished := by subst hcode; decide +kernel
  have hmissed : (joinedLetters.recognise code 5 (.call .behindBlanks) first.state).Finished := by
    subst hcode; decide +kernel
  have hend : first.state.pos = 3 := by subst hcode; decide +kernel
  have hs : joinedLetters.Attempted code s := .attempt .start _ 5 hblanks
  have hback : joinedLetters.Step code s (s.goTo 0) := .rewind
  have hparse : joinedLetters.Step code (s.goTo 0) first.state := .attempt _ 5 hfinished
  have hlater : joinedLetters.Later code first.state t := .single (.attempt _ 5 hmissed)
  obtain ⟨hremains, hagain⟩ := Grammar.attempts_lasting hs
  exact ⟨hs, hfinished, hend, hlater, hremains _ (.tail (.single hback) hparse),
    hagain (.call .joined) 5 hfinished t hlater 7 (.inl (by decide))⟩

end CalcScript.Packrat
