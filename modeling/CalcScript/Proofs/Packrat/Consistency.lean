import CalcScript.Proofs.Packrat.Adequacy
import CalcScript.Proofs.Packrat.Termination

/-!
# What every attempt leaves behind

> `Grammar.attempts_consistent`: after any attempts on one code, with any rules, the position, the
> furthest failure and what is recorded lie inside the code. One more attempt ends at no earlier
> position than it has begun at and forgets no failure; and if it fails, then with a failure that
> was raised at the very position where it ends.

`Grammar.Ends.onward` is the step: one case for each way an attempt ends. Where a failure was
raised is said apart from the state (`Form.raised?`), since a failure is handed on unchanged by all
that does not catch it, while the position is moved by growing rules and by choices.
-/

namespace CalcScript.Packrat

variable {ρ : Type} {Res : ρ → Type} {α β : Type}

/-! ## Consistent progress -/

/-- Where an entry for a position ends: a match where it stops, a failure where it begins. -/
def Entry.stop (start : Nat) : Entry α → Nat
  | .failed => start
  | .matched _ stop => stop

variable [DecidableEq ρ]

/-- All positions that a progress speaks of lie inside a code, and no entry ends before it
begins. -/
structure Progress.Consistent (size : Nat) (s : Progress ρ Res) : Prop where
  pos : s.pos ≤ size
  furthest : s.furthest ≤ size
  entries : ∀ r q entry, s.memo.find? r q = some entry →
    q ≤ entry.stop q ∧ entry.stop q ≤ size

/-- From a progress to a consistent one at no earlier position than `origin`, with every failure
still counted. -/
structure Progress.Onward (size origin : Nat) (s s' : Progress ρ Res) : Prop where
  consistent : s'.Consistent size
  furthest : s.furthest ≤ s'.furthest
  origin : origin ≤ s'.pos

/-- An attempt leads onward to a match or a failure, and a failure is counted where it ends. -/
def Outcome.Onward (size origin : Nat) (s : Progress ρ Res) : Outcome (Progress ρ Res) α → Prop
  | .matched _ s' => s.Onward size origin s'
  | .failed s' => s.Onward size origin s' ∧ s'.pos ≤ s'.furthest
  | .stopped _ _ => False

namespace Progress

variable {size origin origin' pos : Nat} {s s' s'' : Progress ρ Res}

/-- Progress begins consistent, with nothing recorded. -/
theorem start_consistent (size : Nat) : (start : Progress ρ Res).Consistent size where
  pos := Nat.zero_le size
  furthest := Nat.zero_le size
  entries r q entry h := by cases (Memo.find?_empty r q).symm.trans h

/-- Consistent progress is inside the code. -/
theorem Consistent.inside (h : s.Consistent size) : s.Inside size :=
  ⟨h.pos, fun r q _ _ hfind => h.entries r q _ hfind⟩

/-- Consistent progress is onward from where it stands. -/
theorem Consistent.onward (h : s.Consistent size) : s.Onward size s.pos s :=
  ⟨h, Nat.le_refl _, Nat.le_refl _⟩

/-- Progress goes onward in stretches. -/
theorem Onward.trans (h : s.Onward size origin s') (h' : s'.Onward size origin' s'')
    (hle : origin ≤ origin') : s.Onward size origin s'' :=
  ⟨h'.consistent, Nat.le_trans h.furthest h'.furthest, Nat.le_trans hle h'.origin⟩

/-- It may go to a position behind its origin. -/
theorem Onward.goTo (h : s.Onward size origin s') (hle : origin' ≤ pos) (hpos : pos ≤ size) :
    s.Onward size origin' (s'.goTo pos) :=
  ⟨⟨hpos, h.consistent.furthest, h.consistent.entries⟩, h.furthest, hle⟩

/-- The note that a rule has been entered moves nothing. -/
theorem Onward.enter (h : s.Onward size origin s') (r : ρ) : s.Onward size origin (s'.enter r) :=
  ⟨⟨h.consistent.pos, h.consistent.furthest, h.consistent.entries⟩, h.furthest, h.origin⟩

/-- An entry may be recorded that ends inside the code and not before its position. -/
theorem Onward.record {r : ρ} {entry : Entry (Res r)} (h : s.Onward size origin s')
    (hentry : pos ≤ entry.stop pos ∧ entry.stop pos ≤ size) :
    s.Onward size origin (s'.record r pos entry) := by
  refine ⟨⟨h.consistent.pos, h.consistent.furthest, fun r' q entry' hfind => ?_⟩, h.furthest,
    h.origin⟩
  rw [Progress.record] at hfind
  by_cases heq : r' = r ∧ q = pos
  · obtain ⟨rfl, rfl⟩ := heq
    rw [Memo.find?_insert_self] at hfind
    cases hfind
    exact hentry
  · rw [Memo.find?_insert_of_ne _ _ heq] at hfind
    exact h.consistent.entries r' q entry' hfind

/-- A failure counts where progress stands. -/
theorem Onward.fail (h : s.Onward size origin s') :
    (s'.fail : Outcome (Progress ρ Res) α).Onward size origin s := by
  refine ⟨⟨⟨h.consistent.pos, ?_, h.consistent.entries⟩, ?_, h.origin⟩, Nat.le_max_right _ _⟩
  · exact Nat.max_le.mpr ⟨h.consistent.furthest, h.consistent.pos⟩
  · exact Nat.le_trans h.furthest (Nat.le_max_left _ _)

/-- An entry is replayed onward. -/
theorem Onward.replay {entry : Entry α} (h : s.Onward size s'.pos s')
    (hentry : s'.pos ≤ entry.stop s'.pos ∧ entry.stop s'.pos ≤ size) :
    (replay entry s').Onward size s'.pos s := by
  cases entry with
  | failed => exact h.fail
  | matched a stop => exact h.goTo hentry.1 hentry.2

/-- The best match of a growing rule ends behind its start. -/
theorem Onward.harvest {start : Nat} {best : Option (α × Nat)} (h : s.Onward size start s')
    (hstart : start ≤ size)
    (hbest : ∀ a stop, best = some (a, stop) → start ≤ stop ∧ stop ≤ size) :
    (harvest start best s').Onward size start s := by
  cases best with
  | none => exact (h.goTo (Nat.le_refl _) hstart).fail
  | some found =>
    obtain ⟨a, stop⟩ := found
    obtain ⟨hle, hsize⟩ := hbest a stop rfl
    exact h.goTo hle hsize

end Progress

namespace Outcome

variable {size origin origin' : Nat} {s s' : Progress ρ Res}

/-- An outcome that is onward leaves progress onward. -/
theorem Onward.progress {o : Outcome (Progress ρ Res) α} (h : o.Onward size origin s) :
    s.Onward size origin o.state := by
  cases o with
  | matched a s' => exact h
  | failed s' => exact h.1
  | stopped c s' => exact h.elim

/-- A sequence goes onward if its parts do. -/
theorem Onward.andThen {o : Outcome (Progress ρ Res) α}
    {next : α → Progress ρ Res → Outcome (Progress ρ Res) β} (h : o.Onward size origin s)
    (hnext : ∀ a s', s.Onward size origin s' → (next a s').Onward size origin s) :
    (o.andThen next).Onward size origin s := by
  cases o with
  | matched a s' => exact hnext a s' h
  | failed s' => exact h
  | stopped c s' => exact h.elim

/-- What goes onward from later progress does so from the progress before it. -/
theorem Onward.of_onward {o : Outcome (Progress ρ Res) α} (h : o.Onward size origin' s')
    (hs : s.Onward size origin s') (hle : origin ≤ origin') : o.Onward size origin s := by
  cases o with
  | matched a s₁ => exact hs.trans h hle
  | failed s₁ => exact ⟨hs.trans h.1 hle, h.2⟩
  | stopped c s₁ => exact h.elim

end Outcome

/-- An attempt leads onward from where it begins. -/
theorem Grammar.Ends.onward {G : Grammar ρ Res} {code : Array Char} {task : Task ρ Res α}
    {s : Progress ρ Res} {o : Outcome (Progress ρ Res) α} (h : G.Ends code task s o)
    (hs : s.Consistent code.size) (hfits : task.Fits code.size) :
    o.Onward code.size (task.origin s) s := by
  induction h with
  | pattern hstop =>
    obtain ⟨hle, hsize⟩ := Matcher.stop?_bounds hs.pos hstop
    exact hs.onward.goTo hle hsize
  | noPattern _ => exact hs.onward.fail
  | endOfInput _ => exact hs.onward
  | noEndOfInput _ => exact hs.onward.fail
  | skip => exact hs.onward
  | fail => exact hs.onward.fail
  | pair _ _ ihf ihg =>
    have hfirst := ihf hs trivial
    refine Outcome.Onward.andThen ?_ fun b s' h => h
    exact (ihg hfirst.consistent trivial).of_onward hfirst hfirst.origin
  | noPair _ ih => exact ih hs trivial
  | map _ ih => exact (ih hs trivial).andThen fun a s' h => h
  | @refine _ _ k _ _ _ _ ih =>
    refine (ih hs trivial).andThen fun a s' h => ?_
    cases k a with
    | some b => exact h
    | none => exact h.fail
  | checked _ _ ih => exact ih hs trivial
  | noChecked _ ih => exact ih hs trivial
  | left _ ih => exact ih hs trivial
  | right _ _ ihf ihg =>
    have hback := (ihf hs trivial).1.goTo (Nat.le_refl _) hs.pos
    exact (ihg hback.consistent trivial).of_onward hback (Nat.le_refl _)
  | neither _ _ ihf ihg =>
    have hback := (ihf hs trivial).1.goTo (Nat.le_refl _) hs.pos
    have hboth := hback.trans (ihg hback.consistent trivial).1 (Nat.le_refl _)
    exact (hboth.goTo (Nat.le_refl _) hs.pos).fail
  | given _ ih => exact ih hs trivial
  | missing _ ih => exact (ih hs trivial).1.goTo (Nat.le_refl _) hs.pos
  | many _ ih => exact ih hs trivial
  | noMore _ ih => exact (ih hs trivial).1.goTo (Nat.le_refl _) hs.pos
  | last _ _ ih => exact ih hs trivial
  | next _ _ _ ih ihloop =>
    have hitem := ih hs trivial
    exact (ihloop hitem.consistent trivial).of_onward hitem hitem.origin
  | replayed _ hfind => exact hs.onward.replay (hs.entries _ _ _ hfind)
  | @plain r _ _ _ _ ih =>
    have hbody := hs.onward.enter r
    exact (ih hbody.consistent trivial).of_onward hbody (Nat.le_refl _)
  | @memoMatched r _ _ _ _ _ _ ih =>
    have hbody := hs.onward.enter r
    have hmatch := ih hbody.consistent trivial
    exact (hbody.trans hmatch (Nat.le_refl _)).record ⟨hmatch.origin, hmatch.consistent.pos⟩
  | @memoFailed r _ _ _ _ _ ih =>
    have hbody := hs.onward.enter r
    obtain ⟨hfailed, hcounted⟩ := ih hbody.consistent trivial
    exact ⟨(hbody.trans hfailed (Nat.le_refl _)).record ⟨Nat.le_refl _, hs.pos⟩, hcounted⟩
  | @grown r s _ _ _ _ ih =>
    have hseed : s.Onward code.size s.pos (s.record r s.pos .failed) :=
      hs.onward.record ⟨Nat.le_refl _, hs.pos⟩
    exact (ih hseed.consistent (Task.fits_none r hs.pos)).of_onward hseed (Nat.le_refl _)
  | @growFailed r _ _ _ _ _ ih =>
    have hbody := (hs.onward.goTo (Nat.le_refl _) hfits.1).enter r
    have hfailed := (ih hbody.consistent trivial).1
    exact (hbody.trans hfailed (Nat.le_refl _)).harvest hfits.1 hfits.2
  | @growNoLonger r _ _ _ _ _ _ _ ih =>
    have hbody := (hs.onward.goTo (Nat.le_refl _) hfits.1).enter r
    have hmatch := ih hbody.consistent trivial
    exact (hbody.trans hmatch (Nat.le_refl _)).harvest hfits.1 hfits.2
  | @growLonger r start _ s s' a _ _ _ _ ih ihloop =>
    have hbody := (hs.onward.goTo (Nat.le_refl _) hfits.1).enter r
    have hmatch := ih hbody.consistent trivial
    have hle := hmatch.origin
    have hsize := hmatch.consistent.pos
    have hrecord : s.Onward code.size start (s'.record r start (.matched a s'.pos)) :=
      (hbody.trans hmatch (Nat.le_refl _)).record ⟨hle, hsize⟩
    exact (ihloop hrecord.consistent (Task.fits_some r a hfits.1 hle hsize)).of_onward hrecord
      (Nat.le_refl _)

/-! ## Where a failure was raised -/

/-- Where the failure was raised that the form ends in, if it fails. A pair and what changes a
result hand on the failures inside them as they are; everything else fails where it begins. -/
def Form.raisedAt (code : Array Char) (calls : Calls ρ Res)
    (callRaisedAt : (r : ρ) → Progress ρ Res → Nat) :
    {α : Type} → Form ρ Res α → Progress ρ Res → Nat
  | _, .pair f g, s =>
    match f.run code calls s with
    | .matched _ s' => g.raisedAt code calls callRaisedAt s'
    | _ => f.raisedAt code calls callRaisedAt s
  | _, .map _ f, s => f.raisedAt code calls callRaisedAt s
  | _, .refine _ f, s =>
    match f.run code calls s with
    | .matched _ s' => s'.pos
    | _ => f.raisedAt code calls callRaisedAt s
  | _, .checked _ f, s => f.raisedAt code calls callRaisedAt s
  | _, .call r, s => callRaisedAt r s
  | _, _, s => s.pos

/-- Where the failure was raised that a call ends in, if it fails. A recorded failure is raised anew
where the call stands, and so is that of a growing rule; any other is handed on from the form. -/
def Grammar.callRaisedAt (G : Grammar ρ Res) (code : Array Char) :
    Nat → (r : ρ) → Progress ρ Res → Nat
  | 0, _, s => s.pos
  | budget + 1, r, s =>
    let body := (G r).form.raisedAt code (G.callRule code budget) (G.callRaisedAt code budget)
    match (G r).strategy with
    | .plain => body (s.enter r)
    | .memo => if (s.memo.find? r s.pos).isSome then s.pos else body (s.enter r)
    | .grow => s.pos

/-- Where the failure was raised that recognition of a form ends in, if it fails. -/
def Grammar.raisedAt (G : Grammar ρ Res) (code : Array Char) (budget : Nat) (form : Form ρ Res α)
    (s : Progress ρ Res) : Nat :=
  form.raisedAt code (G.callRule code budget) (G.callRaisedAt code budget) s

omit [DecidableEq ρ] in
/-- A repetition never fails. -/
theorem repeatStep_ne_failed (step : Progress ρ Res → Outcome (Progress ρ Res) α) :
    ∀ (rounds : Nat) (items : List α) (s s' : Progress ρ Res),
      repeatStep step rounds items s ≠ .failed s' := by
  intro rounds
  induction rounds with
  | zero => intro items s s' h; cases h
  | succ rounds ih =>
    intro items s s' h
    unfold repeatStep at h
    split at h
    · split at h
      · cases h
      · exact ih _ _ _ h
    · cases h
    · cases h

omit [DecidableEq ρ] in
/-- A sequence fails with its first part or with its second. -/
theorem Outcome.andThen_eq_failed {o : Outcome (Progress ρ Res) α}
    {next : α → Progress ρ Res → Outcome (Progress ρ Res) β} {s' : Progress ρ Res}
    (h : o.andThen next = .failed s') :
    o = .failed s' ∨ ∃ a s₁, o = .matched a s₁ ∧ next a s₁ = .failed s' := by
  cases o with
  | matched a s₁ => exact .inr ⟨a, s₁, rfl, h⟩
  | failed s₁ => cases h; exact .inl rfl
  | stopped c s₁ => cases h

omit [DecidableEq ρ] in
/-- A failure of a form is raised where the form leaves the position, if those of calls are. -/
theorem Form.raisedAt_eq (code : Array Char) {calls : Calls ρ Res}
    {callRaisedAt : (r : ρ) → Progress ρ Res → Nat}
    (hcalls : ∀ r s s', calls r s = .failed s' → callRaisedAt r s = s'.pos)
    (form : Form ρ Res α) :
    ∀ s s', form.run code calls s = .failed s' →
      form.raisedAt code calls callRaisedAt s = s'.pos := by
  induction form with
  | pattern m =>
    intro s s' h
    rw [Form.run] at h
    split at h <;> cases h
    rfl
  | endOfInput =>
    intro s s' h
    rw [Form.run] at h
    split at h <;> cases h
    rfl
  | skip a => intro s s' h; cases h
  | fail => intro s s' h; cases h; rfl
  | pair f g ihf ihg =>
    intro s s' h
    rw [Form.run] at h
    rw [Form.raisedAt]
    obtain hf | ⟨a, s₁, hf, hg⟩ := Outcome.andThen_eq_failed h
    · rw [hf]
      exact ihf s s' hf
    · rw [hf]
      obtain hg | ⟨b, s₂, -, hpair⟩ := Outcome.andThen_eq_failed hg
      · exact ihg s₁ s' hg
      · cases hpair
  | map k f ih =>
    intro s s' h
    rw [Form.run] at h
    obtain hf | ⟨a, s₁, -, hmap⟩ := Outcome.andThen_eq_failed h
    · exact ih s s' hf
    · cases hmap
  | refine k f ih =>
    intro s s' h
    rw [Form.run] at h
    rw [Form.raisedAt]
    obtain hf | ⟨a, s₁, hf, hrefused⟩ := Outcome.andThen_eq_failed h
    · rw [hf]
      exact ih s s' hf
    · rw [hf]
      split at hrefused <;> cases hrefused
      rfl
  | checked e f ih =>
    intro s s' h
    rw [Form.run] at h
    obtain hf | ⟨a, s₁, -, hchecked⟩ := Outcome.andThen_eq_failed h
    · exact ih s s' hf
    · split at hchecked <;> cases hchecked
  | orElse f g ihf ihg =>
    intro s s' h
    rw [Form.run] at h
    split at h
    · split at h
      · cases h; rfl
      · next hne => exact absurd h (hne s')
    · next hne => exact absurd h (hne s')
  | optional f ih =>
    intro s s' h
    rw [Form.run] at h
    split at h <;> cases h
  | many f ih => intro s s' h; exact absurd h (repeatStep_ne_failed _ _ _ s s')
  | call r => intro s s' h; exact hcalls r s s' h

omit [DecidableEq ρ] in
/-- A growing rule that has never matched fails where it starts. -/
theorem harvest_pos_of_failed {start : Nat} {best : Option (α × Nat)} {s s' : Progress ρ Res}
    (h : harvest start best s = .failed s') : s'.pos = start := by
  cases best with
  | none => cases h; rfl
  | some found => cases h

/-- So it does after any number of rounds: by induction on them. -/
theorem growMatch_pos_of_failed {r : ρ}
    {body : Progress ρ Res → Outcome (Progress ρ Res) (Res r)} {start : Nat} :
    ∀ (rounds : Nat) (best : Option (Res r × Nat)) (s s' : Progress ρ Res),
      growMatch r body start rounds best s = .failed s' → s'.pos = start := by
  intro rounds
  induction rounds with
  | zero => intro best s s' h; exact harvest_pos_of_failed h
  | succ rounds ih =>
    intro best s s' h
    unfold growMatch at h
    split at h
    · exact harvest_pos_of_failed h
    · cases h
    · split at h
      · exact harvest_pos_of_failed h
      · exact ih _ _ s' h

omit [DecidableEq ρ] in
/-- A failure that is replayed leaves the position as it is. -/
theorem replay_pos_of_failed {entry : Entry α} {s s' : Progress ρ Res}
    (h : replay entry s = .failed s') : s'.pos = s.pos := by
  cases entry with
  | failed => cases h; rfl
  | matched a stop => cases h

/-- A rule with a memo fails where its form has failed. -/
theorem runMemo_eq_failed {r : ρ} {body : Progress ρ Res → Outcome (Progress ρ Res) (Res r)}
    {s s' : Progress ρ Res} (h : runMemo r body s = .failed s') :
    ∃ s₁, body (s.enter r) = .failed s₁ ∧ s'.pos = s₁.pos := by
  unfold runMemo at h
  split at h
  · cases h
  · next s₁ hs₁ => cases h; exact ⟨s₁, hs₁, rfl⟩
  · cases h

namespace Grammar

variable {G : Grammar ρ Res} {code : Array Char}

/-- A failure of a call is raised where the call leaves the position. -/
theorem callRaisedAt_eq (G : Grammar ρ Res) (code : Array Char) :
    ∀ (budget : Nat) (r : ρ) (s s' : Progress ρ Res),
      G.callRule code budget r s = .failed s' → G.callRaisedAt code budget r s = s'.pos := by
  intro budget
  induction budget with
  | zero => intro r s s' h; cases h
  | succ budget ih =>
    intro r s s' h
    have hbody := Form.raisedAt_eq code ih (G r).form (s.enter r)
    rw [callRaisedAt]
    cases hstrategy : (G r).strategy with
    | plain =>
      rw [callRule_plain hstrategy] at h
      exact hbody s' h
    | memo =>
      cases hfind : s.memo.find? r s.pos with
      | some entry =>
        rw [callRule_replayed (hstrategy ▸ Strategy.noConfusion) hfind] at h
        exact (replay_pos_of_failed h).symm
      | none =>
        rw [callRule_memo hstrategy hfind] at h
        obtain ⟨s₁, hs₁, hpos⟩ := runMemo_eq_failed h
        rw [hpos]
        exact hbody s₁ hs₁
    | grow =>
      cases hfind : s.memo.find? r s.pos with
      | some entry =>
        rw [callRule_replayed (hstrategy ▸ Strategy.noConfusion) hfind] at h
        exact (replay_pos_of_failed h).symm
      | none =>
        rw [callRule_grow hstrategy hfind] at h
        exact (growMatch_pos_of_failed _ _ _ _ h).symm

/-! ## One attempt after another -/

/-- Whatever has been attempted, progress is consistent. -/
theorem Attempted.consistent {s : Progress ρ Res} (hs : G.Attempted code s) :
    s.Consistent code.size := by
  induction hs with
  | start => exact Progress.start_consistent code.size
  | rewind _ ih => exact (ih.onward.goTo (Nat.le_refl 0) (Nat.zero_le _)).consistent
  | attempt _ form budget h ih =>
    exact ((ends_of_finished ih.inside h).onward ih trivial).progress.consistent

/-- **Every attempt leads onward.** After any attempts on a code, all positions lie inside the code.
One more attempt, from there or from the start of the code, leads onward from where it begins; and
if it fails, the failure was raised at the position where it ends. -/
theorem attempts_consistent {s : Progress ρ Res} (hs : G.Attempted code s) :
    s.Consistent code.size ∧
    (∀ {α : Type} (form : Form ρ Res α) (budget : Nat),
      (G.recognise code budget form s).Finished →
        (G.recognise code budget form s).Onward code.size s.pos s ∧
        ∀ s', G.recognise code budget form s = .failed s' →
          G.raisedAt code budget form s = s'.pos) ∧
    (∀ {α : Type} (form : Form ρ Res α) (budget : Nat), (G.parse code budget form s).Finished →
      (G.parse code budget form s).Onward code.size 0 s ∧
      ∀ s', G.parse code budget form s = .failed s' →
        G.raisedAt code budget form (s.goTo 0) = s'.pos) := by
  refine ⟨hs.consistent, fun form budget h => ⟨?_, ?_⟩, fun form budget h => ⟨?_, ?_⟩⟩
  · exact (ends_of_finished hs.consistent.inside h).onward hs.consistent trivial
  · exact Form.raisedAt_eq code (callRaisedAt_eq G code budget) form s
  · have hback := hs.consistent.onward.goTo (Nat.le_refl 0) (Nat.zero_le _)
    have hparse := (ends_of_finished hback.consistent.inside h).onward hback.consistent trivial
    exact hparse.of_onward hback (Nat.le_refl 0)
  · exact Form.raisedAt_eq code (callRaisedAt_eq G code budget) form (s.goTo 0)

end Grammar

/-- When all letters have been matched, a sequence is attempted from the start of the code. It goes
two characters far before it fails. -/
theorem attempts_consistent_joinedLetters :
    let code := #['a', '+', 'a']
    let s := (joinedLetters.recognise code 5 (.call .joined) .start).state
    let form := Form.pair (.char 'a') (.pair (.char '+') (.char 'b'))
    joinedLetters.Attempted code s ∧ s.Consistent 3 ∧
    (joinedLetters.parse code 5 form s).Onward 3 0 s ∧
    ∃ s', joinedLetters.parse code 5 form s = .failed s' ∧ s'.pos = 2 ∧
      joinedLetters.raisedAt code 5 form (s.goTo 0) = s'.pos := by
  intro code s form
  have hs : joinedLetters.Attempted code s := .attempt .start _ 5 trivial
  obtain ⟨hconsistent, -, hparse⟩ := Grammar.attempts_consistent hs
  obtain ⟨honward, hraised⟩ := hparse form 5 trivial
  exact ⟨hs, hconsistent, honward, _, rfl, rfl, hraised _ rfl⟩

end CalcScript.Packrat
