import CalcScript.Proofs.Packrat.Carrying

/-!
# How often rule bodies run

> `Grammar.attempts_runs_le`: over all attempts on a code, the body of a `grow` rule runs from a
> position at most twice more often than there are characters from there on. The body of a `memo`
> rule runs from a position at most once, unless it is called there again while it runs, so at most
> once more often than there are characters.

Both bounds come from the entries: a call runs a body only where the rule has no entry, and leaves
one (`Progress.RunsWithin`). What differs is how often the body runs until then. A `grow` rule has
an entry before its body runs, so that no call inside can run it, and each run but the first and the
last gives a longer match than the one before. A `memo` rule has its entry only when its body has
ended, and until then nothing keeps the body from running again but that it is not called.
-/

namespace CalcScript.Packrat

variable {ρ : Type} {Res : ρ → Type} {α : Type} [DecidableEq ρ]

/-! ## Runs of one body -/

/-- How often the body of a rule has run from a position. -/
def Progress.runsFrom (s : Progress ρ Res) (r : ρ) (pos : Nat) : Nat := s.runs.count (r, pos)

/-- The body of the rule runs from the position at most so often in between, and only if there is no
entry before and one afterwards. -/
structure Progress.RunsWithin (r : ρ) (pos bound : Nat) (s s' : Progress ρ Res) : Prop where
  kept : s.memo.find? r pos ≠ none → s'.memo.find? r pos ≠ none
  settled : s.memo.find? r pos ≠ none → s'.runsFrom r pos ≤ s.runsFrom r pos
  unsettled : s'.memo.find? r pos = none → s'.runsFrom r pos ≤ s.runsFrom r pos
  bounded : s'.runsFrom r pos ≤ s.runsFrom r pos + bound

namespace Progress

variable {r r' : ρ} {pos start bound : Nat} {s s' : Progress ρ Res}

/-- Entering a rule is one more run of it from this position. -/
theorem runsFrom_enter_self (s : Progress ρ Res) (r : ρ) :
    (s.enter r).runsFrom r s.pos = s.runsFrom r s.pos + 1 :=
  List.count_cons_self

/-- It is no run of another rule, and none from elsewhere. -/
theorem runsFrom_enter_of_ne (s : Progress ρ Res) (hne : (r', s.pos) ≠ (r, pos)) :
    (s.enter r').runsFrom r pos = s.runsFrom r pos :=
  List.count_cons_of_ne hne

@[simp] theorem runsFrom_record (s : Progress ρ Res) (entry : Entry (Res r')) :
    (s.record r' start entry).runsFrom r pos = s.runsFrom r pos := rfl

/-- What has been recorded is found. -/
theorem find?_record_self_ne_none (s : Progress ρ Res) (r : ρ) (pos : Nat)
    (entry : Entry (Res r)) : (s.record r pos entry).memo.find? r pos ≠ none := by
  rw [record, Memo.find?_insert_self]
  exact Option.some_ne_none entry

/-- A record elsewhere is not found here. -/
theorem find?_record_of_ne (s : Progress ρ Res) (hne : (r', start) ≠ (r, pos))
    (entry : Entry (Res r')) : (s.record r' start entry).memo.find? r pos = s.memo.find? r pos := by
  refine Memo.find?_insert_of_ne _ _ fun hsame => hne ?_
  rw [hsame.1, hsame.2]

/-- The bound is carried through recognition. -/
theorem runsWithin_carried (r : ρ) (pos bound : Nat) :
    Progress.Carried (RunsWithin r pos bound : Progress ρ Res → Progress ρ Res → Prop) where
  refl _ := ⟨id, fun _ => Nat.le_refl _, fun _ => Nat.le_refl _, Nat.le_add_right _ _⟩
  trans {s s' s''} h h' := by
    refine ⟨h'.kept ∘ h.kept, fun hfound => ?_, fun hopen => ?_, ?_⟩
    · exact Nat.le_trans (h'.settled (h.kept hfound)) (h.settled hfound)
    · have hopen' : s'.memo.find? r pos = none := by_contra fun hfound => h'.kept hfound hopen
      exact Nat.le_trans (h'.unsettled hopen) (h.unsettled hopen')
    · by_cases hopen : s'.memo.find? r pos = none
      · exact Nat.le_trans h'.bounded (Nat.add_le_add_right (h.unsettled hopen) bound)
      · exact Nat.le_trans (h'.settled hopen) h.bounded
  goTo _ h := ⟨h.kept, h.settled, h.unsettled, h.bounded⟩
  fail h := ⟨h.kept, h.settled, h.unsettled, h.bounded⟩

/-- Replaying runs nothing. -/
theorem runsWithin_replay (s : Progress ρ Res) (entry : Entry α) :
    RunsWithin r pos bound s (replay entry s).state :=
  (runsWithin_carried r pos bound).replay ((runsWithin_carried r pos bound).refl s) entry

/-- Other bodies may run, and this one elsewhere. -/
theorem runsWithin_enter (s : Progress ρ Res) (hne : (r', s.pos) ≠ (r, pos)) :
    RunsWithin r pos bound s (s.enter r') := by
  have hle : (s.enter r').runsFrom r pos ≤ s.runsFrom r pos :=
    Nat.le_of_eq (runsFrom_enter_of_ne s hne)
  exact ⟨id, fun _ => hle, fun _ => hle, Nat.le_trans hle (Nat.le_add_right _ _)⟩

/-- Other entries may be recorded. -/
theorem runsWithin_record (s : Progress ρ Res) (hne : (r', start) ≠ (r, pos))
    (entry : Entry (Res r')) : RunsWithin r pos bound s (s.record r' start entry) := by
  refine ⟨fun hfound => ?_, fun _ => Nat.le_refl _, fun _ => Nat.le_refl _, Nat.le_add_right _ _⟩
  rw [find?_record_of_ne s hne]
  exact hfound

/-- A call that begins without an entry and ends with one has run the body within the bound. -/
theorem RunsWithin.ofRecorded (hopen : s.memo.find? r pos = none)
    (hfound : s'.memo.find? r pos ≠ none)
    (hbounded : s'.runsFrom r pos ≤ s.runsFrom r pos + bound) : RunsWithin r pos bound s s' where
  kept _ := hfound
  settled hfound' := absurd hopen hfound'
  unsettled hopen' := absurd hopen' hfound
  bounded := hbounded

end Progress

namespace Grammar

variable {G : Grammar ρ Res} {code : Array Char} {r : ρ} {pos : Nat} {s : Progress ρ Res}

/-! ## Calls of other rules -/

/-- A call of another rule, or elsewhere, runs the body as often as the calls inside do. -/
theorem answer_runsWithin_of_ne {calls : Calls ρ Res} {budget bound : Nat} {r' : ρ}
    (hagree : calls.AgreeWith G code budget)
    (hcalls : ∀ r' s, s.Consistent code.size → (calls r' s).Finished →
      s.RunsWithin r pos bound (calls r' s).state)
    (hne : (r', s.pos) ≠ (r, pos)) (hs : s.Consistent code.size)
    (h : (G.answer code calls r' s).Finished) :
    s.RunsWithin r pos bound (G.answer code calls r' s).state := by
  refine answer_carries (Progress.runsWithin_carried r pos bound) hagree hcalls ?_ ?_ hs h
  · intro s' hpos
    rw [← hpos] at hne
    exact Progress.runsWithin_enter s' hne
  · intro s' entry _ hrun
    exact (Progress.runsWithin_carried r pos bound).trans hrun
      (Progress.runsWithin_record s' hne entry)

/-! ## Growing rules -/

/-- How often the body of a growing rule may still run. Each match but the first is longer than the
one before it, and the last run gives none. -/
def runsLeft (size start : Nat) : Option (α × Nat) → Nat
  | none => size - start + 2
  | some (_, stop) => size - stop + 1

/-- At least one run is left. -/
theorem runsLeft_pos (size start : Nat) (best : Option (α × Nat)) :
    0 < runsLeft size start best := by
  cases best with
  | none => exact Nat.succ_pos _
  | some found => exact Nat.succ_pos _

/-- A longer match leaves fewer runs. -/
theorem runsLeft_lt {size start stop : Nat} {best : Option (α × Nat)} (a : α)
    (hstart : start ≤ stop) (hstop : stop ≤ size) (hlonger : ¬best.any (stop ≤ ·.2) = true) :
    runsLeft size start (some (a, stop)) < runsLeft size start best := by
  cases best with
  | none =>
    rw [runsLeft, runsLeft]
    omega
  | some found =>
    rw [Option.any_some, decide_eq_true_eq] at hlonger
    rw [runsLeft, runsLeft]
    omega

/-- While a match grows there is an entry, so none of the calls inside runs the body from there. -/
theorem answer_runsWithin_grow {calls : Calls ρ Res} {budget bound : Nat}
    (hagree : calls.AgreeWith G code budget)
    (hcalls : ∀ r' s', s'.Consistent code.size → (calls r' s').Finished →
      s'.RunsWithin r s.pos bound (calls r' s').state)
    (hgrow : (G r).strategy = .grow) (hs : s.Consistent code.size)
    (h : (G.answer code calls r s).Finished) :
    s.RunsWithin r s.pos (code.size - s.pos + 2) (G.answer code calls r s).state := by
  have hR : Progress.Carried fun s₁ s₂ : Progress ρ Res =>
      s₁.RunsWithin r s.pos (code.size - s.pos + 2) s₂ := Progress.runsWithin_carried r s.pos _
  have hform := (G r).form.run_carries (Progress.runsWithin_carried r s.pos bound) hagree hcalls
  have hbody : ∀ s' : Progress ρ Res, s'.Consistent code.size → s'.memo.find? r s.pos ≠ none →
      ∀ o, (G r).form.run code calls ((s'.goTo s.pos).enter r) = o → o.Finished →
        o.state.memo.find? r s.pos ≠ none ∧
        o.state.runsFrom r s.pos ≤ s'.runsFrom r s.pos + 1 := by
    rintro s' hs' hfound _ rfl hfinished
    have hrun := hform ((s'.goTo s.pos).enter r) (hs'.again hs.pos) hfinished
    have henter := Progress.runsFrom_enter_self (s'.goTo s.pos) r
    exact ⟨hrun.kept hfound, Nat.le_trans (hrun.settled hfound) (Nat.le_of_eq henter)⟩
  cases hfind : s.memo.find? r s.pos with
  | some entry =>
    rw [answer_replayed (hgrow ▸ Strategy.noConfusion) hfind]
    exact Progress.runsWithin_replay s entry
  | none =>
    rw [answer_grow hgrow hfind] at h ⊢
    refine growMatch_induct
      (P := fun best s' => s'.memo.find? r s.pos ≠ none ∧
        s'.runsFrom r s.pos + runsLeft code.size s.pos best ≤
          s.runsFrom r s.pos + (code.size - s.pos + 2))
      (Q := fun o => s.RunsWithin r s.pos (code.size - s.pos + 2) o.state) hagree hs.pos
      ?_ ?_ ?_ _ none _ (hs.seed r) ?_ h
    · rintro best s' ⟨hfound, hcount⟩
      exact hR.harvest (.ofRecorded hfind hfound (Nat.le_of_add_right_le hcount)) s.pos best
    · rintro best s' hs' ⟨hfound, hcount⟩ hfinished
      obtain ⟨hfound', hcount'⟩ := hbody s' hs' hfound _ rfl hfinished
      have hleft := runsLeft_pos code.size s.pos best
      exact hR.harvest (.ofRecorded hfind hfound' (by omega)) s.pos best
    · rintro best s' a s'' hs' ⟨hfound, hcount⟩ ho hstart hstop hlonger
      have hcount' : s''.runsFrom r s.pos ≤ s'.runsFrom r s.pos + 1 :=
        (hbody s' hs' hfound _ ho trivial).2
      have hleft := runsLeft_lt a hstart hstop hlonger
      refine ⟨Progress.find?_record_self_ne_none s'' r s.pos _, ?_⟩
      rw [Progress.runsFrom_record]
      omega
    · exact ⟨Progress.find?_record_self_ne_none s r s.pos _, Nat.le_refl _⟩

/-- Beyond the code no body is run. -/
theorem callRule_runsWithin_beyond (G : Grammar ρ Res) (hbeyond : code.size < pos) :
    ∀ (budget : Nat) (r' : ρ) (s : Progress ρ Res), s.Consistent code.size →
      (G.callRule code budget r' s).Finished →
        s.RunsWithin r pos 0 (G.callRule code budget r' s).state := by
  intro budget
  induction budget with
  | zero => intro r' s _ h; exact h.elim
  | succ budget ih =>
    intro r' s hs h
    have hne : (r', s.pos) ≠ (r, pos) := by
      intro hsame
      have hpos := hs.pos
      rw [(Prod.mk.inj hsame).2] at hpos
      omega
    exact answer_runsWithin_of_ne (fun _ _ _ => rfl) ih hne hs h

/-- A call runs the body of a growing rule from a position only if it grows a match there, and then
no more often than matches can get longer. -/
theorem callRule_runsWithin_grow (G : Grammar ρ Res) (hgrow : (G r).strategy = .grow) :
    ∀ (budget : Nat) (r' : ρ) (s : Progress ρ Res), s.Consistent code.size →
      (G.callRule code budget r' s).Finished →
        s.RunsWithin r pos (code.size - pos + 2) (G.callRule code budget r' s).state := by
  intro budget
  induction budget with
  | zero => intro r' s _ h; exact h.elim
  | succ budget ih =>
    intro r' s hs h
    by_cases hkey : (r', s.pos) = (r, pos)
    · obtain ⟨rfl, rfl⟩ := Prod.mk.inj hkey
      exact answer_runsWithin_grow (fun _ _ _ => rfl) ih hgrow hs h
    · exact answer_runsWithin_of_ne (fun _ _ _ => rfl) ih hkey hs h

/-! ## Rules that are not called where they run -/

/-- How calls are answered as long as no `memo` rule is called at a position where its body is
running. Such a call is left unanswered. The calls around a call are listed with it. -/
def callUnnested (G : Grammar ρ Res) (code : Array Char) : Nat → List (ρ × Nat) → Calls ρ Res
  | 0, _, _, s => .stopped .tooDeep s
  | budget + 1, running, r, s =>
    if (G r).strategy = .memo ∧ (r, s.pos) ∈ running then .stopped .tooDeep s
    else G.answer code (callUnnested G code budget ((r, s.pos) :: running)) r s

/-- The calls that are answered are answered as they are in general. -/
theorem callUnnested_agrees (G : Grammar ρ Res) (code : Array Char) :
    ∀ (budget : Nat) (running : List (ρ × Nat)),
      (G.callUnnested code budget running).AgreeWith G code budget := by
  intro budget
  induction budget with
  | zero => intro running r s h; exact h.elim
  | succ budget ih =>
    intro running r s h
    rw [callUnnested] at h ⊢
    by_cases hnested : (G r).strategy = .memo ∧ (r, s.pos) ∈ running
    · rw [if_pos hnested] at h
      exact h.elim
    · rw [if_neg hnested] at h ⊢
      exact answer_agrees (ih _) r s h

/-- A `memo` rule runs its body once if none of the calls inside does. -/
theorem answer_runsWithin_memo {calls : Calls ρ Res} {budget : Nat}
    (hagree : calls.AgreeWith G code budget)
    (hcalls : ∀ r' s', s'.Consistent code.size → (calls r' s').Finished →
      s'.RunsWithin r s.pos 0 (calls r' s').state)
    (hmemo : (G r).strategy = .memo) (hs : s.Consistent code.size)
    (h : (G.answer code calls r s).Finished) :
    s.RunsWithin r s.pos 1 (G.answer code calls r s).state := by
  cases hfind : s.memo.find? r s.pos with
  | some entry =>
    rw [answer_replayed (hmemo ▸ Strategy.noConfusion) hfind]
    exact Progress.runsWithin_replay s entry
  | none =>
    rw [answer_memo hmemo hfind, runMemo] at h ⊢
    have hbody := (G r).form.run_carries (Progress.runsWithin_carried r s.pos 0) hagree hcalls
      (s.enter r) (hs.enter r)
    have honce : ∀ s', (s.enter r).RunsWithin r s.pos 0 s' → ∀ entry,
        s.RunsWithin r s.pos 1 (s'.record r s.pos entry) := by
      intro s' hrun entry
      have hcount := hrun.bounded
      rw [Progress.runsFrom_enter_self] at hcount
      exact .ofRecorded hfind (Progress.find?_record_self_ne_none s' r s.pos entry) hcount
    cases ho : (G r).form.run code calls (s.enter r) with
    | stopped c s' => rw [ho] at h; exact h.elim
    | matched a s' => rw [ho] at hbody; exact honce s' (hbody trivial) _
    | failed s' => rw [ho] at hbody; exact honce s' (hbody trivial) _

/-- A call runs the body of a `memo` rule from a position at most once, and not at all inside a call
of the rule there. -/
theorem callUnnested_runsWithin_memo (G : Grammar ρ Res) (code : Array Char) (pos : Nat)
    (hmemo : (G r).strategy = .memo) :
    ∀ (budget : Nat) (running : List (ρ × Nat)) (r' : ρ) (s : Progress ρ Res),
      s.Consistent code.size → (G.callUnnested code budget running r' s).Finished →
        s.RunsWithin r pos (if (r, pos) ∈ running then 0 else 1)
          (G.callUnnested code budget running r' s).state := by
  intro budget
  induction budget with
  | zero => intro running r' s _ h; exact h.elim
  | succ budget ih =>
    intro running r' s hs h
    rw [callUnnested] at h ⊢
    by_cases hnested : (G r').strategy = .memo ∧ (r', s.pos) ∈ running
    · rw [if_pos hnested] at h
      exact h.elim
    · rw [if_neg hnested] at h ⊢
      have hagree := G.callUnnested_agrees code budget ((r', s.pos) :: running)
      by_cases hkey : (r', s.pos) = (r, pos)
      · obtain ⟨rfl, rfl⟩ := Prod.mk.inj hkey
        rw [if_neg fun hmem => hnested ⟨hmemo, hmem⟩]
        refine answer_runsWithin_memo hagree (fun r s' hs' h' => ?_) hmemo hs h
        have hinside := ih ((r', s.pos) :: running) r s' hs' h'
        rwa [if_pos List.mem_cons_self] at hinside
      · refine answer_runsWithin_of_ne hagree (fun r₁ s' hs' h' => ?_) hkey hs h
        have hinside := ih ((r', s.pos) :: running) r₁ s' hs' h'
        have hmem : (r, pos) ∈ (r', s.pos) :: running ↔ (r, pos) ∈ running :=
          List.mem_cons.trans (or_iff_right (Ne.symm hkey))
        simpa only [hmem] using hinside

/-! ## One attempt after another -/

/-- What any number of attempts may lead to in which no `memo` rule has been called at a position
where its body was running. -/
inductive AttemptedUnnested (G : Grammar ρ Res) (code : Array Char) : Progress ρ Res → Prop where
  | start : G.AttemptedUnnested code .start
  | rewind {s : Progress ρ Res} (hs : G.AttemptedUnnested code s) :
      G.AttemptedUnnested code (s.goTo 0)
  | attempt {α : Type} {s : Progress ρ Res} (hs : G.AttemptedUnnested code s)
      (form : Form ρ Res α) (budget : Nat)
      (h : (form.run code (G.callUnnested code budget []) s).Finished) :
      G.AttemptedUnnested code (G.recognise code budget form s).state

/-- What is answered without such calls is recognised so. -/
theorem recognise_eq_unnested {form : Form ρ Res α} {budget : Nat}
    (h : (form.run code (G.callUnnested code budget []) s).Finished) :
    G.recognise code budget form s = form.run code (G.callUnnested code budget []) s :=
  Form.run_mono (G.callUnnested_agrees code budget []) form s h

/-- Attempts without nested calls are attempts. -/
theorem AttemptedUnnested.attempted (hs : G.AttemptedUnnested code s) : G.Attempted code s := by
  induction hs with
  | start => exact .start
  | rewind _ ih => exact .rewind ih
  | attempt _ form budget h ih => exact .attempt ih form budget (recognise_eq_unnested h ▸ h)

/-- What calls carry, attempts carry: by induction on them. -/
theorem Attempted.carries {R : Progress ρ Res → Progress ρ Res → Prop} (hR : Progress.Carried R)
    (hcalls : ∀ budget r s, s.Consistent code.size → (G.callRule code budget r s).Finished →
      R s (G.callRule code budget r s).state)
    (hs : G.Attempted code s) : R .start s := by
  induction hs with
  | start => exact hR.refl _
  | rewind _ ih => exact hR.goTo 0 ih
  | attempt hs form budget h ih =>
    exact hR.trans ih
      (form.run_carries hR (fun _ _ _ => rfl) (hcalls budget) _ hs.consistent h)

/-- A rule with a memo runs once from each position. -/
theorem AttemptedUnnested.runsWithin (hmemo : (G r).strategy = .memo)
    (hs : G.AttemptedUnnested code s) : Progress.start.RunsWithin r pos 1 s := by
  have hR : Progress.Carried fun s₁ s₂ : Progress ρ Res => s₁.RunsWithin r pos 1 s₂ :=
    Progress.runsWithin_carried r pos 1
  induction hs with
  | start => exact hR.refl _
  | rewind _ ih => exact hR.goTo 0 ih
  | attempt hs form budget h ih =>
    have hagree := G.callUnnested_agrees code budget []
    have hcalls := G.callUnnested_runsWithin_memo code pos hmemo budget []
    rw [recognise_eq_unnested h]
    exact hR.trans ih (form.run_carries hR hagree hcalls _ hs.attempted.consistent h)

end Grammar

/-- If the body of a rule has run at most once from each position and never from beyond the code, it
has run at most once more than there are characters. -/
theorem Progress.runCount_le {s : Progress ρ Res} {r : ρ} {size : Nat}
    (honce : ∀ pos, s.runsFrom r pos ≤ 1) (hbeyond : ∀ pos, size < pos → s.runsFrom r pos = 0) :
    s.runCount r ≤ size + 1 := by
  have hnodup : (s.runs.filter (·.1 = r)).Nodup := by
    refine List.nodup_iff_count_le_one.mpr fun run => ?_
    obtain ⟨r', pos⟩ := run
    by_cases hrule : r' = r
    · rw [hrule]
      exact Nat.le_trans (List.filter_sublist.count_le _) (honce pos)
    · rw [List.count_eq_zero_of_not_mem]
      · exact Nat.zero_le 1
      · exact fun hmem => hrule (of_decide_eq_true (List.mem_filter.mp hmem).2)
  have hsub : s.runs.filter (·.1 = r) ⊆ (List.range (size + 1)).map (r, ·) := by
    rintro ⟨r', pos⟩ hmem
    obtain ⟨hrun, hrule⟩ := List.mem_filter.mp hmem
    obtain rfl := of_decide_eq_true hrule
    have hinside : ¬size < pos := fun hpos => (List.count_pos_iff.mpr hrun).ne' (hbeyond pos hpos)
    exact List.mem_map.mpr ⟨pos, List.mem_range.mpr (by omega), rfl⟩
  have hlength := (List.subperm_of_subset hnodup hsub).length_le
  rwa [List.length_map, List.length_range] at hlength

/-- **How often bodies run.** Over all attempts on a code, the body of a growing rule runs from each
position at most twice more often than there are characters from there on. If no `memo` rule has
been called at a position where its body was running, then the body of a `memo` rule runs from each
position at most once, and in all at most once more often than there are characters. -/
theorem Grammar.attempts_runs_le {G : Grammar ρ Res} {code : Array Char} {s : Progress ρ Res}
    (hs : G.Attempted code s) :
    (∀ r, (G r).strategy = .grow → ∀ pos, s.runsFrom r pos ≤ code.size - pos + 2) ∧
    (G.AttemptedUnnested code s → ∀ r, (G r).strategy = .memo →
      (∀ pos, s.runsFrom r pos ≤ 1) ∧ s.runCount r ≤ code.size + 1) := by
  constructor
  · intro r hgrow pos
    have hrun := hs.carries (Progress.runsWithin_carried r pos _)
      (callRule_runsWithin_grow G hgrow)
    exact Nat.le_trans hrun.bounded (Nat.le_of_eq (Nat.zero_add _))
  · intro hunnested r hmemo
    have honce : ∀ pos, s.runsFrom r pos ≤ 1 := fun pos => (hunnested.runsWithin hmemo).bounded
    refine ⟨honce, Progress.runCount_le honce fun pos hbeyond => ?_⟩
    have hrun := hs.carries (Progress.runsWithin_carried r pos 0)
      (callRule_runsWithin_beyond G hbeyond)
    exact Nat.le_zero.mp hrun.bounded

/-- The body of the growing rule of `joinedLetters` runs three times from the start of the code:
once for each of the two matches and once more. -/
theorem attempts_runs_le_joinedLetters :
    let code := #['a', '+', 'a']
    let s := (joinedLetters.recognise code 5 (.call .joined) .start).state
    joinedLetters.Attempted code s ∧ s.runsFrom .joined 0 = 3 ∧ s.runsFrom .joined 0 ≤ 5 ∧
    joinedLetters.AttemptedUnnested code s ∧ s.runCount .blanks = 1 ∧ s.runCount .blanks ≤ 4 := by
  intro code
  have hcode : code = #['a', '+', 'a'] := rfl
  clear_value code
  intro s
  have hfinished : (joinedLetters.recognise code 5 (.call .joined) .start).Finished := by
    subst hcode; decide +kernel
  have hunnested : joinedLetters.AttemptedUnnested code s :=
    .attempt .start _ 5 (by subst hcode; decide +kernel)
  have hs : joinedLetters.Attempted code s := .attempt .start _ 5 hfinished
  obtain ⟨hgrow, hmemo⟩ := Grammar.attempts_runs_le hs
  have hsize : code.size = 3 := by rw [hcode]; rfl
  rw [hsize] at hgrow hmemo
  exact ⟨hs, by subst hcode; decide +kernel, hgrow .joined rfl 0, hunnested,
    by subst hcode; decide +kernel, (hmemo hunnested .blanks rfl).2⟩

end CalcScript.Packrat
