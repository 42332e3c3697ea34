import CalcScript.Proofs.Packrat.Consistency
import CalcScript.Proofs.Packrat.Extension

/-!
# What no growing rule can touch

A rule from which no growing rule can be reached by calls is read in one way at each position,
however far matches of growing rules have come elsewhere.

> `Grammar.Ends.trusted`: whatever has been attempted, entries of such rules are what the rules are
> read as; and where a form that calls no other rules ends, it ends as it is read.
> `Form.ends_of_read`: such a form ends wherever it can be read.

Entries of the other rules may be seeds and matches that have not stopped growing, of which nothing
is said.
-/

namespace CalcScript.Packrat

variable {ρ : Type} {Res : ρ → Type} {α β : Type}

/-- No growing rule can be reached from the rule by calls. -/
def Grammar.GrowthFree (G : Grammar ρ Res) (r : ρ) : Prop :=
  ∀ r', Relation.ReflTransGen G.Mentions r r' → (G r').strategy ≠ .grow

/-- No growing rule can be reached from the rules that the form calls. -/
def Form.GrowthFree (G : Grammar ρ Res) (form : Form ρ Res α) : Prop :=
  ∀ r, form.Mentions r → G.GrowthFree r

namespace Grammar.GrowthFree

variable {G : Grammar ρ Res} {r : ρ}

theorem not_grow (h : G.GrowthFree r) : (G r).strategy ≠ .grow := h r .refl

theorem form (h : G.GrowthFree r) : (G r).form.GrowthFree G :=
  fun _ hcall r'' hpath => h r'' (.head hcall hpath)

/-- Rules none of which grows are free of growth if they call no others. -/
theorem of_closed {P : ρ → Prop} (hcalls : ∀ r r', P r → G.Mentions r r' → P r')
    (hstrategy : ∀ r, P r → (G r).strategy ≠ .grow) (hr : P r) : G.GrowthFree r := by
  intro r' hpath
  suffices hr' : P r' from hstrategy r' hr'
  induction hpath with
  | refl => exact hr
  | tail _ hcall ih => exact hcalls _ _ ih hcall

end Grammar.GrowthFree

/-! ## Outcomes that are as read -/

/-- The outcome is what the form is read as at a position, with calls to all depths that are large
enough. -/
def Outcome.IsRead (G : Grammar ρ Res) (code : Array Char) (form : Form ρ Res α) (pos : Nat) :
    Outcome (Progress ρ Res) α → Prop
  | .matched a s =>
    ∀ᶠ depth in Filter.atTop, form.Matches code (G.readRule code depth) pos a s.pos
  | .failed _ => ∀ᶠ depth in Filter.atTop, form.Fails code (G.readRule code depth) pos
  | .stopped _ _ => False

/-- The entry is what the rule is read as at a position. -/
def Entry.IsRead (G : Grammar ρ Res) (code : Array Char) (r : ρ) (pos : Nat) :
    Entry (Res r) → Prop
  | .matched a stop =>
    ∀ᶠ depth in Filter.atTop,
      (Form.call r).Matches code (G.readRule code depth) pos a stop
  | .failed => ∀ᶠ depth in Filter.atTop, (Form.call r).Fails code (G.readRule code depth) pos

section IsRead

variable {G : Grammar ρ Res} {code : Array Char} {form : Form ρ Res α} {pos : Nat}

/-- A call is read like the form of the rule, one call deeper. -/
theorem Outcome.IsRead.call {r : ρ} {o : Outcome (Progress ρ Res) (Res r)}
    (h : o.IsRead G code (G r).form pos) : o.IsRead G code (.call r) pos := by
  cases o with
  | matched a s =>
    rw [IsRead, ← Filter.map_add_atTop_eq_nat 1]
    exact h
  | failed s =>
    rw [IsRead, ← Filter.map_add_atTop_eq_nat 1]
    exact h
  | stopped c s => exact h.elim

/-- What is read to one depth tells the outcome. -/
theorem Outcome.IsRead.agrees {o : Outcome (Progress ρ Res) α} (h : o.IsRead G code form pos)
    {depth : Nat} {rd : Reading α} (hrd : form.read code (G.readRule code depth) pos = some rd) :
    o.Agrees (fun _ _ => True) rd := by
  have hread : ∀ᶠ depth in Filter.atTop, form.read code (G.readRule code depth) pos = some rd :=
    Filter.eventually_atTop.2 ⟨depth, fun _ hle =>
      Form.read_mono (Grammar.readRule_mono hle) form pos rd hrd⟩
  cases o with
  | matched a s =>
    obtain ⟨_, hrd', reach, hmatch⟩ := (hread.and h).exists
    rw [hrd'] at hmatch
    cases hmatch
    exact ⟨rfl, rfl, trivial⟩
  | failed s =>
    obtain ⟨_, hrd', reach, hfail⟩ := (hread.and h).exists
    rw [hrd'] at hfail
    cases hfail
    exact trivial
  | stopped c s => exact h.elim

end IsRead

variable [DecidableEq ρ]

/-! ## Entries that can be trusted -/

/-- All is inside the code, and entries of rules from which no growing rule is reached are what
these rules are read as. -/
structure Progress.Trusted (G : Grammar ρ Res) (code : Array Char) (s : Progress ρ Res) :
    Prop where
  inside : s.Inside code.size
  entries : ∀ r q entry, G.GrowthFree r → s.memo.find? r q = some entry →
    entry.IsRead G code r q

namespace Progress.Trusted

variable {G : Grammar ρ Res} {code : Array Char} {s : Progress ρ Res}

/-- Progress begins trusted, with nothing recorded. -/
theorem start (G : Grammar ρ Res) (code : Array Char) :
    (Progress.start : Progress ρ Res).Trusted G code where
  inside := start_inside code.size
  entries r q entry _ h := by cases (Memo.find?_empty r q).symm.trans h

/-- A change of position inside the code changes no record. -/
theorem goTo (h : s.Trusted G code) {pos : Nat} (hpos : pos ≤ code.size) :
    (s.goTo pos).Trusted G code :=
  ⟨⟨hpos, h.inside.entries⟩, h.entries⟩

/-- Neither does the note that a rule has been entered. -/
theorem enter (h : s.Trusted G code) (r : ρ) : (s.enter r).Trusted G code :=
  ⟨⟨h.inside.pos, h.inside.entries⟩, h.entries⟩

/-- An entry may be recorded if it is right, and an entry of a rule that reaches a growing one may
be anything. -/
theorem record (h : s.Trusted G code) {r : ρ} {pos : Nat} {entry : Entry (Res r)}
    (hinside : ∀ a stop, entry = .matched a stop → pos ≤ stop ∧ stop ≤ code.size)
    (hentry : G.GrowthFree r → entry.IsRead G code r pos) :
    (s.record r pos entry).Trusted G code := by
  refine ⟨(h.inside.leads.record hinside).inside, fun r' q entry' hfree hfind => ?_⟩
  rw [Progress.record] at hfind
  by_cases heq : r' = r ∧ q = pos
  · obtain ⟨rfl, rfl⟩ := heq
    rw [Memo.find?_insert_self] at hfind
    cases hfind
    exact hentry hfree
  · rw [Memo.find?_insert_of_ne _ _ heq] at hfind
    exact h.entries r' q entry' hfree hfind

/-- A failure changes no record. -/
theorem fail (h : s.Trusted G code) :
    (s.fail : Outcome (Progress ρ Res) α).state.Trusted G code :=
  ⟨⟨h.inside.pos, h.inside.entries⟩, h.entries⟩

/-- The failure that a growing rule starts with is not one of a rule free of growth. -/
theorem seed (h : s.Trusted G code) {r : ρ} (hstrategy : (G r).strategy = .grow) (pos : Nat) :
    (s.record r pos .failed).Trusted G code :=
  h.record (fun a stop heq => by cases heq) fun hfree => absurd hstrategy hfree.not_grow

/-- A match may be recorded if it is what the rule is read as, should the rule be free of growth. -/
theorem recordMatched (h : s.Trusted G code) {r : ρ} {pos : Nat} {a : Res r} (hle : pos ≤ s.pos)
    (hentry : G.GrowthFree r → (Outcome.matched a s).IsRead G code (.call r) pos) :
    (s.record r pos (.matched a s.pos)).Trusted G code :=
  h.record (fun b stop heq => by cases heq; exact ⟨hle, h.inside.pos⟩) hentry

/-- The best match of a growing rule is harvested. -/
theorem harvest (h : s.Trusted G code) {start : Nat} {best : Option (α × Nat)}
    (hstart : start ≤ code.size)
    (hbest : ∀ a stop, best = some (a, stop) → start ≤ stop ∧ stop ≤ code.size) :
    (harvest start best s).state.Trusted G code := by
  cases best with
  | none => exact (h.goTo hstart).fail
  | some found => exact h.goTo (hbest found.1 found.2 rfl).2

end Progress.Trusted

/-- A task that calls rules only from which no growing rule is reached comes to what it is read
as. -/
def Task.ComesTo (G : Grammar ρ Res) (code : Array Char) :
    {α : Type} → Task ρ Res α → Progress ρ Res → Outcome (Progress ρ Res) α → Prop
  | _, .recognise form, s, o => form.GrowthFree G → o.IsRead G code form s.pos
  | _, .again form items, s, o => form.GrowthFree G → ∃ more s',
      o = .matched (items.reverse ++ more) s' ∧
      ∀ᶠ depth in Filter.atTop, ∀ rounds, code.size - s.pos ≤ rounds → ∃ reach,
        readMany (form.read code (G.readRule code depth)) (rounds + 1) s.pos
          = some (.matched more s'.pos reach)
  | _, .grow _ _ _, _, _ => True

/-- **Entries stay right.** One case for each way an attempt ends: from a table that can be trusted
a task comes to what it is read as, and leaves a table that can be trusted. -/
theorem Grammar.Ends.trusted {G : Grammar ρ Res} {code : Array Char} {task : Task ρ Res α}
    {s : Progress ρ Res} {o : Outcome (Progress ρ Res) α} (h : G.Ends code task s o)
    (hs : s.Trusted G code) (hfits : task.Fits code.size) :
    o.state.Trusted G code ∧ task.ComesTo G code s o := by
  induction h with
  | @pattern s m stop hstop =>
    have hsize := (Matcher.stop?_bounds hs.inside.pos hstop).2
    refine ⟨hs.goTo hsize, fun _ => .of_forall fun depth => ⟨0, ?_⟩⟩
    rw [Form.read, hstop]
    rfl
  | @noPattern s m hstop =>
    refine ⟨hs.fail, fun _ => .of_forall fun depth => ⟨s.pos, ?_⟩⟩
    rw [Form.read, hstop]
  | endOfInput hend => exact ⟨hs, fun _ => .of_forall fun depth => ⟨0, if_pos hend⟩⟩
  | noEndOfInput hend =>
    exact ⟨hs.fail, fun _ => .of_forall fun depth => ⟨_, if_neg hend⟩⟩
  | skip => exact ⟨hs, fun _ => .of_forall fun depth => ⟨0, rfl⟩⟩
  | fail => exact ⟨hs.fail, fun _ => .of_forall fun depth => Form.fails_fail⟩
  | @pair _ _ f g s s' a o _ _ ihf ihg =>
    obtain ⟨htrust, hf⟩ := ihf hs trivial
    obtain ⟨htrust', hg⟩ := ihg htrust trivial
    cases o with
    | stopped c t => exact ⟨htrust', fun hfree => hg fun r hr => hfree r (.inr hr)⟩
    | matched b t =>
      refine ⟨htrust', fun hfree => ?_⟩
      filter_upwards [hf fun r hr => hfree r (.inl hr), hg fun r hr => hfree r (.inr hr)]
        with depth hf hg
      exact Form.matches_pair.mpr ⟨s'.pos, hf, hg⟩
    | failed t =>
      refine ⟨htrust', fun hfree => ?_⟩
      filter_upwards [hf fun r hr => hfree r (.inl hr), hg fun r hr => hfree r (.inr hr)]
        with depth hf hg
      exact Form.fails_pair.mpr (.inr ⟨a, s'.pos, hf, hg⟩)
  | noPair _ ih =>
    obtain ⟨htrust, hf⟩ := ih hs trivial
    exact ⟨htrust, fun hfree => (hf fun r hr => hfree r (.inl hr)).mono fun depth hf =>
      Form.fails_pair.mpr (.inl hf)⟩
  | @map _ _ k f s o _ ih =>
    obtain ⟨htrust, hf⟩ := ih hs trivial
    cases o with
    | stopped c t => exact ⟨htrust, hf⟩
    | matched a t =>
      exact ⟨htrust, fun hfree => (hf hfree).mono fun depth hf =>
        Form.matches_map.mpr ⟨a, hf, rfl⟩⟩
    | failed t =>
      exact ⟨htrust, fun hfree => (hf hfree).mono fun depth hf => Form.fails_map.mpr hf⟩
  | @refine _ _ k f s o _ ih =>
    obtain ⟨htrust, hf⟩ := ih hs trivial
    cases o with
    | stopped c t => exact ⟨htrust, hf⟩
    | failed t =>
      exact ⟨htrust, fun hfree => (hf hfree).mono fun depth hf =>
        Form.fails_refine.mpr (.inl hf)⟩
    | matched a t =>
      rw [Outcome.andThen_matched]
      cases hk : k a with
      | some b =>
        exact ⟨htrust, fun hfree => (hf hfree).mono fun depth hf =>
          Form.matches_refine.mpr ⟨a, hf, hk⟩⟩
      | none =>
        exact ⟨htrust.fail, fun hfree => (hf hfree).mono fun depth hf =>
          Form.fails_refine.mpr (.inr ⟨a, t.pos, hf, hk⟩)⟩
  | checked _ hnone ih =>
    obtain ⟨htrust, hf⟩ := ih hs trivial
    exact ⟨htrust, fun hfree => (hf hfree).mono fun depth hf =>
      Form.matches_checked.mpr ⟨hf, hnone⟩⟩
  | noChecked _ ih =>
    obtain ⟨htrust, hf⟩ := ih hs trivial
    exact ⟨htrust, fun hfree => (hf hfree).mono fun depth hf => Form.fails_checked.mpr hf⟩
  | left _ ih =>
    obtain ⟨htrust, hf⟩ := ih hs trivial
    exact ⟨htrust, fun hfree => (hf fun r hr => hfree r (.inl hr)).mono fun depth hf =>
      Form.matches_orElse.mpr (.inl hf)⟩
  | right _ _ ihf ihg =>
    obtain ⟨htrust, hf⟩ := ihf hs trivial
    obtain ⟨htrust', hg⟩ := ihg (htrust.goTo hs.inside.pos) trivial
    refine ⟨htrust', fun hfree => ?_⟩
    filter_upwards [hf fun r hr => hfree r (.inl hr), hg fun r hr => hfree r (.inr hr)]
      with depth hf hg
    exact Form.matches_orElse.mpr (.inr ⟨hf, hg⟩)
  | neither _ _ ihf ihg =>
    obtain ⟨htrust, hf⟩ := ihf hs trivial
    obtain ⟨htrust', hg⟩ := ihg (htrust.goTo hs.inside.pos) trivial
    refine ⟨(htrust'.goTo hs.inside.pos).fail, fun hfree => ?_⟩
    filter_upwards [hf fun r hr => hfree r (.inl hr), hg fun r hr => hfree r (.inr hr)]
      with depth hf hg
    exact Form.fails_orElse.mpr ⟨hf, hg⟩
  | given _ ih =>
    obtain ⟨htrust, hf⟩ := ih hs trivial
    exact ⟨htrust, fun hfree => (hf hfree).mono fun depth hf =>
      Form.matches_optional.mpr (.inl ⟨_, hf, rfl⟩)⟩
  | missing _ ih =>
    obtain ⟨htrust, hf⟩ := ih hs trivial
    exact ⟨htrust.goTo hs.inside.pos, fun hfree => (hf hfree).mono fun depth hf =>
      Form.matches_optional.mpr (.inr ⟨hf, rfl, rfl⟩)⟩
  | many _ ih =>
    obtain ⟨htrust, hloop⟩ := ih hs trivial
    refine ⟨htrust, fun hfree => ?_⟩
    obtain ⟨more, s', rfl, hread⟩ := hloop hfree
    exact hread.mono fun depth hread => hread code.size (Nat.sub_le _ _)
  | noMore _ ih =>
    obtain ⟨htrust, hf⟩ := ih hs trivial
    refine ⟨htrust.goTo hs.inside.pos, fun hfree => ⟨[], _, by rw [List.append_nil], ?_⟩⟩
    filter_upwards [hf hfree] with depth hf rounds hrounds
    obtain ⟨reach, hf⟩ := hf
    exact ⟨reach, by rw [readMany, hf]; rfl⟩
  | @last _ f items s s' a _ hpos ih =>
    obtain ⟨htrust, hf⟩ := ih hs trivial
    refine ⟨htrust, fun hfree => ⟨[a], s', by rw [List.reverse_cons], ?_⟩⟩
    filter_upwards [hf hfree] with depth hf rounds hrounds
    obtain ⟨reach, hf⟩ := hf
    refine ⟨reach, ?_⟩
    rw [readMany, hf]
    exact if_pos hpos
  | @next _ f items s s' a o step hpos _ ih ihloop =>
    obtain ⟨htrust, hf⟩ := ih hs trivial
    obtain ⟨htrust', hloop⟩ := ihloop htrust trivial
    refine ⟨htrust', fun hfree => ?_⟩
    obtain ⟨more, t, rfl, hread⟩ := hloop hfree
    refine ⟨a :: more, t, by rw [List.reverse_cons, List.append_assoc]; rfl, ?_⟩
    have hle : s.pos ≤ s'.pos := (step.reached hs.inside trivial).1
    have hsize : s'.pos ≤ code.size := htrust.inside.pos
    filter_upwards [hf hfree, hread] with depth hf hread rounds hrounds
    obtain ⟨reach, hf⟩ := hf
    -- the item has taken a character, so that a round is left for the next one
    obtain ⟨rounds, rfl⟩ := Nat.exists_eq_add_one.mpr (show 0 < rounds by omega)
    obtain ⟨reach', hrest⟩ := hread rounds (by omega)
    refine ⟨max reach reach', ?_⟩
    rw [readMany, hf]
    dsimp only
    rw [if_neg hpos, hrest]
    rfl
  | @replayed r s entry _ hfind =>
    cases entry with
    | failed => exact ⟨hs.fail, fun hfree => hs.entries r s.pos _ (hfree r rfl) hfind⟩
    | matched a stop =>
      exact ⟨hs.goTo (hs.inside.entries r _ a stop hfind).2,
        fun hfree => hs.entries r s.pos _ (hfree r rfl) hfind⟩
  | @plain r _ _ _ _ ih =>
    obtain ⟨htrust, hbody⟩ := ih (hs.enter r) trivial
    exact ⟨htrust, fun hfree => (hbody (hfree r rfl).form).call⟩
  | @memoMatched r s s' a _ _ body ih =>
    obtain ⟨htrust, hbody⟩ := ih (hs.enter r) trivial
    have hle : s.pos ≤ s'.pos := (body.reached (hs.enter r).inside trivial).1
    exact ⟨htrust.recordMatched hle fun hfree => (hbody hfree.form).call,
      fun hfree => (hbody (hfree r rfl).form).call⟩
  | @memoFailed r s s' _ _ _ ih =>
    obtain ⟨htrust, hbody⟩ := ih (hs.enter r) trivial
    exact ⟨htrust.record (fun b stop heq => by cases heq) fun hfree => (hbody hfree.form).call,
      fun hfree => (hbody (hfree r rfl).form).call⟩
  | @grown r s o hstrategy _ _ ih =>
    obtain ⟨htrust, -⟩ := ih (hs.seed hstrategy s.pos) (Task.fits_none r hs.inside.pos)
    exact ⟨htrust, fun hfree => absurd hstrategy (hfree r rfl).not_grow⟩
  | @growFailed r _ _ _ _ _ ih =>
    obtain ⟨htrust, -⟩ := ih ((hs.goTo hfits.1).enter r) trivial
    exact ⟨htrust.harvest hfits.1 hfits.2, trivial⟩
  | @growNoLonger r _ _ _ _ _ _ _ ih =>
    obtain ⟨htrust, -⟩ := ih ((hs.goTo hfits.1).enter r) trivial
    exact ⟨htrust.harvest hfits.1 hfits.2, trivial⟩
  | @growLonger r start _ _ s' a _ body _ _ ih ihloop =>
    have hseen := (hs.goTo hfits.1).enter r
    obtain ⟨htrust, hbody⟩ := ih hseen trivial
    have hle : start ≤ s'.pos := (body.reached hseen.inside trivial).1
    have hrecord := htrust.recordMatched (r := r) hle fun hfree => (hbody hfree.form).call
    exact ⟨(ihloop hrecord (Task.fits_some r a hfits.1 hle htrust.inside.pos)).1, trivial⟩

/-- Whatever has been attempted, progress is trusted. -/
theorem Grammar.Attempted.trusted {G : Grammar ρ Res} {code : Array Char} {s : Progress ρ Res}
    (hs : G.Attempted code s) : s.Trusted G code := by
  induction hs with
  | start => exact .start G code
  | rewind _ ih => exact ih.goTo (Nat.zero_le _)
  | attempt _ form budget h ih => exact ((ends_of_finished ih.inside h).trusted ih trivial).1

/-! ## What is read ends -/

/-- There is a reading, and it is a match or a failure. -/
def Reading.ends : Option (Reading α) → Bool
  | some (.matched _ _ _) => true
  | some (.failed _) => true
  | _ => false

/-- A reading that ends is a match or a failure. -/
theorem Reading.cases_of_ends {o : Option (Reading α)} (h : ends o) :
    (∃ a stop reach, o = some (.matched a stop reach)) ∨ ∃ reach, o = some (.failed reach) := by
  cases o with
  | none => cases h
  | some rd =>
    cases rd with
    | matched a stop reach => exact .inl ⟨a, stop, reach, rfl⟩
    | failed reach => exact .inr ⟨reach, rfl⟩
    | error message => cases h

/-- A reading ends if it ends with its result changed. -/
theorem Reading.ends_of_map {g : Reading α → Reading β} (hg : ∀ m, g (.error m) = .error m)
    {o : Option (Reading α)} (h : ends (o.map g)) : ends o := by
  cases o with
  | none => exact h
  | some rd =>
    cases rd with
    | matched a stop reach => rfl
    | failed reach => rfl
    | error message => rw [Option.map_some, hg] at h; exact h

/-- The first of two readings ends if both together do. -/
theorem Reading.ends_of_andThen {first : Option (Reading α)}
    {next : α → Nat → Option (Reading β)} (h : ends (andThen first next)) : ends first := by
  cases first with
  | none => exact h
  | some rd =>
    cases rd with
    | matched a stop reach => rfl
    | failed reach => rfl
    | error message => exact h

/-- So does the second, behind a match of the first. -/
theorem Reading.ends_next_of_andThen {a : α} {stop reach : Nat}
    {next : α → Nat → Option (Reading β)}
    (h : ends (andThen (some (.matched a stop reach)) next)) : ends (next a stop) := by
  rw [andThen_matched] at h
  exact ends_of_map (fun _ => rfl) h

/-- From every table that can be trusted the form comes to an end at a position, as it is read. -/
def Form.EndsAt (G : Grammar ρ Res) (code : Array Char) (form : Form ρ Res α) (pos : Nat) : Prop :=
  ∀ s : Progress ρ Res, s.Trusted G code → s.pos = pos →
    ∃ o, G.Ends code (.recognise form) s o ∧ o.state.Trusted G code ∧ o.IsRead G code form pos

section EndsAt

variable {G : Grammar ρ Res} {code : Array Char} {form : Form ρ Res α} {pos depth : Nat}

/-- An ending is all that has to be found: it is right if the form calls no rule from which a
growing one is reached. -/
theorem Form.EndsAt.of_ends (hfree : form.GrowthFree G)
    (h : ∀ s : Progress ρ Res, s.Trusted G code → s.pos = pos →
      ∃ o, G.Ends code (.recognise form) s o) : form.EndsAt G code pos := by
  intro s hs hpos
  obtain ⟨o, ends⟩ := h s hs hpos
  obtain ⟨htrust, hread⟩ := ends.trusted hs trivial
  exact ⟨o, ends, htrust, hpos ▸ hread hfree⟩

/-- What is read as a match ends with it, at a position that is not before the start. -/
theorem Form.EndsAt.matched (h : form.EndsAt G code pos) {a : α} {stop reach : Nat}
    (hrd : form.read code (G.readRule code depth) pos = some (.matched a stop reach))
    {s : Progress ρ Res} (hs : s.Trusted G code) (hpos : s.pos = pos) :
    ∃ s', G.Ends code (.recognise form) s (.matched a s') ∧ s'.Trusted G code ∧ s'.pos = stop ∧
      pos ≤ stop := by
  obtain ⟨o, ends, htrust, hread⟩ := h s hs hpos
  obtain ⟨s', rfl, hstop, -⟩ := (hread.agrees hrd).eq_matched
  have hle : s.pos ≤ s'.pos := (ends.reached hs.inside trivial).1
  exact ⟨s', ends, htrust, hstop, by omega⟩

/-- Where a form is read as a failure, an attempt at it ends in one. -/
theorem Form.EndsAt.failed (h : form.EndsAt G code pos) {reach : Nat}
    (hrd : form.read code (G.readRule code depth) pos = some (.failed reach))
    {s : Progress ρ Res} (hs : s.Trusted G code) (hpos : s.pos = pos) :
    ∃ s', G.Ends code (.recognise form) s (.failed s') ∧ s'.Trusted G code := by
  obtain ⟨o, ends, htrust, hread⟩ := h s hs hpos
  obtain ⟨s', rfl, -⟩ := (hread.agrees hrd).eq_failed
  exact ⟨s', ends, htrust⟩

/-- A repetition ends where it can be read with a round for every character that is left. -/
theorem Grammar.ends_again_of_read
    (hform : ∀ pos, Reading.ends (form.read code (G.readRule code depth) pos) →
      form.EndsAt G code pos) :
    ∀ (rounds : Nat) (items : List α) (s : Progress ρ Res), s.Trusted G code →
      code.size - s.pos < rounds →
      Reading.ends (readMany (form.read code (G.readRule code depth)) rounds s.pos) →
      ∃ o, G.Ends code (.again form items) s o := by
  intro rounds
  induction rounds with
  | zero => intro items s _ hrounds _; omega
  | succ rounds ih =>
    intro items s hs hrounds hread
    have hends := hform s.pos
    rw [readMany] at hread
    cases hrd : form.read code (G.readRule code depth) s.pos with
    | none => rw [hrd] at hread; cases hread
    | some rd =>
      rw [hrd] at hread hends
      cases rd with
      | error message => cases hread
      | failed reach =>
        obtain ⟨s', step, -⟩ := (hends rfl).failed hrd hs rfl
        exact ⟨_, .noMore step⟩
      | matched a stop reach =>
        obtain ⟨s', step, hs', rfl, hle⟩ := (hends rfl).matched hrd hs rfl
        dsimp only at hread
        by_cases hpos : s'.pos = s.pos
        · exact ⟨_, .last step hpos⟩
        · rw [if_neg hpos] at hread
          have hsize := hs'.inside.pos
          obtain ⟨o, loop⟩ :=
            ih (a :: items) s' hs' (by omega) (Reading.ends_of_map (fun _ => rfl) hread)
          exact ⟨o, .next step hpos loop⟩

/-- A form ends where it can be read if the calls do that it makes. -/
theorem Form.endsAt_of_calls
    (hcalls : ∀ r, G.GrowthFree r → ∀ pos, Reading.ends (G.readRule code depth r pos) →
      (Form.call r).EndsAt G code pos) (hfree : form.GrowthFree G) :
    ∀ pos, Reading.ends (form.read code (G.readRule code depth) pos) →
      form.EndsAt G code pos := by
  induction form with
  | pattern m =>
    refine fun pos _ => .of_ends hfree fun s _ _ => ?_
    cases hstop : m.stop? code s.pos with
    | none => exact ⟨_, .noPattern hstop⟩
    | some stop => exact ⟨_, .pattern hstop⟩
  | endOfInput =>
    refine fun pos _ => .of_ends hfree fun s _ _ => ?_
    by_cases hend : s.pos = code.size
    · exact ⟨_, .endOfInput hend⟩
    · exact ⟨_, .noEndOfInput hend⟩
  | skip a => exact fun pos _ => .of_ends hfree fun s _ _ => ⟨_, .skip⟩
  | fail => exact fun pos _ => .of_ends hfree fun s _ _ => ⟨_, .fail⟩
  | pair f g ihf ihg =>
    refine fun pos hread => .of_ends hfree fun s hs hpos => ?_
    rw [Form.read] at hread
    have hfirst := Reading.ends_of_andThen hread
    have hf := ihf (fun r hr => hfree r (.inl hr)) pos hfirst
    obtain ⟨a, mid, reach, hrd⟩ | ⟨reach, hrd⟩ := Reading.cases_of_ends hfirst
    · obtain ⟨s', first, hs', hmid, -⟩ := hf.matched hrd hs hpos
      rw [hrd] at hread
      have hsecond := Reading.ends_of_andThen (Reading.ends_next_of_andThen hread)
      obtain ⟨o, second, -⟩ := ihg (fun r hr => hfree r (.inr hr)) mid hsecond s' hs' hmid
      exact ⟨_, .pair first second⟩
    · obtain ⟨s', first, -⟩ := hf.failed hrd hs hpos
      exact ⟨_, .noPair first⟩
  | map k f ih =>
    refine fun pos hread => .of_ends hfree fun s hs hpos => ?_
    obtain ⟨o, inner, -⟩ := ih hfree pos (Reading.ends_of_andThen hread) s hs hpos
    exact ⟨_, .map inner⟩
  | refine k f ih =>
    refine fun pos hread => .of_ends hfree fun s hs hpos => ?_
    obtain ⟨o, inner, -⟩ := ih hfree pos (Reading.ends_of_andThen hread) s hs hpos
    exact ⟨_, .refine inner⟩
  | checked e f ih =>
    refine fun pos hread => .of_ends hfree fun s hs hpos => ?_
    rw [Form.read] at hread
    have hfirst := Reading.ends_of_andThen hread
    have hf := ih hfree pos hfirst
    obtain ⟨a, stop, reach, hrd⟩ | ⟨reach, hrd⟩ := Reading.cases_of_ends hfirst
    · obtain ⟨s', inner, -⟩ := hf.matched hrd hs hpos
      rw [hrd] at hread
      have hchecked := Reading.ends_next_of_andThen hread
      cases he : e a with
      | none => exact ⟨_, .checked inner he⟩
      | some message => rw [he] at hchecked; cases hchecked
    · obtain ⟨s', inner, -⟩ := hf.failed hrd hs hpos
      exact ⟨_, .noChecked inner⟩
  | orElse f g ihf ihg =>
    refine fun pos hread => .of_ends hfree fun s hs hpos => ?_
    have hf := ihf (fun r hr => hfree r (.inl hr)) pos
    have hg := ihg (fun r hr => hfree r (.inr hr)) pos
    rw [Form.read] at hread
    cases hrd : f.read code (G.readRule code depth) pos with
    | none => rw [hrd] at hread; cases hread
    | some rd =>
      rw [hrd] at hread hf
      cases rd with
      | error message => cases hread
      | matched a stop reach =>
        obtain ⟨s', first, -⟩ := (hf rfl).matched hrd hs hpos
        exact ⟨_, .left first⟩
      | failed reach =>
        obtain ⟨s₁, first, hs₁⟩ := (hf rfl).failed hrd hs hpos
        obtain ⟨o, second, -, hread'⟩ := hg (Reading.ends_of_map (fun _ => rfl) hread)
          (s₁.goTo s.pos) (hs₁.goTo hs.inside.pos) hpos
        cases o with
        | stopped c s₂ => exact hread'.elim
        | matched a s₂ => exact ⟨_, .right first second⟩
        | failed s₂ => exact ⟨_, .neither first second⟩
  | optional f ih =>
    refine fun pos hread => .of_ends hfree fun s hs hpos => ?_
    have hinner : Reading.ends (f.read code (G.readRule code depth) pos) := by
      rw [Form.read] at hread
      cases hrd : f.read code (G.readRule code depth) pos with
      | none => rw [hrd] at hread; cases hread
      | some rd =>
        rw [hrd] at hread
        cases rd with
        | error message => cases hread
        | matched a stop reach => rfl
        | failed reach => rfl
    obtain ⟨o, inner, -, hread'⟩ := ih hfree pos hinner s hs hpos
    cases o with
    | stopped c s' => exact hread'.elim
    | matched a s' => exact ⟨_, .given inner⟩
    | failed s' => exact ⟨_, .missing inner⟩
  | many f ih =>
    intro pos hread
    refine .of_ends hfree ?_
    rintro s hs rfl
    obtain ⟨o, loop⟩ :=
      Grammar.ends_again_of_read (ih hfree) (code.size + 1) [] s hs (by omega) hread
    exact ⟨o, .many loop⟩
  | call r => exact hcalls r (hfree r rfl)

/-- A call ends where it can be read. -/
theorem Grammar.GrowthFree.endsAt (G : Grammar ρ Res) (code : Array Char) :
    ∀ (depth : Nat) (r : ρ), G.GrowthFree r → ∀ pos, Reading.ends (G.readRule code depth r pos) →
      (Form.call r).EndsAt G code pos := by
  intro depth
  induction depth with
  | zero => intro r _ pos hread; cases hread
  | succ depth ih =>
    intro r hfree pos hread
    have hbody := Form.endsAt_of_calls ih hfree.form pos hread
    refine .of_ends (fun r' hr' => (show r = r' from hr') ▸ hfree) fun s hs hpos => ?_
    obtain ⟨o, body, -, hread'⟩ := hbody (s.enter r) (hs.enter r) hpos
    cases hstrategy : (G r).strategy with
    | grow => exact absurd hstrategy hfree.not_grow
    | plain => exact ⟨o, .plain hstrategy body⟩
    | memo =>
      cases hfind : s.memo.find? r s.pos with
      | some entry => exact ⟨_, .replayed (by rw [hstrategy]; exact Strategy.noConfusion) hfind⟩
      | none =>
        cases o with
        | stopped c s' => exact hread'.elim
        | matched a s' => exact ⟨_, .memoMatched hstrategy hfind body⟩
        | failed s' => exact ⟨_, .memoFailed hstrategy hfind body⟩

/-- **What is read ends.** A form that calls no rule from which a growing one is reached ends
wherever it can be read, from every table that can be trusted. -/
theorem Form.ends_of_read (hfree : form.GrowthFree G)
    (hread : Reading.ends (form.read code (G.readRule code depth) pos)) : form.EndsAt G code pos :=
  Form.endsAt_of_calls (Grammar.GrowthFree.endsAt G code depth) hfree pos hread

end EndsAt

end CalcScript.Packrat
