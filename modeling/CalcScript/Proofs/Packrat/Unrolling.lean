import CalcScript.Proofs.Packrat.Following

/-!
# Recognition by a grammar follows reading by its loops

A rule that grows is left-recursive: its form tries itself, continued by a tail, before a base. The
loop for it reads the base once and then the tail as often as it matches (`Form.leftFold`,
`LoopOf`). `Grammar.Unrolls` says that one grammar has the loops for the growing rules of another,
and the other's forms elsewhere, and that the rules are in layers, so that nothing that runs while a
match grows asks for that match but the growing rule itself.

> `Grammar.callRule_follows`: a rule call of a grammar follows the reading of the call by the
> grammar's loops, from every state whose table is sound.
-/

namespace CalcScript.Packrat

variable {ρ : Type} {Res : ρ → Type} {α β τ : Type}

/-- A match of the base, continued from the left by each of the matches of the tail behind it. -/
def Form.leftFold (extend : α × τ → α) (base : Form ρ Res α) (tail : Form ρ Res τ) :
    Form ρ Res α :=
  .map (fun (a, tails) => tails.foldl (fun a t => extend (a, t)) a) (.pair base (.many tail))

/-- The form tries a call of the rule that is continued by the tail, and then the base. -/
def Form.leftRecursive (r : ρ) (extend : Res r × τ → Res r) (base : Form ρ Res (Res r))
    (tail : Form ρ Res τ) : Form ρ Res (Res r) :=
  .first [.map extend (.pair (.call r) tail), base]

/-- `looped` is the loop for the left-recursive form `grown` of a rule. Base and tail begin with
calls of smaller rank only, and the base cannot be read without any call. -/
def LoopOf (L : Layers ρ) (r : ρ) (grown looped : Form ρ Res (Res r)) : Prop :=
  ∃ (τ : Type) (extend : Res r × τ → Res r) (base : Form ρ Res (Res r)) (tail : Form ρ Res τ),
    grown = .leftRecursive r extend base tail ∧ looped = .leftFold extend base tail ∧
    base.startsBelow L (L.rank r) = true ∧ tail.startsBelow L (L.rank r) = true ∧
    tail.takes L.takes = true ∧ ∀ code pos, base.read code (fun _ _ => none) pos = none

/-- `H` has the loops for the growing rules of `G` and the forms of the other rules. -/
structure Grammar.Unrolls (L : Layers ρ) (G H : Grammar ρ Res) : Prop where
  takes : ∀ r, L.takes r = true → (H r).form.takes L.takes = true
  same : ∀ r, (G r).strategy ≠ .grow →
    (H r).form = (G r).form ∧ (G r).form.startsBelow L (L.rank r + 1) = true
  loop : ∀ r, (G r).strategy = .grow → LoopOf L r (G r).form (H r).form

/-! ## Reading a growing rule with a match to be continued -/

section Regrown

variable {code : Array Char} {reader : Reader ρ Res} {extend : α × τ → α} {base : Form ρ Res α}
  {tail : Form ρ Res τ} {start : Nat}

/-- What replaying an entry comes to. -/
def Entry.replayed (start : Nat) : Entry α → Reading α
  | .failed => .failed start
  | .matched a stop => .matched a stop 0

/-- What an entry that is replayed and then continued by the tail is read as. -/
def continued (code : Array Char) (reader : Reader ρ Res) (extend : α × τ → α)
    (tail : Form ρ Res τ) (start : Nat) (entry : Entry α) : Option (Reading α) :=
  Reading.andThen
    (Reading.andThen (some (entry.replayed start)) fun a mid =>
      Reading.andThen (tail.read code reader mid) fun t stop => some (.matched (a, t) stop 0))
    fun x stop => some (.matched (extend x) stop 0)

/-- What the form of a growing rule is read as where an entry is replayed for the rule itself. -/
def regrown (code : Array Char) (reader : Reader ρ Res) (extend : α × τ → α)
    (base : Form ρ Res α) (tail : Form ρ Res τ) (start : Nat) (entry : Entry α) :
    Option (Reading α) :=
  Reading.orElse start (continued code reader extend tail start entry)
    (Reading.orElse start (base.read code reader start) (some (.failed start)))

theorem regrown_of_base_failed {reach : Nat}
    (hbase : base.read code reader start = some (.failed reach)) (hle : start ≤ reach) :
    regrown code reader extend base tail start .failed = some (.failed reach) := by
  have hmax : max start (max (max reach (max start start)) start) = reach := by omega
  rw [regrown, hbase]
  exact congrArg (fun n => some (Reading.failed n)) hmax

theorem regrown_of_base_matched {a : α} {stop reach : Nat}
    (hbase : base.read code reader start = some (.matched a stop reach)) :
    regrown code reader extend base tail start .failed
      = some (.matched a stop (max start reach)) := by
  rw [regrown, hbase]
  rfl

theorem regrown_of_tail_failed {a x : α} {stop mid reach n : Nat}
    (hbase : base.read code reader start = some (.matched a stop reach))
    (htail : tail.read code reader mid = some (.failed n)) :
    regrown code reader extend base tail start (.matched x mid)
      = some (.matched a stop (max n reach)) := by
  rw [regrown, continued, hbase, Entry.replayed, Reading.andThen_matched, htail,
    ← Nat.zero_max n]
  rfl

theorem regrown_of_tail_matched {x : α} {y : τ} {mid stop n : Nat}
    (htail : tail.read code reader mid = some (.matched y stop n)) :
    regrown code reader extend base tail start (.matched x mid)
      = some (.matched (extend (x, y)) stop n) := by
  have hmax : max (max 0 (max n 0)) 0 = n := by omega
  rw [regrown, continued, Entry.replayed, Reading.andThen_matched, htail]
  exact congrArg (fun n => some (Reading.matched (extend (x, y)) stop n)) hmax

theorem regrown_of_base_error {message : String}
    (hbase : base.read code reader start = some (.error message)) :
    regrown code reader extend base tail start .failed = some (.error message) := by
  rw [regrown, hbase]
  rfl

theorem regrown_of_tail_error {x : α} {mid : Nat} {message : String}
    (htail : tail.read code reader mid = some (.error message)) :
    regrown code reader extend base tail start (.matched x mid) = some (.error message) := by
  rw [regrown, continued, Entry.replayed, Reading.andThen_matched, htail]
  rfl

end Regrown

variable [DecidableEq ρ]

/-! ## Entries -/

section Entries

variable {H : Grammar ρ Res} {code : Array Char} {region : ρ → Nat → Prop}
  {s s' : Progress ρ Res} {n : Nat} {r : ρ} {rd : Reading (Res r)}

/-- A right entry for a call of the region may be recorded. -/
theorem Progress.Tracks.record {q : Nat} {entry : Entry (Res r)} (hreg : region r q)
    (htells : entry.Tells (H.Reads code r q) s'.furthest)
    (h : Progress.Tracks H code region s s' n) :
    Progress.Tracks H code region s (s'.record r q entry) n := by
  refine ⟨h.furthest, fun r' q' entry' hreg' hfind => ?_, fun r' q' hreg' => ?_⟩
  · by_cases he : r' = r ∧ q' = q
    · obtain ⟨rfl, rfl⟩ := he
      rw [Progress.record, Memo.find?_insert_self] at hfind
      cases hfind
      exact htells
    · rw [Progress.record, Memo.find?_insert_of_ne _ _ he] at hfind
      exact h.sound r' q' entry' hreg' hfind
  · have he : ¬(r' = r ∧ q' = q) := by
      rintro ⟨rfl, rfl⟩
      exact hreg' hreg
    rw [Progress.record, Memo.find?_insert_of_ne _ _ he]
    exact h.kept r' q' hreg'

/-- A right entry is replayed as the call is read: its failures are counted already, and a replayed
failure is not beyond them. -/
theorem replay_agrees {entry : Entry (Res r)} (hs : s.Sound H code region)
    (hreg : region r s.pos) (hfind : s.memo.find? r s.pos = some entry)
    (hreads : H.Reads code r s.pos rd) (hpos : ∀ reach, rd = .failed reach → s.pos ≤ reach) :
    (replay entry s).Agrees (Progress.Tracks H code region s) rd := by
  have htells := hs r s.pos entry hreg hfind
  cases entry with
  | failed =>
    obtain ⟨reach, hreads', hreach⟩ := htells
    obtain rfl := hreads.unique hreads'
    have hle := hpos reach rfl
    have hfail := Progress.Tracks.failAt (Progress.Tracks.refl hs)
    refine ⟨?_, hfail.sound, hfail.kept⟩
    -- replaying counts a failure at the position of the call, which the recorded one is not before
    show max s.furthest s.pos = max s.furthest reach
    omega
  | matched a stop =>
    obtain ⟨reach, hreads', hreach⟩ := htells
    obtain rfl := hreads.unique hreads'
    refine ⟨rfl, rfl, ?_, hs, fun _ _ _ => rfl⟩
    show s.furthest = max s.furthest reach
    omega

/-- What the body of a `memo` rule gives is recorded rightly. -/
theorem runMemo_agrees {body : Progress ρ Res → Outcome (Progress ρ Res) (Res r)}
    (hreg : region r s.pos) (hreads : H.Reads code r s.pos rd)
    (hbody : (body (s.enter r)).Agrees (Progress.Tracks H code region s) rd) :
    (runMemo r body s).Agrees (Progress.Tracks H code region s) rd := by
  rw [runMemo]
  cases rd with
  | matched a stop reach =>
    obtain ⟨s', h, rfl, hs'⟩ := hbody.eq_matched
    rw [h]
    have hle : reach ≤ s'.furthest := by rw [hs'.furthest]; exact Nat.le_max_right _ _
    exact ⟨rfl, rfl, hs'.record hreg ⟨reach, hreads, hle⟩⟩
  | failed reach =>
    obtain ⟨s', h, hs'⟩ := hbody.eq_failed
    rw [h]
    have hle : reach ≤ s'.furthest := by rw [hs'.furthest]; exact Nat.le_max_right _ _
    exact hs'.record hreg ⟨reach, hreads, hle⟩
  | error message =>
    obtain ⟨s', h⟩ := hbody.eq_error
    rw [h]
    rfl

/-- An entry outside of the region may be anything. -/
theorem Progress.Sound.record {q : Nat} {entry : Entry (Res r)} (hout : ¬region r q)
    (h : s.Sound H code region) : (s.record r q entry).Sound H code region := by
  refine h.congr (Nat.le_refl _) fun r' q' hreg => ?_
  exact Memo.find?_insert_of_ne _ _ fun ⟨hr, hq⟩ => hout (hr ▸ hq ▸ hreg)

end Entries

/-! ## Growing matches -/

section Growth

variable {H : Grammar ρ Res} {code : Array Char} {region : ρ → Nat → Prop}
  {calls : Calls ρ Res} {reader : Reader ρ Res} {r : ρ} {start : Nat}
  {extend : Res r × τ → Res r} {base : Form ρ Res (Res r)} {tail : Form ρ Res τ}

/-- While a match of the rule `r` grows at `start`, calls of it there are replayed, and base and
tail do not touch it: it lies outside of the region of the calls that they make. -/
structure Growing (H : Grammar ρ Res) (code : Array Char) (region : ρ → Nat → Prop)
    (calls : Calls ρ Res) (reader : Reader ρ Res) (r : ρ) (start : Nat)
    (base : Form ρ Res (Res r)) (tail : Form ρ Res τ) : Prop where
  outside : ¬region r start
  self : ∀ (s : Progress ρ Res) entry, s.pos = start → s.memo.find? r start = some entry →
    calls r s = replay entry s
  base_follows : ∀ s : Progress ρ Res, s.pos = start → s.Sound H code region →
    (base.run code calls s).Follows False (Progress.Tracks H code region s)
      (base.read code reader start)
  tail_follows : ∀ s : Progress ρ Res, start ≤ s.pos → s.Sound H code region →
    (tail.run code calls s).Follows False (Progress.Tracks H code region s)
      (tail.read code reader s.pos)
  tail_advances : ∀ p x, tail.read code reader p = some x → x.Advances code.size p true

theorem replay_follows {s : Progress ρ Res} {entry : Entry α} (hs : s.Sound H code region) :
    (replay entry s).Follows False (Progress.Tracks H code region s)
      (some (entry.replayed s.pos)) := by
  cases entry with
  | failed => exact Progress.fail_follows hs
  | matched a stop => exact ⟨rfl, rfl, (Progress.Tracks.refl hs).goTo _⟩

/-- One more run of a growing rule follows the reading in which the match so far is replayed. -/
theorem Growing.run_follows (extend : Res r × τ → Res r)
    (hg : Growing H code region calls reader r start base tail)
    {s : Progress ρ Res} {entry : Entry (Res r)} (hs : s.Sound H code region)
    (hfind : s.memo.find? r start = some entry)
    (hstop : ∀ a stop, entry = .matched a stop → start ≤ stop) :
    ((Form.leftRecursive r extend base tail).run code calls ((s.goTo start).enter r)).Follows
      False (Progress.Tracks H code region s)
      (regrown code reader extend base tail start entry) := by
  let t := (s.goTo start).enter r
  have ht : t.Sound H code region := hs
  have hself : (calls r t).Follows False (Progress.Tracks H code region t)
      (some (entry.replayed start)) := by
    rw [hg.self t entry rfl hfind]
    exact replay_follows ht
  -- the first alternative: the match so far, and the tail behind it
  have hpair : ((Form.pair (.call r) tail).run code calls t).Follows False
      (Progress.Tracks H code region t)
      (Reading.andThen (some (entry.replayed start)) fun a mid =>
        Reading.andThen (tail.read code reader mid) fun y stop =>
          some (.matched (a, y) stop 0)) := by
    refine hself.andThen fun a s' reach hx hs' => ?_
    have hle : start ≤ s'.pos := by
      cases entry with
      | failed => cases hx
      | matched x stop => cases hx; exact hstop _ _ rfl
    exact (hg.tail_follows s' hle hs'.sound).andThen
      fun y s'' _ _ hs'' => ⟨rfl, rfl, .refl hs''.sound⟩
  have halt : ((Form.map extend (.pair (.call r) tail)).run code calls t).Follows False
      (Progress.Tracks H code region t) (continued code reader extend tail start entry) :=
    hpair.andThen fun x s' _ _ hs' => ⟨rfl, rfl, .refl hs'.sound⟩
  -- the second alternative: the base, from the start again
  have hrest : ∀ s₁ : Progress ρ Res, s₁.pos = start → s₁.Sound H code region →
      ((Form.orElse base .fail).run code calls s₁).Follows False
        (Progress.Tracks H code region s₁)
        (Reading.orElse start (base.read code reader start) (some (.failed start))) := by
    rintro s₁ rfl hs₁
    refine Form.orElse_follows (hg.base_follows s₁ rfl hs₁) fun s₂ hpos hs₂ => ?_
    rw [← hpos]
    exact Progress.fail_follows hs₂
  exact (Form.orElse_follows halt hrest).imp fun s' n hs' =>
    ⟨hs'.furthest, hs'.sound, hs'.kept⟩

/-- From `s` to `s'` a match of the rule `r` at `start` has grown to an entry, failures up to `reach`
are counted, and entries of the region are made. -/
structure Progress.Grows (H : Grammar ρ Res) (code : Array Char) (region : ρ → Nat → Prop)
    (r : ρ) (start : Nat) (s s' : Progress ρ Res) (entry : Entry (Res r)) (reach : Nat) :
    Prop where
  furthest : s'.furthest = max s.furthest reach
  sound : s'.Sound H code region
  grown : s'.memo.find? r start = some entry
  kept : ∀ r' q, ¬region r' q → ¬(r' = r ∧ q = start) →
    s'.memo.find? r' q = s.memo.find? r' q

/-- If the match grows to a right entry, that is tracked in a region to which its call belongs. -/
theorem Progress.Grows.tracks {region' : ρ → Nat → Prop} {s s' : Progress ρ Res}
    {entry : Entry (Res r)} {n : Nat}
    (h : Progress.Grows H code region r start s s' entry n) (hs : s.Sound H code region')
    (hreg : region' r start) (hsub : ∀ r q, region r q → region' r q)
    (htells : entry.Tells (H.Reads code r start) s'.furthest) :
    Progress.Tracks H code region' s s' n := by
  refine ⟨h.furthest, fun r' q entry' hreg' hfind => ?_, fun r' q hout => ?_⟩
  · by_cases hin : region r' q
    · exact h.sound r' q entry' hin hfind
    · -- the grown entry is the only one of the larger region that base and tail have not made
      by_cases he : r' = r ∧ q = start
      · obtain ⟨rfl, rfl⟩ := he
        rw [h.grown] at hfind
        cases hfind
        exact htells
      · rw [h.kept r' q hin he] at hfind
        exact (hs r' q entry' hreg' hfind).mono (by rw [h.furthest]; exact Nat.le_max_left _ _)
  · refine h.kept r' q (fun hin => hout (hsub r' q hin)) ?_
    rintro ⟨rfl, rfl⟩
    exact hout hreg

/-- A run that leaves the entry as it is, and then what grows from the state behind it with a new
entry recorded. -/
theorem Progress.Grows.step {s s' s'' : Progress ρ Res} {entry entry' : Entry (Res r)} {n m : Nat}
    (h : Progress.Tracks H code region s s' n)
    (h' : Progress.Grows H code region r start (s'.record r start entry) s'' entry' m) :
    Progress.Grows H code region r start s s'' entry' (max n m) := by
  refine ⟨?_, h'.sound, h'.grown, fun r' q hout hne => ?_⟩
  · rw [h'.furthest, ← Nat.max_assoc, ← h.furthest]
    rfl
  · rw [h'.kept r' q hout hne]
    exact (Memo.find?_insert_of_ne _ _ hne).trans (h.kept r' q hout)

/-- From a match on, a growing rule follows the repetition of the tail: each run that makes the match
longer is a match of the tail, and the last run comes back to the base and ends the growth. -/
theorem Growing.growMatch_eq (hg : Growing H code region calls reader r start base tail)
    {a : Res r} {stop₀ reach₀ : Nat}
    (hbase : base.read code reader start = some (.matched a stop₀ reach₀)) :
    ∀ (rounds : Nat) (x : Res r) (mid : Nat) (s : Progress ρ Res),
      s.memo.find? r start = some (.matched x mid) → s.Sound H code region →
      start ≤ mid → stop₀ ≤ mid → reach₀ ≤ s.furthest →
      ∀ {tails : List τ} {stop reach : Nat},
        readMany (tail.read code reader) rounds mid = some (.matched tails stop reach) →
        ∃ s', growMatch r ((Form.leftRecursive r extend base tail).run code calls) start rounds
              (some (x, mid)) s
            = .matched (tails.foldl (fun x t => extend (x, t)) x) s' ∧ s'.pos = stop ∧
          Progress.Grows H code region r start s s'
            (.matched (tails.foldl (fun x t => extend (x, t)) x) stop) reach := by
  intro rounds
  induction rounds with
  | zero =>
    intro x mid s hfind hs _ _ _ tails stop reach h
    cases h
    exact ⟨s.goTo mid, rfl, rfl, (Nat.max_zero _).symm, hs, hfind, fun _ _ _ _ => rfl⟩
  | succ rounds ih =>
    intro x mid s hfind hs hstart hstop hreach tails stop reach h
    have hrun := hg.run_follows extend hs hfind fun _ _ he => by cases he; exact hstart
    rw [readMany] at h
    rw [growMatch]
    cases ht : tail.read code reader mid with
    | none => rw [ht] at h; cases h
    | some rd =>
      rw [ht] at h
      cases rd with
      | error message => cases h
      | failed n =>
        cases h
        rw [regrown_of_tail_failed hbase ht] at hrun
        obtain ⟨s', hs', hpos, htracks⟩ := Outcome.Agrees.eq_matched hrun
        -- the tail fails here: the run comes back to the base, which is no longer than the match
        have hshort : (some (x, mid)).any (s'.pos ≤ ·.2) = true :=
          decide_eq_true (hpos ▸ hstop)
        rw [hs']
        dsimp only
        rw [if_pos hshort]
        refine ⟨s'.goTo mid, rfl, rfl, ?_, htracks.sound, ?_, fun r' q hout _ =>
          htracks.kept r' q hout⟩
        · show s'.furthest = max s.furthest reach
          rw [htracks.furthest]
          omega
        · exact (htracks.kept r start hg.outside).trans hfind
      | matched y stop' n =>
        -- the tail matches: the match is longer now, and the other rounds grow it from there
        obtain ⟨_, _, _, htakes⟩ := hg.tail_advances mid _ ht
        have hlt : mid < stop' := htakes rfl
        dsimp only at h
        rw [if_neg (by omega : ¬stop' = mid)] at h
        obtain ⟨rest, hrest, he⟩ := Option.map_eq_some_iff.mp h
        cases rest with
        | failed n' => cases he
        | error message => cases he
        | matched tails' stop'' n' =>
          cases he
          rw [regrown_of_tail_matched ht] at hrun
          obtain ⟨s', hs', rfl, htracks⟩ := Outcome.Agrees.eq_matched hrun
          have hlong : ¬(some (x, mid)).any (s'.pos ≤ ·.2) = true := fun hc => by
            have := of_decide_eq_true hc
            omega
          have hle : reach₀ ≤ s'.furthest := by rw [htracks.furthest]; omega
          rw [hs']
          dsimp only
          rw [if_neg hlong]
          obtain ⟨s'', heq, hpos, hgrows⟩ :=
            ih (extend (x, y)) s'.pos (s'.record r start (.matched (extend (x, y)) s'.pos))
              (Memo.find?_insert_self _ _ _ _) (htracks.sound.record hg.outside) (by omega)
              (by omega) hle hrest
          exact ⟨s'', heq, hpos, .step htracks hgrows⟩

/-- From a match on, an error in a repetition of the tail is met by the run that tries the tail
there. -/
theorem Growing.growMatch_error (hg : Growing H code region calls reader r start base tail)
    {message : String} :
    ∀ (rounds : Nat) (x : Res r) (mid : Nat) (s : Progress ρ Res),
      s.memo.find? r start = some (.matched x mid) → s.Sound H code region → start ≤ mid →
      readMany (tail.read code reader) rounds mid = some (.error message) →
      ∃ s', growMatch r ((Form.leftRecursive r extend base tail).run code calls) start rounds
        (some (x, mid)) s = .stopped (.error message) s' := by
  intro rounds
  induction rounds with
  | zero => intro x mid s _ _ _ h; cases h
  | succ rounds ih =>
    intro x mid s hfind hs hstart h
    have hrun := hg.run_follows extend hs hfind fun _ _ he => by cases he; exact hstart
    rw [readMany] at h
    rw [growMatch]
    cases ht : tail.read code reader mid with
    | none => rw [ht] at h; cases h
    | some rd =>
      rw [ht] at h
      cases rd with
      | failed n => cases h
      | error message' =>
        cases h
        rw [regrown_of_tail_error ht] at hrun
        obtain ⟨s', hs'⟩ := Outcome.Agrees.eq_error hrun
        rw [hs']
        exact ⟨s', rfl⟩
      | matched y stop n =>
        obtain ⟨_, _, _, htakes⟩ := hg.tail_advances mid _ ht
        have hlt : mid < stop := htakes rfl
        dsimp only at h
        rw [if_neg (by omega : ¬stop = mid)] at h
        obtain ⟨rest, hrest, he⟩ := Option.map_eq_some_iff.mp h
        cases rest with
        | matched tails stop' n' => cases he
        | failed n' => cases he
        | error message' =>
          cases he
          rw [regrown_of_tail_matched ht] at hrun
          obtain ⟨s', hs', rfl, htracks⟩ := Outcome.Agrees.eq_matched hrun
          have hlong : ¬(some (x, mid)).any (s'.pos ≤ ·.2) = true := fun hc => by
            have := of_decide_eq_true hc
            omega
          rw [hs']
          dsimp only
          rw [if_neg hlong]
          exact ih (extend (x, y)) s'.pos (s'.record r start (.matched (extend (x, y)) s'.pos))
            (Memo.find?_insert_self _ _ _ _) (htracks.sound.record hg.outside) (by omega) hrest

/-- Where the base fails, a growing rule fails. -/
theorem Growing.growMatch_of_base_failed
    (hg : Growing H code region calls reader r start base tail) (extend : Res r × τ → Res r)
    (rounds : Nat) {s : Progress ρ Res} (hs : s.Sound H code region) {reach : Nat}
    (hbase : base.read code reader start = some (.failed reach)) (hle : start ≤ reach) :
    ∃ s', growMatch r ((Form.leftRecursive r extend base tail).run code calls) start (rounds + 1)
          none (s.record r start .failed) = .failed s' ∧
      Progress.Grows H code region r start s s' .failed reach := by
  have hrun := hg.run_follows extend (hs.record hg.outside)
    (Memo.find?_insert_self s.memo r start .failed) fun _ _ he => by cases he
  rw [regrown_of_base_failed hbase hle] at hrun
  obtain ⟨s', hs', htracks⟩ := Outcome.Agrees.eq_failed hrun
  rw [growMatch, hs']
  refine ⟨_, rfl, ?_, htracks.sound.congr (Nat.le_max_left _ _) fun _ _ _ => rfl, ?_,
    fun r' q hout hne => ?_⟩
  · show max s'.furthest start = max s.furthest reach
    rw [htracks.furthest]
    show max (max s.furthest reach) start = max s.furthest reach
    omega
  · exact (htracks.kept r start hg.outside).trans (Memo.find?_insert_self _ _ _ _)
  · exact (htracks.kept r' q hout).trans (Memo.find?_insert_of_ne _ _ hne)

/-- Where the base meets an error, a growing rule does. -/
theorem Growing.growMatch_of_base_error
    (hg : Growing H code region calls reader r start base tail) (extend : Res r × τ → Res r)
    (rounds : Nat) {s : Progress ρ Res} (hs : s.Sound H code region) {message : String}
    (hbase : base.read code reader start = some (.error message)) :
    ∃ s', growMatch r ((Form.leftRecursive r extend base tail).run code calls) start (rounds + 1)
      none (s.record r start .failed) = .stopped (.error message) s' := by
  have hrun := hg.run_follows extend (hs.record hg.outside)
    (Memo.find?_insert_self s.memo r start .failed) fun _ _ he => by cases he
  rw [regrown_of_base_error hbase] at hrun
  obtain ⟨s', hs'⟩ := Outcome.Agrees.eq_error hrun
  rw [growMatch, hs']
  exact ⟨s', rfl⟩

/-- Where the base matches, a growing rule meets the error in a repetition of the tail behind it. -/
theorem Growing.growMatch_of_tail_error
    (hg : Growing H code region calls reader r start base tail) (extend : Res r × τ → Res r)
    {rounds : Nat} {s : Progress ρ Res} (hs : s.Sound H code region) {a : Res r}
    {stop reach : Nat} (hbase : base.read code reader start = some (.matched a stop reach))
    (hle : start ≤ stop) {message : String}
    (hmany : readMany (tail.read code reader) rounds stop = some (.error message)) :
    ∃ s', growMatch r ((Form.leftRecursive r extend base tail).run code calls) start (rounds + 1)
      none (s.record r start .failed) = .stopped (.error message) s' := by
  have hrun := hg.run_follows extend (hs.record hg.outside)
    (Memo.find?_insert_self s.memo r start .failed) fun _ _ he => by cases he
  rw [regrown_of_base_matched hbase] at hrun
  obtain ⟨s', hs', rfl, htracks⟩ := Outcome.Agrees.eq_matched hrun
  rw [growMatch, hs']
  exact hg.growMatch_error rounds a s'.pos (s'.record r start (.matched a s'.pos))
    (Memo.find?_insert_self _ _ _ _) (htracks.sound.record hg.outside) hle hmany

/-- Where the base matches, a growing rule follows the repetition of the tail behind it. -/
theorem Growing.growMatch_of_base_matched
    (hg : Growing H code region calls reader r start base tail) (extend : Res r × τ → Res r)
    {rounds : Nat} {s : Progress ρ Res} (hs : s.Sound H code region) {a : Res r} {stop₀ reach₀ : Nat}
    (hbase : base.read code reader start = some (.matched a stop₀ reach₀))
    (hle : start ≤ stop₀) {tails : List τ} {stop reach : Nat}
    (hmany : readMany (tail.read code reader) rounds stop₀ = some (.matched tails stop reach))
    (hreach : start ≤ reach) :
    ∃ s', growMatch r ((Form.leftRecursive r extend base tail).run code calls) start (rounds + 1)
            none (s.record r start .failed)
          = .matched (tails.foldl (fun x t => extend (x, t)) a) s' ∧ s'.pos = stop ∧
      Progress.Grows H code region r start s s'
        (.matched (tails.foldl (fun x t => extend (x, t)) a) stop) (max reach₀ reach) := by
  have hrun := hg.run_follows extend (hs.record hg.outside)
    (Memo.find?_insert_self s.memo r start .failed) fun _ _ he => by cases he
  rw [regrown_of_base_matched hbase] at hrun
  obtain ⟨s', hs', rfl, htracks⟩ := Outcome.Agrees.eq_matched hrun
  have hfur : reach₀ ≤ s'.furthest := by rw [htracks.furthest]; omega
  obtain ⟨s'', heq, hpos, hgrows⟩ := hg.growMatch_eq hbase rounds a s'.pos
    (s'.record r start (.matched a s'.pos)) (Memo.find?_insert_self _ _ _ _)
    (htracks.sound.record hg.outside) hle (Nat.le_refl _) hfur hmany
  rw [growMatch, hs']
  refine ⟨s'', heq, hpos, ?_, hgrows.sound, hgrows.grown, fun r' q hout hne => ?_⟩
  · rw [hgrows.furthest]
    show max s'.furthest reach = max s.furthest (max reach₀ reach)
    rw [htracks.furthest]
    show max (max s.furthest (max start reach₀)) reach = max s.furthest (max reach₀ reach)
    omega
  · have hkept := (Progress.Grows.step htracks hgrows).kept r' q hout hne
    exact hkept.trans (Memo.find?_insert_of_ne _ _ hne)

end Growth

/-! ## Rule calls -/

namespace Grammar

variable {L : Layers ρ} {G H : Grammar ρ Res} {code : Array Char}

/-- What answers calls from their own regions answers calls from a larger region as well. -/
theorem calls_follow {budget pos k : Nat}
    (ih : ∀ (r : ρ) (s : Progress ρ Res),
      s.Sound H code (L.Beyond s.pos (L.rank r + 1)) →
      (G.callRule code budget r s).Follows False
        (Progress.Tracks H code (L.Beyond s.pos (L.rank r + 1)) s)
        (H.readRule code budget r s.pos))
    (r : ρ) (s : Progress ρ Res) (hr : L.Beyond pos k r s.pos)
    (hs : s.Sound H code (L.Beyond pos k)) :
    (G.callRule code budget r s).Follows False (Progress.Tracks H code (L.Beyond pos k) s)
      (H.readRule code budget r s.pos) := by
  have hsub : ∀ r' q, L.Beyond s.pos (L.rank r + 1) r' q → L.Beyond pos k r' q :=
    fun r' q => Layers.Beyond.trans hr
  exact (ih r s (hs.subset hsub)).imp fun s' n => Progress.Tracks.widen hs hsub

/-- A call of a growing rule that has no entry follows the loop for the rule. -/
theorem grow_agrees (hGH : G.Unrolls L H) {budget : Nat} {r : ρ} {s : Progress ρ Res}
    {rd : Reading (Res r)} (hstrategy : (G r).strategy = .grow)
    (ih : ∀ (r : ρ) (s : Progress ρ Res),
      s.Sound H code (L.Beyond s.pos (L.rank r + 1)) →
      (G.callRule code budget r s).Follows False
        (Progress.Tracks H code (L.Beyond s.pos (L.rank r + 1)) s)
        (H.readRule code budget r s.pos))
    (hs : s.Sound H code (L.Beyond s.pos (L.rank r + 1)))
    (hrd : H.readRule code (budget + 1) r s.pos = some rd) :
    (growMatch r ((G r).form.run code (G.callRule code budget)) s.pos (code.size + 2) none
      (s.record r s.pos .failed)).Agrees
      (Progress.Tracks H code (L.Beyond s.pos (L.rank r + 1)) s) rd := by
  obtain ⟨τ, extend, base, tail, hgrown, hlooped, hbase, htail, htakes, hasks⟩ :=
    hGH.loop r hstrategy
  have hreads : H.Reads code r s.pos rd := ⟨budget + 1, hrd⟩
  have hadv : (H.readRule code budget).Advances code.size L.takes :=
    readRule_advances hGH.takes budget
  have hsub : ∀ r' q, L.Beyond s.pos (L.rank r) r' q → L.Beyond s.pos (L.rank r + 1) r' q :=
    fun r' q => Layers.Beyond.trans (Or.inr ⟨rfl, Nat.le_succ _⟩)
  have hin : L.Beyond s.pos (L.rank r + 1) r s.pos := Or.inr ⟨rfl, Nat.lt_succ_self _⟩
  rw [readRule, hlooped] at hrd
  have hg : Growing H code (L.Beyond s.pos (L.rank r)) (G.callRule code budget)
      (H.readRule code budget) r s.pos base tail := by
    refine ⟨?_, ?_, ?_, ?_, ?_⟩
    · rintro (hlt | ⟨_, hlt⟩)
      · exact Nat.lt_irrefl _ hlt
      · exact Nat.lt_irrefl _ hlt
    · intro t entry hpos hfind
      cases budget with
      | zero =>
        -- without depth the loop has no reading, since its base needs a call
        have hnone : base.read code (H.readRule code 0) s.pos = none := hasks code s.pos
        rw [Form.leftFold, Form.read, Form.read, hnone] at hrd
        cases hrd
      | succ budget =>
        rw [callRule, hstrategy]
        dsimp only
        rw [hpos, hfind]
    · intro t hpos ht
      have hrun := Form.run_follows hadv (calls_follow ih) base t (Or.inr ⟨hpos, hbase⟩) ht
      rw [hpos] at hrun
      exact hrun
    · intro t hpos ht
      exact Form.run_follows hadv (calls_follow ih) tail t
        (Form.StartsBeyond.later (Or.inr ⟨rfl, htail⟩) hpos) ht
    · intro p x hx
      exact htakes ▸ Form.read_advances hadv tail p x hx
  rw [hgrown]
  rw [Form.leftFold, Form.read, Form.read] at hrd
  cases hx : base.read code (H.readRule code budget) s.pos with
  | none => rw [hx] at hrd; cases hrd
  | some x =>
    rw [hx] at hrd
    have hx' := Form.read_advances hadv base _ _ hx
    cases x with
    | failed reach =>
      cases hrd
      obtain ⟨s', heq, hgrows⟩ := hg.growMatch_of_base_failed extend
        (code.size + 1) (hs.subset hsub) hx hx'.1
      rw [heq]
      have hle : reach ≤ s'.furthest := by rw [hgrows.furthest]; exact Nat.le_max_right _ _
      exact hgrows.tracks hs hin hsub ⟨reach, hreads, hle⟩
    | error message =>
      cases hrd
      obtain ⟨s', heq⟩ := hg.growMatch_of_base_error extend (code.size + 1) (hs.subset hsub) hx
      rw [heq]
      rfl
    | matched a stop₀ reach₀ =>
      rw [Reading.andThen_matched, Form.read] at hrd
      cases hmany : readMany (tail.read code (H.readRule code budget)) (code.size + 1) stop₀ with
      | none => rw [hmany] at hrd; cases hrd
      | some y =>
        obtain ⟨tails, stop, reach, rfl⟩ | ⟨message, rfl⟩ := readMany_cases hmany
        case inr =>
          rw [hmany] at hrd
          cases hrd
          obtain ⟨s', heq⟩ := hg.growMatch_of_tail_error extend (hs.subset hsub) hx hx'.1 hmany
          rw [heq]
          rfl
        -- a failure of the tail ends the repetition, and it is not before the replayed one
        have hend := readMany_stop_le_reach hg.tail_advances (code.size + 1) stop₀ (by omega) hmany
        have hadv' := readMany_advances hg.tail_advances _ _ _ hmany
        have hstart : s.pos ≤ reach := by have := hx'.1; have := hadv'.1; omega
        obtain ⟨s', heq, rfl, hgrows⟩ := hg.growMatch_of_base_matched extend
          (hs.subset hsub) hx hx'.1 hmany hstart
        rw [hmany] at hrd
        have hrd' : rd = .matched (tails.foldl (fun a t => extend (a, t)) a) s'.pos
            (max reach₀ reach) := by
          have hmax : max (max reach₀ (max reach 0)) 0 = max reach₀ reach := by omega
          exact (Option.some.inj hrd).symm.trans
            (congrArg (Reading.matched (tails.foldl (fun a t => extend (a, t)) a) s'.pos) hmax)
        subst hrd'
        have hle : max reach₀ reach ≤ s'.furthest := by
          rw [hgrows.furthest]; exact Nat.le_max_right _ _
        rw [heq]
        exact ⟨rfl, rfl, hgrows.tracks hs hin hsub ⟨_, hreads, hle⟩⟩

/-- A rule call follows the reading of the call by the loops of the grammar. -/
theorem callRule_follows (hGH : G.Unrolls L H) (code : Array Char) :
    ∀ (budget : Nat) (r : ρ) (s : Progress ρ Res),
      s.Sound H code (L.Beyond s.pos (L.rank r + 1)) →
      (G.callRule code budget r s).Follows False
        (Progress.Tracks H code (L.Beyond s.pos (L.rank r + 1)) s)
        (H.readRule code budget r s.pos) := by
  intro budget
  induction budget with
  | zero => intro r s _ hf; exact hf.elim
  | succ budget ih =>
    intro r s hs
    cases hrd : H.readRule code (budget + 1) r s.pos with
    | none => exact False.elim
    | some rd =>
      have hreads : H.Reads code r s.pos rd := ⟨budget + 1, hrd⟩
      have hin : L.Beyond s.pos (L.rank r + 1) r s.pos := Or.inr ⟨rfl, Nat.lt_succ_self _⟩
      have hpos : ∀ reach, rd = .failed reach → s.pos ≤ reach := fun reach he => by
        have hadv := readRule_advances hGH.takes (budget + 1) r s.pos rd hrd
        rw [he] at hadv
        exact hadv.1
      -- where the rule does not grow, both grammars have the same form for it
      have hbody : (G r).strategy ≠ .grow →
          ((G r).form.run code (G.callRule code budget) (s.enter r)).Agrees
            (Progress.Tracks H code (L.Beyond s.pos (L.rank r + 1)) s) rd := fun hne => by
        obtain ⟨hform, hstarts⟩ := hGH.same r hne
        have hrun := Form.run_follows (readRule_advances hGH.takes budget) (calls_follow ih)
          (G r).form (s.enter r) (Or.inr ⟨rfl, hstarts⟩) hs
        rw [readRule, hform] at hrd
        change Outcome.Follows False _ _ ((G r).form.read code (H.readRule code budget) s.pos)
          at hrun
        rw [hrd] at hrun
        exact Outcome.Agrees.imp (fun s' n hs' => ⟨hs'.furthest, hs'.sound, hs'.kept⟩) hrun
      show Outcome.Agrees _ _ rd
      rw [callRule]
      cases hstrategy : (G r).strategy with
      | plain => exact hbody (by rw [hstrategy]; exact Strategy.noConfusion)
      | memo =>
        dsimp only
        cases hfind : s.memo.find? r s.pos with
        | some entry => exact replay_agrees hs hin hfind hreads hpos
        | none =>
          exact runMemo_agrees hin hreads (hbody (by rw [hstrategy]; exact Strategy.noConfusion))
      | grow =>
        dsimp only
        cases hfind : s.memo.find? r s.pos with
        | some entry => exact replay_agrees hs hin hfind hreads hpos
        | none => exact grow_agrees hGH hstrategy ih hs hrd

/-- With nothing recorded, every table is sound. -/
theorem start_sound (H : Grammar ρ Res) (code : Array Char) (region : ρ → Nat → Prop) :
    (Progress.start : Progress ρ Res).Sound H code region := by
  intro r q entry _ hfind
  rw [Progress.start, Memo.find?_empty] at hfind
  cases hfind

/-- Recognition from the start follows the reading by the loops of the grammar. -/
theorem recognise_start_agrees (hGH : G.Unrolls L H) {budget : Nat} {form : Form ρ Res α}
    {rd : Reading α} (hrd : form.read code (H.readRule code budget) 0 = some rd) :
    (G.recognise code budget form .start).Agrees (fun s reach => s.furthest = reach) rd := by
  have hrun := Form.run_follows (s := .start) (readRule_advances hGH.takes budget)
    (calls_follow (callRule_follows hGH code budget)) form
    (Or.inr ⟨rfl, Form.startsBelow_of_forall L.rank_lt form⟩) (start_sound H code _)
  change Outcome.Follows False _ _ (form.read code (H.readRule code budget) 0) at hrun
  rw [hrd] at hrun
  exact Outcome.Agrees.imp (fun s n hs => hs.furthest.trans (Nat.zero_max n)) hrun

end Grammar

end CalcScript.Packrat
