import CalcScript.Proofs.Packrat.GrowthFree
import CalcScript.Proofs.Packrat.Unrolling

/-!
# Growing is iteration from the left

The form of a growing rule tries the rule itself, continued by a tail, and then a base.

> `Grammar.grow_leftRecursive`: where the base fails, the rule fails and stays where it is; where
> the base matches, the rule gives what the base has given, continued by the tail from the left for
> as long as the tail matches something behind.

Base and tail may be any forms from which no growing rule is reached. What they come to at a
position is then the same in all attempts, and is said here of attempts (`Grammar.Gives`,
`Grammar.Refuses`). The table may hold anything that attempts leave behind, but no entry of the rule
at this position.
-/

namespace CalcScript.Packrat

variable {ρ : Type} [DecidableEq ρ] {Res : ρ → Type} {α τ : Type}

namespace Grammar

/-! ## What attempts come to -/

/-- An attempt at the form, after others on the code, has matched from a position to another. -/
def Gives (G : Grammar ρ Res) (code : Array Char) (form : Form ρ Res α) (pos : Nat) (a : α)
    (stop : Nat) : Prop :=
  pos ≤ code.size ∧ ∃ s budget s', G.Attempted code s ∧
    G.recognise code budget form (s.goTo pos) = .matched a s' ∧ s'.pos = stop

/-- An attempt at the form, after others on the code, has failed from a position. -/
def Refuses (G : Grammar ρ Res) (code : Array Char) (form : Form ρ Res α) (pos : Nat) : Prop :=
  pos ≤ code.size ∧ ∃ s budget s', G.Attempted code s ∧
    G.recognise code budget form (s.goTo pos) = .failed s'

/-- An attempt at the form from a position has come to an end. -/
def Decides (G : Grammar ρ Res) (code : Array Char) (form : Form ρ Res α) (pos : Nat) : Prop :=
  (∃ a stop, G.Gives code form pos a stop) ∨ G.Refuses code form pos

section

variable {G : Grammar ρ Res} {code : Array Char} {form : Form ρ Res α} {pos stop : Nat} {a : α}

/-- What a finished attempt comes to is read. -/
theorem Attempted.isRead {s : Progress ρ Res} (hs : G.Attempted code s) (hfree : form.GrowthFree G)
    (hpos : pos ≤ code.size) {budget : Nat}
    (h : (G.recognise code budget form (s.goTo pos)).Finished) :
    (G.recognise code budget form (s.goTo pos)).IsRead G code form pos := by
  have htrust := hs.trusted.goTo hpos
  exact ((ends_of_finished htrust.inside h).trusted htrust trivial).2 hfree

theorem gives_iff (hfree : form.GrowthFree G) :
    G.Gives code form pos a stop ↔ pos ≤ code.size ∧
      ∀ᶠ depth in Filter.atTop, form.Matches code (G.readRule code depth) pos a stop := by
  constructor
  · rintro ⟨hpos, s, budget, s', hs, h, rfl⟩
    have hread : (G.recognise code budget form (s.goTo pos)).IsRead G code form pos :=
      hs.isRead hfree hpos (by rw [h]; trivial)
    rw [h] at hread
    exact ⟨hpos, hread⟩
  · rintro ⟨hpos, hmatch⟩
    obtain ⟨depth, reach, hrd⟩ := hmatch.exists
    have hstart := (Progress.Trusted.start G code).goTo hpos
    obtain ⟨s', ends, -, hstop, -⟩ :=
      (Form.ends_of_read hfree (by rw [hrd]; rfl)).matched hrd hstart rfl
    obtain ⟨enough, heq⟩ := ends.recognise_eq hstart.inside
    exact ⟨hpos, .start, enough, s', .start, heq enough (Nat.le_refl _), hstop⟩

theorem refuses_iff (hfree : form.GrowthFree G) :
    G.Refuses code form pos ↔ pos ≤ code.size ∧
      ∀ᶠ depth in Filter.atTop, form.Fails code (G.readRule code depth) pos := by
  constructor
  · rintro ⟨hpos, s, budget, s', hs, h⟩
    have hread : (G.recognise code budget form (s.goTo pos)).IsRead G code form pos :=
      hs.isRead hfree hpos (by rw [h]; trivial)
    rw [h] at hread
    exact ⟨hpos, hread⟩
  · rintro ⟨hpos, hfail⟩
    obtain ⟨depth, reach, hrd⟩ := hfail.exists
    have hstart := (Progress.Trusted.start G code).goTo hpos
    obtain ⟨s', ends, -⟩ := (Form.ends_of_read hfree (by rw [hrd]; rfl)).failed hrd hstart rfl
    obtain ⟨enough, heq⟩ := ends.recognise_eq hstart.inside
    exact ⟨hpos, .start, enough, s', .start, heq enough (Nat.le_refl _)⟩

/-- All attempts from a position match alike. -/
theorem Gives.unique (hfree : form.GrowthFree G) {a' : α} {stop' : Nat}
    (h : G.Gives code form pos a stop) (h' : G.Gives code form pos a' stop') :
    a = a' ∧ stop = stop' := by
  obtain ⟨depth, hm, hm'⟩ := (((gives_iff hfree).1 h).2.and ((gives_iff hfree).1 h').2).exists
  exact hm.unique hm'

/-- Where one attempt fails, none matches. -/
theorem Refuses.not_gives (hfree : form.GrowthFree G) (h : G.Refuses code form pos) :
    ¬G.Gives code form pos a stop := by
  intro hgives
  obtain ⟨depth, hf, hm⟩ :=
    (((refuses_iff hfree).1 h).2.and ((gives_iff hfree).1 hgives).2).exists
  exact hf.not_matches hm

/-- If one attempt has matched, every attempt does from a table that can be trusted. -/
theorem Gives.ends (hfree : form.GrowthFree G) (h : G.Gives code form pos a stop)
    {s : Progress ρ Res} (hs : s.Trusted G code) (hpos : s.pos = pos) :
    ∃ s', G.Ends code (.recognise form) s (.matched a s') ∧ s'.Trusted G code ∧ s'.pos = stop ∧
      pos ≤ stop := by
  obtain ⟨depth, reach, hrd⟩ := ((gives_iff hfree).1 h).2.exists
  exact (Form.ends_of_read hfree (by rw [hrd]; rfl)).matched hrd hs hpos

/-- If one attempt has failed, every attempt does from a table that can be trusted. -/
theorem Refuses.ends (hfree : form.GrowthFree G) (h : G.Refuses code form pos)
    {s : Progress ρ Res} (hs : s.Trusted G code) (hpos : s.pos = pos) :
    ∃ s', G.Ends code (.recognise form) s (.failed s') ∧ s'.Trusted G code := by
  obtain ⟨depth, reach, hrd⟩ := ((refuses_iff hfree).1 h).2.exists
  exact (Form.ends_of_read hfree (by rw [hrd]; rfl)).failed hrd hs hpos

end

/-- Attempts come to an end from everywhere if every cycle of calls goes through a growing rule. -/
theorem CyclesGrow.decides [Finite ρ] {G : Grammar ρ Res} (hG : G.CyclesGrow)
    (hrules : G.Unchecked) (code : Array Char) {form : Form ρ Res α}
    (hform : form.unchecked = true) {pos : Nat} (hpos : pos ≤ code.size) :
    G.Decides code form pos := by
  have hstart : ((Progress.start : Progress ρ Res).goTo pos).Inside code.size :=
    ((Progress.start_inside code.size).leads.goTo hpos).inside
  obtain ⟨o, ends⟩ := hG.ends hrules hform hstart
  obtain ⟨enough, heq⟩ := ends.recognise_eq hstart
  have h := heq enough (Nat.le_refl _)
  have hreached := ends.reached hstart trivial
  cases o with
  | stopped c s' => exact hreached.elim
  | matched a s' => exact .inl ⟨a, s'.pos, hpos, .start, enough, s', .start, h, rfl⟩
  | failed s' => exact .inr ⟨hpos, .start, enough, s', .start, h⟩

/-! ## Iteration of a tail -/

section

variable {G : Grammar ρ Res} {code : Array Char} {extend : α × τ → α} {tail : Form ρ Res τ}

/-- From a result and its end to the next ones: the tail matches something behind. -/
def Continues (G : Grammar ρ Res) (code : Array Char) (extend : α × τ → α) (tail : Form ρ Res τ)
    (x y : α × Nat) : Prop :=
  ∃ t, G.Gives code tail x.2 t y.2 ∧ x.2 < y.2 ∧ y.1 = extend (x.1, t)

/-- As far as the tail goes on matching something behind. -/
def Iterates (G : Grammar ρ Res) (code : Array Char) (extend : α × τ → α) (tail : Form ρ Res τ)
    (x y : α × Nat) : Prop :=
  Relation.ReflTransGen (G.Continues code extend tail) x y ∧
    ∀ z, ¬G.Continues code extend tail y z

theorem continues_rightUnique (hfree : tail.GrowthFree G) :
    Relator.RightUnique (G.Continues code extend tail) := by
  rintro x ⟨v, e⟩ ⟨v', e'⟩ ⟨t, ht, -, hv⟩ ⟨t', ht', -, hv'⟩
  obtain ⟨rfl, he⟩ := ht.unique hfree ht'
  dsimp only at he hv hv'
  rw [he, hv, hv']

/-- There is one place where the tail goes on no more. -/
theorem Iterates.unique (hfree : tail.GrowthFree G) {x y z : α × Nat}
    (h : G.Iterates code extend tail x y) (h' : G.Iterates code extend tail x z) : z = y := by
  rcases Relation.ReflTransGen.total_of_right_unique (continues_rightUnique hfree) h.1 h'.1
    with hpath | hpath
  · rcases hpath.cases_head with rfl | ⟨w, hstep, -⟩
    · rfl
    · exact absurd hstep (h.2 w)
  · rcases hpath.cases_head with rfl | ⟨w, hstep, -⟩
    · rfl
    · exact absurd hstep (h'.2 w)

end

/-! ## Growing runs -/

section Growing

variable {G : Grammar ρ Res} {code : Array Char} {r : ρ} {start : Nat}
  {extend : Res r × τ → Res r} {base : Form ρ Res (Res r)} {tail : Form ρ Res τ}
  {s : Progress ρ Res}

/-- Where the first alternative of a left-recursive form fails, it goes back to the base. -/
theorem ends_leftRecursive_back {s₁ s₂ : Progress ρ Res} {a : Res r}
    (first : G.Ends code (.recognise (.map extend (.pair (.call r) tail))) s (.failed s₁))
    (second : G.Ends code (.recognise base) (s₁.goTo s.pos) (.matched a s₂)) :
    G.Ends code (.recognise (.leftRecursive r extend base tail)) s (.matched a s₂) :=
  .right first (.left second)

/-- A run of the form while a failure is recorded for the rule: there is nothing to be continued. -/
theorem ends_alternative_of_seed (extend : Res r × τ → Res r) (tail : Form ρ Res τ)
    (hstrategy : (G r).strategy = .grow) (hs : s.Trusted G code)
    (hfind : s.memo.find? r s.pos = some .failed) :
    ∃ s₁, G.Ends code (.recognise (.map extend (.pair (.call r) tail))) s (.failed s₁) ∧
      s₁.Trusted G code := by
  have call : G.Ends code (.recognise (.call r)) s s.fail :=
    .replayed (by rw [hstrategy]; exact Strategy.noConfusion) hfind
  have hfail : (s.fail : Outcome (Progress ρ Res) (Res r)).state.Trusted G code := hs.fail
  exact ⟨_, .map (.noPair call), hfail⟩

/-- A run of the form while a match is recorded for the rule: the tail is tried behind it. -/
theorem ends_alternative_of_match (hstrategy : (G r).strategy = .grow) {x : Res r} {mid : Nat}
    (hfind : s.memo.find? r s.pos = some (.matched x mid)) {o : Outcome (Progress ρ Res) τ}
    (behind : G.Ends code (.recognise tail) (s.goTo mid) o) :
    G.Ends code (.recognise (.map extend (.pair (.call r) tail))) s
      (o.andThen fun t s' => .matched (extend (x, t)) s') := by
  have call : G.Ends code (.recognise (.call r)) s (.matched x (s.goTo mid)) :=
    .replayed (by rw [hstrategy]; exact Strategy.noConfusion) hfind
  have alternative := Ends.map (k := extend) (call.pair behind)
  cases o with
  | matched t s' => exact alternative
  | failed s' => exact alternative
  | stopped c s' => exact alternative

/-- Where the tail does not go on behind a match, that is where iteration ends. -/
theorem iterates_refl {x : Res r} {mid : Nat}
    (h : ∀ t stop, G.Gives code tail mid t stop → stop ≤ mid) :
    G.Iterates code extend tail (x, mid) (x, mid) := by
  refine ⟨.refl, ?_⟩
  rintro z ⟨t, ht, hlt, -⟩
  exact Nat.not_lt.mpr (h t z.2 ht) hlt

/-- **A match grows as far as the tail goes on.** Each run replays the match so far. If the tail
matches something behind it, the match gets longer; otherwise the run comes to nothing longer, even
if it goes back to the base, and growing stops. -/
theorem grow_iterates (hrule : G r = ⟨.grow, .leftRecursive r extend base tail⟩)
    (hbase : base.GrowthFree G) (htail : tail.GrowthFree G) {v₀ : Res r} {e₀ : Nat}
    (hgives : G.Gives code base start v₀ e₀)
    (hdecides : ∀ q, start ≤ q → q ≤ code.size → G.Decides code tail q)
    {x : Res r} {mid : Nat} (hs : s.Trusted G code)
    (hfind : s.memo.find? r start = some (.matched x mid)) (hstart : start ≤ mid)
    (hmid : mid ≤ code.size) (hlong : e₀ ≤ mid) :
    ∃ y s', G.Ends code (.grow r start (some (x, mid))) s (.matched y.1 s') ∧ s'.pos = y.2 ∧
      G.Iterates code extend tail (x, mid) y := by
  have hstrategy : (G r).strategy = .grow := by rw [hrule]
  have hform : (G r).form = .leftRecursive r extend base tail := by rw [hrule]
  induction hleft : code.size - mid using Nat.strong_induction_on generalizing x mid s with
  | _ left ih =>
    have hstart' : start ≤ code.size := Nat.le_trans hstart hmid
    have hrun := (hs.goTo hstart').enter r
    rcases hdecides mid hstart hmid with ⟨t, stop, htail'⟩ | htail'
    · obtain ⟨s₁, behind, hs₁, rfl, hle⟩ := htail'.ends htail (hrun.goTo hmid) rfl
      have body : G.Ends code (.recognise (G r).form) ((s.goTo start).enter r)
          (.matched (extend (x, t)) s₁) := by
        rw [hform]
        exact .left (ends_alternative_of_match hstrategy hfind behind)
      by_cases hlt : mid < s₁.pos
      · have hlonger : ¬(some (x, mid)).any (s₁.pos ≤ ·.2) = true := by
          rw [Option.any_some, decide_eq_true_eq]
          omega
        have hsize := hs₁.inside.pos
        have hrecord : (s₁.record r start (.matched (extend (x, t)) s₁.pos)).Trusted G code :=
          hs₁.recordMatched (by omega) fun hfree => absurd hstrategy hfree.not_grow
        obtain ⟨y, s', loop, hy, hpath, hlast⟩ := ih _ (by omega) hrecord
          (Memo.find?_insert_self _ _ _ _) (by omega) hsize (by omega) rfl
        exact ⟨y, s', .growLonger body hlonger loop, hy, .head ⟨t, htail', hlt, rfl⟩ hpath, hlast⟩
      · have hlonger : (some (x, mid)).any (s₁.pos ≤ ·.2) = true := by
          rw [Option.any_some, decide_eq_true_eq]
          omega
        refine ⟨(x, mid), _, .growNoLonger body hlonger, rfl, iterates_refl ?_⟩
        intro t' stop ht'
        obtain ⟨-, hstop⟩ := htail'.unique htail ht'
        omega
    · -- the tail fails, and the run goes back to the base, which ends where it did
      obtain ⟨s₁, behind, hs₁⟩ := htail'.ends htail (hrun.goTo hmid) rfl
      obtain ⟨s₂, second, -, rfl, -⟩ := hgives.ends hbase (hs₁.goTo hstart') rfl
      have body : G.Ends code (.recognise (G r).form) ((s.goTo start).enter r)
          (.matched v₀ s₂) := by
        rw [hform]
        exact ends_leftRecursive_back (ends_alternative_of_match hstrategy hfind behind) second
      have hlonger : (some (x, mid)).any (s₂.pos ≤ ·.2) = true := by
        rw [Option.any_some, decide_eq_true_eq]
        exact hlong
      refine ⟨(x, mid), _, .growNoLonger body hlonger, rfl, iterates_refl ?_⟩
      intro t stop ht
      exact absurd ht (htail'.not_gives htail)

/-- A call of the rule gives the base and what iteration makes of it. -/
theorem call_iterates (hrule : G r = ⟨.grow, .leftRecursive r extend base tail⟩)
    (hbase : base.GrowthFree G) (htail : tail.GrowthFree G) (hs : s.Trusted G code)
    (hopen : s.memo.find? r s.pos = none) {v₀ : Res r} {e₀ : Nat}
    (hgives : G.Gives code base s.pos v₀ e₀)
    (hdecides : ∀ q, s.pos ≤ q → q ≤ code.size → G.Decides code tail q) :
    ∃ y s', G.Ends code (.recognise (.call r)) s (.matched y.1 s') ∧ s'.pos = y.2 ∧
      G.Iterates code extend tail (v₀, e₀) y := by
  have hstrategy : (G r).strategy = .grow := by rw [hrule]
  have hform : (G r).form = .leftRecursive r extend base tail := by rw [hrule]
  have hrun := ((hs.seed hstrategy s.pos).goTo hs.inside.pos).enter r
  obtain ⟨s₁, first, hs₁⟩ := ends_alternative_of_seed extend tail hstrategy
    hrun (Memo.find?_insert_self _ _ _ _)
  obtain ⟨s₂, second, hs₂, rfl, hle⟩ := hgives.ends hbase (hs₁.goTo hs.inside.pos) rfl
  have body := ends_leftRecursive_back first second
  rw [← hform] at body
  have hrecord : (s₂.record r s.pos (.matched v₀ s₂.pos)).Trusted G code :=
    hs₂.recordMatched hle fun hfree => absurd hstrategy hfree.not_grow
  obtain ⟨y, s', loop, hy, hiterates⟩ := grow_iterates hrule hbase htail hgives hdecides hrecord
    (Memo.find?_insert_self _ _ _ _) hle hs₂.inside.pos (Nat.le_refl _)
  exact ⟨y, s', .grown hstrategy hopen (.growLonger body Bool.false_ne_true loop), hy, hiterates⟩

/-- A call of the rule fails where the base does. -/
theorem call_refuses (hrule : G r = ⟨.grow, .leftRecursive r extend base tail⟩)
    (hbase : base.GrowthFree G) (hs : s.Trusted G code) (hopen : s.memo.find? r s.pos = none)
    (hrefuses : G.Refuses code base s.pos) :
    ∃ s', G.Ends code (.recognise (.call r)) s (.failed s') ∧ s'.pos = s.pos := by
  have hstrategy : (G r).strategy = .grow := by rw [hrule]
  have hform : (G r).form = .leftRecursive r extend base tail := by rw [hrule]
  have hrun := ((hs.seed hstrategy s.pos).goTo hs.inside.pos).enter r
  obtain ⟨s₁, first, hs₁⟩ := ends_alternative_of_seed extend tail hstrategy
    hrun (Memo.find?_insert_self _ _ _ _)
  obtain ⟨s₂, second, -⟩ := hrefuses.ends hbase (hs₁.goTo hs.inside.pos) rfl
  obtain ⟨s₃, body⟩ : ∃ s₃, G.Ends code (.recognise (.leftRecursive r extend base tail))
      (((s.record r s.pos .failed).goTo s.pos).enter r) (.failed s₃) :=
    ⟨_, .neither first (.neither second .fail)⟩
  rw [← hform] at body
  exact ⟨_, .grown hstrategy hopen (.growFailed body), rfl⟩

end Growing

/-! ## Calls of a growing rule -/

/-- **Growing is iteration from the left.** Let a growing rule try itself, continued by a tail, and
then a base, from neither of which a growing rule is reached. After any attempts that have left no
entry of the rule at a position where the base comes to an end, and with all budgets that are large
enough: if the base fails there, a call of the rule fails and stays there; if the base matches, the
call gives the one result and end to which the tail can be iterated behind the base. -/
theorem grow_leftRecursive {G : Grammar ρ Res} {code : Array Char} {r : ρ}
    {extend : Res r × τ → Res r} {base : Form ρ Res (Res r)} {tail : Form ρ Res τ}
    (hrule : G r = ⟨.grow, .leftRecursive r extend base tail⟩)
    (hbase : base.GrowthFree G) (htail : tail.GrowthFree G) {pos : Nat}
    (hdecides : ∀ q, pos ≤ q → q ≤ code.size → G.Decides code tail q)
    {s : Progress ρ Res} (hs : G.Attempted code s) (hopen : s.memo.find? r pos = none) :
    (G.Refuses code base pos → ∃ s', s'.pos = pos ∧
      ∃ enough, ∀ budget, enough ≤ budget →
        G.recognise code budget (.call r) (s.goTo pos) = .failed s') ∧
    (∀ v₀ e₀, G.Gives code base pos v₀ e₀ → ∃ v e,
      (∀ y, G.Iterates code extend tail (v₀, e₀) y ↔ y = (v, e)) ∧ ∃ s', s'.pos = e ∧
      ∃ enough, ∀ budget, enough ≤ budget →
        G.recognise code budget (.call r) (s.goTo pos) = .matched v s') := by
  constructor
  · intro hrefuses
    have htrust := hs.trusted.goTo hrefuses.1
    obtain ⟨s', ends, hpos⟩ := call_refuses hrule hbase htrust hopen hrefuses
    exact ⟨s', hpos, ends.recognise_eq htrust.inside⟩
  · intro v₀ e₀ hgives
    have htrust := hs.trusted.goTo hgives.1
    obtain ⟨y, s', ends, hpos, hiterates⟩ :=
      call_iterates hrule hbase htail htrust hopen hgives hdecides
    exact ⟨y.1, y.2, fun z => ⟨fun h => hiterates.unique htail h, fun h => h ▸ hiterates⟩,
      s', hpos, ends.recognise_eq htrust.inside⟩

end Grammar

/-- The rules of `differences`. -/
inductive DifferenceRule where
  | difference
  | operand
  deriving DecidableEq

instance : Fintype DifferenceRule :=
  ⟨{.difference, .operand}, fun r => by cases r <;> decide⟩

/-- Letters `a` with minus signs between them, grouped from the left. -/
def differences : Grammar DifferenceRule (fun _ => String)
  | .difference => ⟨.grow, .leftRecursive .difference (fun (x, y) => "(" ++ x ++ "-" ++ y ++ ")")
      (.call .operand) (.char '-' *> .call .operand)⟩
  | .operand => ⟨.memo, .char 'a'⟩

/-- An operand calls nothing. -/
theorem differences_operand_growthFree : differences.GrowthFree .operand := by
  refine .of_closed (P := fun r => r = .operand) ?_ ?_ rfl
  · rintro r r' rfl hcall
    exact hcall.elim
  · rintro r rfl
    exact Strategy.noConfusion

/-- After an operand has been matched, its rule has an entry and the growing rule has none. -/
theorem grow_leftRecursive_differences :
    let code := #['a', '-', 'a', '-']
    let s := (differences.recognise code 5 (.call .operand) .start).state
    let base := Form.call .operand
    let tail := Form.char '-' *> Form.call .operand
    let extend := fun (x, y) => "(" ++ x ++ "-" ++ y ++ ")"
    differences .difference = ⟨.grow, .leftRecursive .difference extend base tail⟩ ∧
    base.GrowthFree differences ∧ tail.GrowthFree differences ∧
    (∀ q, 0 ≤ q → q ≤ code.size → differences.Decides code tail q) ∧
    differences.Attempted code s ∧ s.memo.find? .difference 0 = none ∧
    (s.memo.find? .operand 0).isSome ∧ differences.Gives code base 0 "a" 1 ∧
    ∃ v e, (∀ y, differences.Iterates code extend tail ("a", 1) y ↔ y = (v, e)) ∧
      ∃ s', s'.pos = e ∧ ∃ enough, ∀ budget, enough ≤ budget →
        differences.recognise code budget (.call .difference) (s.goTo 0) = .matched v s' := by
  intro code s base tail extend
  have hbase : base.GrowthFree differences := by
    rintro r rfl
    exact differences_operand_growthFree
  have htail : tail.GrowthFree differences := by
    rintro r (h | rfl)
    · exact h.elim
    · exact differences_operand_growthFree
  have hdecides : ∀ q, 0 ≤ q → q ≤ code.size → differences.Decides code tail q := by
    have hG : differences.CyclesGrow := .of_rank (fun _ => 0) (by decide)
    have hrules : differences.Unchecked := fun r => by cases r <;> rfl
    exact fun q _ hq => hG.decides hrules code rfl hq
  have hs : differences.Attempted code s := .attempt .start _ 5 trivial
  have hgives : differences.Gives code base 0 "a" 1 :=
    ⟨Nat.zero_le _, .start, 5, _, .start, rfl, rfl⟩
  have hopen : s.memo.find? .difference 0 = none := rfl
  exact ⟨rfl, hbase, htail, hdecides, hs, hopen, rfl, hgives,
    (Grammar.grow_leftRecursive rfl hbase htail hdecides hs hopen).2 "a" 1 hgives⟩

end CalcScript.Packrat
