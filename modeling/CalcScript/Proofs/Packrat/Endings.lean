import CalcScript.Proofs.Packrat.Budget
import Mathlib.Order.Filter.AtTopBot.Basic

/-!
# Attempts and their endings

What an attempt comes to if nothing limits how deeply calls are nested and how often a loop goes
round. `Grammar.Ends` relates an attempt to its ending by finite derivations, so an attempt that
went on for ever would have none.

> `Grammar.Ends.reached`: an ending is a match or a failure; it lies inside the code, and what was
> recorded before is recorded still.
> `Grammar.Ends.recognise_eq`: with all large budgets recognition comes to this ending.

So the rounds that recognition counts for its loops are enough for every attempt that ends.
-/

namespace CalcScript.Packrat

variable {ρ : Type} {Res : ρ → Type} {α β : Type}

/-- What is to be done from the current position on. -/
inductive Task (ρ : Type) (Res : ρ → Type) : Type → Type 1 where
  /-- A form is recognised. -/
  | recognise {α : Type} (form : Form ρ Res α) : Task ρ Res α
  /-- A form is repeated behind the items that have matched, the latest of which stands first. -/
  | again {α : Type} (form : Form ρ Res α) (items : List α) : Task ρ Res (List α)
  /-- The best match so far of a rule that starts at a position is grown. -/
  | grow (r : ρ) (start : Nat) (best : Option (Res r × Nat)) : Task ρ Res (Res r)

variable [DecidableEq ρ]

/-- What a task comes to. -/
inductive Grammar.Ends (G : Grammar ρ Res) (code : Array Char) :
    {α : Type} → Task ρ Res α → Progress ρ Res → Outcome (Progress ρ Res) α → Prop where
  | pattern {s : Progress ρ Res} {m : Matcher} {stop : Nat} (h : m.stop? code s.pos = some stop) :
      Ends G code (.recognise (.pattern m)) s
        (.matched (textBetween code s.pos stop) (s.goTo stop))
  | noPattern {s : Progress ρ Res} {m : Matcher} (h : m.stop? code s.pos = none) :
      Ends G code (.recognise (.pattern m)) s s.fail
  | endOfInput {s : Progress ρ Res} (h : s.pos = code.size) :
      Ends G code (.recognise .endOfInput) s (.matched () s)
  | noEndOfInput {s : Progress ρ Res} (h : s.pos ≠ code.size) :
      Ends G code (.recognise .endOfInput) s s.fail
  | skip {α : Type} {s : Progress ρ Res} {a : α} :
      Ends G code (.recognise (.skip a)) s (.matched a s)
  | fail {α : Type} {s : Progress ρ Res} :
      Ends G code (.recognise (.fail : Form ρ Res α)) s s.fail
  | pair {α β : Type} {f : Form ρ Res α} {g : Form ρ Res β} {s s' : Progress ρ Res} {a : α}
      {o : Outcome (Progress ρ Res) β} (first : Ends G code (.recognise f) s (.matched a s'))
      (second : Ends G code (.recognise g) s' o) :
      Ends G code (.recognise (.pair f g)) s (o.andThen fun b s => .matched (a, b) s)
  | noPair {α β : Type} {f : Form ρ Res α} {g : Form ρ Res β} {s s' : Progress ρ Res}
      (first : Ends G code (.recognise f) s (.failed s')) :
      Ends G code (.recognise (.pair f g)) s (.failed s')
  | map {α β : Type} {k : α → β} {f : Form ρ Res α} {s : Progress ρ Res}
      {o : Outcome (Progress ρ Res) α} (inner : Ends G code (.recognise f) s o) :
      Ends G code (.recognise (.map k f)) s (o.andThen fun a s => .matched (k a) s)
  | refine {α β : Type} {k : α → Option β} {f : Form ρ Res α} {s : Progress ρ Res}
      {o : Outcome (Progress ρ Res) α} (inner : Ends G code (.recognise f) s o) :
      Ends G code (.recognise (.refine k f)) s (o.andThen fun a s =>
        match k a with
        | some b => .matched b s
        | none => s.fail)
  | checked {α : Type} {e : α → Option String} {f : Form ρ Res α} {s s' : Progress ρ Res} {a : α}
      (inner : Ends G code (.recognise f) s (.matched a s')) (h : e a = none) :
      Ends G code (.recognise (.checked e f)) s (.matched a s')
  | noChecked {α : Type} {e : α → Option String} {f : Form ρ Res α} {s s' : Progress ρ Res}
      (inner : Ends G code (.recognise f) s (.failed s')) :
      Ends G code (.recognise (.checked e f)) s (.failed s')
  | left {α : Type} {f g : Form ρ Res α} {s s' : Progress ρ Res} {a : α}
      (first : Ends G code (.recognise f) s (.matched a s')) :
      Ends G code (.recognise (.orElse f g)) s (.matched a s')
  | right {α : Type} {f g : Form ρ Res α} {s s₁ s₂ : Progress ρ Res} {a : α}
      (first : Ends G code (.recognise f) s (.failed s₁))
      (second : Ends G code (.recognise g) (s₁.goTo s.pos) (.matched a s₂)) :
      Ends G code (.recognise (.orElse f g)) s (.matched a s₂)
  | neither {α : Type} {f g : Form ρ Res α} {s s₁ s₂ : Progress ρ Res}
      (first : Ends G code (.recognise f) s (.failed s₁))
      (second : Ends G code (.recognise g) (s₁.goTo s.pos) (.failed s₂)) :
      Ends G code (.recognise (.orElse f g)) s (s₂.goTo s.pos).fail
  | given {α : Type} {f : Form ρ Res α} {s s' : Progress ρ Res} {a : α}
      (inner : Ends G code (.recognise f) s (.matched a s')) :
      Ends G code (.recognise (.optional f)) s (.matched (some a) s')
  | missing {α : Type} {f : Form ρ Res α} {s s' : Progress ρ Res}
      (inner : Ends G code (.recognise f) s (.failed s')) :
      Ends G code (.recognise (.optional f)) s (.matched none (s'.goTo s.pos))
  | many {α : Type} {f : Form ρ Res α} {s : Progress ρ Res}
      {o : Outcome (Progress ρ Res) (List α)} (loop : Ends G code (.again f []) s o) :
      Ends G code (.recognise (.many f)) s o
  | noMore {α : Type} {f : Form ρ Res α} {items : List α} {s s' : Progress ρ Res}
      (step : Ends G code (.recognise f) s (.failed s')) :
      Ends G code (.again f items) s (.matched items.reverse (s'.goTo s.pos))
  | last {α : Type} {f : Form ρ Res α} {items : List α} {s s' : Progress ρ Res} {a : α}
      (step : Ends G code (.recognise f) s (.matched a s')) (h : s'.pos = s.pos) :
      Ends G code (.again f items) s (.matched (a :: items).reverse s')
  | next {α : Type} {f : Form ρ Res α} {items : List α} {s s' : Progress ρ Res} {a : α}
      {o : Outcome (Progress ρ Res) (List α)}
      (step : Ends G code (.recognise f) s (.matched a s')) (h : s'.pos ≠ s.pos)
      (loop : Ends G code (.again f (a :: items)) s' o) : Ends G code (.again f items) s o
  | replayed {r : ρ} {s : Progress ρ Res} {entry : Entry (Res r)}
      (hstrategy : (G r).strategy ≠ .plain) (hfind : s.memo.find? r s.pos = some entry) :
      Ends G code (.recognise (.call r)) s (replay entry s)
  | plain {r : ρ} {s : Progress ρ Res} {o : Outcome (Progress ρ Res) (Res r)}
      (hstrategy : (G r).strategy = .plain)
      (body : Ends G code (.recognise (G r).form) (s.enter r) o) :
      Ends G code (.recognise (.call r)) s o
  | memoMatched {r : ρ} {s s' : Progress ρ Res} {a : Res r} (hstrategy : (G r).strategy = .memo)
      (hfind : s.memo.find? r s.pos = none)
      (body : Ends G code (.recognise (G r).form) (s.enter r) (.matched a s')) :
      Ends G code (.recognise (.call r)) s
        (.matched a (s'.record r s.pos (.matched a s'.pos)))
  | memoFailed {r : ρ} {s s' : Progress ρ Res} (hstrategy : (G r).strategy = .memo)
      (hfind : s.memo.find? r s.pos = none)
      (body : Ends G code (.recognise (G r).form) (s.enter r) (.failed s')) :
      Ends G code (.recognise (.call r)) s (.failed (s'.record r s.pos .failed))
  | grown {r : ρ} {s : Progress ρ Res} {o : Outcome (Progress ρ Res) (Res r)}
      (hstrategy : (G r).strategy = .grow) (hfind : s.memo.find? r s.pos = none)
      (loop : Ends G code (.grow r s.pos none) (s.record r s.pos .failed) o) :
      Ends G code (.recognise (.call r)) s o
  | growFailed {r : ρ} {start : Nat} {best : Option (Res r × Nat)} {s s' : Progress ρ Res}
      (body : Ends G code (.recognise (G r).form) ((s.goTo start).enter r) (.failed s')) :
      Ends G code (.grow r start best) s (harvest start best s')
  | growNoLonger {r : ρ} {start : Nat} {best : Option (Res r × Nat)} {s s' : Progress ρ Res}
      {a : Res r} (body : Ends G code (.recognise (G r).form) ((s.goTo start).enter r)
        (.matched a s')) (h : best.any (s'.pos ≤ ·.2) = true) :
      Ends G code (.grow r start best) s (harvest start best s')
  | growLonger {r : ρ} {start : Nat} {best : Option (Res r × Nat)} {s s' : Progress ρ Res}
      {a : Res r} {o : Outcome (Progress ρ Res) (Res r)}
      (body : Ends G code (.recognise (G r).form) ((s.goTo start).enter r) (.matched a s'))
      (h : ¬best.any (s'.pos ≤ ·.2) = true)
      (loop : Ends G code (.grow r start (some (a, s'.pos)))
        (s'.record r start (.matched a s'.pos)) o) : Ends G code (.grow r start best) s o

/-! ## Where an ending lies -/

/-- The positions are inside a code: that of the next character, and where recorded matches end. -/
structure Progress.Inside (size : Nat) (s : Progress ρ Res) : Prop where
  pos : s.pos ≤ size
  entries : ∀ r q a stop, s.memo.find? r q = some (.matched a stop) → q ≤ stop ∧ stop ≤ size

/-- What an attempt may leave behind: all is inside the code, and nothing recorded is lost. -/
structure Progress.Leads (size : Nat) (s s' : Progress ρ Res) : Prop where
  inside : s'.Inside size
  opened : ∀ r q, s'.memo.find? r q = none → s.memo.find? r q = none

namespace Progress

variable {size pos : Nat} {s s₁ s₂ : Progress ρ Res}

/-- Progress begins inside the code, with nothing recorded. -/
theorem start_inside (size : Nat) : (start : Progress ρ Res).Inside size where
  pos := Nat.zero_le size
  entries r q a stop h := by cases (Memo.find?_empty r q).symm.trans h

/-- Progress leads to itself. -/
theorem Inside.leads (h : s.Inside size) : s.Leads size s := ⟨h, fun _ _ hopen => hopen⟩

/-- Progress that leads on leads all the way. -/
theorem Leads.trans (h₁ : s.Leads size s₁) (h₂ : s₁.Leads size s₂) : s.Leads size s₂ :=
  ⟨h₂.inside, fun r q hopen => h₁.opened r q (h₂.opened r q hopen)⟩

/-- A change of position inside the code changes no record. -/
theorem Leads.goTo (h : s.Leads size s₁) (hpos : pos ≤ size) : s.Leads size (s₁.goTo pos) :=
  ⟨⟨hpos, h.inside.entries⟩, h.opened⟩

/-- Neither does the note that a rule has been entered. -/
theorem Leads.enter (h : s.Leads size s₁) (r : ρ) : s.Leads size (s₁.enter r) :=
  ⟨⟨h.inside.pos, h.inside.entries⟩, h.opened⟩

/-- A record of a match must not end before it begins. -/
theorem Leads.record {r : ρ} {entry : Entry (Res r)} (h : s.Leads size s₁)
    (hentry : ∀ a stop, entry = .matched a stop → pos ≤ stop ∧ stop ≤ size) :
    s.Leads size (s₁.record r pos entry) := by
  refine ⟨⟨h.inside.pos, ?entries⟩, ?opened⟩
  case entries =>
    intro r' q a stop hfind
    rw [Progress.record] at hfind
    by_cases heq : r' = r ∧ q = pos
    · obtain ⟨rfl, rfl⟩ := heq
      rw [Memo.find?_insert_self] at hfind
      exact hentry a stop (Option.some.inj hfind)
    · rw [Memo.find?_insert_of_ne _ _ heq] at hfind
      exact h.inside.entries r' q a stop hfind
  case opened =>
    intro r' q hopen
    rw [Progress.record] at hopen
    by_cases heq : r' = r ∧ q = pos
    · obtain ⟨rfl, rfl⟩ := heq
      rw [Memo.find?_insert_self] at hopen
      cases hopen
    · rw [Memo.find?_insert_of_ne _ _ heq] at hopen
      exact h.opened r' q hopen

/-- A failure may be recorded anywhere. -/
theorem Leads.recordFailed (h : s.Leads size s₁) (r : ρ) (pos : Nat) :
    s.Leads size (s₁.record r pos .failed) :=
  h.record fun a stop heq => by cases heq

/-- A match may be recorded that ends where progress stands. -/
theorem Leads.recordMatched {r : ρ} (h : s.Leads size s₁) (a : Res r) (hle : pos ≤ s₁.pos) :
    s.Leads size (s₁.record r pos (.matched a s₁.pos)) :=
  h.record fun a stop heq => by cases heq; exact ⟨hle, h.inside.pos⟩

end Progress

/-- The outcome is a match or a failure; it leads on from a progress, and a match does not end
before a position. -/
def Outcome.Reached (size origin : Nat) (s : Progress ρ Res) : Outcome (Progress ρ Res) α → Prop
  | .matched _ s' => origin ≤ s'.pos ∧ s.Leads size s'
  | .failed s' => s.Leads size s'
  | .stopped _ _ => False

/-- Where the match of a task begins. -/
def Task.origin (s : Progress ρ Res) : Task ρ Res α → Nat
  | .recognise _ => s.pos
  | .again _ _ => s.pos
  | .grow _ start _ => start

/-- The best match so far lies inside the code. -/
def Task.Fits (size : Nat) : Task ρ Res α → Prop
  | .recognise _ => True
  | .again _ _ => True
  | .grow _ start best =>
    start ≤ size ∧ ∀ a stop, best = some (a, stop) → start ≤ stop ∧ stop ≤ size

omit [DecidableEq ρ] in
/-- A rule may grow from the failure that it starts with. -/
theorem Task.fits_none {size start : Nat} (r : ρ) (hstart : start ≤ size) :
    (Task.grow r start none : Task ρ Res (Res r)).Fits size :=
  ⟨hstart, fun a stop heq => by cases heq⟩

omit [DecidableEq ρ] in
/-- It may grow from a match that ends inside the code. -/
theorem Task.fits_some {size start stop : Nat} (r : ρ) (a : Res r) (hstart : start ≤ size)
    (hle : start ≤ stop) (hstop : stop ≤ size) :
    (Task.grow r start (some (a, stop)) : Task ρ Res (Res r)).Fits size :=
  ⟨hstart, fun b stop heq => by cases heq; exact ⟨hle, hstop⟩⟩

/-- A change of the result changes nothing in what is reached. -/
theorem Outcome.Reached.map {size origin : Nat} {s : Progress ρ Res} {k : α → β}
    {o : Outcome (Progress ρ Res) α} (h : o.Reached size origin s) :
    (o.andThen fun a s => .matched (k a) s).Reached size origin s := by
  cases o with
  | matched a s' => exact h
  | failed s' => exact h
  | stopped c s' => exact h

/-- What is reached from later progress is reached from the progress before it. -/
theorem Outcome.Reached.of_leads {size origin origin' : Nat} {s s' : Progress ρ Res}
    {o : Outcome (Progress ρ Res) α} (h : o.Reached size origin' s') (hle : origin ≤ origin')
    (hleads : s.Leads size s') : o.Reached size origin s := by
  cases o with
  | matched a s₁ => exact ⟨Nat.le_trans hle h.1, hleads.trans h.2⟩
  | failed s₁ => exact hleads.trans h
  | stopped c s₁ => exact h.elim

/-- What is reached is finished. -/
theorem Outcome.Reached.finished {size origin : Nat} {s : Progress ρ Res}
    {o : Outcome (Progress ρ Res) α} (h : o.Reached size origin s) : o.Finished := by
  cases o with
  | matched a s' => trivial
  | failed s' => trivial
  | stopped c s' => exact h.elim

/-- Progress leads to where an outcome leaves it. -/
theorem Outcome.Reached.leads {size origin : Nat} {s : Progress ρ Res}
    {o : Outcome (Progress ρ Res) α} (h : o.Reached size origin s) : s.Leads size o.state := by
  cases o with
  | matched a s' => exact h.2
  | failed s' => exact h
  | stopped c s' => exact h.elim

/-- A failure leaves progress where it is. -/
theorem Progress.Leads.fail {size origin : Nat} {s s' : Progress ρ Res} (h : s.Leads size s') :
    (s'.fail : Outcome (Progress ρ Res) α).Reached size origin s :=
  ⟨⟨h.inside.pos, h.inside.entries⟩, h.opened⟩

/-- An entry is replayed as it has been recorded. -/
theorem Progress.Leads.replay {size origin : Nat} {s s' : Progress ρ Res} {entry : Entry α}
    (h : s.Leads size s')
    (hentry : ∀ a stop, entry = .matched a stop → origin ≤ stop ∧ stop ≤ size) :
    (replay entry s').Reached size origin s := by
  cases entry with
  | failed => exact h.fail
  | matched a stop =>
    obtain ⟨hle, hsize⟩ := hentry a stop rfl
    exact ⟨hle, h.goTo hsize⟩

/-- The best match of a growing rule is harvested. -/
theorem Progress.Leads.harvest {size start : Nat} {s s' : Progress ρ Res}
    {best : Option (α × Nat)} (h : s.Leads size s') (hstart : start ≤ size)
    (hbest : ∀ a stop, best = some (a, stop) → start ≤ stop ∧ stop ≤ size) :
    (harvest start best s').Reached size start s := by
  cases best with
  | none => exact (h.goTo hstart).fail
  | some found =>
    obtain ⟨a, stop⟩ := found
    obtain ⟨hle, hsize⟩ := hbest a stop rfl
    exact ⟨hle, h.goTo hsize⟩

/-- An ending is a match or a failure inside the code, and nothing recorded is lost. -/
theorem Grammar.Ends.reached {G : Grammar ρ Res} {code : Array Char} {task : Task ρ Res α}
    {s : Progress ρ Res} {o : Outcome (Progress ρ Res) α} (h : G.Ends code task s o)
    (hs : s.Inside code.size) (hfits : task.Fits code.size) :
    o.Reached code.size (task.origin s) s := by
  induction h with
  | pattern hstop =>
    obtain ⟨hle, hsize⟩ := Matcher.stop?_bounds hs.pos hstop
    exact ⟨hle, hs.leads.goTo hsize⟩
  | noPattern _ => exact hs.leads.fail
  | endOfInput _ => exact ⟨Nat.le_refl _, hs.leads⟩
  | noEndOfInput _ => exact hs.leads.fail
  | skip => exact ⟨Nat.le_refl _, hs.leads⟩
  | fail => exact hs.leads.fail
  | pair _ _ ihf ihg =>
    obtain ⟨hle, hleads⟩ := ihf hs trivial
    exact ((ihg hleads.inside trivial).map).of_leads hle hleads
  | noPair _ ih => exact ih hs trivial
  | map _ ih => exact (ih hs trivial).map
  | @refine _ _ k _ s o _ ih =>
    have ih := ih hs trivial
    cases o with
    | stopped c s' => exact ih
    | failed s' => exact ih
    | matched a s' =>
      rw [Outcome.andThen_matched]
      cases k a with
      | some b => exact ih
      | none => exact ih.2.fail
  | checked _ _ ih => exact ih hs trivial
  | noChecked _ ih => exact ih hs trivial
  | left _ ih => exact ih hs trivial
  | right _ _ ihf ihg =>
    have hleads := (ihf hs trivial).goTo hs.pos
    exact (ihg hleads.inside trivial).of_leads (Nat.le_refl _) hleads
  | neither _ _ ihf ihg =>
    have hleads := (ihf hs trivial).goTo hs.pos
    exact ((hleads.trans (ihg hleads.inside trivial)).goTo hs.pos).fail
  | given _ ih => exact ih hs trivial
  | missing _ ih => exact ⟨Nat.le_refl _, (ih hs trivial).goTo hs.pos⟩
  | many _ ih => exact ih hs trivial
  | noMore _ ih => exact ⟨Nat.le_refl _, (ih hs trivial).goTo hs.pos⟩
  | last _ _ ih => exact ih hs trivial
  | next _ _ _ ih ihloop =>
    obtain ⟨hle, hleads⟩ := ih hs trivial
    exact (ihloop hleads.inside trivial).of_leads hle hleads
  | replayed _ hfind =>
    exact hs.leads.replay fun a stop heq => hs.entries _ _ a stop (hfind.trans (congrArg some heq))
  | @plain r _ _ _ _ ih =>
    have hbody := hs.leads.enter r
    exact (ih hbody.inside trivial).of_leads (Nat.le_refl _) hbody
  | @memoMatched r _ _ _ _ _ _ ih =>
    have hbody := hs.leads.enter r
    obtain ⟨hle, hleads⟩ := ih hbody.inside trivial
    exact ⟨hle, (hbody.trans hleads).recordMatched _ hle⟩
  | @memoFailed r _ _ _ _ _ ih =>
    have hbody := hs.leads.enter r
    exact (hbody.trans (ih hbody.inside trivial)).recordFailed _ _
  | @grown r s _ _ _ _ ih =>
    have hseed := hs.leads.recordFailed r s.pos
    exact (ih hseed.inside (Task.fits_none r hs.pos)).of_leads (Nat.le_refl _) hseed
  | @growFailed r _ _ _ _ _ ih =>
    have hbody := (hs.leads.goTo hfits.1).enter r
    exact (hbody.trans (ih hbody.inside trivial)).harvest hfits.1 hfits.2
  | @growNoLonger r _ _ _ _ _ _ _ ih =>
    have hbody := (hs.leads.goTo hfits.1).enter r
    exact (hbody.trans (ih hbody.inside trivial).2).harvest hfits.1 hfits.2
  | @growLonger r _ _ _ _ a _ _ _ _ ih ihloop =>
    have hbody := (hs.leads.goTo hfits.1).enter r
    obtain ⟨hle, hleads⟩ := ih hbody.inside trivial
    have hrecord := (hbody.trans hleads).recordMatched a hle
    have hfits' := Task.fits_some r a hfits.1 hle hleads.inside.pos
    exact (ihloop hrecord.inside hfits').of_leads (Nat.le_refl _) hrecord

/-! ## Counted rounds are enough -/

/-- How many more matches a growing rule may have, each longer than the one before. -/
def roundsLeft (size : Nat) : Option (α × Nat) → Nat
  | none => size + 1
  | some (_, stop) => size - stop

/-- A longer match leaves fewer rounds. -/
theorem roundsLeft_lt {size pos : Nat} {best : Option (α × Nat)} (a : α) (hpos : pos ≤ size)
    (hlonger : ¬best.any (pos ≤ ·.2) = true) :
    roundsLeft size (some (a, pos)) < roundsLeft size best := by
  cases best with
  | none =>
    rw [roundsLeft, roundsLeft]
    omega
  | some found =>
    rw [Option.any_some, decide_eq_true_eq] at hlonger
    rw [roundsLeft, roundsLeft]
    omega

/-- With this budget and as many rounds as may be left, or more, the task comes to the outcome. -/
def Task.Performs (G : Grammar ρ Res) (code : Array Char) (budget : Nat) {α : Type} :
    Task ρ Res α → Progress ρ Res → Outcome (Progress ρ Res) α → Prop
  | .recognise form, s, o => form.run code (G.callRule code budget) s = o
  | .again form items, s, o => ∀ rounds, code.size - s.pos ≤ rounds →
      repeatStep (form.run code (G.callRule code budget)) (rounds + 1) items s = o
  | .grow r start best, s, o => ∀ rounds, roundsLeft code.size best ≤ rounds →
      growMatch r ((G r).form.run code (G.callRule code budget)) start (rounds + 1) best s = o

section Calls

variable {G : Grammar ρ Res} {code : Array Char} {r : ρ} {s : Progress ρ Res}

/-- A call of a rule that has an entry replays it. -/
theorem Grammar.callRule_replayed {entry : Entry (Res r)} (hstrategy : (G r).strategy ≠ .plain)
    (hfind : s.memo.find? r s.pos = some entry) (budget : Nat) :
    G.callRule code (budget + 1) r s = replay entry s := by
  rw [callRule]
  split
  · next hplain => exact absurd hplain hstrategy
  · rw [hfind]
  · rw [hfind]

/-- A plain rule runs its form. -/
theorem Grammar.callRule_plain (hstrategy : (G r).strategy = .plain) (budget : Nat) :
    G.callRule code (budget + 1) r s =
      (G r).form.run code (G.callRule code budget) (s.enter r) := by
  rw [callRule, hstrategy]

/-- A rule with a memo runs its form where it has no entry, and records what comes of it. -/
theorem Grammar.callRule_memo (hstrategy : (G r).strategy = .memo)
    (hfind : s.memo.find? r s.pos = none) (budget : Nat) :
    G.callRule code (budget + 1) r s =
      runMemo r ((G r).form.run code (G.callRule code budget)) s := by
  rw [callRule, hstrategy]
  dsimp only
  rw [hfind]

/-- A growing rule starts with a recorded failure where it has no entry. -/
theorem Grammar.callRule_grow (hstrategy : (G r).strategy = .grow)
    (hfind : s.memo.find? r s.pos = none) (budget : Nat) :
    G.callRule code (budget + 1) r s =
      growMatch r ((G r).form.run code (G.callRule code budget)) s.pos (code.size + 2) none
        (s.record r s.pos .failed) := by
  rw [callRule, hstrategy]
  dsimp only
  rw [hfind]

/-- A call is answered with one budget more than what is done for it. -/
theorem eventually_answered {o : Outcome (Progress ρ Res) (Res r)} {P : Nat → Prop}
    (h : ∀ᶠ budget in Filter.atTop, P budget)
    (hcall : ∀ budget, P budget → G.callRule code (budget + 1) r s = o) :
    ∀ᶠ budget in Filter.atTop, (Task.recognise (.call r)).Performs G code budget s o := by
  rw [← Filter.map_add_atTop_eq_nat 1]
  exact h.mono hcall

end Calls

/-- All budgets that are large enough perform a task that ends, and then rounds that are left over
change nothing. -/
theorem Grammar.Ends.performs {G : Grammar ρ Res} {code : Array Char} {task : Task ρ Res α}
    {s : Progress ρ Res} {o : Outcome (Progress ρ Res) α} (h : G.Ends code task s o)
    (hs : s.Inside code.size) (hfits : task.Fits code.size) :
    ∀ᶠ budget in Filter.atTop, task.Performs G code budget s o := by
  induction h with
  | pattern hstop => exact .of_forall fun budget => by rw [Task.Performs, Form.run, hstop]
  | noPattern hstop => exact .of_forall fun budget => by rw [Task.Performs, Form.run, hstop]
  | endOfInput hend => exact .of_forall fun budget => if_pos hend
  | noEndOfInput hend => exact .of_forall fun budget => if_neg hend
  | skip => exact .of_forall fun budget => rfl
  | fail => exact .of_forall fun budget => rfl
  | pair first _ ihf ihg =>
    filter_upwards [ihf hs trivial, ihg (first.reached hs trivial).2.inside trivial]
      with budget hf hg
    rw [Task.Performs] at hf hg
    rw [Task.Performs, Form.run, hf, Outcome.andThen_matched, hg]
  | noPair _ ih =>
    filter_upwards [ih hs trivial] with budget hf
    rw [Task.Performs] at hf
    rw [Task.Performs, Form.run, hf, Outcome.andThen_failed]
  | map _ ih =>
    filter_upwards [ih hs trivial] with budget hf
    rw [Task.Performs] at hf
    rw [Task.Performs, Form.run, hf]
  | refine _ ih =>
    filter_upwards [ih hs trivial] with budget hf
    rw [Task.Performs] at hf
    exact congrArg (Outcome.andThen · _) hf
  | checked _ hnone ih =>
    filter_upwards [ih hs trivial] with budget hf
    rw [Task.Performs] at hf
    rw [Task.Performs, Form.run, hf, Outcome.andThen_matched, hnone]
  | noChecked _ ih =>
    filter_upwards [ih hs trivial] with budget hf
    rw [Task.Performs] at hf
    rw [Task.Performs, Form.run, hf, Outcome.andThen_failed]
  | left _ ih =>
    filter_upwards [ih hs trivial] with budget hf
    rw [Task.Performs] at hf
    rw [Task.Performs, Form.run, hf]
  | right first _ ihf ihg =>
    filter_upwards [ihf hs trivial, ihg ((first.reached hs trivial).goTo hs.pos).inside trivial]
      with budget hf hg
    rw [Task.Performs] at hf hg
    rw [Task.Performs, Form.run, hf]
    dsimp only
    rw [hg]
  | neither first _ ihf ihg =>
    filter_upwards [ihf hs trivial, ihg ((first.reached hs trivial).goTo hs.pos).inside trivial]
      with budget hf hg
    rw [Task.Performs] at hf hg
    rw [Task.Performs, Form.run, hf]
    dsimp only
    rw [hg]
  | given _ ih =>
    filter_upwards [ih hs trivial] with budget hf
    rw [Task.Performs] at hf
    rw [Task.Performs, Form.run, hf]
  | missing _ ih =>
    filter_upwards [ih hs trivial] with budget hf
    rw [Task.Performs] at hf
    rw [Task.Performs, Form.run, hf]
  | many _ ih =>
    filter_upwards [ih hs trivial] with budget hloop
    exact hloop code.size (Nat.sub_le _ _)
  | noMore _ ih =>
    filter_upwards [ih hs trivial] with budget hf rounds hrounds
    rw [Task.Performs] at hf
    rw [repeatStep, hf]
  | last _ hend ih =>
    filter_upwards [ih hs trivial] with budget hf rounds hrounds
    rw [Task.Performs] at hf
    rw [repeatStep, hf]
    exact if_pos hend
  | next step hend _ ih ihloop =>
    obtain ⟨hle, hleads⟩ := step.reached hs trivial
    filter_upwards [ih hs trivial, ihloop hleads.inside trivial] with budget hf hloop rounds hrounds
    rw [Task.Performs] at hf
    rw [repeatStep, hf]
    have hpos := hleads.inside.pos
    rw [Task.origin] at hle
    -- an item that is not the last has taken a character, and a round is left for the next one
    obtain ⟨rounds, rfl⟩ := Nat.exists_eq_add_one.mpr (show 0 < rounds by omega)
    exact (if_neg hend).trans (hloop _ (by omega))
  | replayed hstrategy hfind =>
    exact eventually_answered (.of_forall fun _ => trivial)
      fun budget _ => Grammar.callRule_replayed hstrategy hfind budget
  | @plain r _ _ hstrategy _ ih =>
    exact eventually_answered (ih (hs.leads.enter r).inside trivial)
      fun budget hbody => (Grammar.callRule_plain hstrategy budget).trans hbody
  | @memoMatched r _ _ _ hstrategy hfind _ ih =>
    refine eventually_answered (ih (hs.leads.enter r).inside trivial) fun budget hbody => ?_
    rw [Task.Performs] at hbody
    rw [Grammar.callRule_memo hstrategy hfind, runMemo, hbody]
  | @memoFailed r _ _ hstrategy hfind _ ih =>
    refine eventually_answered (ih (hs.leads.enter r).inside trivial) fun budget hbody => ?_
    rw [Task.Performs] at hbody
    rw [Grammar.callRule_memo hstrategy hfind, runMemo, hbody]
  | @grown r s _ hstrategy hfind _ ih =>
    have hseed := (hs.leads.recordFailed r s.pos).inside
    exact eventually_answered (ih hseed (Task.fits_none r hs.pos)) fun budget hloop =>
      (Grammar.callRule_grow hstrategy hfind budget).trans (hloop _ (Nat.le_refl _))
  | @growFailed r _ _ _ _ _ ih =>
    filter_upwards [ih ((hs.leads.goTo hfits.1).enter r).inside trivial]
      with budget hbody rounds hrounds
    rw [Task.Performs] at hbody
    rw [growMatch, hbody]
  | @growNoLonger r _ _ _ _ _ _ hlonger ih =>
    filter_upwards [ih ((hs.leads.goTo hfits.1).enter r).inside trivial]
      with budget hbody rounds hrounds
    rw [Task.Performs] at hbody
    rw [growMatch, hbody]
    exact if_pos hlonger
  | @growLonger r start best s s' a _ body hlonger _ ih ihloop =>
    have hseen := (hs.leads.goTo hfits.1).enter r
    obtain ⟨hle, hleads⟩ := body.reached hseen.inside trivial
    have hrecord := (hseen.trans hleads).recordMatched a hle
    have hfits' := Task.fits_some r a hfits.1 hle hleads.inside.pos
    filter_upwards [ih hseen.inside trivial, ihloop hrecord.inside hfits']
      with budget hbody hloop rounds hrounds
    rw [Task.Performs] at hbody
    rw [growMatch, hbody]
    have hfewer := roundsLeft_lt a hleads.inside.pos hlonger
    obtain ⟨rounds, rfl⟩ := Nat.exists_eq_add_one.mpr (show 0 < rounds by omega)
    exact (if_neg hlonger).trans (hloop _ (by omega))

/-- **Large budgets give the ending.** What an attempt comes to is what recognition gives with all
budgets that are large enough. -/
theorem Grammar.Ends.recognise_eq {G : Grammar ρ Res} {code : Array Char} {form : Form ρ Res α}
    {s : Progress ρ Res} {o : Outcome (Progress ρ Res) α} (h : G.Ends code (.recognise form) s o)
    (hs : s.Inside code.size) :
    ∃ enough, ∀ budget, enough ≤ budget → G.recognise code budget form s = o :=
  Filter.eventually_atTop.1 (h.performs hs trivial)

/-- An attempt comes to one ending only. -/
theorem Grammar.Ends.unique {G : Grammar ρ Res} {code : Array Char} {form : Form ρ Res α}
    {s : Progress ρ Res} {o o' : Outcome (Progress ρ Res) α}
    (h : G.Ends code (.recognise form) s o) (h' : G.Ends code (.recognise form) s o')
    (hs : s.Inside code.size) : o' = o := by
  obtain ⟨budget, heq, heq'⟩ := ((h.performs hs trivial).and (h'.performs hs trivial)).exists
  exact heq'.symm.trans heq

end CalcScript.Packrat
