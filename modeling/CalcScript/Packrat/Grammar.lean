import CalcScript.Packrat.Form

/-!
# Grammars

A grammar gives each rule a form and a strategy. A `plain` rule runs its form at every call. A
`memo` rule runs it once for each position and replays what it gave. A `grow` rule may call itself
where it starts: the match is grown from a failing seed, each run seeing the match before it, for as
long as matches get longer.

`Grammar.callRule` is the meaning of a rule call. Calls inside calls draw on a budget, and a call
that finds none left stops recognition as too deep; nothing else can go on for ever, since
repetitions and growing matches take characters.
-/

namespace CalcScript.Packrat

/-- How calls of a rule are answered. -/
inductive Strategy where
  /-- By running its form. -/
  | plain
  /-- By running its form once for each position. -/
  | memo
  /-- By growing a match at each position. -/
  | grow
  deriving DecidableEq, Repr

/-- A rule: its strategy and its form. -/
structure Rule (ρ : Type) (Res : ρ → Type) (α : Type) where
  strategy : Strategy
  form : Form ρ Res α

/-- The rules by name. -/
abbrev Grammar (ρ : Type) (Res : ρ → Type) := (r : ρ) → Rule ρ Res (Res r)

variable {ρ : Type} [DecidableEq ρ] {Res : ρ → Type}

/-- Answers a call from a recorded entry. -/
def replay {α : Type} (entry : Entry α) (s : Progress ρ Res) : Outcome (Progress ρ Res) α :=
  match entry with
  | .failed => s.fail
  | .matched a stop => .matched a (s.goTo stop)

/-- Runs the body of a `memo` rule and records what it gives. A failure is recorded for the start
and leaves the position where the body failed. -/
def runMemo (r : ρ) (body : Progress ρ Res → Outcome (Progress ρ Res) (Res r))
    (s : Progress ρ Res) : Outcome (Progress ρ Res) (Res r) :=
  match body (s.enter r) with
  | .matched a s' => .matched a (s'.record r s.pos (.matched a s'.pos))
  | .failed s' => .failed (s'.record r s.pos .failed)
  | .stopped c s' => .stopped c s'

/-- The end of growing: the longest match, or a failure at the start if there is none. -/
def harvest {α : Type} (start : Nat) (best : Option (α × Nat)) (s : Progress ρ Res) :
    Outcome (Progress ρ Res) α :=
  match best with
  | some (a, stop) => .matched a (s.goTo stop)
  | none => (s.goTo start).fail

/-- Runs the body of a `grow` rule again from its start, at most `rounds` times, until it fails or
its match is no longer than the best so far. -/
def growMatch (r : ρ) (body : Progress ρ Res → Outcome (Progress ρ Res) (Res r)) (start : Nat) :
    Nat → Option (Res r × Nat) → Progress ρ Res → Outcome (Progress ρ Res) (Res r)
  | 0, best, s => harvest start best s
  | rounds + 1, best, s =>
    match body ((s.goTo start).enter r) with
    | .failed s' => harvest start best s'
    | .stopped c s' => .stopped c s'
    | .matched a s' =>
      if best.any (s'.pos ≤ ·.2) then harvest start best s'
      else
        growMatch r body start rounds (some (a, s'.pos))
          (s'.record r start (.matched a s'.pos))

namespace Grammar

/-- Answers a call of a rule with a budget for the calls inside it. Each match of a `grow` rule but
the first is longer than the one before, so two more runs than there are characters suffice. -/
def callRule (G : Grammar ρ Res) (code : Array Char) : Nat → Calls ρ Res
  | 0, _, s => .stopped .tooDeep s
  | budget + 1, r, s =>
    let body := (G r).form.run code (callRule G code budget)
    match (G r).strategy with
    | .plain => body (s.enter r)
    | .memo =>
      match s.memo.find? r s.pos with
      | some entry => replay entry s
      | none => runMemo r body s
    | .grow =>
      match s.memo.find? r s.pos with
      | some entry => replay entry s
      | none => growMatch r body s.pos (code.size + 2) none (s.record r s.pos .failed)

/-- Recognises a form from the current position. -/
def recognise {α : Type} (G : Grammar ρ Res) (code : Array Char) (budget : Nat)
    (form : Form ρ Res α) (s : Progress ρ Res) : Outcome (Progress ρ Res) α :=
  form.run code (G.callRule code budget) s

/-- Recognises a form from the start of the input, keeping what has been recorded. -/
def parse {α : Type} (G : Grammar ρ Res) (code : Array Char) (budget : Nat)
    (form : Form ρ Res α) (s : Progress ρ Res) : Outcome (Progress ρ Res) α :=
  G.recognise code budget form (s.goTo 0)

end Grammar

end CalcScript.Packrat
