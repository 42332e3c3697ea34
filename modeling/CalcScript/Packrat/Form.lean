import CalcScript.Packrat.Lexeme
import CalcScript.Packrat.Memo

/-!
# Forms

A form says how a stretch of input is recognised and what it gives: lexemes, sequences, ordered
choice, repetition, and calls of named rules. `Form.run` recognises a form from a position; what a
rule call does is handed to it, so forms know nothing of grammars.

A failed attempt leaves the position where it failed. Ordered choice, `optional` and `many` go back
to where the attempt began; a sequence does not. `Progress.furthest` is the largest position at
which anything has failed so far, in abandoned attempts too.

Recognition may also be stopped, and then it is over: nothing else is tried. It is stopped where
rule calls are nested too deeply, and by an error in what is made of a match (`Form.checked`).
-/

namespace CalcScript.Packrat

/-- A recogniser of results of one type. Rules are named by `ρ`; the rule `r` gives a `Res r`. -/
inductive Form (ρ : Type) (Res : ρ → Type) : Type → Type 1 where
  /-- The text of a match. -/
  | pattern (m : Matcher) : Form ρ Res String
  /-- The end of the input. -/
  | endOfInput : Form ρ Res Unit
  /-- Nothing, with a given result. -/
  | skip {α : Type} (result : α) : Form ρ Res α
  /-- Fails where it stands. -/
  | fail {α : Type} : Form ρ Res α
  /-- One form and then another. -/
  | pair {α β : Type} (first : Form ρ Res α) (second : Form ρ Res β) : Form ρ Res (α × β)
  /-- A form with its result changed. -/
  | map {α β : Type} (f : α → β) (form : Form ρ Res α) : Form ρ Res β
  /-- A form whose result may be refused; this fails after the stretch that was read. -/
  | refine {α β : Type} (f : α → Option β) (form : Form ρ Res α) : Form ρ Res β
  /-- A form whose result may be an error; this stops everything. -/
  | checked {α : Type} (error? : α → Option String) (form : Form ρ Res α) : Form ρ Res α
  /-- The first form, or the second if the first fails. -/
  | orElse {α : Type} (first second : Form ρ Res α) : Form ρ Res α
  /-- A form or nothing. -/
  | optional {α : Type} (form : Form ρ Res α) : Form ρ Res (Option α)
  /-- A form as often as it matches; a match of nothing is the last. -/
  | many {α : Type} (form : Form ρ Res α) : Form ρ Res (List α)
  /-- A call of a rule. -/
  | call (r : ρ) : Form ρ Res (Res r)

namespace Form

variable {ρ : Type} {Res : ρ → Type} {α β : Type}

/-- The text of a lexeme. -/
abbrev lexeme (l : Lexeme) : Form ρ Res String := .pattern (.lexeme l)

/-- One form and then another, with the result of the second. -/
def andThen (first : Form ρ Res α) (second : Form ρ Res β) : Form ρ Res β :=
  .map Prod.snd (.pair first second)

/-- One form and then another, with the result of the first. -/
def before (first : Form ρ Res α) (second : Form ρ Res β) : Form ρ Res α :=
  .map Prod.fst (.pair first second)

instance : SeqRight (Form ρ Res) := ⟨fun first second => first.andThen (second ())⟩
instance : SeqLeft (Form ρ Res) := ⟨fun first second => first.before (second ())⟩

/-- Ordered choice: the first form that matches. -/
def first (alternatives : List (Form ρ Res α)) : Form ρ Res α :=
  alternatives.foldr .orElse .fail

/-- A fixed text. -/
def text (s : String) : Form ρ Res String := .lexeme (Lexeme.ofText s)

/-- One character. -/
def char (c : Char) : Form ρ Res String := .lexeme [.one (· = c)]

end Form

/-! ## Progress and outcomes -/

/-- How far recognition has come. -/
structure Progress (ρ : Type) (Res : ρ → Type) where
  /-- The position of the next character. -/
  pos : Nat
  /-- The largest position at which anything has failed. -/
  furthest : Nat
  /-- What rules gave at positions. -/
  memo : Memo ρ Res
  /-- Which rule bodies have been run and from where, the latest first. -/
  runs : List (ρ × Nat)

/-- Why recognition is stopped. -/
inductive Stop where
  /-- Rule calls are nested too deeply to go on. -/
  | tooDeep
  /-- A result is an error. -/
  | error (message : String)
  deriving DecidableEq, Repr

/-- How an attempt ends. -/
inductive Outcome (σ α : Type) where
  | matched (result : α) (state : σ)
  | failed (state : σ)
  | stopped (cause : Stop) (state : σ)

namespace Outcome

variable {σ α β : Type}

/-- Goes on after a match. -/
def andThen (o : Outcome σ α) (next : α → σ → Outcome σ β) : Outcome σ β :=
  match o with
  | .matched a s => next a s
  | .failed s => .failed s
  | .stopped c s => .stopped c s

@[simp] theorem andThen_matched (a : α) (s : σ) (next : α → σ → Outcome σ β) :
    (matched a s).andThen next = next a s := rfl

@[simp] theorem andThen_failed (s : σ) (next : α → σ → Outcome σ β) :
    (failed s).andThen next = failed s := rfl

/-- The state an attempt leaves behind. -/
def state : Outcome σ α → σ
  | .matched _ s => s
  | .failed s => s
  | .stopped _ s => s

end Outcome

namespace Progress

variable {ρ : Type} {Res : ρ → Type} {α : Type}

/-- Before anything has been read. -/
def start : Progress ρ Res := ⟨0, 0, .empty, []⟩

/-- The same progress at another position. -/
def goTo (s : Progress ρ Res) (pos : Nat) : Progress ρ Res := { s with pos }

/-- Progress with an entry recorded. -/
def record [DecidableEq ρ] (s : Progress ρ Res) (r : ρ) (pos : Nat) (entry : Entry (Res r)) :
    Progress ρ Res :=
  { s with memo := s.memo.insert r pos entry }

/-- Progress when the body of a rule is about to run. -/
def enter (s : Progress ρ Res) (r : ρ) : Progress ρ Res := { s with runs := (r, s.pos) :: s.runs }

/-- Fails at the current position. -/
def fail (s : Progress ρ Res) : Outcome (Progress ρ Res) α :=
  .failed { s with furthest := max s.furthest s.pos }

/-- How often the body of a rule has run. -/
def runCount [DecidableEq ρ] (s : Progress ρ Res) (r : ρ) : Nat :=
  (s.runs.filter (·.1 = r)).length

end Progress

/-! ## Recognition -/

/-- What is done at a rule call. -/
abbrev Calls (ρ : Type) (Res : ρ → Type) :=
  (r : ρ) → Progress ρ Res → Outcome (Progress ρ Res) (Res r)

/-- Repeats a step, at most `rounds` times, until it fails or matches nothing. The position of a
failed step is taken back. -/
def repeatStep {ρ : Type} {Res : ρ → Type} {α : Type}
    (step : Progress ρ Res → Outcome (Progress ρ Res) α) :
    Nat → List α → Progress ρ Res → Outcome (Progress ρ Res) (List α)
  | 0, items, s => .matched items.reverse s
  | rounds + 1, items, s =>
    match step s with
    | .matched a s' =>
      if s'.pos = s.pos then .matched (a :: items).reverse s'
      else repeatStep step rounds (a :: items) s'
    | .failed s' => .matched items.reverse (s'.goTo s.pos)
    | .stopped c s' => .stopped c s'

/-- Recognises a form from the current position. Every repetition but the last takes a character,
so one more than there are characters suffices. -/
def Form.run {ρ : Type} {Res : ρ → Type} (code : Array Char) (calls : Calls ρ Res) :
    {α : Type} → Form ρ Res α → Progress ρ Res → Outcome (Progress ρ Res) α
  | _, .pattern m, s =>
    match m.stop? code s.pos with
    | some stop => .matched (textBetween code s.pos stop) (s.goTo stop)
    | none => s.fail
  | _, .endOfInput, s => if s.pos = code.size then .matched () s else s.fail
  | _, .skip a, s => .matched a s
  | _, .fail, s => s.fail
  | _, .pair f g, s =>
    (f.run code calls s).andThen fun a s => (g.run code calls s).andThen fun b s => .matched (a, b) s
  | _, .map h f, s => (f.run code calls s).andThen fun a s => .matched (h a) s
  | _, .refine h f, s =>
    (f.run code calls s).andThen fun a s =>
      match h a with
      | some b => .matched b s
      | none => s.fail
  | _, .checked error? f, s =>
    (f.run code calls s).andThen fun a s =>
      match error? a with
      | some message => .stopped (.error message) s
      | none => .matched a s
  | _, .orElse f g, s =>
    match f.run code calls s with
    | .failed s₁ =>
      match g.run code calls (s₁.goTo s.pos) with
      | .failed s₂ => (s₂.goTo s.pos).fail
      | o => o
    | o => o
  | _, .optional f, s =>
    match f.run code calls s with
    | .matched a s' => .matched (some a) s'
    | .failed s' => .matched none (s'.goTo s.pos)
    | .stopped c s' => .stopped c s'
  | _, .many f, s => repeatStep (f.run code calls) (code.size + 1) [] s
  | _, .call r, s => calls r s

end CalcScript.Packrat
