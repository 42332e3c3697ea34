import CalcScript.Packrat.Grammar

/-!
# Readings: recognition that records nothing

`Form.read` recognises a form from a position and keeps nothing but what it finds: no memo table, no
current position and no record of runs. `Grammar.readRule` reads rule calls by running the form of
the rule at every call, whatever the strategy of the rule is, to a given depth of calls.

> `Form.read_mono`, `Grammar.readRule_mono`: what is read with calls to one depth is read with
> calls to any larger depth.

So a rule call has at most one reading, whatever the depth (`Grammar.Reads.unique`).
-/

namespace CalcScript.Packrat

/-- What reading from a position comes to. `reach` is the largest position at which anything failed
on the way, in abandoned attempts too, and zero if nothing failed. An error of a checked result ends
the reading. -/
inductive Reading (α : Type) where
  | matched (result : α) (stop reach : Nat)
  | failed (reach : Nat)
  | error (message : String)

namespace Reading

variable {α β : Type}

/-- The reading after failures up to a position. -/
def after (n : Nat) : Reading α → Reading α
  | .matched a stop reach => .matched a stop (max n reach)
  | .failed reach => .failed (max n reach)
  | .error message => .error message

/-- The reading with its result changed. -/
def map (f : α → β) : Reading α → Reading β
  | .matched a stop reach => .matched (f a) stop reach
  | .failed reach => .failed reach
  | .error message => .error message

/-- The reading, where a failure is a failure at a position as well. -/
def orFailAt (pos : Nat) : Reading α → Reading α
  | .matched a stop reach => .matched a stop reach
  | .failed reach => .failed (max reach pos)
  | .error message => .error message

/-- The first of two readings from a position, or the second if the first is a failure. -/
@[macro_inline]
def orElse (pos : Nat) (first second : Option (Reading α)) : Option (Reading α) :=
  match first with
  | some (.failed reach) => second.map fun rd => (rd.orFailAt pos).after reach
  | rd => rd

/-- Goes on after a match. -/
def andThen (rd : Option (Reading α)) (next : α → Nat → Option (Reading β)) :
    Option (Reading β) :=
  match rd with
  | none => none
  | some (.failed reach) => some (.failed reach)
  | some (.error message) => some (.error message)
  | some (.matched a stop reach) => (next a stop).map (.after reach)

@[simp] theorem andThen_matched (a : α) (stop reach : Nat)
    (next : α → Nat → Option (Reading β)) :
    andThen (some (.matched a stop reach)) next = (next a stop).map (.after reach) := rfl

end Reading

/-! ## Reading forms -/

/-- What rule calls at positions are read as; `none` if calls are nested too deeply. -/
abbrev Reader (ρ : Type) (Res : ρ → Type) := (r : ρ) → Nat → Option (Reading (Res r))

/-- Repeats a step, at most `rounds` times, until it fails or matches nothing. -/
def readMany {α : Type} (step : Nat → Option (Reading α)) :
    Nat → Nat → Option (Reading (List α))
  | 0, pos => some (.matched [] pos 0)
  | rounds + 1, pos =>
    match step pos with
    | none => none
    | some (.failed reach) => some (.matched [] pos reach)
    | some (.error message) => some (.error message)
    | some (.matched a stop reach) =>
      if stop = pos then some (.matched [a] stop reach)
      else (readMany step rounds stop).map fun rest => (rest.map (a :: ·)).after reach

/-- A repetition never fails. -/
theorem readMany_cases {α : Type} {step : Nat → Option (Reading α)} :
    ∀ {rounds pos : Nat} {rd : Reading (List α)}, readMany step rounds pos = some rd →
      (∃ items stop reach, rd = .matched items stop reach) ∨ ∃ message, rd = .error message := by
  intro rounds
  induction rounds with
  | zero => intro pos rd h; cases h; exact .inl ⟨_, _, _, rfl⟩
  | succ rounds ih =>
    intro pos rd h
    rw [readMany] at h
    split at h
    next => cases h
    next => cases h; exact .inl ⟨_, _, _, rfl⟩
    next => cases h; exact .inr ⟨_, rfl⟩
    next a stop reach _ =>
      split at h
      next => cases h; exact .inl ⟨_, _, _, rfl⟩
      next =>
        obtain ⟨rest, hrest, rfl⟩ := Option.map_eq_some_iff.mp h
        obtain ⟨items, stop', reach', rfl⟩ | ⟨message, rfl⟩ := ih hrest
        · exact .inl ⟨_, _, _, rfl⟩
        · exact .inr ⟨_, rfl⟩

/-- Reads a form from a position. -/
def Form.read {ρ : Type} {Res : ρ → Type} (code : Array Char) (reader : Reader ρ Res) :
    {α : Type} → Form ρ Res α → Nat → Option (Reading α)
  | _, .pattern m, pos =>
    match m.stop? code pos with
    | some stop => some (.matched (textBetween code pos stop) stop 0)
    | none => some (.failed pos)
  | _, .endOfInput, pos =>
    if pos = code.size then some (.matched () pos 0) else some (.failed pos)
  | _, .skip a, pos => some (.matched a pos 0)
  | _, .fail, pos => some (.failed pos)
  | _, .pair f g, pos =>
    Reading.andThen (f.read code reader pos) fun a mid =>
      Reading.andThen (g.read code reader mid) fun b stop => some (.matched (a, b) stop 0)
  | _, .map h f, pos =>
    Reading.andThen (f.read code reader pos) fun a stop => some (.matched (h a) stop 0)
  | _, .refine h f, pos =>
    Reading.andThen (f.read code reader pos) fun a stop =>
      match h a with
      | some b => some (.matched b stop 0)
      | none => some (.failed stop)
  | _, .checked error? f, pos =>
    Reading.andThen (f.read code reader pos) fun a stop =>
      match error? a with
      | some message => some (.error message)
      | none => some (.matched a stop 0)
  | _, .orElse f g, pos =>
    Reading.orElse pos (f.read code reader pos) (g.read code reader pos)
  | _, .optional f, pos =>
    match f.read code reader pos with
    -- the failure of the attempt still counts, as in the repetition above
    | some (.failed reach) => some (.matched none pos reach)
    | some (.matched a stop reach) => some (.matched (some a) stop reach)
    | some (.error message) => some (.error message)
    | none => none
  | _, .many f, pos => readMany (f.read code reader) (code.size + 1) pos
  | _, .call r, pos => reader r pos

/-! ## Reading rules -/

namespace Grammar

variable {ρ : Type} {Res : ρ → Type}

/-- Reads a call of a rule, with calls inside calls to a given depth. -/
def readRule (G : Grammar ρ Res) (code : Array Char) : Nat → Reader ρ Res
  | 0, _, _ => none
  | depth + 1, r, pos => (G r).form.read code (G.readRule code depth) pos

/-- A call of a rule at a position has a reading, to some depth of calls. -/
def Reads (G : Grammar ρ Res) (code : Array Char) (r : ρ) (pos : Nat) (rd : Reading (Res r)) :
    Prop :=
  ∃ depth, G.readRule code depth r pos = some rd

end Grammar

/-! ## More depth changes no reading -/

section Mono

variable {ρ : Type} {Res : ρ → Type} {α β : Type}

/-- What the first reader reads, the second reads too. -/
def Reader.Extends (reader reader' : Reader ρ Res) : Prop :=
  ∀ r pos rd, reader r pos = some rd → reader' r pos = some rd

theorem Reading.andThen_mono {first first' : Option (Reading α)}
    {next next' : α → Nat → Option (Reading β)} {rd : Reading β}
    (hfirst : ∀ x, first = some x → first' = some x)
    (hnext : ∀ a stop x, next a stop = some x → next' a stop = some x)
    (h : Reading.andThen first next = some rd) : Reading.andThen first' next' = some rd := by
  cases first with
  | none => cases h
  | some x =>
    rw [hfirst x rfl]
    cases x with
    | failed reach => exact h
    | error message => exact h
    | matched a stop reach =>
      rw [andThen_matched] at h ⊢
      obtain ⟨y, hy, rfl⟩ := Option.map_eq_some_iff.mp h
      rw [hnext a stop y hy]
      rfl

theorem readMany_mono {step step' : Nat → Option (Reading α)}
    (hstep : ∀ pos x, step pos = some x → step' pos = some x) :
    ∀ (rounds pos : Nat) (rd : Reading (List α)),
      readMany step rounds pos = some rd → readMany step' rounds pos = some rd := by
  intro rounds
  induction rounds with
  | zero => intro pos rd h; exact h
  | succ rounds ih =>
    intro pos rd h
    rw [readMany] at h ⊢
    cases hx : step pos with
    | none => rw [hx] at h; cases h
    | some x =>
      rw [hx] at h
      rw [hstep pos x hx]
      cases x with
      | failed reach => exact h
      | error message => exact h
      | matched a stop reach =>
        dsimp only at h ⊢
        by_cases hs : stop = pos
        · rw [if_pos hs] at h ⊢; exact h
        · rw [if_neg hs] at h ⊢
          obtain ⟨y, hy, rfl⟩ := Option.map_eq_some_iff.mp h
          rw [ih stop y hy]
          rfl

/-- A form read with one reader is read alike with any reader that extends it. -/
theorem Form.read_mono {code : Array Char} {reader reader' : Reader ρ Res}
    (hr : reader.Extends reader') (form : Form ρ Res α) :
    ∀ (pos : Nat) (rd : Reading α),
      form.read code reader pos = some rd → form.read code reader' pos = some rd := by
  induction form with
  | pattern m => intro pos rd h; exact h
  | endOfInput => intro pos rd h; exact h
  | skip a => intro pos rd h; exact h
  | fail => intro pos rd h; exact h
  | pair f g ihf ihg =>
    intro pos rd h
    -- the part behind is read from wherever the part before ends
    exact Reading.andThen_mono (ihf pos)
      (fun a mid _ hx => Reading.andThen_mono (ihg mid) (fun _ _ _ hy => hy) hx) h
  | map k f ih =>
    intro pos rd h
    exact Reading.andThen_mono (ih pos) (fun _ _ _ hx => hx) h
  | refine k f ih =>
    intro pos rd h
    exact Reading.andThen_mono (ih pos) (fun _ _ _ hx => hx) h
  | checked e f ih =>
    intro pos rd h
    exact Reading.andThen_mono (ih pos) (fun _ _ _ hx => hx) h
  | orElse f g ihf ihg =>
    intro pos rd h
    rw [Form.read] at h ⊢
    cases hx : f.read code reader pos with
    | none => rw [hx] at h; cases h
    | some x =>
      rw [hx] at h
      rw [ihf pos x hx]
      cases x with
      | matched a stop reach => exact h
      | error message => exact h
      | failed reach =>
        rw [Reading.orElse] at h ⊢
        obtain ⟨y, hy, rfl⟩ := Option.map_eq_some_iff.mp h
        rw [ihg pos y hy]
        rfl
  | optional f ih =>
    intro pos rd h
    rw [Form.read] at h ⊢
    cases hx : f.read code reader pos with
    | none => rw [hx] at h; cases h
    | some x => rw [hx] at h; rw [ih pos x hx]; exact h
  | many f ih =>
    intro pos rd h
    exact readMany_mono ih _ pos rd h
  | call r => intro pos rd h; exact hr r pos rd h

namespace Grammar

variable {G : Grammar ρ Res} {code : Array Char}

theorem readRule_extends_succ (G : Grammar ρ Res) (code : Array Char) :
    ∀ depth, (G.readRule code depth).Extends (G.readRule code (depth + 1))
  | 0 => fun _ _ _ h => by cases h
  | depth + 1 => fun r pos rd h =>
    Form.read_mono (readRule_extends_succ G code depth) (G r).form pos rd h

/-- What is read with calls to one depth is read with calls to any larger depth. -/
theorem readRule_mono {depth depth' : Nat} (hle : depth ≤ depth') :
    (G.readRule code depth).Extends (G.readRule code depth') := by
  induction hle with
  | refl => exact fun _ _ _ h => h
  | step _ ih => exact fun r pos rd h => readRule_extends_succ G code _ r pos rd (ih r pos rd h)

/-- A rule call has at most one reading. -/
theorem Reads.unique {r : ρ} {pos : Nat} {rd rd' : Reading (Res r)}
    (h : G.Reads code r pos rd) (h' : G.Reads code r pos rd') : rd = rd' := by
  obtain ⟨n, hn⟩ := h
  obtain ⟨m, hm⟩ := h'
  -- both readings are readings at the larger of the two depths
  have hn' := readRule_mono (Nat.le_max_left n m) r pos rd hn
  have hm' := readRule_mono (Nat.le_max_right n m) r pos rd' hm
  exact Option.some.inj (hn'.symm.trans hm')

/-- What the form of a rule reads as with calls to some depth, the rule reads as too. -/
theorem readRule_eq_form {depth : Nat} {r : ρ} {pos : Nat} {rd : Reading (Res r)}
    (h : G.readRule code depth r pos = some rd) :
    (G r).form.read code (G.readRule code depth) pos = some rd := by
  cases depth with
  | zero => cases h
  | succ depth => exact Form.read_mono (readRule_extends_succ G code depth) _ pos rd h

end Grammar

end Mono

end CalcScript.Packrat
