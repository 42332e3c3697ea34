import CalcScript.Proofs.Packrat.TextAt
import CalcScript.Proofs.Packrat.Unrolling

/-!
# Matches and failures

What a form is read as, without how far failures have reached: `Form.Matches` is a match with its
result and its end, `Form.Fails` a failure. The match of a form is taken apart into the matches of
its parts, and put together from them.

> `Form.Matches.leftFold_induct`: what the base of a loop gives and each tail preserves holds of
> what the loop gives.
-/

namespace CalcScript.Packrat

variable {ρ : Type} {Res : ρ → Type} {α β τ : Type}

/-- The form matches from a position to another, with a result. -/
def Form.Matches (code : Array Char) (reader : Reader ρ Res) (form : Form ρ Res α) (p : Nat) (a : α)
    (q : Nat) : Prop :=
  ∃ reach, form.read code reader p = some (.matched a q reach)

/-- The form fails at a position. -/
def Form.Fails (code : Array Char) (reader : Reader ρ Res) (form : Form ρ Res α) (p : Nat) : Prop :=
  ∃ reach, form.read code reader p = some (.failed reach)

/-- Matches of the form one behind the other, with their results. -/
inductive Form.MatchesEach (code : Array Char) (reader : Reader ρ Res) (form : Form ρ Res α) :
    Nat → List α → Nat → Prop where
  | nil (p : Nat) : MatchesEach code reader form p [] p
  | cons {p m q : Nat} {a : α} {items : List α} (head : form.Matches code reader p a m)
      (tail : MatchesEach code reader form m items q) :
      MatchesEach code reader form p (a :: items) q

section

variable {code : Array Char} {reader : Reader ρ Res} {p q : Nat} {a : α}

/-! ## Going on after a match -/

/-- A sequence of readings is a match if both of them are. -/
theorem Reading.andThen_eq_matched_iff {first : Option (Reading α)}
    {next : α → Nat → Option (Reading β)} {b : β} :
    (∃ reach, andThen first next = some (.matched b q reach)) ↔
      ∃ a m, (∃ reach, first = some (.matched a m reach)) ∧
        ∃ reach, next a m = some (.matched b q reach) := by
  constructor
  · intro hread
    obtain ⟨reach, h⟩ := hread
    cases first with
    | none => cases h
    | some x =>
      cases x with
      | failed n => cases h
      | error message => cases h
      | matched a m n =>
        obtain ⟨y, hy, heq⟩ := Option.map_eq_some_iff.mp h
        cases y with
        | failed k => cases heq
        | error message => cases heq
        | matched b' q' k => cases heq; exact ⟨a, m, ⟨n, rfl⟩, k, hy⟩
  · intro hread
    obtain ⟨a, m, ⟨n, rfl⟩, k, hk⟩ := hread
    exact ⟨max n k, by rw [andThen_matched, hk]; rfl⟩

/-- It is a failure if one of them is the first to fail. -/
theorem Reading.andThen_eq_failed_iff {first : Option (Reading α)}
    {next : α → Nat → Option (Reading β)} :
    (∃ reach, andThen first next = some (.failed reach)) ↔
      (∃ reach, first = some (.failed reach)) ∨
      ∃ a m, (∃ reach, first = some (.matched a m reach)) ∧
        ∃ reach, next a m = some (.failed reach) := by
  constructor
  · intro hread
    obtain ⟨reach, h⟩ := hread
    cases first with
    | none => cases h
    | some x =>
      cases x with
      | failed n => exact Or.inl ⟨n, rfl⟩
      | error message => cases h
      | matched a m n =>
        obtain ⟨y, hy, heq⟩ := Option.map_eq_some_iff.mp h
        cases y with
        | error message => cases heq
        | failed k => exact Or.inr ⟨a, m, ⟨n, rfl⟩, k, hy⟩
        | matched b' q' k => cases heq
  · intro hread
    rcases hread with ⟨n, rfl⟩ | ⟨a, m, ⟨n, rfl⟩, k, hk⟩
    · exact ⟨n, rfl⟩
    · exact ⟨max n k, by rw [andThen_matched, hk]; rfl⟩

/-! ## The combinators -/

/-- A sequence matches what its forms match one behind the other. -/
theorem Form.matches_pair {f : Form ρ Res α} {g : Form ρ Res β} {x : α × β} :
    (Form.pair f g).Matches code reader p x q ↔
      ∃ m, f.Matches code reader p x.1 m ∧ g.Matches code reader m x.2 q := by
  rw [Matches, Form.read, Reading.andThen_eq_matched_iff]
  constructor
  · intro hread
    obtain ⟨a, m, hf, hg⟩ := hread
    obtain ⟨b, q', hb, n, hn⟩ := Reading.andThen_eq_matched_iff.mp hg
    cases hn
    exact ⟨m, hf, hb⟩
  · intro hread
    obtain ⟨m, hf, hg⟩ := hread
    exact ⟨x.1, m, hf, Reading.andThen_eq_matched_iff.mpr ⟨x.2, q, hg, 0, rfl⟩⟩

/-- A sequence fails if one of its forms does, the second behind a match of the first. -/
theorem Form.fails_pair {f : Form ρ Res α} {g : Form ρ Res β} :
    (Form.pair f g).Fails code reader p ↔
      f.Fails code reader p ∨ ∃ a m, f.Matches code reader p a m ∧ g.Fails code reader m := by
  rw [Fails, Form.read, Reading.andThen_eq_failed_iff]
  constructor
  · intro hread
    rcases hread with hf | ⟨a, m, hf, hg⟩
    · exact Or.inl hf
    · rcases Reading.andThen_eq_failed_iff.mp hg with hg | ⟨b, q', _, n, hn⟩
      · exact Or.inr ⟨a, m, hf, hg⟩
      · cases hn
  · intro hread
    rcases hread with hf | ⟨a, m, hf, hg⟩
    · exact Or.inl hf
    · exact Or.inr ⟨a, m, hf, Reading.andThen_eq_failed_iff.mpr (Or.inl hg)⟩

/-- A change of the result changes no match. -/
theorem Form.matches_map {f : Form ρ Res α} {h : α → β} {b : β} :
    (Form.map h f).Matches code reader p b q ↔ ∃ a, f.Matches code reader p a q ∧ h a = b := by
  rw [Matches, Form.read, Reading.andThen_eq_matched_iff]
  constructor
  · intro hread
    obtain ⟨a, m, hf, n, hn⟩ := hread
    cases hn
    exact ⟨a, hf, rfl⟩
  · intro hread
    obtain ⟨a, hf, rfl⟩ := hread
    exact ⟨a, q, hf, 0, rfl⟩

/-- A change of the result changes no failure. -/
theorem Form.fails_map {f : Form ρ Res α} {h : α → β} :
    (Form.map h f).Fails code reader p ↔ f.Fails code reader p := by
  rw [Fails, Form.read, Reading.andThen_eq_failed_iff]
  constructor
  · intro hread
    rcases hread with hf | ⟨a, m, _, n, hn⟩
    · exact hf
    · cases hn
  · exact Or.inl

/-- A refinement matches what can be refined. -/
theorem Form.matches_refine {f : Form ρ Res α} {h : α → Option β} {b : β} :
    (Form.refine h f).Matches code reader p b q ↔
      ∃ a, f.Matches code reader p a q ∧ h a = some b := by
  rw [Matches, Form.read, Reading.andThen_eq_matched_iff]
  constructor
  · intro hread
    obtain ⟨a, m, hf, n, hn⟩ := hread
    cases hb : h a with
    | none => rw [hb] at hn; cases hn
    | some b' => rw [hb] at hn; cases hn; exact ⟨a, hf, hb⟩
  · intro hread
    obtain ⟨a, hf, hb⟩ := hread
    exact ⟨a, q, hf, 0, by rw [hb]⟩

/-- A refinement fails behind what cannot be refined. -/
theorem Form.fails_refine {f : Form ρ Res α} {h : α → Option β} :
    (Form.refine h f).Fails code reader p ↔
      f.Fails code reader p ∨ ∃ a m, f.Matches code reader p a m ∧ h a = none := by
  rw [Fails, Form.read, Reading.andThen_eq_failed_iff]
  constructor
  · intro hread
    rcases hread with hf | ⟨a, m, hf, n, hn⟩
    · exact Or.inl hf
    · cases ha : h a with
      | none => exact Or.inr ⟨a, m, hf, ha⟩
      | some b => rw [ha] at hn; cases hn
  · intro hread
    rcases hread with hf | ⟨a, m, hf, ha⟩
    · exact Or.inl hf
    · exact Or.inr ⟨a, m, hf, m, by rw [ha]⟩

/-- A check lets pass what has no error. -/
theorem Form.matches_checked {f : Form ρ Res α} {e : α → Option String} :
    (Form.checked e f).Matches code reader p a q ↔ f.Matches code reader p a q ∧ e a = none := by
  rw [Matches, Form.read, Reading.andThen_eq_matched_iff]
  constructor
  · intro hread
    obtain ⟨b, m, hf, n, hn⟩ := hread
    cases he : e b with
    | none => rw [he] at hn; cases hn; exact ⟨hf, he⟩
    | some message => rw [he] at hn; cases hn
  · intro hread
    obtain ⟨hf, he⟩ := hread
    exact ⟨a, q, hf, 0, by rw [he]⟩

/-- A check turns no match into a failure. -/
theorem Form.fails_checked {f : Form ρ Res α} {e : α → Option String} :
    (Form.checked e f).Fails code reader p ↔ f.Fails code reader p := by
  rw [Fails, Form.read, Reading.andThen_eq_failed_iff]
  constructor
  · intro hread
    rcases hread with hf | ⟨b, m, -, n, hn⟩
    · exact hf
    · split at hn <;> cases hn
  · exact Or.inl

/-- Ordered choice: the second form is tried where the first fails. -/
theorem Form.matches_orElse {f g : Form ρ Res α} :
    (Form.orElse f g).Matches code reader p a q ↔
      f.Matches code reader p a q ∨ (f.Fails code reader p ∧ g.Matches code reader p a q) := by
  rw [Matches, Form.read]
  constructor
  · intro hread
    obtain ⟨reach, h⟩ := hread
    cases hf : f.read code reader p with
    | none => rw [hf] at h; cases h
    | some x =>
      rw [hf] at h
      cases x with
      | matched a' m n => cases h; exact Or.inl ⟨_, hf⟩
      | error message => cases h
      | failed n =>
        obtain ⟨y, hy, heq⟩ := Option.map_eq_some_iff.mp h
        cases y with
        | error message => cases heq
        | failed k => cases heq
        | matched a' m k => cases heq; exact Or.inr ⟨⟨n, hf⟩, k, hy⟩
  · intro hread
    rcases hread with ⟨n, hf⟩ | ⟨⟨n, hf⟩, k, hg⟩
    · exact ⟨n, by rw [hf]; rfl⟩
    · exact ⟨max n k, by rw [hf, hg]; rfl⟩

/-- A choice fails where both alternatives fail. -/
theorem Form.fails_orElse {f g : Form ρ Res α} :
    (Form.orElse f g).Fails code reader p ↔ f.Fails code reader p ∧ g.Fails code reader p := by
  rw [Fails, Form.read]
  constructor
  · intro hread
    obtain ⟨reach, h⟩ := hread
    cases hf : f.read code reader p with
    | none => rw [hf] at h; cases h
    | some x =>
      rw [hf] at h
      cases x with
      | matched a' m n => cases h
      | error message => cases h
      | failed n =>
        obtain ⟨y, hy, heq⟩ := Option.map_eq_some_iff.mp h
        cases y with
        | error message => cases heq
        | failed k => exact ⟨⟨n, hf⟩, k, hy⟩
        | matched a' m k => cases heq
  · intro hread
    obtain ⟨⟨n, hf⟩, k, hg⟩ := hread
    exact ⟨max n (max k p), by rw [hf, hg]; rfl⟩

/-- An optional form matches what the form matches, or nothing where it fails. -/
theorem Form.matches_optional {f : Form ρ Res α} {o : Option α} :
    (Form.optional f).Matches code reader p o q ↔
      (∃ a, f.Matches code reader p a q ∧ o = some a) ∨
      (f.Fails code reader p ∧ o = none ∧ q = p) := by
  rw [Matches, Form.read]
  constructor
  · intro hread
    obtain ⟨reach, h⟩ := hread
    cases hf : f.read code reader p with
    | none => rw [hf] at h; cases h
    | some x =>
      rw [hf] at h
      cases x with
      | matched a' m n => cases h; exact Or.inl ⟨a', ⟨_, hf⟩, rfl⟩
      | error message => cases h
      | failed n => cases h; exact Or.inr ⟨⟨_, hf⟩, rfl, rfl⟩
  · intro hread
    rcases hread with ⟨a, ⟨n, hf⟩, rfl⟩ | ⟨⟨n, hf⟩, rfl, rfl⟩
    · exact ⟨n, by rw [hf]⟩
    · exact ⟨n, by rw [hf]⟩

/-- The form that always fails matches nothing. -/
theorem Form.not_matches_fail : ¬(Form.fail : Form ρ Res α).Matches code reader p a q := by
  intro hread
  obtain ⟨reach, h⟩ := hread
  cases h

theorem Form.fails_fail : (Form.fail : Form ρ Res α).Fails code reader p := ⟨p, rfl⟩

/-- One of several alternatives is matched where those before it fail. -/
theorem Form.matches_first_cons {f : Form ρ Res α} {fs : List (Form ρ Res α)} :
    (Form.first (f :: fs)).Matches code reader p a q ↔
      f.Matches code reader p a q ∨
      (f.Fails code reader p ∧ (Form.first fs).Matches code reader p a q) :=
  Form.matches_orElse

/-- A sequence that keeps the result of the second form. -/
theorem Form.matches_andThen {f : Form ρ Res α} {g : Form ρ Res β} {b : β} :
    (f *> g).Matches code reader p b q ↔
      ∃ a m, f.Matches code reader p a m ∧ g.Matches code reader m b q := by
  show (Form.map Prod.snd (.pair f g)).Matches code reader p b q ↔ _
  rw [Form.matches_map]
  constructor
  · intro hread
    obtain ⟨x, hx, rfl⟩ := hread
    obtain ⟨m, hf, hg⟩ := Form.matches_pair.mp hx
    exact ⟨x.1, m, hf, hg⟩
  · intro hread
    obtain ⟨a, m, hf, hg⟩ := hread
    exact ⟨(a, b), Form.matches_pair.mpr ⟨m, hf, hg⟩, rfl⟩

/-- A sequence that keeps the result of the first form. -/
theorem Form.matches_before {f : Form ρ Res α} {g : Form ρ Res β} :
    (f <* g).Matches code reader p a q ↔
      ∃ b m, f.Matches code reader p a m ∧ g.Matches code reader m b q := by
  show (Form.map Prod.fst (.pair f g)).Matches code reader p a q ↔ _
  rw [Form.matches_map]
  constructor
  · intro hread
    obtain ⟨x, hx, rfl⟩ := hread
    obtain ⟨m, hf, hg⟩ := Form.matches_pair.mp hx
    exact ⟨x.2, m, hf, hg⟩
  · intro hread
    obtain ⟨b, m, hf, hg⟩ := hread
    exact ⟨(a, b), Form.matches_pair.mpr ⟨m, hf, hg⟩, rfl⟩

/-- What an ordered choice matches, one of its alternatives matches. -/
theorem Form.Matches.first {fs : List (Form ρ Res α)}
    (h : (Form.first fs).Matches code reader p a q) : ∃ f ∈ fs, f.Matches code reader p a q := by
  induction fs with
  | nil => exact absurd h Form.not_matches_fail
  | cons f fs ih =>
    rcases Form.matches_first_cons.mp h with hf | ⟨_, hfs⟩
    · exact ⟨f, List.mem_cons_self, hf⟩
    · obtain ⟨g, hg, hmatch⟩ := ih hfs
      exact ⟨g, List.mem_cons_of_mem f hg, hmatch⟩

/-! ## Lexemes -/

/-- A lexeme matches what it takes from the text at the position. -/
theorem Form.matches_lexeme {l : Lexeme} {w : List Char} {text : String}
    (hw : TextFrom code p w) :
    (Form.lexeme l : Form ρ Res String).Matches code reader p text q ↔
      ∃ t, l.taken? w = some t ∧ text = String.ofList t ∧ q = p + t.length := by
  rw [Matches, Form.read, Matcher.stop?, Lexeme.stop?_eq hw]
  cases ht : l.taken? w with
  | none =>
    constructor
    · intro hread
      obtain ⟨reach, h⟩ := hread
      cases h
    · intro hread
      obtain ⟨t, h, _⟩ := hread
      cases h
  | some t =>
    have htext : textBetween code p (p + t.length) = String.ofList t := by
      rw [Lexeme.taken?_append ht] at hw
      exact hw.textBetween
    constructor
    · intro hread
      obtain ⟨reach, h⟩ := hread
      cases h
      exact ⟨t, rfl, htext, rfl⟩
    · intro hread
      obtain ⟨t', h, rfl, rfl⟩ := hread
      cases h
      exact ⟨0, by rw [Option.map_some]; dsimp only; rw [htext]⟩

/-- A lexeme matches a text that fits it. -/
theorem Form.Matches.lexeme {l : Lexeme} {text : String}
    (h : (Form.lexeme l : Form ρ Res String).Matches code reader p text q) :
    ∃ t, TextTo code p t q ∧ l.Fits t ∧ text = String.ofList t := by
  have hw : TextFrom code p (code.toList.drop p) := rfl
  obtain ⟨t, ht, rfl, rfl⟩ := (Form.matches_lexeme hw).mp h
  rw [Lexeme.taken?_append ht] at hw
  exact ⟨t, hw.textTo, Lexeme.fits_of_taken? ht, rfl⟩

/-- A lexeme fails where it takes nothing. -/
theorem Form.fails_lexeme {l : Lexeme} {w : List Char} (hw : TextFrom code p w) :
    (Form.lexeme l : Form ρ Res String).Fails code reader p ↔ l.taken? w = none := by
  rw [Fails, Form.read, Matcher.stop?, Lexeme.stop?_eq hw]
  cases l.taken? w with
  | none => exact ⟨fun _ => rfl, fun _ => ⟨p, rfl⟩⟩
  | some t =>
    constructor
    · intro hread
      obtain ⟨reach, h⟩ := hread
      cases h
    · intro h; cases h

/-! ## Repetitions -/

/-- A repetition matches items one after the other. -/
theorem Form.Matches.many {f : Form ρ Res α} {items : List α}
    (h : (Form.many f).Matches code reader p items q) : f.MatchesEach code reader p items q := by
  obtain ⟨reach, h⟩ := h
  rw [Form.read] at h
  generalize code.size + 1 = rounds at h
  induction rounds generalizing p items reach with
  | zero => cases h; exact .nil _
  | succ rounds ih =>
    rw [readMany] at h
    cases hx : f.read code reader p with
    | none => rw [hx] at h; cases h
    | some x =>
      rw [hx] at h
      cases x with
      | failed n => cases h; exact .nil _
      | error message => cases h
      | matched a m n =>
        dsimp only at h
        split at h
        · -- a match of nothing ends the repetition and is kept
          cases h; exact .cons ⟨_, hx⟩ (.nil _)
        · obtain ⟨y, hy, heq⟩ := Option.map_eq_some_iff.mp h
          obtain ⟨items', q', n', rfl⟩ | ⟨message, rfl⟩ := readMany_cases hy
          · cases heq
            exact .cons ⟨n, hx⟩ (ih n' hy)
          · cases heq

/-- Each result of a repetition is that of a match. -/
theorem Form.MatchesEach.forall_mem {f : Form ρ Res α} {P : α → Prop} {items : List α}
    (h : f.MatchesEach code reader p items q)
    (hP : ∀ p a q, f.Matches code reader p a q → P a) : ∀ a ∈ items, P a := by
  induction h with
  | nil => intro a ha; cases ha
  | cons head tail ih =>
    intro a ha
    rcases List.mem_cons.mp ha with rfl | ha
    · exact hP _ _ _ head
    · exact ih a ha

/-- What the base of a loop gives and each tail preserves holds of what the loop gives. -/
theorem Form.Matches.leftFold_induct {extend : α × τ → α} {base : Form ρ Res α}
    {tail : Form ρ Res τ} {P : α → Nat → Prop}
    (h : (Form.leftFold extend base tail).Matches code reader p a q)
    (hbase : ∀ b m, base.Matches code reader p b m → P b m)
    (htail : ∀ b m t m', P b m → tail.Matches code reader m t m' → P (extend (b, t)) m') :
    P a q := by
  obtain ⟨⟨b, tails⟩, hpair, rfl⟩ := Form.matches_map.mp h
  obtain ⟨m, hb, htails⟩ := Form.matches_pair.mp hpair
  have hP : P b m := hbase b m hb
  have heach := htails.many
  -- what is left is an induction along the matches of the tail
  clear h hpair hb htails
  dsimp only at heach ⊢
  induction heach generalizing b with
  | nil => exact hP
  | cons head _ ih => exact ih _ (htail b _ _ _ hP head)

end

end CalcScript.Packrat
