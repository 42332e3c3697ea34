import CalcScript.Proofs.Packrat.Matching

/-!
# Forms and the texts they match

`Form.Parses` says that a form matches a text wherever the text stands in a code with a given rest
behind it, `Form.Refuses` that it fails wherever a text stands. Both are put together along the
structure of the form, without any mention of positions. What stands behind a match matters: lexemes
and repetitions take as much as they can, and a choice keeps its first match.

> `Form.Repeats.parses`, `Form.Parses.leftFold`: what repetitions and loops make of the texts that
> their parts match one after the other.

`Form.Breaks` says that a form comes to an error where a text stands. An error in a part is one of
the whole, as soon as the part is come to.
-/

namespace CalcScript.Packrat

variable {ρ : Type} {Res : ρ → Type} {α β τ : Type}

/-- The form matches `t`, with a result, wherever `t` stands with `rest` behind it. -/
def Form.Parses (readers : Array Char → Reader ρ Res) (form : Form ρ Res α) (t rest : List Char)
    (a : α) : Prop :=
  ∀ code p, TextFrom code p (t ++ rest) → form.Matches code (readers code) p a (p + t.length)

/-- The form fails wherever `w` is what is left of the code. -/
def Form.Refuses (readers : Array Char → Reader ρ Res) (form : Form ρ Res α) (w : List Char) :
    Prop :=
  ∀ code p, TextFrom code p w → form.Fails code (readers code) p

/-- The form comes to an error wherever `w` is what is left of the code. -/
def Form.Breaks (readers : Array Char → Reader ρ Res) (form : Form ρ Res α) (w : List Char)
    (message : String) : Prop :=
  ∀ code p, TextFrom code p w → form.read code (readers code) p = some (.error message)

/-- The form matches parts of a text one after the other and fails behind the last. -/
inductive Form.Repeats (readers : Array Char → Reader ρ Res) (form : Form ρ Res α) :
    List Char → List Char → List α → Prop where
  | stop {rest : List Char} (h : form.Refuses readers rest) : Repeats readers form [] rest []
  | next {t t' rest : List Char} {a : α} {items : List α} (hne : t ≠ [])
      (head : form.Parses readers t (t' ++ rest) a) (tail : Repeats readers form t' rest items) :
      Repeats readers form (t ++ t') rest (a :: items)

/-- Tails of a loop, matched one after the other, lead from the result `x` to the result `a`. -/
def Form.Continues (readers : Array Char → Reader ρ Res) (extend : α × τ → α)
    (tail : Form ρ Res τ) (x : α) (t rest : List Char) (a : α) : Prop :=
  ∃ items, tail.Repeats readers t rest items ∧ items.foldl (fun a t => extend (a, t)) x = a

namespace Form

variable {readers : Array Char → Reader ρ Res} {f : Form ρ Res α} {g : Form ρ Res β}
  {t t' w rest : List Char} {a : α} {b : β}

/-! ## Lexemes -/

/-- A lexeme is matched where it takes the text. -/
theorem Parses.lexeme {l : Lexeme} (h : l.taken? (t ++ rest) = some t) :
    (Form.lexeme l : Form ρ Res String).Parses readers t rest (String.ofList t) :=
  fun _ _ hw => (matches_lexeme hw).mpr ⟨t, h, rfl, rfl⟩

/-- It fails where it takes none. -/
theorem Refuses.lexeme {l : Lexeme} (h : l.taken? w = none) :
    (Form.lexeme l : Form ρ Res String).Refuses readers w :=
  fun _ _ hw => (fails_lexeme hw).mpr h

/-- A character is matched where it stands. -/
theorem Parses.char {c : Char} :
    (Form.char c : Form ρ Res String).Parses readers [c] rest (String.ofList [c]) := by
  refine Parses.lexeme ?_
  rw [Lexeme.taken?_singleton]
  exact Piece.taken?_one (decide_eq_true rfl)

/-- It fails where another one stands, or none. -/
theorem Refuses.char {c : Char} (h : w.head? ≠ some c) :
    (Form.char c : Form ρ Res String).Refuses readers w := by
  refine Refuses.lexeme ?_
  rw [Lexeme.taken?_singleton]
  refine Piece.taken?_one_eq_none fun d hd => decide_eq_false fun hdc => h ?_
  rw [hd, hdc]

/-- A fixed text is matched where it stands. -/
theorem Parses.text {s : String} :
    (Form.text s : Form ρ Res String).Parses readers s.toList rest s := by
  have h : (Form.text s : Form ρ Res String).Parses readers s.toList rest
      (String.ofList s.toList) := Parses.lexeme (Lexeme.taken?_ofText _ _)
  rw [String.ofList_toList] at h
  exact h

/-- It fails where the text does not begin with it. -/
theorem Refuses.text {s : String} (h : ¬s.toList <+: w) :
    (Form.text s : Form ρ Res String).Refuses readers w :=
  Refuses.lexeme (Lexeme.taken?_ofText_eq_none h)

/-! ## Sequences -/

/-- Two forms one behind the other: the first matches with the text of the second in its rest. -/
theorem Parses.pair (hf : f.Parses readers t (t' ++ rest) a) (hg : g.Parses readers t' rest b) :
    (Form.pair f g).Parses readers (t ++ t') rest (a, b) := by
  intro code p hw
  rw [List.append_assoc] at hw
  refine matches_pair.mpr ⟨p + t.length, hf code p hw, ?_⟩
  rw [List.length_append, ← Nat.add_assoc]
  exact hg code _ hw.drop

/-- A sequence fails where its first form fails. -/
theorem Refuses.pair (hf : f.Refuses readers w) : (Form.pair f g).Refuses readers w :=
  fun code p hw => fails_pair.mpr (Or.inl (hf code p hw))

/-- It fails as well if the second form fails behind a match of the first. -/
theorem Parses.pair_refuses (hf : f.Parses readers t rest a) (hg : g.Refuses readers rest) :
    (Form.pair f g).Refuses readers (t ++ rest) :=
  fun code p hw => fails_pair.mpr (Or.inr ⟨a, _, hf code p hw, hg code _ hw.drop⟩)

/-- A change of the result changes no match. -/
theorem Parses.map {h : α → β} (hf : f.Parses readers t rest a) :
    (Form.map h f).Parses readers t rest (h a) :=
  fun code p hw => matches_map.mpr ⟨a, hf code p hw, rfl⟩

theorem Refuses.map {h : α → β} (hf : f.Refuses readers w) : (Form.map h f).Refuses readers w :=
  fun code p hw => fails_map.mpr (hf code p hw)

/-- A result that can be refined is. -/
theorem Parses.refine {h : α → Option β} (hf : f.Parses readers t rest a) (hb : h a = some b) :
    (Form.refine h f).Parses readers t rest b :=
  fun code p hw => matches_refine.mpr ⟨a, hf code p hw, hb⟩

theorem Refuses.refine {h : α → Option β} (hf : f.Refuses readers w) :
    (Form.refine h f).Refuses readers w := by
  intro code p hw
  obtain ⟨n, hn⟩ := hf code p hw
  exact ⟨n, by rw [Form.read, hn]; rfl⟩

/-- A check that finds no error leaves the match as it is. -/
theorem Parses.checked {e : α → Option String} (hf : f.Parses readers t rest a) (he : e a = none) :
    (Form.checked e f).Parses readers t rest a :=
  fun code p hw => matches_checked.mpr ⟨hf code p hw, he⟩

theorem Refuses.checked {e : α → Option String} (hf : f.Refuses readers w) :
    (Form.checked e f).Refuses readers w :=
  fun code p hw => fails_checked.mpr (hf code p hw)

/-- A sequence that keeps the result of the second form. -/
theorem Parses.andThen (hf : f.Parses readers t (t' ++ rest) a) (hg : g.Parses readers t' rest b) :
    (f *> g).Parses readers (t ++ t') rest b :=
  (hf.pair hg).map

theorem Refuses.andThen (hf : f.Refuses readers w) : (f *> g).Refuses readers w :=
  hf.pair.map

/-- It fails if the second form fails behind the first. -/
theorem Parses.andThen_refuses (hf : f.Parses readers t rest a) (hg : g.Refuses readers rest) :
    (f *> g).Refuses readers (t ++ rest) :=
  (hf.pair_refuses hg).map

/-- A sequence that keeps the result of the first form. -/
theorem Parses.before (hf : f.Parses readers t (t' ++ rest) a) (hg : g.Parses readers t' rest b) :
    (f <* g).Parses readers (t ++ t') rest a :=
  (hf.pair hg).map

/-- A form behind another that takes nothing. -/
theorem Parses.andThen_nil (hf : f.Parses readers t rest a) (hg : g.Parses readers [] rest b) :
    (f *> g).Parses readers t rest b := by
  have h : (f *> g).Parses readers (t ++ []) rest b := .andThen hf hg
  rw [List.append_nil] at h
  exact h

/-- A form that takes nothing, in front of another. -/
theorem Parses.nil_andThen (hf : f.Parses readers [] (t ++ rest) a)
    (hg : g.Parses readers t rest b) : (f *> g).Parses readers t rest b :=
  .andThen hf hg

/-- A form that takes nothing, behind another whose result is kept. -/
theorem Parses.before_nil (hf : f.Parses readers t rest a) (hg : g.Parses readers [] rest b) :
    (f <* g).Parses readers t rest a := by
  have h : (f <* g).Parses readers (t ++ []) rest a := .before hf hg
  rw [List.append_nil] at h
  exact h

theorem Refuses.before (hf : f.Refuses readers w) : (f <* g).Refuses readers w :=
  hf.pair.map

/-! ## Choices -/

section

variable {f₁ f₂ : Form ρ Res α} {fs : List (Form ρ Res α)}

/-- A choice keeps the match of its first alternative. -/
theorem Parses.orElse_left (h : f₁.Parses readers t rest a) :
    (Form.orElse f₁ f₂).Parses readers t rest a :=
  fun code p hw => matches_orElse.mpr (Or.inl (h code p hw))

/-- It comes to the second where the first fails. -/
theorem Parses.orElse_right (h₁ : f₁.Refuses readers (t ++ rest))
    (h₂ : f₂.Parses readers t rest a) : (Form.orElse f₁ f₂).Parses readers t rest a :=
  fun code p hw => matches_orElse.mpr (Or.inr ⟨h₁ code p hw, h₂ code p hw⟩)

/-- The first of a list of alternatives is kept if it matches. -/
theorem Parses.first_head (h : f₁.Parses readers t rest a) :
    (Form.first (f₁ :: fs)).Parses readers t rest a :=
  h.orElse_left

/-- The others are come to where the first fails. -/
theorem Parses.first_tail (h₁ : f₁.Refuses readers (t ++ rest))
    (h : (Form.first fs).Parses readers t rest a) :
    (Form.first (f₁ :: fs)).Parses readers t rest a :=
  .orElse_right h₁ h

/-- A choice fails where all its alternatives fail. -/
theorem Refuses.first (h : ∀ f ∈ fs, f.Refuses readers w) :
    (Form.first fs).Refuses readers w := by
  induction fs with
  | nil => exact fun code p _ => fails_fail
  | cons f₁ fs ih =>
    intro code p hw
    have hfs := ih fun f hf => h f (List.mem_cons_of_mem f₁ hf)
    exact fails_orElse.mpr ⟨h f₁ List.mem_cons_self code p hw, hfs code p hw⟩

end

/-- An optional form takes what the form matches. -/
theorem Parses.optional (h : f.Parses readers t rest a) :
    (Form.optional f).Parses readers t rest (some a) :=
  fun code p hw => matches_optional.mpr (Or.inl ⟨a, h code p hw, rfl⟩)

/-- It takes nothing where the form fails. -/
theorem Refuses.optional (h : f.Refuses readers rest) :
    (Form.optional f).Parses readers [] rest none :=
  fun code p hw => matches_optional.mpr (Or.inr ⟨h code p hw, rfl, rfl⟩)

/-! ## Repetitions and loops -/

/-- A repetition takes fewer rounds than the text that it matches has characters. -/
theorem Repeats.length_le {items : List α} (h : f.Repeats readers t rest items) :
    items.length ≤ t.length := by
  induction h with
  | stop _ => exact Nat.le_refl 0
  | next hne _ _ ih =>
    have hpos := List.length_pos_iff.mpr hne
    rw [List.length_cons, List.length_append]
    omega

/-- A repetition matches the parts that its form matches one after the other. -/
theorem Repeats.parses {items : List α} (h : f.Repeats readers t rest items) :
    (Form.many f).Parses readers t rest items := by
  intro code p hw
  -- no part is empty, so there are more rounds than parts
  have hlen : items.length < code.size + 1 := by
    have hle := h.length_le
    have hsize := congrArg List.length hw
    rw [List.length_drop, Array.length_toList, List.length_append] at hsize
    omega
  rw [Matches, Form.read]
  generalize code.size + 1 = rounds at hlen
  induction h generalizing p rounds with
  | stop hstop =>
    obtain ⟨n, hn⟩ := hstop code p hw
    cases rounds with
    | zero => cases hlen
    | succ rounds => exact ⟨n, by rw [readMany, hn]; rfl⟩
  | @next t t' rest a items hne head _ ih =>
    rw [List.append_assoc] at hw
    obtain ⟨n, hn⟩ := head code p hw
    cases rounds with
    | zero => cases hlen
    | succ rounds =>
      have hmoved : p + t.length ≠ p := by
        have hpos := List.length_pos_iff.mpr hne
        omega
      obtain ⟨k, hk⟩ := ih (p + t.length) hw.drop rounds (Nat.lt_of_succ_lt_succ hlen)
      refine ⟨max n k, ?_⟩
      rw [readMany, hn]
      dsimp only
      rw [if_neg hmoved, hk, List.length_append, ← Nat.add_assoc]
      rfl

section

variable {extend : α × τ → α} {base : Form ρ Res α} {tail : Form ρ Res τ} {x : α} {y : τ}

/-- A loop ends where no tail is matched. -/
theorem Continues.stop (h : tail.Refuses readers rest) :
    Continues readers extend tail x [] rest x :=
  ⟨[], .stop h, rfl⟩

/-- It goes on with a tail that is matched and not empty. -/
theorem Continues.next (hne : t ≠ []) (h : tail.Parses readers t (t' ++ rest) y)
    (h' : Continues readers extend tail (extend (x, y)) t' rest a) :
    Continues readers extend tail x (t ++ t') rest a := by
  obtain ⟨items, hitems, rfl⟩ := h'
  exact ⟨y :: items, .next hne h hitems, rfl⟩

/-- A loop matches what its base matches and then what its tails match. -/
theorem Parses.leftFold (h : base.Parses readers t (t' ++ rest) x)
    (h' : Continues readers extend tail x t' rest a) :
    (Form.leftFold extend base tail).Parses readers (t ++ t') rest a := by
  obtain ⟨items, hitems, rfl⟩ := h'
  exact (h.pair hitems.parses).map

/-- The form matches `w` with whatever tails continue the result `x` behind it, where `closes` says
of what stands behind `w` that it does not go on with the last part of `w`. -/
def ParsesOpen (readers : Array Char → Reader ρ Res) (form : Form ρ Res α) (extend : α × τ → α)
    (tail : Form ρ Res τ) (closes : List Char → Prop) (w : List Char) (x : α) : Prop :=
  ∀ t rest a, closes (t ++ rest) → Continues readers extend tail x t rest a →
    form.Parses readers (w ++ t) rest a

/-- A loop may go on behind its base. -/
theorem ParsesOpen.ofBase {closes : List Char → Prop}
    (h : ∀ rest, closes rest → base.Parses readers w rest x) :
    (Form.leftFold extend base tail).ParsesOpen readers extend tail closes w x :=
  fun _ _ _ hcloses hcont => .leftFold (h _ hcloses) hcont

/-- A tail behind a text that may be continued gives such a text again. -/
theorem ParsesOpen.extended {closes : List Char → Prop}
    (h : f.ParsesOpen readers extend tail closes w x) (hne : t ≠ [])
    (hcloses : ∀ rest, closes (t ++ rest))
    (htail : ∀ rest, closes rest → tail.Parses readers t rest y) :
    f.ParsesOpen readers extend tail closes (w ++ t) (extend (x, y)) := by
  intro t' rest a hrest hcont
  rw [List.append_assoc]
  refine h (t ++ t') rest a ?_ (.next hne (htail _ hrest) hcont)
  rw [List.append_assoc]
  exact hcloses (t' ++ rest)

/-- Where no tail follows, the text is matched as it stands. -/
theorem ParsesOpen.parses {closes : List Char → Prop}
    (h : f.ParsesOpen readers extend tail closes w x) (hrest : closes rest)
    (htail : tail.Refuses readers rest) : f.Parses readers w rest x := by
  have hparses := h [] rest x hrest (.stop htail)
  rw [List.append_nil] at hparses
  exact hparses

/-- A loop fails where its base fails. -/
theorem Refuses.leftFold (h : base.Refuses readers w) :
    (Form.leftFold extend base tail).Refuses readers w :=
  h.pair.map

end

/-! ## Errors -/

section

variable {message : String} {f₁ : Form ρ Res α} {fs : List (Form ρ Res α)}

/-- A check that finds an error in what has been matched. -/
theorem Parses.checked_breaks {e : α → Option String} (hf : f.Parses readers t rest a)
    (he : e a = some message) : (Form.checked e f).Breaks readers (t ++ rest) message := by
  intro code p hw
  obtain ⟨n, hn⟩ := hf code p hw
  rw [Form.read, hn, Reading.andThen_matched, he]
  rfl

/-- Results are not changed before there are any. -/
theorem Breaks.refine {h : α → Option β} (hf : f.Breaks readers w message) :
    (Form.refine h f).Breaks readers w message := by
  intro code p hw
  rw [Form.read, hf code p hw]
  rfl

theorem Breaks.map {h : α → β} (hf : f.Breaks readers w message) :
    (Form.map h f).Breaks readers w message := by
  intro code p hw
  rw [Form.read, hf code p hw]
  rfl

/-- An error in the first form of a sequence. -/
theorem Breaks.pair (hf : f.Breaks readers w message) :
    (Form.pair f g).Breaks readers w message := by
  intro code p hw
  rw [Form.read, hf code p hw]
  rfl

/-- An error in the second form of a sequence, behind a match of the first. -/
theorem Parses.pair_breaks (hf : f.Parses readers t rest a) (hg : g.Breaks readers rest message) :
    (Form.pair f g).Breaks readers (t ++ rest) message := by
  intro code p hw
  obtain ⟨n, hn⟩ := hf code p hw
  rw [Form.read, hn, Reading.andThen_matched, hg code _ hw.drop]
  rfl

theorem Breaks.before (hf : f.Breaks readers w message) : (f <* g).Breaks readers w message :=
  hf.pair.map

/-- An error behind a form that takes nothing. -/
theorem Parses.nil_andThen_breaks (hf : f.Parses readers [] rest a)
    (hg : g.Breaks readers rest message) : (f *> g).Breaks readers rest message :=
  (hf.pair_breaks hg).map

/-- An error is no failure: the other alternatives are not tried. -/
theorem Breaks.first_head (h : f₁.Breaks readers w message) :
    (Form.first (f₁ :: fs)).Breaks readers w message := by
  intro code p hw
  show Form.read code (readers code) (.orElse f₁ (Form.first fs)) p = _
  rw [Form.read, h code p hw]
  rfl

/-- An alternative is come to where the one before it fails. -/
theorem Breaks.first_tail (h₁ : f₁.Refuses readers w)
    (h : (Form.first fs).Breaks readers w message) :
    (Form.first (f₁ :: fs)).Breaks readers w message := by
  intro code p hw
  obtain ⟨n, hn⟩ := h₁ code p hw
  show Form.read code (readers code) (.orElse f₁ (Form.first fs)) p = _
  rw [Form.read, hn, h code p hw]
  rfl

/-- An error in the first round of a repetition. -/
theorem Breaks.many (h : f.Breaks readers w message) : (Form.many f).Breaks readers w message := by
  intro code p hw
  rw [Form.read, readMany, h code p hw]

end

/-! ## Whole codes -/

/-- A form that matches a text matches the code that is this text, to its end. -/
theorem Parses.whole (h : f.Parses readers t [] a) :
    (f <* .endOfInput).Matches t.toArray (readers t.toArray) 0 a t.length := by
  have hw : TextFrom t.toArray 0 (t ++ []) := (List.append_nil t).symm
  have hmatch := h t.toArray 0 hw
  rw [Nat.zero_add] at hmatch
  refine matches_before.mpr ⟨(), t.length, hmatch, 0, ?_⟩
  rw [Form.read, if_pos List.size_toArray.symm]

end Form

/-! ## Rule calls in layered grammars -/

section

variable {H : Grammar ρ Res} {L : Layers ρ} {r : ρ} {t w rest : List Char} {a : Res r}

/-- A call of a rule matches what the form of the rule matches. -/
theorem Form.Parses.call (hH : H.Layered L)
    (h : (H r).form.Parses (fun code => H.reader code L.height) t rest a) :
    (Form.call r).Parses (fun code => H.reader code L.height) t rest a := by
  intro code p hw
  obtain ⟨n, hn⟩ := h code p hw
  exact ⟨n, (Grammar.reader_eq hH r p).trans hn⟩

/-- A call of a rule may go on where the form of the rule may. -/
theorem Form.ParsesOpen.call {extend : Res r × τ → Res r} {tail : Form ρ Res τ}
    {closes : List Char → Prop} (hH : H.Layered L)
    (h : (H r).form.ParsesOpen (fun code => H.reader code L.height) extend tail closes w a) :
    (Form.call r).ParsesOpen (fun code => H.reader code L.height) extend tail closes w a :=
  fun t rest b hrest hcont => (h t rest b hrest hcont).call hH

/-- A call of a rule fails where the form of the rule fails. -/
theorem Form.Refuses.call (hH : H.Layered L)
    (h : (H r).form.Refuses (fun code => H.reader code L.height) w) :
    (Form.call r).Refuses (fun code => H.reader code L.height) w := by
  intro code p hw
  obtain ⟨n, hn⟩ := h code p hw
  exact ⟨n, (Grammar.reader_eq hH r p).trans hn⟩

/-- It comes to the errors of the form. -/
theorem Form.Breaks.call {message : String} (hH : H.Layered L)
    (h : (H r).form.Breaks (fun code => H.reader code L.height) w message) :
    (Form.call r).Breaks (fun code => H.reader code L.height) w message :=
  fun code p hw => (Grammar.reader_eq hH r p).trans (h code p hw)

end

end CalcScript.Packrat
