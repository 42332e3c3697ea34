import CalcScript.Proofs.Packrat.Budget
import CalcScript.Proofs.Packrat.Layers

/-!
# Runs that follow readings

A run with a memo table and a reading without one are compared through what the table says. A table
is sound for a region of calls if each entry for a call of the region tells what the call is read
as, with all failures of that reading counted already (`Progress.Sound`). A run follows a reading if
it ends alike, counts the failures of the reading and no others, leaves a table that is sound for
the region, and changes no entry outside of it (`Outcome.Follows`, `Progress.Tracks`).

> `Form.run_follows`: if the answers to calls follow readings of calls, runs of forms follow
> readings of forms.
-/

namespace CalcScript.Packrat

variable {ρ : Type} {Res : ρ → Type} {α β : Type}

/-! ## Outcomes that agree with readings -/

/-- The outcome is what a reading says, and the state behind it is as required for its reach. -/
def Outcome.Agrees (after : Progress ρ Res → Nat → Prop) :
    Outcome (Progress ρ Res) α → Reading α → Prop
  | .matched a s, .matched b stop reach => a = b ∧ s.pos = stop ∧ after s reach
  | .failed s, .failed reach => after s reach
  | .stopped cause _, .error message => cause = .error message
  | _, _ => False

/-- The outcome is what a reading says, if there is one. If there is none, an exact outcome is that
calls are nested too deeply. -/
def Outcome.Follows (exact : Prop) (after : Progress ρ Res → Nat → Prop)
    (o : Outcome (Progress ρ Res) α) : Option (Reading α) → Prop
  | none => exact → ¬o.Decided
  | some rd => o.Agrees after rd

section Follows

variable {exact : Prop} {after after' : Progress ρ Res → Nat → Prop}

/-- What is not decided is too deep. -/
theorem Outcome.eq_tooDeep {σ : Type} {o : Outcome σ α} (h : ¬o.Decided) :
    ∃ s, o = .stopped .tooDeep s := by
  cases o with
  | matched a s => exact absurd trivial h
  | failed s => exact absurd trivial h
  | stopped c s => exact ⟨s, congrArg (Outcome.stopped · s) (Decidable.of_not_not h)⟩

/-- An outcome that agrees with a reading is decided. -/
theorem Outcome.Agrees.decided {o : Outcome (Progress ρ Res) α} {rd : Reading α}
    (h : o.Agrees after rd) : o.Decided := by
  cases o with
  | matched a s => trivial
  | failed s => trivial
  | stopped c s =>
    cases rd with
    | error message => rw [show c = .error message from h]; exact Stop.noConfusion
    | _ => exact h.elim

/-- A reading that is a match makes the outcome one, with the same result and end. -/
theorem Outcome.Agrees.eq_matched {o : Outcome (Progress ρ Res) α} {a : α} {stop reach : Nat}
    (h : o.Agrees after (.matched a stop reach)) :
    ∃ s, o = .matched a s ∧ s.pos = stop ∧ after s reach := by
  cases o with
  | matched b s => obtain ⟨rfl, hpos, hs⟩ := h; exact ⟨s, rfl, hpos, hs⟩
  | failed s => exact h.elim
  | stopped c s => exact h.elim

/-- A failure makes it a failure. -/
theorem Outcome.Agrees.eq_failed {o : Outcome (Progress ρ Res) α} {reach : Nat}
    (h : o.Agrees after (.failed reach)) : ∃ s, o = .failed s ∧ after s reach := by
  cases o with
  | matched b s => exact h.elim
  | failed s => exact ⟨s, rfl, h⟩
  | stopped c s => exact h.elim

/-- An error makes it an error. -/
theorem Outcome.Agrees.eq_error {o : Outcome (Progress ρ Res) α} {message : String}
    (h : o.Agrees after (.error message)) : ∃ s, o = .stopped (.error message) s := by
  cases o with
  | matched b s => exact h.elim
  | failed s => exact h.elim
  | stopped c s => exact ⟨s, congrArg (Outcome.stopped · s) h⟩

/-- Less may be said of the progress. -/
theorem Outcome.Agrees.imp {o : Outcome (Progress ρ Res) α} {rd : Reading α}
    (himp : ∀ s n, after s n → after' s n) (h : o.Agrees after rd) : o.Agrees after' rd := by
  cases rd with
  | matched a stop reach =>
    obtain ⟨s, rfl, hpos, hs⟩ := h.eq_matched
    exact ⟨rfl, hpos, himp s reach hs⟩
  | failed reach =>
    obtain ⟨s, rfl, hs⟩ := h.eq_failed
    exact himp s reach hs
  | error message =>
    obtain ⟨s, rfl⟩ := h.eq_error
    rfl

/-- Failures up to `m` that went before are counted into the reading. -/
theorem Outcome.Agrees.count {o : Outcome (Progress ρ Res) α} {rd : Reading α} {m : Nat}
    (himp : ∀ s n, after s n → after' s (max m n)) (h : o.Agrees after rd) :
    o.Agrees after' (rd.after m) := by
  cases rd with
  | matched a stop reach =>
    obtain ⟨s, rfl, hpos, hs⟩ := h.eq_matched
    exact ⟨rfl, hpos, himp s reach hs⟩
  | failed reach =>
    obtain ⟨s, rfl, hs⟩ := h.eq_failed
    exact himp s reach hs
  | error message =>
    obtain ⟨s, rfl⟩ := h.eq_error
    rfl

/-- The same for outcomes that follow a reading. -/
theorem Outcome.Follows.imp {o : Outcome (Progress ρ Res) α} {x : Option (Reading α)}
    (himp : ∀ s n, after s n → after' s n) (h : o.Follows exact after x) :
    o.Follows exact after' x := by
  cases x with
  | none => exact h
  | some rd => exact Outcome.Agrees.imp himp h

end Follows

variable [DecidableEq ρ]

/-! ## Sound tables -/

/-- The entry tells a reading of its call, and the failures of that reading are counted. -/
def Entry.Tells (reads : Reading α → Prop) (furthest : Nat) : Entry α → Prop
  | .failed => ∃ reach, reads (.failed reach) ∧ reach ≤ furthest
  | .matched a stop => ∃ reach, reads (.matched a stop reach) ∧ reach ≤ furthest

/-- Every entry for a call of the region tells a reading of the call. -/
def Progress.Sound (H : Grammar ρ Res) (code : Array Char) (region : ρ → Nat → Prop)
    (s : Progress ρ Res) : Prop :=
  ∀ r q entry, region r q → s.memo.find? r q = some entry →
    entry.Tells (H.Reads code r q) s.furthest

/-- From `s` to `s'` failures up to `reach` are counted and entries of the region are made. -/
structure Progress.Tracks (H : Grammar ρ Res) (code : Array Char) (region : ρ → Nat → Prop)
    (s s' : Progress ρ Res) (reach : Nat) : Prop where
  furthest : s'.furthest = max s.furthest reach
  sound : s'.Sound H code region
  kept : ∀ r q, ¬region r q → s'.memo.find? r q = s.memo.find? r q

section Tracks

variable {H : Grammar ρ Res} {code : Array Char} {region region' : ρ → Nat → Prop}
  {s s' s'' : Progress ρ Res} {n m : Nat}

/-- What an entry tells up to a position, it tells further on. -/
theorem Entry.Tells.mono {reads : Reading α → Prop} {entry : Entry α} (hle : n ≤ m)
    (h : entry.Tells reads n) : entry.Tells reads m := by
  cases entry with
  | failed =>
    obtain ⟨reach, hreads, hreach⟩ := h
    exact ⟨reach, hreads, Nat.le_trans hreach hle⟩
  | matched a stop =>
    obtain ⟨reach, hreads, hreach⟩ := h
    exact ⟨reach, hreads, Nat.le_trans hreach hle⟩

/-- Soundness speaks of the entries and of the failures that are counted, and of nothing else. -/
theorem Progress.Sound.congr (h : s.Sound H code region) (hle : s.furthest ≤ s'.furthest)
    (hmemo : ∀ r q, region r q → s'.memo.find? r q = s.memo.find? r q) :
    s'.Sound H code region :=
  fun r q entry hreg hfind => (h r q entry hreg (hmemo r q hreg ▸ hfind)).mono hle

/-- Progress that is sound is so for fewer entries. -/
theorem Progress.Sound.subset (h : s.Sound H code region)
    (hsub : ∀ r q, region' r q → region r q) : s.Sound H code region' :=
  fun r q entry hreg hfind => h r q entry (hsub r q hreg) hfind

/-- Progress tracks itself, with no failure. -/
theorem Progress.Tracks.refl (h : s.Sound H code region) :
    Progress.Tracks H code region s s 0 :=
  ⟨(Nat.max_zero _).symm, h, fun _ _ _ => rfl⟩

/-- Tracking goes on, with the further of the two failures. -/
theorem Progress.Tracks.trans (h : Progress.Tracks H code region s s' n)
    (h' : Progress.Tracks H code region s' s'' m) :
    Progress.Tracks H code region s s'' (max n m) :=
  ⟨by rw [h'.furthest, h.furthest, Nat.max_assoc], h'.sound,
    fun r q hreg => (h'.kept r q hreg).trans (h.kept r q hreg)⟩

/-- Going elsewhere afterwards changes nothing that is tracked. -/
theorem Progress.Tracks.goTo (h : Progress.Tracks H code region s s' n) (pos : Nat) :
    Progress.Tracks H code region s (s'.goTo pos) n :=
  ⟨h.furthest, h.sound, h.kept⟩

/-- A failure at a position is counted. -/
theorem Progress.Tracks.failAt (h : Progress.Tracks H code region s s' n) :
    Progress.Tracks H code region s { s' with furthest := max s'.furthest s'.pos }
      (max n s'.pos) :=
  ⟨by rw [h.furthest, Nat.max_assoc], h.sound.congr (Nat.le_max_left _ _) fun _ _ _ => rfl,
    h.kept⟩

/-- What is tracked for a part of a sound region is tracked for the region. -/
theorem Progress.Tracks.widen (hs : s.Sound H code region)
    (hsub : ∀ r q, region' r q → region r q) (h : Progress.Tracks H code region' s s' n) :
    Progress.Tracks H code region s s' n := by
  refine ⟨h.furthest, fun r q entry hreg hfind => ?_, fun r q hreg => ?_⟩
  · -- an entry of the part is one of the new ones, any other was there before
    by_cases hreg' : region' r q
    · exact h.sound r q entry hreg' hfind
    · rw [h.kept r q hreg'] at hfind
      exact (hs r q entry hreg hfind).mono (by rw [h.furthest]; exact Nat.le_max_left _ _)
  · exact h.kept r q (fun hreg' => hreg (hsub r q hreg'))

end Tracks

/-! ## Forms -/

section Forms

variable {H : Grammar ρ Res} {code : Array Char} {region : ρ → Nat → Prop} {exact : Prop}

/-- Going on after a match follows going on with a reading. -/
theorem Outcome.Follows.andThen {s : Progress ρ Res} {o : Outcome (Progress ρ Res) α}
    {x : Option (Reading α)}
    {next : α → Progress ρ Res → Outcome (Progress ρ Res) β}
    {read : α → Nat → Option (Reading β)}
    (ho : o.Follows exact (Progress.Tracks H code region s) x)
    (hnext : ∀ a s' reach, x = some (.matched a s'.pos reach) →
      Progress.Tracks H code region s s' reach →
      (next a s').Follows exact (Progress.Tracks H code region s') (read a s'.pos)) :
    (o.andThen next).Follows exact (Progress.Tracks H code region s) (Reading.andThen x read) := by
  cases x with
  | none =>
    intro he
    obtain ⟨s', rfl⟩ := Outcome.eq_tooDeep (ho he)
    exact fun h => h rfl
  | some rd =>
    cases rd with
    | error message =>
      obtain ⟨s', rfl⟩ := Outcome.Agrees.eq_error ho
      rfl
    | failed reach =>
      obtain ⟨s', rfl, hs⟩ := Outcome.Agrees.eq_failed ho
      exact hs
    | matched a stop reach =>
      obtain ⟨s', rfl, rfl, hs⟩ := Outcome.Agrees.eq_matched ho
      have hn := hnext a s' reach rfl hs
      rw [Reading.andThen_matched, andThen_matched]
      cases hx : read a s'.pos with
      | none => rw [hx] at hn; exact hn
      | some rd => rw [hx] at hn; exact Outcome.Agrees.count (fun _ _ => hs.trans) hn

/-- A failure counts where progress stands. -/
theorem Progress.fail_follows {s : Progress ρ Res} (hs : s.Sound H code region) :
    (s.fail : Outcome (Progress ρ Res) α).Follows exact (Progress.Tracks H code region s)
      (some (.failed s.pos)) :=
  ⟨rfl, hs.congr (Nat.le_max_left _ _) fun _ _ _ => rfl, fun _ _ _ => rfl⟩

/-- A repetition follows its reading: by induction on the rounds. -/
theorem repeatStep_follows {step : Progress ρ Res → Outcome (Progress ρ Res) α}
    {read : Nat → Option (Reading α)} {start : Nat}
    (hstep : ∀ s, start ≤ s.pos → s.Sound H code region →
      (step s).Follows exact (Progress.Tracks H code region s) (read s.pos))
    (hle : ∀ pos a stop reach, read pos = some (.matched a stop reach) → pos ≤ stop) :
    ∀ (rounds : Nat) (items : List α) (s : Progress ρ Res), start ≤ s.pos →
      s.Sound H code region →
      (repeatStep step rounds items s).Follows exact (Progress.Tracks H code region s)
        ((readMany read rounds s.pos).map (Reading.map (items.reverse ++ ·))) := by
  intro rounds
  induction rounds with
  | zero => intro items s _ hs; exact ⟨(List.append_nil _).symm, rfl, .refl hs⟩
  | succ rounds ih =>
    intro items s hpos hs
    have ho := hstep s hpos hs
    rw [repeatStep, readMany]
    cases hx : read s.pos with
    | none =>
      rw [hx] at ho
      intro he
      obtain ⟨s', h⟩ := Outcome.eq_tooDeep (ho he)
      rw [h]
      exact fun h => h rfl
    | some rd =>
      rw [hx] at ho
      cases rd with
      | error message =>
        obtain ⟨s', h⟩ := Outcome.Agrees.eq_error ho
        rw [h]
        rfl
      | failed reach =>
        obtain ⟨s', h, hs'⟩ := Outcome.Agrees.eq_failed ho
        rw [h]
        exact ⟨(List.append_nil _).symm, rfl, hs'.goTo _⟩
      | matched a stop reach =>
        obtain ⟨s', h, rfl, hs'⟩ := Outcome.Agrees.eq_matched ho
        rw [h]
        dsimp only
        by_cases hp : s'.pos = s.pos
        · rw [if_pos hp, if_pos hp]
          exact ⟨List.reverse_cons, rfl, hs'⟩
        · rw [if_neg hp, if_neg hp]
          -- the next round starts behind this one, with one item more put by
          have hrest := ih (a :: items) s' (Nat.le_trans hpos (hle _ _ _ _ hx)) hs'.sound
          cases hy : readMany read rounds s'.pos with
          | none => rw [hy] at hrest; exact hrest
          | some rest =>
            rw [hy] at hrest
            have hcount : (repeatStep step rounds (a :: items) s').Agrees
                (Progress.Tracks H code region s)
                ((rest.map ((a :: items).reverse ++ ·)).after reach) :=
              Outcome.Agrees.count (fun _ _ => hs'.trans) hrest
            rw [List.reverse_cons] at hcount
            cases rest with
            | failed n => exact hcount
            | error message => exact hcount
            | matched as stop n =>
              simp only [Reading.map, List.append_assoc, List.singleton_append] at hcount
              exact hcount

/-- A choice follows the choice between readings of its two forms. -/
theorem Form.orElse_follows {calls : Calls ρ Res} {f g : Form ρ Res α} {s : Progress ρ Res}
    {x y : Option (Reading α)}
    (hf : (f.run code calls s).Follows exact (Progress.Tracks H code region s) x)
    (hg : ∀ s₁ : Progress ρ Res, s₁.pos = s.pos → s₁.Sound H code region →
      (g.run code calls s₁).Follows exact (Progress.Tracks H code region s₁) y) :
    ((Form.orElse f g).run code calls s).Follows exact (Progress.Tracks H code region s)
      (Reading.orElse s.pos x y) := by
  rw [Form.run]
  cases x with
  | none =>
    intro he
    obtain ⟨s', h⟩ := Outcome.eq_tooDeep (hf he)
    rw [h]
    exact fun h => h rfl
  | some rd =>
    cases rd with
    | error message =>
      obtain ⟨s', h⟩ := Outcome.Agrees.eq_error hf
      rw [h]
      rfl
    | matched a stop reach =>
      obtain ⟨s', h, rfl, hs'⟩ := Outcome.Agrees.eq_matched hf
      rw [h]
      exact ⟨rfl, rfl, hs'⟩
    | failed reach =>
      obtain ⟨s₁, h, hs₁⟩ := Outcome.Agrees.eq_failed hf
      rw [h]
      -- the second form starts where the first did, its failures counted and its entries kept
      have hg := hg (s₁.goTo s.pos) rfl (hs₁.goTo _).sound
      dsimp only
      cases y with
      | none =>
        intro he
        obtain ⟨s', h'⟩ := Outcome.eq_tooDeep (hg he)
        rw [h']
        exact fun h => h rfl
      | some rd =>
        cases rd with
        | error message =>
          obtain ⟨s', h'⟩ := Outcome.Agrees.eq_error hg
          rw [h']
          rfl
        | matched b stop reach' =>
          obtain ⟨s', h', rfl, hs'⟩ := Outcome.Agrees.eq_matched hg
          rw [h']
          exact ⟨rfl, rfl, (hs₁.goTo s.pos).trans hs'⟩
        | failed reach' =>
          obtain ⟨s', h', hs'⟩ := Outcome.Agrees.eq_failed hg
          rw [h']
          exact (hs₁.goTo s.pos).trans (hs'.goTo s.pos).failAt

/-- A run of a form follows the reading of the form if the answers to the calls it may make follow
readings of the calls. -/
theorem Form.run_follows {calls : Calls ρ Res} {reader : Reader ρ Res} {L : Layers ρ}
    {pos k : Nat} (hr : reader.Advances code.size L.takes)
    (hcalls : ∀ r s, L.Beyond pos k r s.pos → s.Sound H code region →
      (calls r s).Follows exact (Progress.Tracks H code region s) (reader r s.pos))
    (form : Form ρ Res α) :
    ∀ s, form.StartsBeyond L pos k s.pos → s.Sound H code region →
      (form.run code calls s).Follows exact (Progress.Tracks H code region s)
        (form.read code reader s.pos) := by
  induction form with
  | pattern m =>
    intro s _ hs
    rw [Form.run, Form.read]
    cases m.stop? code s.pos with
    | none => exact Progress.fail_follows hs
    | some stop => exact ⟨rfl, rfl, (Progress.Tracks.refl hs).goTo _⟩
  | endOfInput =>
    intro s _ hs
    rw [Form.run, Form.read]
    by_cases he : s.pos = code.size
    · rw [if_pos he, if_pos he]; exact ⟨rfl, rfl, .refl hs⟩
    · rw [if_neg he, if_neg he]; exact Progress.fail_follows hs
  | skip a => intro s _ hs; exact ⟨rfl, rfl, .refl hs⟩
  | fail => intro s _ hs; exact Progress.fail_follows hs
  | pair f g ihf ihg =>
    intro s hb hs
    refine (ihf s hb.left hs).andThen fun a s' reach hx hs' => ?_
    -- the second part starts where the first has stopped, which is not before it started
    have hg := hb.right (Form.read_advances hr f _ _ hx)
    exact (ihg s' hg hs'.sound).andThen fun b s'' _ _ hs'' => ⟨rfl, rfl, .refl hs''.sound⟩
  | map k f ih =>
    intro s hb hs
    exact (ih s hb hs).andThen fun a s' _ _ hs' => ⟨rfl, rfl, .refl hs'.sound⟩
  | refine k f ih =>
    intro s hb hs
    refine (ih s hb hs).andThen fun a s' _ _ hs' => ?_
    cases k a with
    | some b => exact ⟨rfl, rfl, .refl hs'.sound⟩
    | none => exact Progress.fail_follows hs'.sound
  | checked e f ih =>
    intro s hb hs
    refine (ih s hb hs).andThen fun a s' _ _ hs' => ?_
    cases e a with
    | some message => exact rfl
    | none => exact ⟨rfl, rfl, .refl hs'.sound⟩
  | orElse f g ihf ihg =>
    intro s hb hs
    exact Form.orElse_follows (ihf s hb.first hs)
      fun s₁ hpos hs₁ => hpos ▸ ihg s₁ (hpos ▸ hb.second) hs₁
  | optional f ih =>
    intro s hb hs
    have hf := ih s hb hs
    rw [Form.run, Form.read]
    cases hx : f.read code reader s.pos with
    | none =>
      rw [hx] at hf
      intro he
      obtain ⟨s', h⟩ := Outcome.eq_tooDeep (hf he)
      rw [h]
      exact fun h => h rfl
    | some rd =>
      rw [hx] at hf
      cases rd with
      | error message =>
        obtain ⟨s', h⟩ := Outcome.Agrees.eq_error hf
        rw [h]
        rfl
      | matched a stop reach =>
        obtain ⟨s', h, rfl, hs'⟩ := Outcome.Agrees.eq_matched hf
        rw [h]
        exact ⟨rfl, rfl, hs'⟩
      | failed reach =>
        obtain ⟨s', h, hs'⟩ := Outcome.Agrees.eq_failed hf
        rw [h]
        exact ⟨rfl, rfl, hs'.goTo _⟩
  | many f ih =>
    intro s hb hs
    have hmany := repeatStep_follows (fun s' hle hs' => ih s' (Form.StartsBeyond.later hb hle) hs')
      (fun p a stop reach hp => (Form.read_advances hr f p _ hp).1) (code.size + 1) [] s
      (Nat.le_refl _) hs
    rw [Form.run, Form.read]
    cases hx : readMany (f.read code reader) (code.size + 1) s.pos with
    | none => rw [hx] at hmany; exact hmany
    | some rd => rw [hx] at hmany; cases rd <;> exact hmany
  | call r => intro s hb hs; exact hcalls r s hb.call hs

end Forms

end CalcScript.Packrat
