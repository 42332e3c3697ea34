import CalcScript.Proofs.Packrat.Adequacy
import Mathlib.Data.Finset.Prod
import Mathlib.Data.Fintype.EquivFin
import Mathlib.Data.List.Chain
import Mathlib.Order.WellFounded

/-!
# Every attempt ends

Rules may call each other in cycles, also where they start and without taking anything.

> `Grammar.terminates`: if every cycle of calls goes through a growing rule, an attempt at any form
> ends, in a match or a failure, whatever has been attempted before on the same code.

A growing rule records its seed before its form runs, so each nested call of one leaves fewer rules
open, and between two such calls only finitely many others can be nested, since their calls have no
cycle. Loops are bounded by the code: every round but the last takes a character or lengthens a
match.
-/

namespace CalcScript.Packrat

variable {ρ : Type} {Res : ρ → Type} {α β : Type}

/-! ## Which rules call which -/

/-- A call of the rule stands somewhere in the form. -/
def Form.Mentions (r : ρ) : {α : Type} → Form ρ Res α → Prop
  | _, .pattern _ => False
  | _, .endOfInput => False
  | _, .skip _ => False
  | _, .fail => False
  | _, .pair f g => f.Mentions r ∨ g.Mentions r
  | _, .map _ f => f.Mentions r
  | _, .refine _ f => f.Mentions r
  | _, .checked _ f => f.Mentions r
  | _, .orElse f g => f.Mentions r ∨ g.Mentions r
  | _, .optional f => f.Mentions r
  | _, .many f => f.Mentions r
  | _, .call r' => r' = r

instance Form.decidableMentions [DecidableEq ρ] (r : ρ) :
    {α : Type} → (form : Form ρ Res α) → Decidable (form.Mentions r)
  | _, .pattern _ => inferInstanceAs (Decidable False)
  | _, .endOfInput => inferInstanceAs (Decidable False)
  | _, .skip _ => inferInstanceAs (Decidable False)
  | _, .fail => inferInstanceAs (Decidable False)
  | _, .pair f g =>
    have := f.decidableMentions r
    have := g.decidableMentions r
    inferInstanceAs (Decidable (f.Mentions r ∨ g.Mentions r))
  | _, .map _ f => f.decidableMentions r
  | _, .refine _ f => f.decidableMentions r
  | _, .checked _ f => f.decidableMentions r
  | _, .orElse f g =>
    have := f.decidableMentions r
    have := g.decidableMentions r
    inferInstanceAs (Decidable (f.Mentions r ∨ g.Mentions r))
  | _, .optional f => f.decidableMentions r
  | _, .many f => f.decidableMentions r
  | _, .call r' => inferInstanceAs (Decidable (r' = r))

/-- No result in the form is checked for errors. -/
def Form.unchecked : {α : Type} → Form ρ Res α → Bool
  | _, .pattern _ => true
  | _, .endOfInput => true
  | _, .skip _ => true
  | _, .fail => true
  | _, .pair f g => f.unchecked && g.unchecked
  | _, .map _ f => f.unchecked
  | _, .refine _ f => f.unchecked
  | _, .checked _ _ => false
  | _, .orElse f g => f.unchecked && g.unchecked
  | _, .optional f => f.unchecked
  | _, .many f => f.unchecked
  | _, .call _ => true

namespace Grammar

variable {G : Grammar ρ Res}

/-- No rule checks a result for errors. -/
def Unchecked (G : Grammar ρ Res) : Prop := ∀ r, (G r).form.unchecked = true

/-- The form of the first rule mentions the second. -/
def Mentions (G : Grammar ρ Res) (r r' : ρ) : Prop := (G r).form.Mentions r'

/-- Every cycle of calls goes through a growing rule. -/
def CyclesGrow (G : Grammar ρ Res) : Prop :=
  ∀ r rs, List.IsChain G.Mentions (r :: rs ++ [r]) → ∃ r' ∈ r :: rs, (G r').strategy = .grow

/-- The first rule mentions the second, and neither of them grows. -/
def Descends (G : Grammar ρ Res) (r r' : ρ) : Prop :=
  G.Mentions r r' ∧ (G r).strategy ≠ .grow ∧ (G r').strategy ≠ .grow

instance [DecidableEq ρ] (G : Grammar ρ Res) (r r' : ρ) : Decidable (G.Descends r r') :=
  have := (G r).form.decidableMentions r'
  inferInstanceAs (Decidable ((G r).form.Mentions r' ∧ _ ∧ _))

theorem CyclesGrow.irrefl (hG : G.CyclesGrow) (r : ρ) : ¬Relation.TransGen G.Descends r r := by
  intro h
  obtain ⟨last, hpath, hback⟩ := Relation.TransGen.tail'_iff.1 h
  obtain ⟨rs, hchain, hlast⟩ := List.exists_isChain_cons_of_relationReflTransGen hpath
  have hcycle : List.IsChain G.Mentions (r :: rs ++ [r]) := by
    refine (hchain.imp fun _ _ h => h.1).append (.singleton r) fun a ha b hb => ?_
    rw [List.getLast?_eq_some_getLast (List.cons_ne_nil r rs), hlast] at ha
    cases ha
    cases hb
    exact hback.1
  obtain ⟨r', hmem, hgrow⟩ := hG r rs hcycle
  exact hchain.induction (fun r' => (G r').strategy ≠ .grow) _ (fun _ _ h _ => h.2.2)
    (fun _ => hback.2.2) r' hmem hgrow

/-- Calls from one rule to the next come to an end if none of the rules grows. -/
theorem CyclesGrow.wellFounded [Finite ρ] (hG : G.CyclesGrow) :
    WellFounded (flip G.Descends) := by
  have : IsTrans ρ (flip (Relation.TransGen G.Descends)) := ⟨fun _ _ _ h h' => h'.trans h⟩
  have : Std.Irrefl (flip (Relation.TransGen G.Descends)) := ⟨hG.irrefl⟩
  have hsub : Subrelation (flip G.Descends) (flip (Relation.TransGen G.Descends)) :=
    fun h => Relation.TransGen.single h
  exact hsub.wf (Finite.wellFounded_of_trans_of_irrefl _)

/-- Every cycle of calls grows if a number falls with each call between rules that do not grow. -/
theorem CyclesGrow.of_rank (rank : ρ → Nat)
    (hrank : ∀ r r', G.Descends r r' → rank r' < rank r) : G.CyclesGrow := by
  intro r rs hcycle
  by_contra hnone
  push Not at hnone
  have hplain : ∀ r' ∈ r :: rs ++ [r], (G r').strategy ≠ .grow := by
    intro r' hmem
    refine hnone r' ?_
    rcases List.mem_append.1 hmem with hmem | hmem
    · exact hmem
    · exact List.mem_cons.2 (.inl (List.mem_singleton.1 hmem))
  have hfalls : List.IsChain (fun r r' => rank r > rank r') (r :: rs ++ [r]) :=
    hcycle.imp_of_mem_imp fun a b ha hb hcall => hrank a b ⟨hcall, hplain a ha, hplain b hb⟩
  have : IsTrans ρ fun r r' => rank r > rank r' := ⟨fun _ _ _ h h' => Nat.lt_trans h' h⟩
  have hpairs := List.isChain_iff_pairwise.1 hfalls
  exact Nat.lt_irrefl _ (List.rel_of_pairwise_cons hpairs (List.mem_append_right rs (.head _)))

end Grammar

/-! ## Rules that are open -/

variable [DecidableEq ρ]

/-- The rules and positions inside a code for which nothing is recorded. -/
def Progress.openKeys [Fintype ρ] (size : Nat) (s : Progress ρ Res) : Finset (ρ × Nat) :=
  (Finset.univ ×ˢ Finset.range (size + 1)).filter fun key => (s.memo.find? key.1 key.2).isNone

/-- How many are open. -/
def Progress.openCount [Fintype ρ] (size : Nat) (s : Progress ρ Res) : Nat :=
  (s.openKeys size).card

namespace Progress

variable [Fintype ρ] {size : Nat} {s s' : Progress ρ Res}

theorem mem_openKeys {r : ρ} {pos : Nat} :
    (r, pos) ∈ s.openKeys size ↔ pos ≤ size ∧ s.memo.find? r pos = none := by
  rw [openKeys, Finset.mem_filter, Finset.mem_product, Finset.mem_range, Option.isNone_iff_eq_none,
    Nat.lt_add_one_iff]
  exact and_congr_left' (and_iff_right (Finset.mem_univ r))

theorem Leads.openKeys_subset (h : s.Leads size s') : s'.openKeys size ⊆ s.openKeys size := by
  rintro ⟨r, pos⟩ hmem
  obtain ⟨hpos, hopen⟩ := mem_openKeys.1 hmem
  exact mem_openKeys.2 ⟨hpos, h.opened r pos hopen⟩

theorem Leads.openCount_le (h : s.Leads size s') : s'.openCount size ≤ s.openCount size :=
  Finset.card_le_card h.openKeys_subset

/-- A seed closes the rule where it starts. -/
theorem Inside.openCount_seed_lt (hs : s.Inside size) {r : ρ}
    (hopen : s.memo.find? r s.pos = none) :
    (s.record r s.pos .failed).openCount size < s.openCount size := by
  have hsub := (hs.leads.recordFailed r s.pos).openKeys_subset
  refine Finset.card_lt_card (Finset.ssubset_iff_of_subset hsub |>.2 ⟨(r, s.pos), ?_, ?_⟩)
  · exact mem_openKeys.2 ⟨hs.pos, hopen⟩
  · intro hmem
    have hclosed := (mem_openKeys.1 hmem).2
    rw [Progress.record, Memo.find?_insert_self] at hclosed
    cases hclosed

end Progress

/-! ## From calls to forms -/

/-- Inside a code of a size, with no more than so many rules open. -/
structure Progress.Within [Fintype ρ] (size n : Nat) (s : Progress ρ Res) : Prop where
  inside : s.Inside size
  few : s.openCount size ≤ n

theorem Progress.Leads.within [Fintype ρ] {size n : Nat} {s s' : Progress ρ Res}
    (h : s.Leads size s') (hs : s.Within size n) : s'.Within size n :=
  ⟨h.inside, h.openCount_le.trans hs.few⟩

/-- Every attempt at the form that begins with no more than so many rules open comes to an end. -/
def Grammar.Settles [Fintype ρ] (G : Grammar ρ Res) (code : Array Char) (n : Nat)
    (form : Form ρ Res α) : Prop :=
  ∀ s : Progress ρ Res, s.Within code.size n → ∃ o, G.Ends code (.recognise form) s o

namespace Grammar

variable [Fintype ρ] {G : Grammar ρ Res} {code : Array Char} {n : Nat}

theorem Settles.cases {form : Form ρ Res α} (h : G.Settles code n form) {s : Progress ρ Res}
    (hs : s.Within code.size n) :
    (∃ a s', G.Ends code (.recognise form) s (.matched a s') ∧ s.pos ≤ s'.pos ∧
      s.Leads code.size s') ∨
    ∃ s', G.Ends code (.recognise form) s (.failed s') ∧ s.Leads code.size s' := by
  obtain ⟨o, ho⟩ := h s hs
  have hreached := ho.reached hs.inside trivial
  cases o with
  | stopped c s' => exact hreached.elim
  | matched a s' => exact .inl ⟨a, s', ho, hreached.1, hreached.2⟩
  | failed s' => exact .inr ⟨s', ho, hreached⟩

/-- A repetition ends, since every item but the last takes a character. -/
theorem Settles.again {form : Form ρ Res α} (h : G.Settles code n form) (items : List α)
    (s : Progress ρ Res) (hs : s.Within code.size n) :
    ∃ o, G.Ends code (.again form items) s o := by
  induction hleft : code.size - s.pos using Nat.strong_induction_on generalizing items s with
  | _ left ih =>
    obtain ⟨a, s', step, hle, hleads⟩ | ⟨s', step, hleads⟩ := h.cases hs
    · by_cases hpos : s'.pos = s.pos
      · exact ⟨_, .last step hpos⟩
      · have hsize := hleads.inside.pos
        obtain ⟨o, loop⟩ := ih _ (by omega) (a :: items) s' (hleads.within hs) rfl
        exact ⟨o, .next step hpos loop⟩
    · exact ⟨_, .noMore step⟩

/-- A form without checks ends everywhere if the calls do that it mentions. -/
theorem Settles.of_calls {form : Form ρ Res α} (hform : form.unchecked = true)
    (hcalls : ∀ r, form.Mentions r → G.Settles code n (.call r)) : G.Settles code n form := by
  induction form with
  | pattern m =>
    intro s hs
    cases hstop : m.stop? code s.pos with
    | none => exact ⟨_, .noPattern hstop⟩
    | some stop => exact ⟨_, .pattern hstop⟩
  | endOfInput =>
    intro s hs
    by_cases hend : s.pos = code.size
    · exact ⟨_, .endOfInput hend⟩
    · exact ⟨_, .noEndOfInput hend⟩
  | skip a => exact fun s hs => ⟨_, .skip⟩
  | fail => exact fun s hs => ⟨_, .fail⟩
  | pair f g ihf ihg =>
    intro s hs
    rw [Form.unchecked, Bool.and_eq_true] at hform
    obtain ⟨a, s', first, -, hleads⟩ | ⟨s', first, -⟩ :=
      (ihf hform.1 fun r hr => hcalls r (.inl hr)).cases hs
    · obtain ⟨o, second⟩ := ihg hform.2 (fun r hr => hcalls r (.inr hr)) s' (hleads.within hs)
      exact ⟨_, .pair first second⟩
    · exact ⟨_, .noPair first⟩
  | map k f ih =>
    intro s hs
    obtain ⟨o, inner⟩ := ih hform hcalls s hs
    exact ⟨_, .map inner⟩
  | refine k f ih =>
    intro s hs
    obtain ⟨o, inner⟩ := ih hform hcalls s hs
    exact ⟨_, .refine inner⟩
  | checked e f _ => cases hform
  | orElse f g ihf ihg =>
    intro s hs
    rw [Form.unchecked, Bool.and_eq_true] at hform
    obtain ⟨a, s', first, -, -⟩ | ⟨s', first, hleads⟩ :=
      (ihf hform.1 fun r hr => hcalls r (.inl hr)).cases hs
    · exact ⟨_, .left first⟩
    · have hback := (hleads.goTo hs.inside.pos).within hs
      obtain ⟨b, s'', second, -⟩ | ⟨s'', second, -⟩ :=
        (ihg hform.2 fun r hr => hcalls r (.inr hr)).cases hback
      · exact ⟨_, .right first second⟩
      · exact ⟨_, .neither first second⟩
  | optional f ih =>
    intro s hs
    obtain ⟨a, s', inner, -⟩ | ⟨s', inner, -⟩ := (ih hform hcalls).cases hs
    · exact ⟨_, .given inner⟩
    · exact ⟨_, .missing inner⟩
  | many f ih =>
    intro s hs
    obtain ⟨o, loop⟩ := (ih hform hcalls).again [] s hs
    exact ⟨o, .many loop⟩
  | call r => exact hcalls r rfl

/-! ## From forms to calls -/

/-- A call of a rule that does not grow ends where its form does. -/
theorem Settles.call {r : ρ} (hstrategy : (G r).strategy ≠ .grow)
    (h : G.Settles code n (G r).form) : G.Settles code n (.call r) := by
  intro s hs
  have hbody := h.cases ((hs.inside.leads.enter r).within hs)
  cases hs' : (G r).strategy with
  | grow => exact absurd hs' hstrategy
  | plain =>
    obtain ⟨a, s', body, -⟩ | ⟨s', body, -⟩ := hbody
    · exact ⟨_, .plain hs' body⟩
    · exact ⟨_, .plain hs' body⟩
  | memo =>
    cases hfind : s.memo.find? r s.pos with
    | some entry => exact ⟨_, .replayed (by rw [hs']; decide) hfind⟩
    | none =>
      obtain ⟨a, s', body, -⟩ | ⟨s', body, -⟩ := hbody
      · exact ⟨_, .memoMatched hs' hfind body⟩
      · exact ⟨_, .memoFailed hs' hfind body⟩

/-- Growing ends, since every match but the last is longer than the one before. -/
theorem Settles.grow {r : ρ} (h : G.Settles code n (G r).form) {start : Nat}
    (hstart : start ≤ code.size) (best : Option (Res r × Nat)) (s : Progress ρ Res)
    (hs : s.Within code.size n) : ∃ o, G.Ends code (.grow r start best) s o := by
  induction hleft : roundsLeft code.size best using Nat.strong_induction_on
    generalizing best s with
  | _ left ih =>
    have hseen := (hs.inside.leads.goTo hstart).enter r
    obtain ⟨a, s', body, hle, hleads⟩ | ⟨s', body, -⟩ := h.cases (hseen.within hs)
    · by_cases hlonger : best.any (s'.pos ≤ ·.2) = true
      · exact ⟨_, .growNoLonger body hlonger⟩
      · have hfewer := roundsLeft_lt a hleads.inside.pos hlonger
        have hnext := ((hseen.trans hleads).recordMatched a hle).within hs
        obtain ⟨o, loop⟩ := ih _ (hleft ▸ hfewer) _ _ hnext rfl
        exact ⟨o, .growLonger body hlonger loop⟩
    · exact ⟨_, .growFailed body⟩

/-- A call of a growing rule ends if its form does with fewer rules open: its seed closes it. -/
theorem Settles.call_grow {r : ρ} (hstrategy : (G r).strategy = .grow)
    (h : ∀ m < n, G.Settles code m (G r).form) : G.Settles code n (.call r) := by
  intro s hs
  cases hfind : s.memo.find? r s.pos with
  | some entry => exact ⟨_, .replayed (by rw [hstrategy]; decide) hfind⟩
  | none =>
    have hfewer := (hs.inside.openCount_seed_lt hfind).trans_le hs.few
    have hseed := (hs.inside.leads.recordFailed r s.pos).inside
    obtain ⟨o, loop⟩ := (h _ hfewer).grow hs.inside.pos none _ ⟨hseed, Nat.le_refl _⟩
    exact ⟨o, .grown hstrategy hfind loop⟩

/-- Every call ends. The induction is on the rules that are open, and for each number of them on
the calls between rules that do not grow. -/
theorem CyclesGrow.settles_call (hG : G.CyclesGrow) (hrules : G.Unchecked) (code : Array Char)
    (n : Nat) (r : ρ) : G.Settles code n (.call r) := by
  induction n using Nat.strong_induction_on generalizing r with
  | _ n ih =>
    have hgrow : ∀ r, (G r).strategy = .grow → G.Settles code n (.call r) := fun r hstrategy =>
      Settles.call_grow hstrategy fun m hm => Settles.of_calls (hrules r) fun r' _ => ih m hm r'
    induction r using hG.wellFounded.induction with
    | _ r ihr =>
      by_cases hstrategy : (G r).strategy = .grow
      · exact hgrow r hstrategy
      · refine Settles.call hstrategy (Settles.of_calls (hrules r) fun r' hr' => ?_)
        by_cases hstrategy' : (G r').strategy = .grow
        · exact hgrow r' hstrategy'
        · exact ihr r' ⟨hr', hstrategy, hstrategy'⟩

end Grammar

/-! ## One attempt after another -/

namespace Grammar

variable {G : Grammar ρ Res} {code : Array Char}

/-- Where attempts on one code may lead. Each goes on from what the one before it has left, or from
the start of the code with what is recorded by then. -/
inductive Attempted (G : Grammar ρ Res) (code : Array Char) : Progress ρ Res → Prop where
  | start : G.Attempted code .start
  | rewind {s : Progress ρ Res} (hs : G.Attempted code s) : G.Attempted code (s.goTo 0)
  | attempt {α : Type} {s : Progress ρ Res} (hs : G.Attempted code s) (form : Form ρ Res α)
      (budget : Nat) (h : (G.recognise code budget form s).Finished) :
      G.Attempted code (G.recognise code budget form s).state

theorem CyclesGrow.ends [Finite ρ] (hG : G.CyclesGrow) (hrules : G.Unchecked)
    {form : Form ρ Res α} (hform : form.unchecked = true) {s : Progress ρ Res}
    (hs : s.Inside code.size) :
    ∃ o, G.Ends code (.recognise form) s o := by
  have := Fintype.ofFinite ρ
  exact Settles.of_calls hform (fun r _ => hG.settles_call hrules code _ r) s ⟨hs, Nat.le_refl _⟩

theorem Attempted.inside {s : Progress ρ Res} (hs : G.Attempted code s) :
    s.Inside code.size := by
  induction hs with
  | start => exact Progress.start_inside code.size
  | rewind _ ih => exact (ih.leads.goTo (Nat.zero_le _)).inside
  | attempt _ form budget hfinished ih =>
    exact ((ends_of_finished ih hfinished).reached ih trivial).leads.inside

/-- **Every attempt ends.** If every cycle of calls goes through a growing rule, an attempt at any
form comes to one ending, a match or a failure, whatever has been attempted before on the same code;
and recognition gives this ending with all budgets that are large enough. Only an error in a result
could stop it, so neither the form nor the rules check any. -/
theorem terminates [Finite ρ] (hG : G.CyclesGrow) (hrules : G.Unchecked) {s : Progress ρ Res}
    (hs : G.Attempted code s) (form : Form ρ Res α) (hform : form.unchecked = true) :
    ∃ o, o.Finished ∧ (∀ o', G.Ends code (.recognise form) s o' ↔ o' = o) ∧
      ∃ enough, ∀ budget, enough ≤ budget → G.recognise code budget form s = o := by
  have hinside := hs.inside
  obtain ⟨o, ho⟩ := hG.ends hrules hform hinside
  exact ⟨o, (ho.reached hinside trivial).finished,
    fun o' => ⟨fun h => ho.unique h hinside, fun h => h ▸ ho⟩, ho.recognise_eq hinside⟩

end Grammar

/-- The rules of `joinedLetters`. -/
inductive JoinedRule where
  | joined
  | behindBlanks
  | blanks
  deriving DecidableEq

instance : Fintype JoinedRule :=
  ⟨{.joined, .behindBlanks, .blanks}, fun r => by cases r <;> decide⟩

/-- Letters `a` with a plus sign before each but the first. The growing rule calls itself where it
starts, through another rule, which repeats an optional match of nothing before. -/
def joinedLetters : Grammar JoinedRule (fun _ => String)
  | .joined => ⟨.grow, .first [.call .behindBlanks <* .char '+' <* .char 'a', .char 'a']⟩
  | .behindBlanks => ⟨.plain, .many (.optional (.call .blanks)) *> .call .joined⟩
  | .blanks => ⟨.memo, .lexeme [.many (· = ' ')]⟩

theorem joinedLetters_cyclesGrow : joinedLetters.CyclesGrow :=
  Grammar.CyclesGrow.of_rank (fun r => if r = .behindBlanks then 1 else 0) (by decide)

theorem joinedLetters_unchecked : joinedLetters.Unchecked := fun r => by cases r <;> rfl

/-- All letters are matched from the start of the code, and then more are attempted behind them. -/
theorem terminates_joinedLetters :
    let code := #['a', '+', 'a']
    let s := (joinedLetters.recognise code 5 (.call .joined) .start).state
    joinedLetters.CyclesGrow ∧ joinedLetters.Unchecked ∧ joinedLetters.Attempted code s ∧
    s.pos = 3 ∧ (.call .joined : Form JoinedRule (fun _ => String) String).unchecked = true ∧
    ∃ o, o.Finished ∧
      (∀ o', joinedLetters.Ends code (.recognise (.call .joined)) s o' ↔ o' = o) ∧
      ∃ enough, ∀ budget, enough ≤ budget →
        joinedLetters.recognise code budget (.call .joined) s = o := by
  intro code s
  have hfinished : (joinedLetters.recognise code 5 (.call .joined) .start).Finished := trivial
  have hs : joinedLetters.Attempted code s := .attempt .start _ 5 hfinished
  exact ⟨joinedLetters_cyclesGrow, joinedLetters_unchecked, hs, by decide +kernel, rfl,
    Grammar.terminates joinedLetters_cyclesGrow joinedLetters_unchecked hs (.call .joined) rfl⟩

end CalcScript.Packrat
