import CalcScript.Proofs.Packrat.Extension

/-!
# Brackets bound the depth of calls

How deeply calls are nested need not grow with the length of a code. In many grammars a call leads
to a rule of smaller rank, but for calls behind brackets that are still open, and there the rank
grows by no more than a fixed width for each bracket.

> `Grammar.Nested.read_within`: in such a grammar a call is read to a depth that grows with the
> number of brackets that may be open at once, by the width for each, and with nothing else.

`Form.Nests` derives from a form how many brackets are open where it ends, if so many are open where
it begins. It has one rule for each form, and `Form.Nests.spans` says that the rules are sound: for
matches, failures and abandoned attempts alike.
-/

namespace CalcScript

/-! ## Texts with brackets -/

/-- The character opens a bracket. -/
def isOpening (c : Char) : Bool := c = '(' || c = '{'

/-- The character closes a bracket. -/
def isClosing (c : Char) : Bool := c = ')' || c = '}'

/-- How many more brackets a text opens than it closes. -/
def balance (text : List Char) : Int := text.countP isOpening - text.countP isClosing

/-- The balance of two texts is that of the one and that of the other. -/
theorem balance_append (text text' : List Char) :
    balance (text ++ text') = balance text + balance text' := by
  unfold balance
  rw [List.countP_append, List.countP_append]
  omega

/-- Parentheses and braces open. -/
theorem isOpening_iff {c : Char} : isOpening c = true ↔ c = '(' ∨ c = '{' := by
  rw [isOpening, Bool.or_eq_true, decide_eq_true_eq, decide_eq_true_eq]

/-- They close as well. -/
theorem isClosing_iff {c : Char} : isClosing c = true ↔ c = ')' ∨ c = '}' := by
  rw [isClosing, Bool.or_eq_true, decide_eq_true_eq, decide_eq_true_eq]

/-- An opening bracket is one more. -/
theorem balance_opening {c : Char} (h : isOpening c = true) : balance [c] = 1 := by
  have hclosing : isClosing c = false := by
    rcases isOpening_iff.1 h with rfl | rfl <;> rfl
  simp [balance, h, hclosing]

/-- What is no closing bracket takes none away. -/
theorem balance_not_closing {c : Char} (h : isClosing c = false) : 0 ≤ balance [c] := by
  have hnone : List.countP isClosing [c] = 0 :=
    List.countP_cons_of_neg (by rw [h]; exact Bool.false_ne_true)
  unfold balance
  rw [hnone]
  omega

/-- No character takes away more than one. -/
theorem balance_one (c : Char) : -1 ≤ balance [c] := by
  unfold balance
  have := List.countP_le_length (p := isClosing) (l := [c])
  rw [List.length_singleton] at this
  omega

end CalcScript

namespace CalcScript.Packrat

variable {ρ : Type} {Res : ρ → Type} {α β τ : Type}

/-- How many more brackets are opened than closed before a position. -/
def level (code : Array Char) (p : Nat) : Int := balance (code.toList.take p)

section Level

variable {code : Array Char} {p q : Nat}

/-- The level changes with each character by its balance. -/
theorem level_succ {c : Char} (h : code[p]? = some c) :
    level code (p + 1) = level code p + balance [c] := by
  unfold level
  rw [List.take_add_one, balance_append, Array.getElem?_toList, h]
  rfl

/-- A piece that takes no closing bracket closes none. -/
theorem level_le_runEnd {accepts : Char → Bool} (h : ∀ c, isClosing c = true → accepts c = false) :
    ∀ rounds p, level code p ≤ level code (runEnd accepts code rounds p) := by
  intro rounds
  induction rounds with
  | zero => intro p; exact Int.le_refl _
  | succ rounds ih =>
    intro p
    unfold runEnd
    split
    next c hc =>
      split
      next haccepts =>
        have hnext := ih (p + 1)
        rw [level_succ hc] at hnext
        cases hclosing : isClosing c with
        | true => rw [h c hclosing] at haccepts; cases haccepts
        | false =>
          have := balance_not_closing hclosing
          omega
      next => exact Int.le_refl _
    next => exact Int.le_refl _

/-- A piece that takes no closing bracket does not lower the level. -/
theorem Piece.level_le_stop {piece : Piece} (h : ∀ c, isClosing c = true → piece.rejects c = true)
    (hstop : piece.stop? code p = some q) : level code p ≤ level code q := by
  have haccepts : ∀ {accepts : Char → Bool}, (∀ c, isClosing c = true → (!accepts c) = true) →
      ∀ c, isClosing c = true → accepts c = false := fun h c hc => by
    have := h c hc
    rwa [Bool.not_eq_true'] at this
  cases piece with
  | one accepts =>
    rw [Piece.stop?] at hstop
    split at hstop
    next c hc =>
      split at hstop
      next hin =>
        cases hstop
        rw [level_succ hc]
        cases hclosing : isClosing c with
        | true => rw [haccepts h c hclosing] at hin; cases hin
        | false =>
          have := balance_not_closing hclosing
          omega
      next => cases hstop
    next => cases hstop
  | many1 accepts =>
    simp only [Piece.stop?] at hstop
    split at hstop
    next => cases hstop
    next => cases hstop; exact level_le_runEnd (haccepts h) _ p
  | many accepts =>
    simp only [Piece.stop?] at hstop
    cases hstop
    exact level_le_runEnd (haccepts h) _ p

/-- A lexeme that takes no closing bracket closes none. -/
theorem Lexeme.level_le_stop {l : Lexeme} (h : ∀ c, isClosing c = true → l.rejects c = true)
    (hstop : l.stop? code p = some q) : level code p ≤ level code q := by
  induction l generalizing p with
  | nil => cases hstop; exact Int.le_refl _
  | cons piece pieces ih =>
    rw [Lexeme.stop?] at hstop
    have hrejects : ∀ c, isClosing c = true →
        piece.rejects c = true ∧ Lexeme.rejects c pieces = true := fun c hc => by
      have := h c hc
      rw [Lexeme.rejects, List.all_cons, Bool.and_eq_true] at this
      exact this
    split at hstop
    next mid hmid =>
      have hpiece := Piece.level_le_stop (fun c hc => (hrejects c hc).1) hmid
      have hrest := ih (fun c hc => (hrejects c hc).2) hstop
      exact Int.le_trans hpiece hrest
    next => cases hstop

/-- A character goes to the position behind it. -/
theorem stop?_char {c : Char} (hstop : Lexeme.stop? code [.one (· = c)] p = some q) :
    q = p + 1 ∧ level code q = level code p + balance [c] := by
  rw [Lexeme.stop?, Piece.stop?] at hstop
  split at hstop
  next mid hmid =>
    cases hstop
    split at hmid
    next d hd =>
      split at hmid
      next heq =>
        cases hmid
        obtain rfl := of_decide_eq_true heq
        exact ⟨rfl, level_succ hd⟩
      next => cases hmid
    next => cases hmid
  next => cases hstop

end Level

/-! ## How many brackets a form leaves open -/

/-- If `d` brackets are open where the form begins, `d'` are open where it ends. A rule is called only
if its rank is below `k`, or below that by no more than a width for each bracket open there. -/
inductive Form.Nests (rank : ρ → Nat) (width k : Nat) :
    {α : Type} → Nat → Form ρ Res α → Nat → Prop where
  | keeps {d : Nat} {l : Lexeme} (round : l.rejects ')' = true) (curly : l.rejects '}' = true) :
      Nests rank width k d (.lexeme l) d
  | opens {d : Nat} {c : Char} (h : isOpening c = true) : Nests rank width k d (.char c) (d + 1)
  | closes {d : Nat} {c : Char} : Nests rank width k (d + 1) (.char c) d
  | endOfInput {d : Nat} : Nests rank width k d .endOfInput d
  | skip {α : Type} {d : Nat} {a : α} : Nests rank width k d (.skip a) d
  | fail {α : Type} {d d' : Nat} : Nests rank width k d (.fail : Form ρ Res α) d'
  | pair {α β : Type} {d d' d'' : Nat} {f : Form ρ Res α} {g : Form ρ Res β}
      (first : Nests rank width k d f d') (second : Nests rank width k d' g d'') :
      Nests rank width k d (.pair f g) d''
  | map {α β : Type} {d d' : Nat} {h : α → β} {f : Form ρ Res α} (inner : Nests rank width k d f d') :
      Nests rank width k d (.map h f) d'
  | refine {α β : Type} {d d' : Nat} {h : α → Option β} {f : Form ρ Res α}
      (inner : Nests rank width k d f d') : Nests rank width k d (.refine h f) d'
  | checked {α : Type} {d d' : Nat} {e : α → Option String} {f : Form ρ Res α}
      (inner : Nests rank width k d f d') : Nests rank width k d (.checked e f) d'
  | orElse {α : Type} {d d' : Nat} {f g : Form ρ Res α} (first : Nests rank width k d f d')
      (second : Nests rank width k d g d') : Nests rank width k d (.orElse f g) d'
  | optional {α : Type} {d : Nat} {f : Form ρ Res α} (inner : Nests rank width k d f d) :
      Nests rank width k d (.optional f) d
  | many {α : Type} {d : Nat} {f : Form ρ Res α} (inner : Nests rank width k d f d) :
      Nests rank width k d (.many f) d
  | call {d : Nat} {r : ρ} (h : rank r < k + d * width) : Nests rank width k d (.call r) d

namespace Form.Nests

variable {rank : ρ → Nat} {width k d d' d'' : Nat}

/-- A sequence that keeps the result of the second form. -/
theorem andThen {f : Form ρ Res α} {g : Form ρ Res β} (hf : f.Nests rank width k d d')
    (hg : g.Nests rank width k d' d'') : (f *> g).Nests rank width k d d'' :=
  .map (.pair hf hg)

/-- A sequence that keeps the result of the first form. -/
theorem before {f : Form ρ Res α} {g : Form ρ Res β} (hf : f.Nests rank width k d d')
    (hg : g.Nests rank width k d' d'') : (f <* g).Nests rank width k d d'' :=
  .map (.pair hf hg)

/-- A choice nests as all its alternatives do. -/
theorem first {fs : List (Form ρ Res α)} (h : ∀ f ∈ fs, f.Nests rank width k d d') :
    (Form.first fs).Nests rank width k d d' := by
  induction fs with
  | nil => exact .fail
  | cons f fs ih =>
    have hrest := ih fun g hg => h g (List.mem_cons_of_mem f hg)
    exact .orElse (h f List.mem_cons_self) hrest

end Form.Nests

/-! ## What is read where few brackets are open -/

/-- The position is not before another one, and so many more brackets are open there. -/
def Opened (code : Array Char) (start d p : Nat) : Prop :=
  start ≤ p ∧ level code start + d ≤ level code p

/-- Wherever so many brackets are open the form is read, and so many are open where it matches
to. -/
def Form.Spans (code : Array Char) (reader : Reader ρ Res) (start d : Nat) (form : Form ρ Res α)
    (d' : Nat) : Prop :=
  ∀ p, Opened code start d p → Reading.Within (Opened code start d') (form.read code reader p)

/-- **Brackets are counted rightly.** A form is read if the calls are that it may make, and it
leaves as many brackets open as is derived. -/
theorem Form.Nests.spans {code : Array Char} {reader : Reader ρ Res} {start width k : Nat}
    {rank : ρ → Nat} {form : Form ρ Res α} {d d' : Nat} (h : form.Nests rank width k d d')
    (hcalls : ∀ (r : ρ) (d : Nat), rank r < k + d * width →
      (Form.call r).Spans code reader start d d) : form.Spans code reader start d d' := by
  induction h with
  | @keeps d l round curly =>
    intro p hp
    have hl : ∀ c, isClosing c = true → l.rejects c = true := fun c hc => by
      rcases isClosing_iff.1 hc with rfl | rfl
      · exact round
      · exact curly
    rw [Form.read, Matcher.stop?]
    cases hstop : l.stop? code p with
    | none => exact .failed p
    | some q =>
      have hle := (Lexeme.stop?_advances hstop).1
      have hlevel := Lexeme.level_le_stop hl hstop
      exact .matched ⟨by have := hp.1; omega, by have := hp.2; omega⟩
  | @opens d c hc =>
    intro p hp
    rw [Form.char, Form.read, Matcher.stop?]
    cases hstop : Lexeme.stop? code [.one (· = c)] p with
    | none => exact .failed p
    | some q =>
      obtain ⟨rfl, hlevel⟩ := stop?_char hstop
      rw [balance_opening hc] at hlevel
      exact .matched ⟨by have := hp.1; omega, by have := hp.2; omega⟩
  | @closes d c =>
    intro p hp
    rw [Form.char, Form.read, Matcher.stop?]
    cases hstop : Lexeme.stop? code [.one (· = c)] p with
    | none => exact .failed p
    | some q =>
      obtain ⟨rfl, hlevel⟩ := stop?_char hstop
      have := balance_one c
      exact .matched ⟨by have := hp.1; omega, by have := hp.2; omega⟩
  | endOfInput =>
    intro p hp
    rw [Form.read]
    split
    · exact .matched hp
    · exact .failed p
  | skip => exact fun p hp => .matched hp
  | fail => exact fun p _ => .failed p
  | pair _ _ ihf ihg =>
    intro p hp
    refine (ihf p hp).andThen fun a mid hmid => ?_
    exact (ihg mid hmid).andThen fun b q hq => .matched hq
  | map _ ih =>
    intro p hp
    exact (ih p hp).andThen fun a q hq => .matched hq
  | @refine _ _ _ _ h _ _ ih =>
    intro p hp
    refine (ih p hp).andThen fun a q hq => ?_
    cases h a with
    | some b => exact .matched hq
    | none => exact .failed q
  | @checked _ _ _ e _ _ ih =>
    intro p hp
    refine (ih p hp).andThen fun a q hq => ?_
    cases e a with
    | some message => exact .error message
    | none => exact .matched hq
  | orElse _ _ ihf ihg =>
    intro p hp
    exact (ihf p hp).orElse (ihg p hp)
  | optional _ ih =>
    intro p hp
    obtain ⟨rd, hrd, hmatch⟩ := ih p hp
    rw [Form.read, hrd]
    cases rd with
    | failed reach => exact .matched hp
    | error message => exact .error message
    | matched a q reach => exact .matched (hmatch a q reach rfl)
  | many _ ih =>
    intro p hp
    exact readMany_within ih _ p hp
  | @call d r hr => exact hcalls r d hr

/-! ## Rules that call each other behind brackets -/

/-- No more than `n` brackets that are opened from a position on are ever open. -/
def Room (code : Array Char) (p n : Nat) : Prop := ∀ q, p ≤ q → level code q ≤ level code p + n

/-- Every rule closes what it opens, and the rank falls with each call but for a width that each
bracket open there is worth. -/
def Grammar.Nested (G : Grammar ρ Res) (rank : ρ → Nat) (width : Nat) : Prop :=
  ∀ r, (G r).form.Nests rank width (rank r) 0 0

section Room

variable {code : Array Char} {start d p n : Nat}

/-- Where a bracket may be open, none need be. -/
theorem opened_self (code : Array Char) (p : Nat) : Opened code p 0 p :=
  ⟨Nat.le_refl p, by omega⟩

/-- What is open behind a position is open behind all that comes to it. -/
theorem Opened.trans {q : Nat} (h : Opened code start d p) (h' : Opened code p 0 q) :
    Opened code start d q :=
  ⟨Nat.le_trans h.1 h'.1, by have := h.2; have := h'.2; omega⟩

/-- Each bracket that is open leaves room for one less. -/
theorem Room.behind (h : Room code start n) (hp : Opened code start d p) :
    d ≤ n ∧ Room code p (n - d) := by
  have hlevel := hp.2
  have hroom := h p hp.1
  have hle : d ≤ n := by omega
  refine ⟨hle, fun q hq => ?_⟩
  have := h q (Nat.le_trans hp.1 hq)
  omega

end Room

namespace Grammar

variable {G : Grammar ρ Res} {rank : ρ → Nat} {width k n : Nat} {code : Array Char}

/-- Brackets that are open leave less room, by what their widths have added to the rank. -/
theorem room_charge {d m : Nat} (hd : d ≤ n) (hm : m < k + d * width) :
    (n - d) * width + m < n * width + k := by
  have hsplit : (n - d) * width + d * width = n * width := by
    rw [← Nat.add_mul, Nat.sub_add_cancel hd]
  omega

/-- **Brackets bound the depth of calls.** A call is read to a depth of a width for each bracket that
may be open, and the rank of the rule besides. -/
theorem Nested.read_within (hG : G.Nested rank width) :
    ∀ (depth : Nat) (r : ρ) (p n : Nat), Room code p n → n * width + rank r < depth →
      Reading.Within (Opened code p 0) (G.readRule code depth r p) := by
  intro depth
  induction depth with
  | zero => intro r p n _ hdepth; omega
  | succ depth ih =>
    intro r p n hroom hdepth
    have hcalls : ∀ (r' : ρ) (d : Nat), rank r' < rank r + d * width →
        (Form.call r').Spans code (G.readRule code depth) p d d := by
      intro r' d hr' q hq
      obtain ⟨hd, hroom'⟩ := hroom.behind hq
      have hcharge := room_charge hd hr'
      exact (ih r' q (n - d) hroom' (by omega)).imp fun q' hq' => hq.trans hq'
    exact (hG r).spans hcalls p (opened_self code p)

/-- A form is read from the start of a code if the depth suffices for the brackets of the code. -/
theorem Nested.read_form (hG : G.Nested rank width) {form : Form ρ Res α}
    (hform : form.Nests rank width k 0 0) {depth : Nat} (hroom : Room code 0 n)
    (hdepth : n * width + k ≤ depth) :
    ∃ rd, form.read code (G.readRule code depth) 0 = some rd := by
  have hspans : form.Spans code (G.readRule code depth) 0 0 0 := by
    refine hform.spans fun r d hr q hq => ?_
    obtain ⟨hd, hroom'⟩ := hroom.behind hq
    have hcharge := room_charge hd hr
    exact (hG.read_within depth r q (n - d) hroom' (by omega)).imp fun q' hq' => hq.trans hq'
  obtain ⟨rd, hrd, -⟩ := hspans 0 (opened_self code 0)
  exact ⟨rd, hrd⟩

end Grammar

end CalcScript.Packrat
