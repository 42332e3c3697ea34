import CalcScript.Proofs.Packrat.Matching
import CalcScript.Proofs.Packrat.Overlap

/-!
# Codes that go on

A code may go on where another one ends. Up to a character that a lexeme rejects, the lexeme cannot
tell which of the two it reads (`Overlap.upTo`).

`Form.Same` says that a form reads the same at a position in both codes, its failures included.

> `Form.same_of_rejects`: what is made of lexemes that reject a character is the same in front of
> that character.

Other forms are put together from such forms along their structure: what comes second in a sequence
has to be the same only where the first part ends, and an alternative only if those before it fail.
-/

namespace CalcScript.Packrat

variable {ρ : Type} {Res : ρ → Type} {α β : Type}

/-! ## Up to a character that is rejected -/

/-- The piece takes no such character. -/
def Piece.rejects (c : Char) : Piece → Bool
  | .one accepts => !accepts c
  | .many1 accepts => !accepts c
  | .many accepts => !accepts c

/-- No piece of the lexeme takes such a character. -/
def Lexeme.rejects (c : Char) (l : Lexeme) : Bool := l.all (Piece.rejects c)

/-- What is taken ends in front of a character that is not of the class, whatever stands behind it.
-/
theorem takeWhile_append_rejected {accepts : Char → Bool} {c : Char} (hc : accepts c = false)
    (t v : List Char) : (t ++ c :: v).takeWhile accepts = t.takeWhile accepts := by
  induction t with
  | nil =>
    rw [List.nil_append, List.takeWhile_cons, hc]
    rfl
  | cons d t ih => rw [List.cons_append, List.takeWhile_cons, List.takeWhile_cons, ih]

/-- A piece takes nothing from a character on that it rejects. -/
theorem Piece.taken?_rejected {piece : Piece} {c : Char} (hc : piece.rejects c = true)
    (t v : List Char) : piece.taken? (t ++ c :: v) = piece.taken? t := by
  cases piece with
  | one accepts =>
    rw [Piece.rejects, Bool.not_eq_true'] at hc
    cases t with
    | nil => exact if_neg (by rw [hc]; exact Bool.noConfusion)
    | cons d t => rfl
  | many1 accepts =>
    rw [Piece.rejects, Bool.not_eq_true'] at hc
    rw [Piece.taken?, Piece.taken?, takeWhile_append_rejected hc]
  | many accepts =>
    rw [Piece.rejects, Bool.not_eq_true'] at hc
    rw [Piece.taken?, Piece.taken?, takeWhile_append_rejected hc]

/-- A lexeme that rejects a character takes nothing from behind it. -/
theorem Lexeme.taken?_rejected {l : Lexeme} {c : Char} (hc : l.rejects c = true) :
    ∀ t v : List Char, l.taken? (t ++ c :: v) = l.taken? t := by
  induction l with
  | nil => intro t v; rfl
  | cons piece pieces ih =>
    intro t v
    rw [Lexeme.rejects, List.all_cons, Bool.and_eq_true] at hc
    rw [Lexeme.taken?, Lexeme.taken?, Piece.taken?_rejected hc.1]
    cases ht : piece.taken? t with
    | none => rfl
    | some t' =>
      have hlen := congrArg List.length (Piece.taken?_append ht)
      rw [List.length_append] at hlen
      dsimp only
      rw [List.drop_append_of_le_length (by omega), ih hc.2]

/-- The text of a code from a position on, with a character of the code in it. -/
theorem textFrom_of_getElem? {code : Array Char} {c : Char} {p j : Nat} (hj : code[j]? = some c)
    (hp : p ≤ j) :
    TextFrom code p ((code.toList.take j).drop p ++ c :: code.toList.drop (j + 1)) := by
  have hlist : code.toList[j]? = some c := by rw [Array.getElem?_toList, hj]
  have hlen : p ≤ (code.toList.take j).length := by
    have hlt := (List.getElem?_eq_some_iff.mp hlist).1
    rw [List.length_take]
    omega
  have hsplit : code.toList = code.toList.take j ++ c :: code.toList.drop (j + 1) := by
    obtain ⟨hlt, hget⟩ := List.getElem?_eq_some_iff.mp hlist
    rw [← hget, ← List.drop_eq_getElem_cons hlt, List.take_append_drop]
  rw [TextFrom]
  conv => lhs; rw [hsplit]
  rw [List.drop_append_of_le_length hlen]

section UpTo

variable {code code' : Array Char} {rest : List Char} {c : Char} {j p : Nat}

theorem lt_size_of_getElem? (hj : code[j]? = some c) : j < code.size :=
  (Array.getElem?_eq_some_iff.mp hj).1

/-- A character of the code stands in the longer code as well. -/
theorem getElem?_of_append (hcode : code'.toList = code.toList ++ rest) (hj : code[j]? = some c) :
    code'[j]? = some c := by
  have hlt := lt_size_of_getElem? hj
  rw [← Array.getElem?_toList, hcode, List.getElem?_append_left (by rwa [Array.length_toList]),
    Array.getElem?_toList, hj]

/-- In front of a character that it rejects, a lexeme cannot tell how the code goes on. -/
theorem Lexeme.stop?_upTo (hcode : code'.toList = code.toList ++ rest) (hj : code[j]? = some c)
    {l : Lexeme} (hl : l.rejects c = true) (hp : p ≤ j) :
    l.stop? code' (p + 0) = (l.stop? code p).map (· + 0) ∧
    ∀ stop, l.stop? code p = some stop →
      stop ≤ j ∧ textBetween code' (p + 0) (stop + 0) = textBetween code p stop := by
  have htext := textFrom_of_getElem? hj hp
  have htext' := textFrom_of_getElem? (getElem?_of_append hcode hj) hp
  have hlt := lt_size_of_getElem? hj
  have htake : code'.toList.take j = code.toList.take j := by
    rw [hcode, List.take_append_of_le_length (by rw [Array.length_toList]; omega)]
  obtain ⟨hstop, hbetween⟩ := Lexeme.stop?_alike (k := 0) htext htext' (by
    rw [Lexeme.taken?_rejected hl, Lexeme.taken?_rejected hl, htake])
  refine ⟨hstop, fun stop h => ⟨?_, hbetween stop h⟩⟩
  rw [Lexeme.stop?_eq htext, Lexeme.taken?_rejected hl] at h
  obtain ⟨t, ht, rfl⟩ := Option.map_eq_some_iff.mp h
  have hlen := Lexeme.length_le_of_taken? ht
  rw [List.length_drop, List.length_take] at hlen
  omega

/-- The longer code is no shorter. -/
theorem le_size_of_append (hcode : code'.toList = code.toList ++ rest) :
    code.size ≤ code'.size := by
  have hlen := congrArg List.length hcode
  rw [List.length_append, Array.length_toList, Array.length_toList] at hlen
  omega

/-- A code and one that goes on behind its end, up to a character of the first: what rejects the
character reads the same in both. -/
def Overlap.upTo (hcode : code'.toList = code.toList ++ rest) (hj : code[j]? = some c) :
    Overlap code code' 0 where
  covers p := p ≤ j
  lexemes := Lexeme.rejects c
  atEnd := false
  inside hp :=
    have hle := Nat.le_trans hp (Nat.le_of_lt (lt_size_of_getElem? hj))
    ⟨hle, Nat.le_trans hle (le_size_of_append hcode)⟩
  stop?_eq hl hp := (Lexeme.stop?_upTo hcode hj hl hp).1
  stop?_covered hl hp h := (Lexeme.stop?_upTo hcode hj hl hp).2 _ h
  end_iff h := nomatch h

end UpTo

/-! ## The same in both codes -/

/-- The form reads the same at a position in both codes. -/
def Form.Same (readers : Array Char → Reader ρ Res) (code code' : Array Char) (form : Form ρ Res α)
    (p : Nat) : Prop :=
  form.read code' (readers code') p = form.read code (readers code) p

namespace Form

variable {readers : Array Char → Reader ρ Res} {code code' : Array Char} {p q m : Nat}

/-- A form matches in at most one way. -/
theorem Matches.unique {reader : Reader ρ Res} {f : Form ρ Res α} {a a' : α} {q' : Nat}
    (h : f.Matches code reader p a q) (h' : f.Matches code reader p a' q') : a = a' ∧ q = q' := by
  obtain ⟨reach, h⟩ := h
  obtain ⟨reach', h'⟩ := h'
  rw [h] at h'
  cases h'
  exact ⟨rfl, rfl⟩

/-- A form does not match where it fails. -/
theorem Fails.not_matches {reader : Reader ρ Res} {f : Form ρ Res α} {a : α}
    (h : f.Fails code reader p) : ¬f.Matches code reader p a q := by
  intro hmatch
  obtain ⟨reach, h⟩ := h
  obtain ⟨reach', hmatch⟩ := hmatch
  rw [h] at hmatch
  cases hmatch

/-- One alternative is no choice. -/
theorem matches_first_one {reader : Reader ρ Res} {f : Form ρ Res α} {a : α} :
    (Form.first [f]).Matches code reader p a q ↔ f.Matches code reader p a q := by
  rw [Form.matches_first_cons]
  constructor
  · intro h
    rcases h with h | ⟨_, h⟩
    · exact h
    · exact absurd h Form.not_matches_fail
  · exact Or.inl

/-- A sequence reads the same if its forms do, the second one behind each match of the first. -/
theorem Same.pair {f : Form ρ Res α} {g : Form ρ Res β} (hf : f.Same readers code code' p)
    (hg : ∀ a m, f.Matches code (readers code) p a m → g.Same readers code code' m) :
    (Form.pair f g).Same readers code code' p := by
  rw [Same, Form.read, Form.read, hf]
  cases hx : f.read code (readers code) p with
  | none => rfl
  | some x =>
    cases x with
    | failed reach => rfl
    | error message => rfl
    | matched a m reach =>
      rw [Reading.andThen_matched, Reading.andThen_matched, hg a m ⟨reach, hx⟩]

/-- A change of the result is the same in both codes. -/
theorem Same.map {f : Form ρ Res α} {h : α → β} (hf : f.Same readers code code' p) :
    (Form.map h f).Same readers code code' p := by
  rw [Same, Form.read, Form.read, hf]

/-- A choice reads the same if its alternatives do, the second one where the first fails. -/
theorem Same.orElse {f g : Form ρ Res α} (hf : f.Same readers code code' p)
    (hg : f.Fails code (readers code) p → g.Same readers code code' p) :
    (Form.orElse f g).Same readers code code' p := by
  rw [Same, Form.read, Form.read, hf]
  cases hx : f.read code (readers code) p with
  | none => rfl
  | some x =>
    cases x with
    | matched a m reach => rfl
    | error message => rfl
    | failed reach => rw [hg ⟨reach, hx⟩]

/-- What comes second has to be the same where the first part ends, and this is one place. -/
theorem Same.pair_at {f : Form ρ Res α} {g : Form ρ Res β} {a : α}
    (hf : f.Same readers code code' p) (h : f.Matches code (readers code) p a m)
    (hg : g.Same readers code code' m) : (Form.pair f g).Same readers code code' p :=
  hf.pair fun a' m' h' => by
    obtain ⟨_, rfl⟩ := h.unique h'
    exact hg

/-- The second form need only be looked at behind the match of the first that there is. -/
theorem Same.andThen_at {f : Form ρ Res α} {g : Form ρ Res β} {a : α}
    (hf : f.Same readers code code' p) (h : f.Matches code (readers code) p a m)
    (hg : g.Same readers code code' m) : (f *> g).Same readers code code' p :=
  (hf.pair_at h hg).map

/-- The same where the result of the first form is kept. -/
theorem Same.before_at {f : Form ρ Res α} {g : Form ρ Res β} {a : α}
    (hf : f.Same readers code code' p) (h : f.Matches code (readers code) p a m)
    (hg : g.Same readers code code' m) : (f <* g).Same readers code code' p :=
  (hf.pair_at h hg).map

/-- If the first part never matches, it does not matter what comes second. -/
theorem Same.pair_of_not_matches {f : Form ρ Res α} {g : Form ρ Res β}
    (hf : f.Same readers code code' p) (h : ∀ a m, ¬f.Matches code (readers code) p a m) :
    (Form.pair f g).Same readers code code' p :=
  hf.pair fun a m hm => absurd hm (h a m)

/-- Where the first form does not match, the second is not come to. -/
theorem Same.andThen_of_not_matches {f : Form ρ Res α} {g : Form ρ Res β}
    (hf : f.Same readers code code' p) (h : ∀ a m, ¬f.Matches code (readers code) p a m) :
    (f *> g).Same readers code code' p :=
  (hf.pair_of_not_matches h).map

/-- The same where the result of the first form is kept. -/
theorem Same.before_of_not_matches {f : Form ρ Res α} {g : Form ρ Res β}
    (hf : f.Same readers code code' p) (h : ∀ a m, ¬f.Matches code (readers code) p a m) :
    (f <* g).Same readers code code' p :=
  (hf.pair_of_not_matches h).map

/-- A sequence does not match where its first form does not. -/
theorem not_matches_andThen {reader : Reader ρ Res} {f : Form ρ Res α} {g : Form ρ Res β}
    (h : ∀ a m, ¬f.Matches code reader p a m) (b : β) (m : Nat) :
    ¬(f *> g).Matches code reader p b m := by
  intro hmatch
  obtain ⟨a, m', hf, _⟩ := Form.matches_andThen.mp hmatch
  exact h a m' hf

/-- The same where the result of the first form is kept. -/
theorem not_matches_before {reader : Reader ρ Res} {f : Form ρ Res α} {g : Form ρ Res β}
    (h : ∀ a m, ¬f.Matches code reader p a m) (a : α) (m : Nat) :
    ¬(f <* g).Matches code reader p a m := by
  intro hmatch
  obtain ⟨b, m', hf, _⟩ := Form.matches_before.mp hmatch
  exact h a m' hf

/-- The other alternatives need only be looked at where the first fails. -/
theorem Same.first_cons {f : Form ρ Res α} {fs : List (Form ρ Res α)}
    (hf : f.Same readers code code' p)
    (hfs : f.Fails code (readers code) p → (Form.first fs).Same readers code code' p) :
    (Form.first (f :: fs)).Same readers code code' p :=
  hf.orElse hfs

theorem Same.first_nil : (Form.first [] : Form ρ Res α).Same readers code code' p := rfl

/-- A repetition is the same if its step is wherever it is read from. -/
theorem Same.many {f : Form ρ Res α} {takes : ρ → Bool} {P : Nat → Prop} {items : List α}
    (hadv : (readers code).Advances code.size takes)
    (hinside : ∀ q, P q → q ≤ code.size ∧ q ≤ code'.size)
    (hsame : ∀ q, P q → f.Same readers code code' q)
    (hnext : ∀ q a m, P q → f.Matches code (readers code) q a m → P m) (hp : P p)
    (h : (Form.many f).Matches code (readers code) p items q) :
    (Form.many f).Same readers code code' p := by
  have hstep : ∀ q, P q →
      Carried P 0 (f.read code (readers code) q) (f.read code' (readers code') q) := by
    intro q hq rd hrd
    have hrd' := hsame q hq
    rw [Same, hrd] at hrd'
    refine ⟨?_, rd, hrd', ?_⟩
    · cases rd with
      | failed reach => trivial
      | error message => trivial
      | matched a m reach => exact hnext q a m hq ⟨reach, hrd⟩
    · cases rd with
      | failed reach => exact Nat.zero_max reach
      | error message => exact rfl
      | matched a m reach => exact ⟨rfl, rfl, Nat.zero_max reach⟩
  have hsize := hinside p hp
  obtain ⟨reach, h⟩ := h
  have hcarried := Carried.many hinside (Form.read_advances hadv f) hstep (code.size + 1)
    (code'.size + 1) p hp (by omega) (by omega)
  obtain ⟨_, rd', hrd', hmoved⟩ := hcarried _ h
  rw [Same, h, hmoved.eq_of_zero.symm]
  exact hrd'

variable {G : Grammar ρ Res} {L : Layers ρ}

/-- A call of a rule reads the same if the form of the rule does. -/
theorem Same.call (hG : G.Layered L) {r : ρ}
    (h : (G r).form.Same (fun code => G.reader code L.height) code code' p) :
    (Form.call r : Form ρ Res (Res r)).Same (fun code => G.reader code L.height) code code' p := by
  rw [Same, Form.read, Form.read, Grammar.reader_eq hG, Grammar.reader_eq hG]
  exact h

/-- What is made of lexemes that reject a character is the same in front of that character, and does
not go beyond it. -/
theorem same_of_rejects (hG : G.Layered L) {rules : ρ → Bool} {c : Char}
    (hrules : ∀ r, rules r = true → (G r).form.madeOf (Lexeme.rejects c) false rules = true)
    {rest : List Char} (hcode : code'.toList = code.toList ++ rest) {form : Form ρ Res α}
    (hform : form.madeOf (Lexeme.rejects c) false rules = true) {j : Nat}
    (hj : code[j]? = some c) (hp : p ≤ j) :
    form.Same (fun code => G.reader code L.height) code code' p ∧
    ∀ a m, form.Matches code (G.reader code L.height) p a m → m ≤ j := by
  have hcarried := (Overlap.upTo hcode hj).read_carried hG hrules form hform p hp
  have hread := Grammar.read_eq_readForm hG code form p
  constructor
  · obtain ⟨_, rd', hrd', hmoved⟩ := hcarried _ hread
    rw [Same, hread, hmoved.eq_of_zero.symm]
    exact hrd'
  · intro a m hmatch
    obtain ⟨reach, hmatch⟩ := hmatch
    exact (hcarried _ hmatch).1

/-- A single character is the same wherever it stands in the first code. -/
theorem Same.char {c : Char} {rest : List Char} (hcode : code'.toList = code.toList ++ rest)
    (hp : p < code.size) : (Form.char c : Form ρ Res String).Same readers code code' p := by
  have hlt : p < code.toList.length := by rwa [Array.length_toList]
  have htext : TextFrom code p (code.toList[p] :: code.toList.drop (p + 1)) := by
    rw [TextFrom, List.drop_eq_getElem_cons hlt]
  have htext' : TextFrom code' (p + 0) (code.toList[p] :: (code.toList.drop (p + 1) ++ rest)) := by
    rw [TextFrom, Nat.add_zero, hcode, List.drop_append_of_le_length (Nat.le_of_lt hlt),
      List.drop_eq_getElem_cons hlt]
    rfl
  obtain ⟨hstop, hbetween⟩ := Lexeme.stop?_alike (l := [.one (· = c)]) htext htext' (by
    rw [Lexeme.taken?_singleton, Lexeme.taken?_singleton, Piece.taken?, Piece.taken?])
  rw [Nat.add_zero, Option.map_congr (fun _ _ => Nat.add_zero _), Option.map_id'] at hstop
  show Form.read code' _ (.lexeme _) p = Form.read code _ (.lexeme _) p
  rw [Form.read, Form.read, Matcher.stop?, Matcher.stop?, hstop]
  cases hs : Lexeme.stop? code [.one (· = c)] p with
  | none => rfl
  | some stop =>
    have hsame : textBetween code' p stop = textBetween code p stop := hbetween stop hs
    dsimp only
    rw [hsame]

end Form

end CalcScript.Packrat
