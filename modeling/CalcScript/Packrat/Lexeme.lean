/-!
# Lexemes

A lexeme is a sequence of pieces, each a class of characters with a count: exactly one, one or
more, any number. A piece takes as many characters as it can, so a lexeme matches at a position in
at most one way. `Lexeme.stop?` gives the position after the match.

A `Matcher` is a lexeme, or a `Scanner`: anything else that finds the end of a stretch of code.
-/

namespace CalcScript.Packrat

/-- The position of the first character from `pos` on, among the next `rounds`, that is not in the
class. -/
def runEnd (accepts : Char → Bool) (code : Array Char) : Nat → Nat → Nat
  | 0, pos => pos
  | rounds + 1, pos =>
    match code[pos]? with
    | some c => if accepts c then runEnd accepts code rounds (pos + 1) else pos
    | none => pos

/-- A class of characters with a count. -/
inductive Piece where
  /-- Exactly one character. -/
  | one (accepts : Char → Bool)
  /-- One or more characters. -/
  | many1 (accepts : Char → Bool)
  /-- Any number of characters. -/
  | many (accepts : Char → Bool)

/-- Where the piece ends that starts at a position. -/
def Piece.stop? (code : Array Char) (pos : Nat) : Piece → Option Nat
  | .one accepts =>
    match code[pos]? with
    | some c => if accepts c then some (pos + 1) else none
    | none => none
  | .many1 accepts =>
    let stop := runEnd accepts code (code.size - pos) pos
    if stop = pos then none else some stop
  | .many accepts => some (runEnd accepts code (code.size - pos) pos)

/-- A sequence of pieces. -/
abbrev Lexeme := List Piece

/-- Where the lexeme ends that starts at a position. -/
def Lexeme.stop? (code : Array Char) : Lexeme → Nat → Option Nat
  | [], pos => some pos
  | piece :: rest, pos =>
    match piece.stop? code pos with
    | some stop => Lexeme.stop? code rest stop
    | none => none

/-- The lexeme that is a fixed text. -/
def Lexeme.ofText (text : String) : Lexeme :=
  text.toList.map fun c => .one (· = c)

/-- Any way to match a stretch of code: a pattern with choices, say. A match ends inside the code and
not before it starts. -/
structure Scanner where
  stop? : Array Char → Nat → Option Nat
  bounds : ∀ code pos stop, stop? code pos = some stop → pos ≤ stop ∧ stop ≤ max pos code.size

/-- What matches a stretch of code by itself. -/
inductive Matcher where
  | lexeme (l : Lexeme)
  | scanner (m : Scanner)

/-- Where the match ends that starts at a position. -/
def Matcher.stop? (code : Array Char) : Matcher → Nat → Option Nat
  | .lexeme l => l.stop? code
  | .scanner m => m.stop? code

/-- The text between two positions. -/
def textBetween (code : Array Char) (start stop : Nat) : String :=
  String.ofList (code.extract start stop).toList

/-! ## A match lies inside the code -/

theorem le_runEnd (accepts : Char → Bool) (code : Array Char) :
    ∀ rounds pos, pos ≤ runEnd accepts code rounds pos
  | 0, _ => Nat.le_refl _
  | rounds + 1, pos => by
    unfold runEnd
    split
    · split
      · exact Nat.le_of_succ_le (le_runEnd accepts code rounds (pos + 1))
      · exact Nat.le_refl _
    · exact Nat.le_refl _

theorem runEnd_le_size (accepts : Char → Bool) (code : Array Char) :
    ∀ rounds pos, pos ≤ code.size → runEnd accepts code rounds pos ≤ code.size
  | 0, _, h => h
  | rounds + 1, pos, h => by
    unfold runEnd
    split
    · next hc =>
      obtain ⟨hlt, _⟩ := Array.getElem?_eq_some_iff.1 hc
      split
      · exact runEnd_le_size accepts code rounds (pos + 1) hlt
      · exact h
    · exact h

theorem Piece.stop?_bounds {code : Array Char} {pos stop : Nat} {piece : Piece}
    (hpos : pos ≤ code.size) (h : piece.stop? code pos = some stop) :
    pos ≤ stop ∧ stop ≤ code.size := by
  cases piece with
  | one accepts =>
    simp only [Piece.stop?] at h
    split at h
    · next hc =>
      obtain ⟨hlt, _⟩ := Array.getElem?_eq_some_iff.1 hc
      split at h
      · cases h; exact ⟨Nat.le_succ _, hlt⟩
      · cases h
    · cases h
  | many1 accepts =>
    simp only [Piece.stop?] at h
    split at h
    · cases h
    · cases h; exact ⟨le_runEnd .., runEnd_le_size _ _ _ _ hpos⟩
  | many accepts =>
    simp only [Piece.stop?] at h
    cases h
    exact ⟨le_runEnd .., runEnd_le_size _ _ _ _ hpos⟩

theorem Lexeme.stop?_bounds {code : Array Char} {lexeme : Lexeme} :
    ∀ {pos stop : Nat}, pos ≤ code.size → lexeme.stop? code pos = some stop →
      pos ≤ stop ∧ stop ≤ code.size := by
  induction lexeme with
  | nil =>
    intro pos stop hpos h
    cases h
    exact ⟨Nat.le_refl _, hpos⟩
  | cons piece rest ih =>
    intro pos stop hpos h
    simp only [Lexeme.stop?] at h
    split at h
    · next mid hmid =>
      have hb := Piece.stop?_bounds hpos hmid
      have hr := ih hb.2 h
      exact ⟨Nat.le_trans hb.1 hr.1, hr.2⟩
    · cases h

theorem Matcher.stop?_bounds {code : Array Char} {matcher : Matcher} {pos stop : Nat}
    (hpos : pos ≤ code.size) (h : matcher.stop? code pos = some stop) :
    pos ≤ stop ∧ stop ≤ code.size := by
  cases matcher with
  | lexeme l => exact Lexeme.stop?_bounds hpos h
  | scanner m =>
    obtain ⟨hle, hmax⟩ := m.bounds code pos stop h
    rw [Nat.max_eq_right hpos] at hmax
    exact ⟨hle, hmax⟩

end CalcScript.Packrat
