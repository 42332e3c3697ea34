import CalcScript.Packrat.Lexeme

/-!
# Lexemes and the text of a code

`TextFrom code p w` says that `w` is the text of the code from position `p` on, to the end.
`Lexeme.taken?` is what a lexeme takes of a text, and

> `Lexeme.stop?_eq`: where a lexeme stops is where the part of the text ends that it takes.

So lexemes can be reasoned about on lists of characters.
-/

namespace CalcScript.Packrat

/-- The text of the code from a position to the end. -/
def TextFrom (code : Array Char) (p : Nat) (w : List Char) : Prop :=
  code.toList.drop p = w

/-- The text of the code between two positions. -/
def TextTo (code : Array Char) (p : Nat) (w : List Char) (q : Nat) : Prop :=
  q = p + w.length ∧ TextFrom code p (w ++ code.toList.drop q)

section Text

variable {code : Array Char} {p q m : Nat} {c : Char} {w w' rest : List Char}

/-- Behind the first part of a text stands the rest of it. -/
theorem TextFrom.drop (h : TextFrom code p (w ++ rest)) : TextFrom code (p + w.length) rest := by
  rw [TextFrom] at h ⊢
  rw [← List.drop_drop, h, List.drop_left]

/-- Behind a character stands the rest of the text. -/
theorem TextFrom.tail (h : TextFrom code p (c :: rest)) : TextFrom code (p + 1) rest :=
  TextFrom.drop (w := [c]) h

/-- The character at a position is the first one of the text there. -/
theorem TextFrom.getElem? (h : TextFrom code p w) : code[p]? = w.head? := by
  rw [TextFrom] at h
  rw [← h, List.head?_drop, Array.getElem?_toList]

/-- Only at the end of the code is the text to the end empty, and only there or beyond. -/
theorem TextFrom.size_le_iff (h : TextFrom code p w) : code.size ≤ p ↔ w = [] := by
  rw [TextFrom] at h
  rw [← h, List.drop_eq_nil_iff, Array.length_toList]

/-- The texts of two stretches one behind the other are one text. -/
theorem TextTo.append (h : TextTo code p w m) (h' : TextTo code m w' q) :
    TextTo code p (w ++ w') q := by
  obtain ⟨rfl, hw⟩ := h
  obtain ⟨rfl, hw'⟩ := h'
  rw [TextFrom] at hw hw'
  refine ⟨by rw [List.length_append, Nat.add_assoc], ?_⟩
  rw [TextFrom, hw, hw', List.append_assoc]

/-- A part that stands at a position reaches as far as it is long. -/
theorem TextFrom.textTo (h : TextFrom code p (w ++ rest)) : TextTo code p w (p + w.length) := by
  refine ⟨rfl, ?_⟩
  have hrest := h.drop
  rw [TextFrom] at hrest
  rwa [hrest]

/-- The text between two positions is a part of the code. -/
theorem TextTo.isInfix (h : TextTo code p w q) : w <:+: code.toList := by
  obtain ⟨-, htext⟩ := h
  rw [TextFrom] at htext
  exact ⟨code.toList.take p, code.toList.drop q, by
    rw [List.append_assoc, ← htext, List.take_append_drop]⟩

/-- What is cut out of the code is the text that stands there. -/
theorem TextFrom.textBetween (h : TextFrom code p (w ++ rest)) :
    textBetween code p (p + w.length) = String.ofList w := by
  rw [TextFrom] at h
  rw [Packrat.textBetween, Array.toList_extract, List.extract_eq_take_drop, h,
    Nat.add_sub_cancel_left, List.take_left]

end Text

/-! ## What lexemes take -/

/-- The characters that a piece takes of a text. -/
def Piece.taken? : Piece → List Char → Option (List Char)
  | .one accepts, w =>
    match w with
    | [] => none
    | c :: _ => if accepts c then some [c] else none
  | .many1 accepts, w => if w.takeWhile accepts = [] then none else some (w.takeWhile accepts)
  | .many accepts, w => some (w.takeWhile accepts)

/-- The characters that a lexeme takes of a text. -/
def Lexeme.taken? : Lexeme → List Char → Option (List Char)
  | [], _ => some []
  | piece :: pieces, w =>
    match piece.taken? w with
    | none => none
    | some t => (Lexeme.taken? pieces (w.drop t.length)).map (t ++ ·)

/-- What a piece takes stands at the beginning. -/
theorem Piece.taken?_append {piece : Piece} {w t : List Char} (h : piece.taken? w = some t) :
    w = t ++ w.drop t.length := by
  have hwhile : ∀ accepts : Char → Bool,
      w = w.takeWhile accepts ++ w.drop (w.takeWhile accepts).length := fun accepts => by
    conv => lhs; rw [← List.takeWhile_append_dropWhile (p := accepts) (l := w)]
    rw [List.append_right_inj]
    conv => rhs; rw [← List.takeWhile_append_dropWhile (p := accepts) (l := w)]
    rw [List.drop_left' (by simp)]
  cases piece with
  | one accepts =>
    cases w with
    | nil => cases h
    | cons c w =>
      rw [Piece.taken?] at h
      split at h
      · cases h; rfl
      · cases h
  | many1 accepts =>
    rw [Piece.taken?] at h
    split at h
    · cases h
    · cases h; exact hwhile accepts
  | many accepts => cases h; exact hwhile accepts

/-- A lexeme takes a part of the text that stands at its beginning. -/
theorem Lexeme.taken?_append {l : Lexeme} :
    ∀ {w t : List Char}, l.taken? w = some t → w = t ++ w.drop t.length := by
  induction l with
  | nil => intro w t h; cases h; rfl
  | cons piece pieces ih =>
    intro w t h
    rw [Lexeme.taken?] at h
    cases hp : piece.taken? w with
    | none => rw [hp] at h; cases h
    | some t₁ =>
      rw [hp] at h
      obtain ⟨t₂, ht₂, rfl⟩ := Option.map_eq_some_iff.mp h
      have h₁ := Piece.taken?_append hp
      have h₂ := ih ht₂
      rw [List.drop_drop, ← List.length_append] at h₂
      rw [List.append_assoc, ← h₂]
      exact h₁

/-- The text is one that the piece may take. -/
def Piece.Fits : Piece → List Char → Prop
  | .one accepts, t => ∃ c, t = [c] ∧ accepts c = true
  | .many1 accepts, t => t ≠ [] ∧ ∀ c ∈ t, accepts c = true
  | .many accepts, t => ∀ c ∈ t, accepts c = true

/-- The text is one that the lexeme may take. -/
def Lexeme.Fits : Lexeme → List Char → Prop
  | [], t => t = []
  | piece :: pieces, t => ∃ t₁ t₂, t = t₁ ++ t₂ ∧ piece.Fits t₁ ∧ Lexeme.Fits pieces t₂

/-- What a piece takes fits the piece. -/
theorem Piece.fits_of_taken? {piece : Piece} {w t : List Char} (h : piece.taken? w = some t) :
    piece.Fits t := by
  cases piece with
  | one accepts =>
    cases w with
    | nil => cases h
    | cons c w =>
      rw [Piece.taken?] at h
      split at h
      next hc => cases h; exact ⟨c, rfl, hc⟩
      next => cases h
  | many1 accepts =>
    rw [Piece.taken?] at h
    split at h
    next => cases h
    next hne => cases h; exact ⟨hne, fun c hc => List.all_eq_true.mp List.all_takeWhile c hc⟩
  | many accepts => cases h; exact fun c hc => List.all_eq_true.mp List.all_takeWhile c hc

/-- What a lexeme takes fits the lexeme, piece by piece. -/
theorem Lexeme.fits_of_taken? {l : Lexeme} :
    ∀ {w t : List Char}, l.taken? w = some t → l.Fits t := by
  induction l with
  | nil => intro w t h; cases h; rfl
  | cons piece pieces ih =>
    intro w t h
    rw [Lexeme.taken?] at h
    cases hp : piece.taken? w with
    | none => rw [hp] at h; cases h
    | some t₁ =>
      rw [hp] at h
      obtain ⟨t₂, ht₂, rfl⟩ := Option.map_eq_some_iff.mp h
      exact ⟨t₁, t₂, rfl, Piece.fits_of_taken? hp, ih ht₂⟩

/-- A run ends behind the characters of its class that stand at its start. -/
theorem runEnd_eq {accepts : Char → Bool} {code : Array Char} :
    ∀ (rounds : Nat) {p : Nat} {w : List Char}, code.size - p ≤ rounds → TextFrom code p w →
      runEnd accepts code rounds p = p + (w.takeWhile accepts).length := by
  intro rounds
  induction rounds with
  | zero =>
    intro p w hle h
    have hw : w = [] := h.size_le_iff.mp (by omega)
    rw [hw]
    rfl
  | succ rounds ih =>
    intro p w hle h
    rw [runEnd, h.getElem?]
    cases w with
    | nil => rfl
    | cons c w =>
      rw [List.head?_cons, List.takeWhile_cons]
      dsimp only
      by_cases hc : accepts c = true
      · rw [if_pos hc, if_pos hc, ih (by omega) h.tail, List.length_cons]
        omega
      · rw [if_neg hc, if_neg hc]
        rfl

/-- On a text a piece stops behind what it takes. -/
theorem Piece.stop?_eq {piece : Piece} {code : Array Char} {p : Nat} {w : List Char}
    (h : TextFrom code p w) : piece.stop? code p = (piece.taken? w).map (p + ·.length) := by
  cases piece with
  | one accepts =>
    rw [Piece.stop?, h.getElem?]
    cases w with
    | nil => rfl
    | cons c w =>
      rw [List.head?_cons, Piece.taken?]
      dsimp only
      split <;> rfl
  | many1 accepts =>
    simp only [Piece.stop?, Piece.taken?]
    rw [runEnd_eq _ (Nat.le_refl _) h]
    by_cases hw : w.takeWhile accepts = []
    · rw [if_pos hw, hw, if_pos (by simp)]
      rfl
    · have hlen : 0 < (w.takeWhile accepts).length := List.length_pos_iff.mpr hw
      rw [if_neg hw, if_neg (by omega)]
      rfl
  | many accepts =>
    rw [Piece.stop?, Piece.taken?, runEnd_eq _ (Nat.le_refl _) h]
    rfl

/-- A lexeme stops where the part of the text ends that it takes. -/
theorem Lexeme.stop?_eq {code : Array Char} {l : Lexeme} :
    ∀ {p : Nat} {w : List Char}, TextFrom code p w →
      l.stop? code p = (l.taken? w).map (p + ·.length) := by
  induction l with
  | nil => intro p w _; rfl
  | cons piece pieces ih =>
    intro p w h
    rw [Lexeme.stop?, Lexeme.taken?, Piece.stop?_eq h]
    cases hp : piece.taken? w with
    | none => rfl
    | some t =>
      have hw := Piece.taken?_append hp
      rw [hw] at h
      rw [Option.map_some]
      dsimp only
      rw [ih h.drop, Option.map_map, Option.map_congr fun t' _ => ?_]
      show p + t.length + t'.length = p + (t ++ t').length
      rw [List.length_append, Nat.add_assoc]

/-! ## Lexemes at the beginning of a text -/

/-- The text does not begin with a character of the class. -/
def NotStarting (accepts : Char → Bool) (w : List Char) : Prop :=
  ∀ c, w.head? = some c → accepts c = false

/-- The text is empty or begins with one of the characters. -/
def ClosedBy (closers w : List Char) : Prop :=
  ∀ c, w.head? = some c → c ∈ closers

/-- The end of the code closes everything. -/
theorem ClosedBy.nil {closers : List Char} : ClosedBy closers [] := fun _ h => by cases h

/-- A text that begins with a closer. -/
theorem ClosedBy.cons {closers : List Char} {c : Char} {w : List Char} (h : c ∈ closers) :
    ClosedBy closers (c :: w) := by
  intro d hd
  cases hd
  exact h

/-- More closers close as well. -/
theorem ClosedBy.subset {closers closers' w : List Char} (h : ClosedBy closers w)
    (hsub : closers ⊆ closers') : ClosedBy closers' w :=
  fun c hc => hsub (h c hc)

/-- A class without closers goes on with none of them. -/
theorem ClosedBy.notStarting {closers w : List Char} {accepts : Char → Bool}
    (h : ClosedBy closers w) (hcs : closers.all (!accepts ·) = true) : NotStarting accepts w := by
  intro c hc
  have hnot := List.all_eq_true.mp hcs c (h c hc)
  rwa [Bool.not_eq_true'] at hnot

/-- No other character stands in front. -/
theorem ClosedBy.head_ne {closers w : List Char} {c : Char} (h : ClosedBy closers w)
    (hc : c ∉ closers) : w.head? ≠ some c :=
  fun heq => hc (h c heq)

/-- A text that begins with a character that is not of the class. -/
theorem notStarting_cons {accepts : Char → Bool} {c : Char} {w : List Char}
    (h : accepts c = false) : NotStarting accepts (c :: w) := by
  intro d hd
  cases hd
  exact h

/-- A character of a class is none of those outside the class. -/
theorem head_ne_of_accepts {accepts : Char → Bool} {c d : Char} {w : List Char}
    (hc : accepts c = true) (hd : accepts d = false) : (c :: w).head? ≠ some d := by
  intro heq
  rw [List.head?_cons, Option.some.injEq] at heq
  rw [heq, hd] at hc
  cases hc

/-- A character of the class stands neither in a text nor behind it. -/
theorem notStarting_append {accepts : Char → Bool} {w rest : List Char} {c : Char}
    (hw : ∀ d ∈ w, accepts d = false) (hc : accepts c = false) :
    NotStarting accepts (w ++ c :: rest) := by
  intro d hd
  cases w with
  | nil => cases hd; exact hc
  | cons e w => cases hd; exact hw d List.mem_cons_self

/-- What is taken ends where no more characters of the class follow. -/
theorem takeWhile_append_of_notStarting {accepts : Char → Bool} {t rest : List Char}
    (ht : ∀ c ∈ t, accepts c = true) (hrest : NotStarting accepts rest) :
    (t ++ rest).takeWhile accepts = t := by
  rw [List.takeWhile_append_of_pos ht]
  cases rest with
  | nil => rw [List.takeWhile_nil, List.append_nil]
  | cons c rest =>
    rw [List.takeWhile_cons, if_neg (by rw [hrest c rfl]; exact Bool.noConfusion), List.append_nil]

/-- One character of the class is taken where it stands. -/
theorem Piece.taken?_one {accepts : Char → Bool} {c : Char} {w : List Char}
    (hc : accepts c = true) : (Piece.one accepts).taken? (c :: w) = some [c] :=
  if_pos hc

/-- No character is taken where none of the class stands. -/
theorem Piece.taken?_one_eq_none {accepts : Char → Bool} {w : List Char}
    (h : NotStarting accepts w) : (Piece.one accepts).taken? w = none := by
  cases w with
  | nil => rfl
  | cons c w =>
    have hc := h c rfl
    rw [Piece.taken?]
    exact if_neg (by rw [hc]; exact Bool.noConfusion)

/-- All characters of the class are taken that stand there, one at least. -/
theorem Piece.taken?_many1 {accepts : Char → Bool} {t rest : List Char} (hne : t ≠ [])
    (ht : ∀ c ∈ t, accepts c = true) (hrest : NotStarting accepts rest) :
    (Piece.many1 accepts).taken? (t ++ rest) = some t := by
  rw [Piece.taken?, takeWhile_append_of_notStarting ht hrest]
  exact if_neg hne

/-- Nothing is taken where not even one of the class stands. -/
theorem Piece.taken?_many1_eq_none {accepts : Char → Bool} {w : List Char}
    (h : NotStarting accepts w) : (Piece.many1 accepts).taken? w = none := by
  have hw := takeWhile_append_of_notStarting (t := []) (fun _ hc => by cases hc) h
  rw [List.nil_append] at hw
  rw [Piece.taken?, hw]
  exact if_pos rfl

/-- All characters of the class are taken, if any. -/
theorem Piece.taken?_many {accepts : Char → Bool} {t rest : List Char}
    (ht : ∀ c ∈ t, accepts c = true) (hrest : NotStarting accepts rest) :
    (Piece.many accepts).taken? (t ++ rest) = some t := by
  rw [Piece.taken?, takeWhile_append_of_notStarting ht hrest]

/-- A lexeme of one piece takes what the piece takes. -/
theorem Lexeme.taken?_singleton (piece : Piece) (w : List Char) :
    Lexeme.taken? [piece] w = piece.taken? w := by
  rw [Lexeme.taken?]
  cases piece.taken? w with
  | none => rfl
  | some t => exact congrArg some (List.append_nil t)

/-- The pieces of a lexeme take one after the other. -/
theorem Lexeme.taken?_cons {piece : Piece} {pieces : Lexeme} {t rest : List Char}
    (h : piece.taken? (t ++ rest) = some t) :
    Lexeme.taken? (piece :: pieces) (t ++ rest) = (Lexeme.taken? pieces rest).map (t ++ ·) := by
  rw [Lexeme.taken?, h]
  dsimp only
  rw [List.drop_left]

/-- A lexeme takes nothing if its first piece does not. -/
theorem Lexeme.taken?_cons_eq_none {piece : Piece} {pieces : Lexeme} {w : List Char}
    (h : piece.taken? w = none) : Lexeme.taken? (piece :: pieces) w = none := by
  rw [Lexeme.taken?, h]

/-- A fixed text is taken where it stands. -/
theorem Lexeme.taken?_ofText (text : List Char) (rest : List Char) :
    Lexeme.taken? (text.map fun c => .one (· = c)) (text ++ rest) = some text := by
  induction text with
  | nil => rfl
  | cons c text ih =>
    have hc : (Piece.one (· = c)).taken? ([c] ++ (text ++ rest)) = some [c] :=
      Piece.taken?_one (decide_eq_true rfl)
    rw [List.map_cons]
    show Lexeme.taken? _ ([c] ++ (text ++ rest)) = _
    rw [Lexeme.taken?_cons hc, ih]
    rfl

/-- A fixed text is not taken where another one stands. -/
theorem Lexeme.taken?_ofText_eq_none {text : List Char} :
    ∀ {w : List Char}, ¬text <+: w → Lexeme.taken? (text.map fun c => .one (· = c)) w = none := by
  induction text with
  | nil => intro w h; exact absurd List.nil_prefix h
  | cons c text ih =>
    intro w h
    rw [List.map_cons]
    cases w with
    | nil => rfl
    | cons d w =>
      by_cases hd : d = c
      · have hone : (Piece.one (· = c)).taken? ([d] ++ w) = some [d] :=
          Piece.taken?_one (decide_eq_true hd)
        have htext : ¬text <+: w := fun hpre => h (List.cons_prefix_cons.mpr ⟨hd.symm, hpre⟩)
        show Lexeme.taken? _ ([d] ++ w) = none
        rw [Lexeme.taken?_cons hone, ih htext]
        rfl
      · refine Lexeme.taken?_cons_eq_none (Piece.taken?_one_eq_none fun e he => ?_)
        cases he
        exact decide_eq_false hd

end CalcScript.Packrat
