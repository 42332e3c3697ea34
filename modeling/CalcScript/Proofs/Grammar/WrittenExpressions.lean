import CalcScript.Proofs.Grammar.ProgramLoops
import CalcScript.Proofs.Grammar.Written

/-!
# Written expressions are read back

> `Written.readAs`: the text of an expression is read as the expression, whatever stands behind the
> text that may stand behind an expression.

`ReadAs` says what this means at each level. Sums, products and calls are read so that further
operands or arguments may follow, since what is written to the right of an expression may go on with
it. The texts hold no blank and no sign of equality (`Written.expressionText`).
-/

namespace CalcScript.Grammar.Program

open Packrat

/-- The readers of codes. -/
def reads (code : Array Char) : Reader Name Result := loops.reader code layers.height

section

variable {α β : Type} {u w rest : List Char} {e f : Node} {op : Operator} {ops : List Operator}
  {name : String}

/-! ## Characters -/

/-- The character may stand in an expression. -/
def isExpressionChar (c : Char) : Bool :=
  isNamePart c || ['.', '+', '-', '*', '/', '(', ')', ','].contains c

/-- The text may be one of an expression: it is not empty, and there is no blank in it. -/
def ExpressionText (w : List Char) : Prop := w ≠ [] ∧ ∀ c ∈ w, isExpressionChar c = true

/-- The code points of letters, digits and the underscore. -/
theorem isNamePart_toNat {c : Char} (h : isNamePart c = true) :
    (48 ≤ c.toNat ∧ c.toNat ≤ 57) ∨ (65 ≤ c.toNat ∧ c.toNat ≤ 90) ∨ c.toNat = 95 ∨
      (97 ≤ c.toNat ∧ c.toNat ≤ 122) := by
  rw [isNamePart, isNameStart, isDigit] at h
  simp only [Bool.or_eq_true, Bool.and_eq_true, decide_eq_true_eq] at h
  rcases h with ((h | h) | rfl) | h
  · exact Or.inr (Or.inr (Or.inr h))
  · exact Or.inr (Or.inl h)
  · exact Or.inr (Or.inr (Or.inl rfl))
  · exact Or.inl h

/-- Expressions are written without blanks. -/
theorem isBlank_of_isExpressionChar {c : Char} (h : isExpressionChar c = true) :
    isBlank c = false := by
  rw [isExpressionChar, Bool.or_eq_true] at h
  rcases h with h | h
  · have hrange := isNamePart_toNat h
    rw [Bool.eq_false_iff]
    intro hblank
    simp only [isBlank, blankRanges, List.any_cons, List.any_nil, Bool.or_eq_true, Bool.and_eq_true,
      decide_eq_true_eq, Bool.or_false] at hblank
    omega
  · have hall : ['.', '+', '-', '*', '/', '(', ')', ','].all (!isBlank ·) = true := by decide
    have hnot := List.all_eq_true.mp hall c (List.contains_iff_mem.mp h)
    rwa [Bool.not_eq_true'] at hnot

/-- In particular without spaces and tabulators. -/
theorem isGap_of_isExpressionChar {c : Char} (h : isExpressionChar c = true) :
    isGap c = false := by
  rw [Bool.eq_false_iff]
  intro hgap
  have hblank := isBlank_of_isExpressionChar h
  rw [isBlank_of_isGap hgap] at hblank
  cases hblank

/-- No name begins with a digit. -/
theorem isNameStart_of_isDigit {c : Char} (h : isDigit c = true) : isNameStart c = false := by
  have hdigit : 48 ≤ c.toNat ∧ c.toNat ≤ 57 := isDigit_iff.mp h
  rw [Bool.eq_false_iff]
  intro hstart
  rw [isNameStart] at hstart
  simp only [Bool.or_eq_true, Bool.and_eq_true, decide_eq_true_eq] at hstart
  rcases hstart with (⟨hlow, _⟩ | ⟨hlow, _⟩) | rfl
  · have hle : 97 ≤ c.toNat := hlow
    omega
  · have hle : 65 ≤ c.toNat := hlow
    omega
  · exact absurd hdigit.2 (by decide)

/-- No blank stands where an expression begins. -/
theorem ExpressionText.notBlank (h : ExpressionText w) (rest : List Char) :
    NotStarting isBlank (w ++ rest) := by
  obtain ⟨hne, hw⟩ := h
  cases w with
  | nil => exact absurd rfl hne
  | cons c w =>
    intro d hd
    cases hd
    exact isBlank_of_isExpressionChar (hw _ List.mem_cons_self)

/-- Nor does a space or a tabulator. -/
theorem ExpressionText.notGap (h : ExpressionText w) (rest : List Char) :
    NotStarting isGap (w ++ rest) := by
  intro c hc
  rw [Bool.eq_false_iff]
  intro hgap
  have hblank := h.notBlank rest c hc
  rw [isBlank_of_isGap hgap] at hblank
  cases hblank

/-- Texts of expressions with a character of expressions between them. -/
theorem ExpressionText.append {u w : List Char} {c : Char} (hu : ExpressionText u)
    (hc : isExpressionChar c = true) (hw : ∀ d ∈ w, isExpressionChar d = true) :
    ExpressionText (u ++ c :: w) := by
  refine ⟨fun h => hu.1 (List.append_eq_nil_iff.mp h).1, fun d hd => ?_⟩
  rcases List.mem_append.mp hd with hd | hd
  · exact hu.2 d hd
  · rcases List.mem_cons.mp hd with rfl | hd
    · exact hc
    · exact hw d hd

/-- What stands in parentheses may be empty. -/
theorem ExpressionText.bracketed (hw : ∀ d ∈ w, isExpressionChar d = true) :
    ExpressionText ('(' :: (w ++ [')'])) := by
  refine ⟨List.cons_ne_nil _ _, fun d hd => ?_⟩
  rcases List.mem_cons.mp hd with rfl | hd
  · rfl
  · rcases List.mem_append.mp hd with hd | hd
    · exact hw d hd
    · cases List.mem_singleton.mp hd
      rfl

/-- A name is the text of an expression. -/
theorem IsName.expressionText (h : IsName name) : ExpressionText name.toList := by
  obtain ⟨c, cs, hname, hc, hcs⟩ := h
  rw [hname]
  refine ⟨List.cons_ne_nil c cs, fun d hd => ?_⟩
  rw [isExpressionChar, Bool.or_eq_true]
  rcases List.mem_cons.mp hd with rfl | hd
  · exact Or.inl (by rw [isNamePart, hc]; rfl)
  · exact Or.inl (hcs d hd)

/-- So are digits. -/
theorem expressionText_of_isDigits (h : IsDigits w) : ExpressionText w := by
  refine ⟨h.1, fun c hc => ?_⟩
  rw [isExpressionChar, isNamePart, h.2 c hc, Bool.or_true, Bool.true_or]

/-- The characters of operators occur in expressions. -/
theorem isExpressionChar_symbol (op : Operator) : isExpressionChar (symbol op) = true := by
  cases op <;> rfl

/-- An integer is written as the text of an expression. -/
theorem intText_expressionText (n : Int) : ExpressionText (intText n) := by
  have hdigits := expressionText_of_isDigits (isDigits_toDigits n.natAbs)
  unfold intText
  split
  · exact ⟨List.cons_ne_nil _ _, List.forall_mem_cons.mpr ⟨rfl, hdigits.2⟩⟩
  · exact hdigits

/-- What a phrase's text is made of. -/
def PhraseText : Phrase → List Char → Prop
  | .bare e, w => IsExpression e → ExpressionText w
  | .operand _ e, w => IsExpression e → ExpressionText w
  | .arguments es, w => (∀ e ∈ es, IsExpression e) → ∀ c ∈ w, isExpressionChar c = true
  | _, _ => True

/-- There is no blank and no sign of equality in the text of an expression. -/
theorem Written.phraseText {φ : Phrase} (h : Written φ w) : PhraseText φ w := by
  induction h with
  | int n => exact fun _ => intText_expressionText n
  | float hu hw _ =>
    exact fun _ =>
      (expressionText_of_isDigits hu).append rfl (expressionText_of_isDigits hw).2
  | negativeFloat hu hw _ =>
    intro _
    have htext := (expressionText_of_isDigits hu).append (c := '.') rfl
      (expressionText_of_isDigits hw).2
    exact ⟨List.cons_ne_nil _ _, List.forall_mem_cons.mpr ⟨rfl, htext.2⟩⟩
  | var name => intro he; cases he with | var hname => exact hname.expressionText
  | bin _ _ ihl ihr =>
    intro he
    cases he with
    | bin hl hr => exact (ihl hl).append (isExpressionChar_symbol _) (ihr hr).2
  | call _ _ ihf ihs =>
    intro he
    cases he with
    | call hf hs =>
      refine (ihf hf).append rfl fun d hd => ?_
      rcases List.mem_append.mp hd with hd | hd
      · exact ihs hs d hd
      · cases List.mem_singleton.mp hd
        rfl
  | unparenthesized _ _ ih => exact ih
  | parenthesized _ _ ih => exact fun he => .bracketed (ih he).2
  | noArgument => exact fun _ c hc => absurd hc List.not_mem_nil
  | oneArgument _ ih => exact fun hes => (ih (hes _ List.mem_cons_self)).2
  | moreArguments _ _ ih ihs =>
    intro hes
    exact ((ih (hes _ List.mem_cons_self)).append rfl
      (ihs fun e' he' => hes e' (List.mem_cons_of_mem _ he'))).2
  | _ => trivial

/-- What an expression is written as is the text of an expression. -/
theorem Written.expressionText (h : Written (.bare e) w) (he : IsExpression e) :
    ExpressionText w :=
  h.phraseText he

/-- The parentheses that an operand may need are part of such a text. -/
theorem Written.operandText {place : Nat} (h : Written (.operand place e) w)
    (he : IsExpression e) : ExpressionText w :=
  h.phraseText he

/-! ## Blanks, names and brackets -/

/-- Blanks that may be missing are missing where none stands. -/
theorem someBlanks_parses (h : NotStarting isBlank rest) : someBlanks.Parses reads [] rest none :=
  Form.Refuses.optional
    (Form.Refuses.lexeme (Lexeme.taken?_cons_eq_none (Piece.taken?_many1_eq_none h)))

/-- The same for spaces and tabulators. -/
theorem someGap_parses (h : NotStarting isGap rest) : someGap.Parses reads [] rest none :=
  Form.Refuses.optional
    (Form.Refuses.lexeme (Lexeme.taken?_cons_eq_none (Piece.taken?_many1_eq_none h)))

/-- A name is read up to its end. -/
theorem variable_parses (h : IsName name) (hrest : NotStarting isNamePart rest) :
    (rule .variable).Parses reads name.toList rest name := by
  obtain ⟨c, cs, hname, hc, hcs⟩ := h
  have hone : (Piece.one isNameStart).taken? ([c] ++ (cs ++ rest)) = some [c] := Piece.taken?_one hc
  have hlex : Lexeme.taken? [.one isNameStart, .many isNamePart] (name.toList ++ rest)
      = some name.toList := by
    rw [hname]
    show Lexeme.taken? _ ([c] ++ (cs ++ rest)) = _
    rw [Lexeme.taken?_cons hone, Lexeme.taken?_singleton, Piece.taken?_many hcs hrest]
    rfl
  have hparses : (Form.lexeme [.one isNameStart, .many isNamePart] : Part String).Parses reads
      name.toList rest (String.ofList name.toList) := .lexeme hlex
  rw [String.ofList_toList] at hparses
  exact .call loops_layered hparses

/-- No variable is read where no name begins. -/
theorem variable_refuses (h : NotStarting isNameStart w) : (rule .variable).Refuses reads w :=
  .call loops_layered (.lexeme (Lexeme.taken?_cons_eq_none (Piece.taken?_one_eq_none h)))

/-- What stands between an opening form and a closing character, with no blanks around it. -/
theorem between_parses {opening : Part β} {inner : Part α} {c : Char} {a : α} {b : β}
    (hopening : opening.Parses reads u (w ++ c :: rest) b)
    (hinner : inner.Parses reads w (c :: rest) a) (hw : NotStarting isBlank (w ++ c :: rest))
    (hc : isBlank c = false) :
    (opening *> someBlanks *> inner <* someBlanks <* .char c).Parses reads (u ++ (w ++ [c])) rest
      a := by
  have hopened : (opening *> someBlanks).Parses reads u (w ++ c :: rest) none :=
    hopening.andThen_nil (someBlanks_parses hw)
  have hread : (opening *> someBlanks *> inner).Parses reads (u ++ w) (c :: rest) a :=
    hopened.andThen hinner
  have hblanks : (opening *> someBlanks *> inner <* someBlanks).Parses reads (u ++ w) (c :: rest)
      a := hread.before_nil (someBlanks_parses (notStarting_cons hc))
  rw [← List.append_assoc]
  exact .before hblanks .char

/-- What stands in parentheses, with no blanks around it. -/
theorem bracketed_parses {inner : Part α} {a : α} (hinner : inner.Parses reads w (')' :: rest) a)
    (hw : NotStarting isBlank (w ++ ')' :: rest)) :
    (.char '(' *> someBlanks *> inner <* someBlanks <* .char ')').Parses reads
      ('(' :: (w ++ [')'])) rest a :=
  between_parses .char hinner hw (by decide)

/-- Items with commas between them, each of which is read where a comma or a closing parenthesis
stands behind it. -/
inductive Joined (item : Part α) : List α → List Char → Prop where
  | one {a : α} {w : List Char} (h : ∀ rest, ClosedBy [',', ')'] rest → item.Parses reads w rest a) :
      Joined item [a] w
  | more {a : α} {items : List α} {u w : List Char}
      (h : ∀ rest, ClosedBy [',', ')'] rest → item.Parses reads u rest a)
      (hs : Joined item items w) (hw : ∀ rest, NotStarting isBlank (w ++ rest)) :
      Joined item (a :: items) (u ++ ',' :: w)

/-- A character that may have blanks around it, but has none. -/
theorem spaced_parses {c : Char} (hc : isBlank c = false) (h : NotStarting isBlank rest) :
    (spaced c).Parses reads [c] rest (String.ofList [c]) := by
  have hchar : (someBlanks *> .char c : Part String).Parses reads [c] rest (String.ofList [c]) :=
    .nil_andThen (someBlanks_parses (notStarting_cons hc)) .char
  exact hchar.before_nil (someBlanks_parses h)

/-- It is not read where another character stands. -/
theorem spaced_refuses {c : Char} (h : NotStarting isBlank w) (hc : w.head? ≠ some c) :
    (spaced c).Refuses reads w :=
  .before ((someBlanks_parses h).andThen_refuses (.char hc))

/-- Items joined by commas are read as the list of them. -/
theorem commaSeparated_parses {item : Part α} {items : List α} (h : Joined item items w)
    (hrest : ClosedBy [')'] rest) : (commaSeparated item).Parses reads w rest items := by
  have hclosed : ClosedBy [',', ')'] rest := hrest.subset (by decide)
  have hstop : (spaced ',' *> item).Refuses reads rest :=
    .andThen (spaced_refuses (hrest.notStarting (by decide)) (hrest.head_ne (by decide)))
  -- the form has the first item apart from the repetition, `Joined` has the last one apart
  have hparts : ∃ u v head tail, w = u ++ v ∧ items = head :: tail ∧
      item.Parses reads u (v ++ rest) head ∧ (spaced ',' *> item).Repeats reads v rest tail := by
    induction h with
    | one h => exact ⟨_, [], _, [], (List.append_nil _).symm, rfl, h rest hclosed, .stop hstop⟩
    | @more a items u w h hs hw ih =>
      obtain ⟨u', v, head, tail, rfl, rfl, hhead, htail⟩ := ih
      have hblank : NotStarting isBlank (u' ++ (v ++ rest)) := by
        rw [← List.append_assoc]
        exact hw rest
      have hitem : (spaced ',' *> item).Parses reads (',' :: u') (v ++ rest) head :=
        .andThen (spaced_parses (by decide) hblank) hhead
      exact ⟨u, ',' :: u' ++ v, a, head :: tail, rfl, rfl, h _ (.cons (by decide)),
        .next (List.cons_ne_nil _ _) hitem htail⟩
  obtain ⟨u, v, head, tail, rfl, rfl, hhead, htail⟩ := hparts
  exact .map (.pair hhead htail.parses)

/-! ## What it means to be read at a level -/

/-- Two operands with an operator between them. -/
def applied : Node × Operator × Node → Node := fun (l, op, r) => .bin op l r

/-- A call with arguments, which may be missing. -/
def called : Node × Option (List Node) → Node := fun (callee, args) => .call callee (args.getD [])

/-- The characters that may stand behind an expression. -/
def expressionClosers : List Char := ['+', '-', ')', ',', ';']

/-- The characters that may stand behind a term or a factor. -/
def termClosers : List Char := ['*', '/', '+', '-', ')', ',', ';']

/-- The characters that may stand behind a primary. -/
def primaryClosers : List Char := ['(', '*', '/', '+', '-', ')', ',', ';']

/-- The text is read as the expression in a place that asks for a level. -/
def ReadAs : Nat → List Char → Node → Prop
  | 0, w, e =>
    (rule .expression).ParsesOpen reads applied (operand additive (rule .term))
      (ClosedBy expressionClosers) w e
  | 1, w, e =>
    (rule .term).ParsesOpen reads applied (operand multiplicative (rule .factor))
      (ClosedBy termClosers) w e
  | 2, w, e => ∀ rest, ClosedBy termClosers rest → (rule .factor).Parses reads w rest e
  | _, w, e =>
    (∃ c v, w = c :: v ∧ c ≠ '-') ∧
      (rule .primary).ParsesOpen reads called argumentList (ClosedBy primaryClosers) w e

/-- An operator with an operand behind it. -/
theorem operand_parses {right : Part Node} (hop : op ∈ ops) (h : right.Parses reads w rest e)
    (hw : NotStarting isBlank (w ++ rest)) :
    (operand ops right).Parses reads (symbol op :: w) rest (op, e) := by
  have hsymbol : NotStarting isBlank (symbol op :: (w ++ rest)) :=
    notStarting_cons (isBlank_of_isExpressionChar (isExpressionChar_symbol op))
  have hoperator : (someBlanks *> oneOf ops : Part Operator).Parses reads [symbol op] (w ++ rest)
      op := .nil_andThen (someBlanks_parses hsymbol) (oneOf_parses hop)
  exact (hoperator.before_nil (someBlanks_parses hw)).pair h

/-- No operand is read behind an expression that ends here. -/
theorem operand_refuses {right : Part Node} {closers : List Char} (hrest : ClosedBy closers rest)
    (hblank : closers.all (!isBlank ·) = true) (hops : ∀ op ∈ ops, symbol op ∉ closers) :
    (operand ops right).Refuses reads rest := by
  have hoperator : (someBlanks *> oneOf ops : Part Operator).Refuses reads rest :=
    (someBlanks_parses (hrest.notStarting hblank)).andThen_refuses
      (oneOf_refuses fun op hop => hrest.head_ne (hops op hop))
  exact .pair (.before hoperator)

/-- No arguments are read where no parenthesis opens. -/
theorem argumentList_refuses (h : w.head? ≠ some '(') : argumentList.Refuses reads w :=
  .before (.before (.andThen (.andThen (.char h))))

/-- A primary is a factor, since it does not begin with a minus sign. -/
theorem ReadAs.factor (h : ReadAs 3 w e) : ReadAs 2 w e := by
  obtain ⟨⟨c, v, rfl, hc⟩, hopen⟩ := h
  intro rest hrest
  have hminus : ((c :: v) ++ rest).head? ≠ some '-' := fun heq => hc (Option.some.inj heq)
  have hprimary : (rule .primary).Parses reads (c :: v) rest e :=
    hopen.parses (hrest.subset (by decide)) (argumentList_refuses (hrest.head_ne (by decide)))
  exact .call loops_layered
    (.first_tail (.map (.andThen (.andThen (.char hminus)))) (.first_head hprimary))

/-- What is read as a factor is read as a term. -/
theorem ReadAs.term (h : ReadAs 2 w e) : ReadAs 1 w e :=
  Form.ParsesOpen.call loops_layered (.ofBase fun rest hrest => h rest hrest)

/-- What is read as a term is read as an expression. -/
theorem ReadAs.expression (h : ReadAs 1 w e) : ReadAs 0 w e := by
  refine Form.ParsesOpen.call loops_layered (.ofBase fun rest hrest => ?_)
  refine Form.ParsesOpen.parses h (hrest.subset (by decide)) ?_
  exact operand_refuses hrest (by decide) (by decide)

/-- What is read in a place that asks for a level is read where less is asked for. -/
theorem ReadAs.lower {k : Nat} (h : ReadAs k w e) (hk : k ≤ 3) : ∀ {j}, j ≤ k → ReadAs j w e := by
  intro j hj
  obtain rfl | rfl | rfl | rfl : k = 0 ∨ k = 1 ∨ k = 2 ∨ k = 3 := by omega
  · obtain rfl : j = 0 := by omega
    exact h
  · obtain rfl | rfl : j = 0 ∨ j = 1 := by omega
    · exact h.expression
    · exact h
  · obtain rfl | rfl | rfl : j = 0 ∨ j = 1 ∨ j = 2 := by omega
    · exact h.term.expression
    · exact h.term
    · exact h
  · obtain rfl | rfl | rfl | rfl : j = 0 ∨ j = 1 ∨ j = 2 ∨ j = 3 := by omega
    · exact h.factor.term.expression
    · exact h.factor.term
    · exact h.factor
    · exact h

/-- An expression that nothing continues. -/
theorem ReadAs.parses (h : ReadAs 0 w e) (hrest : ClosedBy [',', ')', ';'] rest) :
    (rule .expression).Parses reads w rest e := by
  refine Form.ParsesOpen.parses h (hrest.subset (by decide)) ?_
  exact operand_refuses hrest (by decide) (by decide)

/-! ## Atoms -/

/-- What an atom is read as is a primary that may be called. -/
theorem ReadAs.ofAtom (hhead : ∃ c v, w = c :: v ∧ c ≠ '-')
    (h : ∀ rest, ClosedBy primaryClosers rest → (rule .atom).Parses reads w rest e) :
    ReadAs 3 w e :=
  ⟨hhead, .call loops_layered (.ofBase h)⟩

/-- A number is read as an atom: it is no variable and stands in no parentheses. -/
theorem atom_parses_number (hw : IsDigits u) (h : (rule .number).Parses reads (u ++ w) rest e) :
    (rule .atom).Parses reads (u ++ w) rest e := by
  obtain ⟨c, v, rfl, hc⟩ := hw.head
  have hopen : ((c :: v ++ w) ++ rest).head? ≠ some '(' := head_ne_of_accepts hc rfl
  have hvariable : (rule .variable).Refuses reads ((c :: v ++ w) ++ rest) :=
    variable_refuses (notStarting_cons (isNameStart_of_isDigit hc))
  have hparenthesized : parenthesized.Refuses reads ((c :: v ++ w) ++ rest) :=
    .before (.before (.andThen (.andThen (.char hopen))))
  exact .call loops_layered
    (.first_tail hparenthesized (.first_tail hvariable.map (.first_head h)))

/-- No digit stands behind a primary that ends. -/
theorem primaryClosers_notDigit (h : ClosedBy primaryClosers rest) : NotStarting isDigit rest :=
  h.notStarting (by decide)

/-- Digits begin with no minus sign. -/
theorem head_of_isDigits (hu : IsDigits u) (w : List Char) : ∃ c v, u ++ w = c :: v ∧ c ≠ '-' := by
  obtain ⟨c, v, rfl, hc⟩ := hu.head
  refine ⟨c, v ++ w, rfl, ?_⟩
  rintro rfl
  cases hc

/-- Digits with no point behind them are read as an integer literal. -/
theorem number_parses_digits (hw : IsDigits w) (hle : Decimal.ofDigits w ≤ largestInt)
    (hconv : conversionError? (String.ofList w) = none) (hrest : NotStarting isDigit rest)
    (hpoint : rest.head? ≠ some '.') :
    (rule .number).Parses reads w rest (.int (Decimal.ofDigits w)) := by
  have hrefuses : (rule .floatLiteral).Refuses reads (w ++ rest) :=
    .call loops_layered (floatLiteral_refuses_digits hw hrest hpoint)
  have hint : (rule .intLiteral).Parses reads w rest (.int (Decimal.ofDigits w)) :=
    .call loops_layered (checkedInt_parses hw hrest hle hconv)
  exact .call loops_layered (.first_tail hrefuses (.first_head hint))

/-- Digits with a point among them are read as a floating-point literal. -/
theorem number_parses_pointed (hu : IsDigits u) (hw : IsDigits w)
    (hrest : NotStarting isDigit rest) :
    (rule .number).Parses reads (u ++ '.' :: w) rest
      (.float (Floating.readSingle false (pointedValue u w))) :=
  .call loops_layered (.first_head (.call loops_layered (floatLiteral_parses hu hw hrest)))

/-- An integer literal is read back wherever an atom may stand. -/
theorem readAs_digits (hw : IsDigits w) (hle : Decimal.ofDigits w ≤ largestInt)
    (hconv : conversionError? (String.ofList w) = none) :
    ReadAs 3 w (.int (Decimal.ofDigits w)) := by
  have hhead := head_of_isDigits hw []
  rw [List.append_nil] at hhead
  refine .ofAtom hhead fun rest hrest => ?_
  have hnumber : (rule .number).Parses reads (w ++ []) rest (.int (Decimal.ofDigits w)) := by
    rw [List.append_nil]
    exact number_parses_digits hw hle hconv (primaryClosers_notDigit hrest)
      (hrest.head_ne (by decide))
  have hatom := atom_parses_number hw hnumber
  rw [List.append_nil] at hatom
  exact hatom

/-- So is a natural number, from the digits that it is written with. -/
theorem readAs_natural {n : Nat} (h : n ≤ largestInt) :
    ReadAs 3 (Nat.toDigits 10 n) (.int n) := by
  have hlength : (Nat.toDigits 10 n).length ≤ 10 :=
    (Nat.length_toDigits_le_iff (by decide) (by decide)).mpr (Nat.lt_of_le_of_lt h (by decide))
  have hread := readAs_digits (isDigits_toDigits n) (by rw [Decimal.ofDigits_toDigits]; exact h)
    (conversionError?_eq_none (Nat.le_trans hlength (by decide)))
  rw [Decimal.ofDigits_toDigits] at hread
  exact hread

/-- So is a floating-point literal. -/
theorem readAs_pointed (hu : IsDigits u) (hw : IsDigits w) :
    ReadAs 3 (u ++ '.' :: w) (floatOfPointed (String.ofList (u ++ '.' :: w))) := by
  refine .ofAtom (head_of_isDigits hu _) fun rest hrest => ?_
  rw [floatOfPointed_eq hu]
  exact atom_parses_number hu (number_parses_pointed hu hw (primaryClosers_notDigit hrest))

/-- So is a variable. -/
theorem readAs_variable (h : IsName name) : ReadAs 3 name.toList (.var name) := by
  have hname := h
  obtain ⟨c, cs, hchars, hc, _⟩ := h
  refine .ofAtom ⟨c, cs, hchars, by rintro rfl; cases hc⟩ fun rest hrest => ?_
  have hopen : (name.toList ++ rest).head? ≠ some '(' := by
    rw [hchars]
    exact head_ne_of_accepts hc rfl
  have hparenthesized : parenthesized.Refuses reads (name.toList ++ rest) :=
    .before (.before (.andThen (.andThen (.char hopen))))
  have hvariable := variable_parses hname (hrest.notStarting (by decide))
  exact .call loops_layered (.first_tail hparenthesized (.first_head hvariable.map))

/-- So is an expression in parentheses. -/
theorem readAs_parenthesized (h : ReadAs 0 w e) (hw : ExpressionText w) :
    ReadAs 3 ('(' :: (w ++ [')'])) e := by
  refine .ofAtom ⟨_, _, rfl, by decide⟩ fun rest hrest => ?_
  have hinner : (rule .expression).Parses reads w (')' :: rest) e := h.parses (.cons (by decide))
  exact .call loops_layered (.first_head (bracketed_parses hinner (hw.notBlank _)))

/-! ## Negative literals, operators and calls -/

/-- A literal behind a minus sign. -/
theorem readAs_negative (h : ReadAs 3 w e) (hw : ExpressionText w) :
    ReadAs 2 ('-' :: w) e.negative := by
  intro rest hrest
  have hprimary : (rule .primary).Parses reads w rest e :=
    h.2.parses (hrest.subset (by decide)) (argumentList_refuses (hrest.head_ne (by decide)))
  have hminus : (Form.char '-' *> someGap : Part (Option String)).Parses reads ['-'] (w ++ rest)
      none := Form.Parses.char.andThen_nil (someGap_parses (hw.notGap rest))
  exact .call loops_layered (.first_head (.map (.andThen hminus hprimary)))

/-- An operator between operands is read on its own level. -/
theorem readAs_bin (op : Operator) (hl : ReadAs op.level u e)
    (hr : ReadAs (op.level + 1) w f) (hw : ExpressionText w) :
    ReadAs op.level (u ++ symbol op :: w) (.bin op e f) := by
  have hadditive : ∀ op ∈ additive, symbol op ∈ expressionClosers := by decide
  have hmultiplicative : ∀ op ∈ multiplicative, symbol op ∈ termClosers := by decide
  have hsum : op ∈ additive → ReadAs 0 u e → ReadAs 1 w f →
      ReadAs 0 (u ++ symbol op :: w) (.bin op e f) := by
    intro hop hl hr
    refine Form.ParsesOpen.extended hl (List.cons_ne_nil _ _) (fun _ => .cons (hadditive op hop))
      fun rest hrest => operand_parses hop ?_ (hw.notBlank rest)
    exact Form.ParsesOpen.parses hr (hrest.subset (by decide))
      (operand_refuses hrest (by decide) (by decide))
  have hproduct : op ∈ multiplicative → ReadAs 1 u e → ReadAs 2 w f →
      ReadAs 1 (u ++ symbol op :: w) (.bin op e f) := by
    intro hop hl hr
    exact Form.ParsesOpen.extended hl (List.cons_ne_nil _ _)
      (fun _ => .cons (hmultiplicative op hop))
      fun rest hrest => operand_parses hop (hr rest hrest) (hw.notBlank rest)
  -- the level of an operator decides which loop it belongs to
  cases op with
  | plus => exact hsum (by decide) hl hr
  | minus => exact hsum (by decide) hl hr
  | times => exact hproduct (by decide) hl hr
  | divide => exact hproduct (by decide) hl hr

/-- Nothing that begins like an expression stands before a closing bracket or the end. -/
theorem expression_refuses (h : ClosedBy [')', '}'] w) : (rule .expression).Refuses reads w := by
  have hdigit : NotStarting isDigit w := h.notStarting (by decide)
  have hnumber : (rule .number).Refuses reads w := by
    refine .call loops_layered (.first fun f hf => ?_)
    rcases List.mem_pair.mp hf with rfl | rfl
    · exact .call loops_layered (floatLiteral_refuses hdigit)
    · exact .call loops_layered (checkedInt_refuses hdigit)
  have hatom : (rule .atom).Refuses reads w := by
    refine .call loops_layered (.first fun f hf => ?_)
    rcases List.mem_cons.mp hf with rfl | hf
    · exact .before (.before (.andThen (.andThen (.char (h.head_ne (by decide))))))
    · rcases List.mem_pair.mp hf with rfl | rfl
      · exact (variable_refuses (h.notStarting (by decide))).map
      · exact hnumber
  have hprimary : (rule .primary).Refuses reads w := by
    have hloop : (Form.leftFold called (rule .atom) argumentList).Refuses reads w := .leftFold hatom
    exact .call loops_layered hloop
  have hfactor : (rule .factor).Refuses reads w := by
    refine .call loops_layered (.first fun f hf => ?_)
    rcases List.mem_pair.mp hf with rfl | rfl
    · exact .map (.andThen (.andThen (.char (h.head_ne (by decide)))))
    · exact hprimary
  have hterm : (rule .term).Refuses reads w := by
    have hloop : (operandLoop (rule .factor) multiplicative).Refuses reads w :=
      Form.Refuses.leftFold hfactor
    exact .call loops_layered hloop
  have hloop : (operandLoop (rule .term) additive).Refuses reads w := Form.Refuses.leftFold hterm
  exact .call loops_layered hloop

/-- The arguments are none, or they are read between commas. -/
def ReadAsArguments (w : List Char) (es : List Node) : Prop :=
  (w = [] ∧ es = []) ∨ (ExpressionText w ∧ Joined (rule .expression) es w)

/-- A call is read as a primary if what is called is. -/
theorem readAs_call {es : List Node} (hf : ReadAs 3 u f) (hs : ReadAsArguments w es) :
    ReadAs 3 (u ++ '(' :: (w ++ [')'])) (.call f es) := by
  obtain ⟨⟨c, v, rfl, hc⟩, hopen⟩ := hf
  refine ⟨⟨c, v ++ '(' :: (w ++ [')']), rfl, hc⟩, ?_⟩
  have hlist : ∃ args : Option (List Node), args.getD [] = es ∧
      ∀ rest, argumentList.Parses reads ('(' :: (w ++ [')'])) rest args := by
    -- no argument is read as a missing list, which the call takes for an empty one
    rcases hs with ⟨rfl, rfl⟩ | ⟨hw, hjoined⟩
    · refine ⟨none, rfl, fun rest => bracketed_parses ?_ (notStarting_cons (by decide))⟩
      exact Form.Refuses.optional (.call loops_layered
        (.map (.pair (expression_refuses (.cons (by decide))))))
    · refine ⟨some es, rfl, fun rest => bracketed_parses ?_ (hw.notBlank _)⟩
      exact .optional (.call loops_layered (commaSeparated_parses hjoined (.cons (by decide))))
  obtain ⟨args, rfl, hargs⟩ := hlist
  exact Form.ParsesOpen.extended hopen (List.cons_ne_nil _ _) (fun _ => .cons (by decide))
    fun rest _ => hargs rest

/-! ## Every written expression is read back -/

/-- The highest level is that of primaries. -/
theorem level_le (e : Node) : e.level ≤ 3 := by
  cases e with
  | bin op l r => show op.level ≤ 3; cases op <;> decide
  | int n => rw [Node.level]; split <;> omega
  | float x => rw [Node.level]; split <;> omega
  | _ => exact Nat.le_refl 3

/-- A literal that is read in single precision keeps its sign. -/
theorem isNegative_readSingle (s : Bool) (m : Rat) : (Floating.readSingle s m).isNegative = s := by
  unfold Floating.readSingle Floating.toDouble Precision.round
  dsimp only
  split
  · rfl
  · unfold Floating.toSingle Precision.round
    dsimp only
    split <;> rfl

/-- An integer is read back on its level; a negative one is a factor. -/
theorem readAs_int {n : Int} (h : n.natAbs ≤ largestInt) :
    ReadAs (Node.int n).level (intText n) (.int n) := by
  unfold Node.level intText
  dsimp only
  have hnatural := readAs_natural h
  by_cases hn : n < 0
  · have habs : (Node.int n.natAbs).negative = .int n := by
      show Node.int (-(n.natAbs : Int)) = .int n
      congr 1
      omega
    rw [if_pos hn, if_pos hn, ← habs]
    exact readAs_negative hnatural (expressionText_of_isDigits (isDigits_toDigits _))
  · have habs : (n.natAbs : Int) = n := by omega
    rw [habs] at hnatural
    rw [if_neg hn, if_neg hn]
    exact hnatural

/-- What it means that a phrase is read back. -/
def PhraseRead : Phrase → List Char → Prop
  | .bare e, w => IsExpression e → ReadAs e.level w e
  | .operand place e, w => IsExpression e → place ≤ 3 → ReadAs place w e
  | .arguments es, w => (∀ e ∈ es, IsExpression e) → ReadAsArguments w es
  | _, _ => True

/-- Every phrase is read as it is written: by induction on how it is written. -/
theorem Written.phraseRead {φ : Phrase} (h : Written φ w) : PhraseRead φ w := by
  induction h with
  | int n => intro he; cases he with | int hn => exact readAs_int hn
  | @float x u w hu hw hx =>
    intro _
    -- what digits are read as has no sign, so it stands at the level of a primary
    have hsign : x.isNegative = false := by
      rw [floatOfPointed_eq hu] at hx
      cases hx
      exact isNegative_readSingle _ _
    have hread := readAs_pointed hu hw
    rw [hx] at hread
    rw [Node.level, hsign]
    exact hread
  | @negativeFloat x u w hu hw hx =>
    intro he
    have hsign : x.neg.isNegative = true := by
      rw [floatOfPointed_eq hu] at hx
      cases hx
      rw [isNegative_neg, isNegative_readSingle]
      · rfl
      · exact (Floating.isLiteral_readSingle (pointedValue_nonneg u w)).number
    have hread := readAs_pointed hu hw
    rw [hx] at hread
    have htext := (expressionText_of_isDigits hu).append (c := '.') rfl
      (expressionText_of_isDigits hw).2
    rw [Node.level, hsign]
    exact readAs_negative hread htext
  | var name => intro he; cases he with | var hname => exact readAs_variable hname
  | @bin op l r u w _ hright ihl ihr =>
    intro he
    cases he with
    | bin hl hr =>
      have hlevel : op.level + 1 ≤ 3 := by cases op <;> decide
      exact readAs_bin _ (ihl hl (by omega)) (ihr hr hlevel) (hright.operandText hr)
  | call _ _ ihf ihs =>
    intro he
    cases he with
    | call hf hs => exact readAs_call (ihf hf (Nat.le_refl 3)) (ihs hs)
  | unparenthesized hlevel _ ih => exact fun he _ => (ih he).lower (level_le _) hlevel
  | parenthesized _ h ih =>
    intro he hplace
    -- inside the parentheses any expression may stand, and what they make is a primary
    have hread := (ih he).lower (level_le _) (Nat.zero_le _)
    exact (readAs_parenthesized hread (h.expressionText he)).lower (Nat.le_refl 3) hplace
  | noArgument => exact fun _ => Or.inl ⟨rfl, rfl⟩
  | @oneArgument e w h ih =>
    intro hes
    have he : IsExpression e := hes e List.mem_cons_self
    refine Or.inr ⟨h.expressionText he, .one fun rest hrest => ?_⟩
    exact ((ih he).lower (level_le e) (Nat.zero_le _)).parses (hrest.subset (by decide))
  | @moreArguments e e' es u w h hs ih ihs =>
    intro hes
    have he : IsExpression e := hes e List.mem_cons_self
    rcases ihs fun e' he' => hes e' (List.mem_cons_of_mem e he') with ⟨_, hnil⟩ | ⟨hw, hjoined⟩
    · cases hnil
    · refine Or.inr ⟨(h.expressionText he).append rfl hw.2,
        .more (fun rest hrest => ?_) hjoined hw.notBlank⟩
      exact ((ih he).lower (level_le e) (Nat.zero_le _)).parses (hrest.subset (by decide))
  | _ => trivial

/-- **The text of an expression is read as the expression**, where a comma, a closing parenthesis or
a semicolon stands behind it. -/
theorem Written.expression_parses (h : Written (.bare e) w) (he : IsExpression e)
    (hrest : ClosedBy [',', ')', ';'] rest) : (rule .expression).Parses reads w rest e :=
  ReadAs.parses ((h.phraseRead he).lower (level_le e) (Nat.zero_le _)) hrest

end

end CalcScript.Grammar.Program
