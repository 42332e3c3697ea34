import CalcScript.Proofs.Grammar.Literals
import CalcScript.Proofs.Source.Settled

/-!
# Arithmetic expressions and their derivations

The context-free grammar of arithmetic expressions, as an inductive relation between symbols, texts
and the trees that are read off derivations (`Derives`). Its alternatives are not ordered and no
text is taken greedily. Reading tries alternatives in order and takes as much as it can, and yet

> `readArithmetic_derives`: an expression is accepted exactly if the text without its blanks has a
> derivation, and its tree is the only one that derivations of the text have; unless reading ends in
> a failure, which takes digits that the host does not convert.

Derivations and loops are taken with a check of the digits of integer literals: with the one of the
host, to be exact about what is accepted, and with none, as the grammar is meant.

What makes greedy reading find a derivation that is there is that nothing which stands behind a part
of an expression could go on with the part (`closers`).
-/

namespace CalcScript.Grammar.Arithmetic

open Packrat

/-! ## Derivations -/

/-- The symbols of the grammar. -/
inductive Symbol where
  | expression
  | term
  | factor
  | atom
  | number

/-- The text can be derived from the symbol, with a derivation from which the tree is read off. The
digits of integer literals pass a check. -/
inductive Derives (error? : String → Option String) : Symbol → List Char → Node → Prop where
  | sum {u w : List Char} {x y : Node} (left : Derives error? .expression u x)
      (right : Derives error? .term w y) : Derives error? .expression (u ++ '+' :: w) (.bin .plus x y)
  | difference {u w : List Char} {x y : Node} (left : Derives error? .expression u x)
      (right : Derives error? .term w y) : Derives error? .expression (u ++ '-' :: w) (.bin .minus x y)
  | term {w : List Char} {x : Node} (h : Derives error? .term w x) : Derives error? .expression w x
  | product {u w : List Char} {x y : Node} (left : Derives error? .term u x)
      (right : Derives error? .factor w y) : Derives error? .term (u ++ '*' :: w) (.bin .times x y)
  | quotient {u w : List Char} {x y : Node} (left : Derives error? .term u x)
      (right : Derives error? .factor w y) : Derives error? .term (u ++ '/' :: w) (.bin .divide x y)
  | factor {w : List Char} {x : Node} (h : Derives error? .factor w x) : Derives error? .term w x
  | negation {w : List Char} {x : Node} (h : Derives error? .atom w x) :
      Derives error? .factor ('-' :: w) x.negative
  | atom {w : List Char} {x : Node} (h : Derives error? .atom w x) : Derives error? .factor w x
  | parentheses {w : List Char} {x : Node} (h : Derives error? .expression w x) :
      Derives error? .atom ('(' :: (w ++ [')'])) x
  | number {w : List Char} {x : Node} (h : Derives error? .number w x) : Derives error? .atom w x
  | pointed {u w : List Char} (hu : IsDigits u) (hw : IsDigits w) :
      Derives error? .number (u ++ '.' :: w) (.float (Floating.readSingle false (pointedValue u w)))
  | digits {w : List Char} (hw : IsDigits w) (hle : Decimal.ofDigits w ≤ largestInt)
      (hconv : error? (String.ofList w) = none) :
      Derives error? .number w (.int (Decimal.ofDigits w))

/-! ## Loops -/

/-- The rules with a loop for each rule that calls itself first, and a check of the digits of integer
literals. -/
def checkedLoops (error? : String → Option String) : Grammar Name Result
  | .intLiteral => ⟨.plain, checkedInt error?⟩
  | .term =>
    ⟨.plain, .leftFold (fun (l, op, r) => .bin op l r) (rule .factor)
      (.pair (oneOf multiplicative) (rule .factor))⟩
  | .expression =>
    ⟨.plain, .leftFold (fun (l, op, r) => .bin op l r) (rule .term)
      (.pair (oneOf additive) (rule .term))⟩
  | r => ⟨.plain, (rules r).form⟩

/-- The loops with the check of the host. -/
abbrev loops : Grammar Name Result := checkedLoops conversionError?

/-- The layers of the grammar. All rules take characters. -/
def layers : Layers Name where
  takes _ := true
  rank
    | .intLiteral => 0
    | .floatLiteral => 0
    | .number => 1
    | .atom => 2
    | .factor => 3
    | .term => 4
    | .expression => 5
  height := 6
  rank_lt r := by cases r <;> decide

variable {error? : String → Option String}

theorem loops_layered : (checkedLoops error?).Layered layers where
  takes r _ := by cases r <;> rfl
  starts r := by cases r <;> rfl

theorem rules_unroll : rules.Unrolls layers loops where
  takes := (@loops_layered conversionError?).takes
  same r hr := by cases r <;> first | exact ⟨rfl, rfl⟩ | exact absurd rfl hr
  loop r hr := by
    cases r with
    | term => exact ⟨_, _, _, _, rfl, rfl, rfl, rfl, rfl, fun _ _ => rfl⟩
    | expression => exact ⟨_, _, _, _, rfl, rfl, rfl, rfl, rfl, fun _ _ => rfl⟩
    | _ => cases hr

/-- With no check at all, the loops read alike unless the host complains about digits. -/
theorem loops_trust (code : Array Char) :
    loops.Trusts (checkedLoops noError) (Unconvertible code.toList) code := by
  intro r
  cases r with
  | intLiteral => exact .inr fun _ _ _ => checkedInt_trusts
  | _ => exact .inl ⟨rfl, rfl⟩

/-! ## What is read has a derivation -/

section Soundness

variable {code : Array Char} {p q : Nat} {x : Node}

/-- The symbol that a rule reads. -/
def symbolOf : Name → Symbol
  | .intLiteral => .number
  | .floatLiteral => .number
  | .number => .number
  | .atom => .atom
  | .factor => .factor
  | .term => .term
  | .expression => .expression

/-- The text between two positions is derived from the symbol. -/
def DerivedTo (error? : String → Option String) (code : Array Char) (s : Symbol) (p : Nat) (x : Node)
    (q : Nat) : Prop :=
  ∃ w, TextTo code p w q ∧ Derives error? s w x

/-- Calls of rules are read as the symbols of the rules derive. -/
def ReadsDerived (error? : String → Option String) (code : Array Char)
    (reader : Reader Name Result) : Prop :=
  ∀ r p x q, (rule r).Matches code reader p x q → DerivedTo error? code (symbolOf r) p x q

theorem DerivedTo.imp {s s' : Symbol} (h : DerivedTo error? code s p x q)
    (himp : ∀ w, Derives error? s w x → Derives error? s' w x) :
    DerivedTo error? code s' p x q := by
  obtain ⟨w, hw, hx⟩ := h
  exact ⟨w, hw, himp w hx⟩

/-- A loop over operands is read as a left-recursive symbol derives. -/
theorem derivedTo_of_loop {reader : Reader Name Result} {left right : Symbol} {r : Name}
    {ops : List Operator} (hreads : ReadsDerived error? code reader) (hr : symbolOf r = right)
    (hbase : ∀ w x, Derives error? right w x → Derives error? left w x)
    (hstep : ∀ op ∈ ops, ∀ u w x y, Derives error? left u x → Derives error? right w y →
      Derives error? left (u ++ symbol op :: w) (.bin op x y))
    (h : (Form.leftFold (fun (l, op, r) => Node.bin op l r) (rule r)
      (.pair (oneOf ops) (rule r))).Matches code reader p x q) :
    DerivedTo error? code left p x q := by
  refine h.leftFold_induct (P := fun x m => DerivedTo error? code left p x m) ?_ ?_
  · intro y m hy
    have hderived := hreads r p y m hy
    rw [hr] at hderived
    exact hderived.imp fun w => hbase w y
  · rintro y m ⟨op, z⟩ m' ⟨u, hu, hy⟩ htail
    obtain ⟨m₁, hop, hz⟩ := Form.matches_pair.mp htail
    obtain ⟨hmem, hsym⟩ := matches_oneOf hop
    obtain ⟨w, hw, hz⟩ := hreads r m₁ z m' hz
    rw [hr] at hz
    exact ⟨u ++ symbol op :: w, hu.append (hsym.append hw), hstep op hmem u w y z hy hz⟩

/-- The form of a rule is read as the symbol of the rule derives if the calls in it are. -/
theorem derivedTo_of_form {reader : Reader Name Result} (hreads : ReadsDerived error? code reader)
    (r : Name) (h : (checkedLoops error? r).form.Matches code reader p x q) :
    DerivedTo error? code (symbolOf r) p x q := by
  cases r with
  | intLiteral =>
    obtain ⟨t, ht, hdigits, hle, hconv, rfl⟩ := matches_checkedInt h
    exact ⟨t, ht, .digits hdigits hle hconv⟩
  | floatLiteral =>
    obtain ⟨u, t, hut, hu, ht, rfl⟩ := matches_floatLiteral h
    exact ⟨_, hut, .pointed hu ht⟩
  | number =>
    obtain ⟨f, hf, hmatch⟩ := Form.Matches.first h
    rcases List.mem_pair.mp hf with rfl | rfl
    · exact hreads .floatLiteral p x q hmatch
    · exact hreads .intLiteral p x q hmatch
  | atom =>
    obtain ⟨f, hf, hmatch⟩ := Form.Matches.first h
    rcases List.mem_pair.mp hf with rfl | rfl
    · obtain ⟨c, m', hinner, hclose⟩ := Form.matches_before.mp hmatch
      obtain ⟨o, m, hopen, hexpr⟩ := Form.matches_andThen.mp hinner
      obtain ⟨w, hw, hx⟩ := hreads .expression m x m' hexpr
      exact ⟨_, (matches_char hopen).append (hw.append (matches_char hclose)), .parentheses hx⟩
    · exact (hreads .number p x q hmatch).imp fun _ => .number
  | factor =>
    obtain ⟨f, hf, hmatch⟩ := Form.Matches.first h
    rcases List.mem_pair.mp hf with rfl | rfl
    · obtain ⟨y, hy, rfl⟩ := Form.matches_map.mp hmatch
      obtain ⟨o, m, hminus, hatom⟩ := Form.matches_andThen.mp hy
      obtain ⟨w, hw, hx⟩ := hreads .atom m y q hatom
      exact ⟨_, (matches_char hminus).append hw, .negation hx⟩
    · exact (hreads .atom p x q hmatch).imp fun _ => .atom
  | term =>
    refine derivedTo_of_loop (r := .factor) hreads rfl (fun _ _ => .factor) ?_ h
    intro op hop u w x y hx hy
    rcases List.mem_pair.mp hop with rfl | rfl
    · exact .product hx hy
    · exact .quotient hx hy
  | expression =>
    refine derivedTo_of_loop (r := .term) hreads rfl (fun _ _ => .term) ?_ h
    intro op hop u w x y hx hy
    rcases List.mem_pair.mp hop with rfl | rfl
    · exact .sum hx hy
    · exact .difference hx hy

/-- What is read with calls to any depth has a derivation: by induction on the depth. -/
theorem readRule_derived (code : Array Char) :
    ∀ depth, ReadsDerived error? code ((checkedLoops error?).readRule code depth) := by
  intro depth
  induction depth with
  | zero => rintro r p x q ⟨reach, h⟩; cases h
  | succ depth ih =>
    rintro r p x q ⟨reach, h⟩
    exact derivedTo_of_form ih r ⟨reach, h⟩

end Soundness

/-! ## What has a derivation is read -/

/-- The readers of codes. -/
def reads (error? : String → Option String) (code : Array Char) : Reader Name Result :=
  (checkedLoops error?).reader code layers.height

/-- The characters that may stand behind an expression. -/
def expressionClosers : List Char := ['+', '-', ')']

/-- The characters that may stand behind a part of an expression. -/
def closers : List Char := ['+', '-', '*', '/', ')']

/-- The text is read as the symbol with the given tree. Sums and products are read so that further
operands may follow. -/
def ReadAs (error? : String → Option String) : Symbol → List Char → Node → Prop
  | .expression, w, x =>
    (rule .expression).ParsesOpen (reads error?) (fun (l, op, r) => .bin op l r)
      (.pair (oneOf additive) (rule .term)) (ClosedBy expressionClosers) w x
  | .term, w, x =>
    (rule .term).ParsesOpen (reads error?) (fun (l, op, r) => .bin op l r)
      (.pair (oneOf multiplicative) (rule .factor)) (ClosedBy closers) w x
  | .factor, w, x => ∀ rest, ClosedBy closers rest → (rule .factor).Parses (reads error?) w rest x
  | .atom, w, x => ∀ rest, ClosedBy closers rest → (rule .atom).Parses (reads error?) w rest x
  | .number, w, x => ∀ rest, ClosedBy closers rest → (rule .number).Parses (reads error?) w rest x

section Completeness

variable {u w rest : List Char} {x y : Node} {op : Operator}

theorem closers_notDigit (h : ClosedBy closers rest) : NotStarting isDigit rest :=
  h.notStarting (by decide)

/-- An operator and an operand, as a tail of a loop. -/
theorem tail_parses {ops : List Operator} {right : Part Node} (hop : op ∈ ops)
    (h : right.Parses (reads error?) w rest y) :
    (Form.pair (oneOf ops) right).Parses (reads error?) (symbol op :: w) rest (op, y) :=
  (oneOf_parses hop).pair h

/-- A term that is not continued. -/
theorem ReadAs.term_parses (h : ReadAs error? .term w x) (hrest : ClosedBy expressionClosers rest) :
    (rule .term).Parses (reads error?) w rest x := by
  refine Form.ParsesOpen.parses h (hrest.subset (by decide)) (Form.Refuses.pair (oneOf_refuses ?_))
  intro op hop
  refine hrest.head_ne ?_
  revert op
  decide

/-- An expression that is not continued. -/
theorem ReadAs.expression_parses (h : ReadAs error? .expression w x) (hrest : ClosedBy [')'] rest) :
    (rule .expression).Parses (reads error?) w rest x := by
  refine Form.ParsesOpen.parses h (hrest.subset (by decide)) (Form.Refuses.pair (oneOf_refuses ?_))
  intro op hop
  refine hrest.head_ne ?_
  revert op
  decide

theorem readAs_bin_expression (op : Operator) (hop : op ∈ additive)
    (hu : ReadAs error? .expression u x) (hw : ReadAs error? .term w y) :
    ReadAs error? .expression (u ++ symbol op :: w) (.bin op x y) := by
  refine Form.ParsesOpen.extended hu (List.cons_ne_nil _ _) (fun rest => .cons ?_)
    fun rest hrest => tail_parses hop (hw.term_parses hrest)
  revert op
  decide

theorem readAs_bin_term (op : Operator) (hop : op ∈ multiplicative) (hu : ReadAs error? .term u x)
    (hw : ReadAs error? .factor w y) : ReadAs error? .term (u ++ symbol op :: w) (.bin op x y) := by
  refine Form.ParsesOpen.extended hu (List.cons_ne_nil _ _) (fun rest => .cons ?_)
    fun rest hrest => tail_parses hop (hw rest hrest)
  revert op
  decide

theorem Derives.number_head (h : Derives error? .number w x) :
    ∃ c v, w = c :: v ∧ isDigit c = true := by
  cases h with
  | pointed hu hw =>
    obtain ⟨c, v, rfl, hc⟩ := hu.head
    exact ⟨c, _, rfl, hc⟩
  | digits hw _ _ => exact hw.head

/-- An atom does not begin with a minus sign. -/
theorem Derives.atom_head (h : Derives error? .atom w x) : ∃ c v, w = c :: v ∧ c ≠ '-' := by
  cases h with
  | parentheses h => exact ⟨_, _, rfl, by decide⟩
  | number h =>
    obtain ⟨c, v, rfl, hc⟩ := h.number_head
    exact ⟨c, v, rfl, by rintro rfl; cases hc⟩

/-- **Greedy, ordered reading finds every derivation.** By induction on the derivation. -/
theorem Derives.readAs {s : Symbol} (h : Derives error? s w x) : ReadAs error? s w x := by
  induction h with
  | sum _ _ ihl ihr => exact readAs_bin_expression .plus (by decide) ihl ihr
  | difference _ _ ihl ihr => exact readAs_bin_expression .minus (by decide) ihl ihr
  | term _ ih =>
    exact Form.ParsesOpen.call loops_layered (.ofBase fun rest hrest => ih.term_parses hrest)
  | product _ _ ihl ihr => exact readAs_bin_term .times (by decide) ihl ihr
  | quotient _ _ ihl ihr => exact readAs_bin_term .divide (by decide) ihl ihr
  | factor _ ih =>
    exact Form.ParsesOpen.call loops_layered (.ofBase fun rest hrest => ih rest hrest)
  | negation _ ih =>
    intro rest hrest
    exact .call loops_layered (Form.Parses.first_head (.map (.andThen .char (ih rest hrest))))
  | atom hatom ih =>
    intro rest hrest
    -- a negation is tried first, and fails: an atom begins otherwise
    obtain ⟨c, v, rfl, hc⟩ := hatom.atom_head
    have hminus : ((c :: v) ++ rest).head? ≠ some '-' := fun heq => hc (Option.some.inj heq)
    exact .call loops_layered
      (.first_tail (.map (.andThen (.char hminus))) (.first_head (ih rest hrest)))
  | parentheses _ ih =>
    intro rest hrest
    have hclosed : ClosedBy [')'] (')' :: rest) := .cons (by decide)
    have hopen : (Form.char '(' *> rule .expression).Parses (reads error?) _ (')' :: rest) _ :=
      .andThen .char (ih.expression_parses hclosed)
    exact .call loops_layered (.first_head (.before hopen .char))
  | number hnumber ih =>
    intro rest hrest
    obtain ⟨c, v, rfl, hc⟩ := hnumber.number_head
    have hopen : ((c :: v) ++ rest).head? ≠ some '(' := head_ne_of_accepts hc rfl
    exact .call loops_layered
      (.first_tail (.before (.andThen (.char hopen))) (.first_head (ih rest hrest)))
  | pointed hu hw =>
    intro rest hrest
    exact .call loops_layered
      (.first_head (.call loops_layered (floatLiteral_parses hu hw (closers_notDigit hrest))))
  | digits hw hle hconv =>
    intro rest hrest
    -- a number with a point is tried first, and fails for lack of one
    have hdigit := closers_notDigit hrest
    have hfloat : (rule .floatLiteral).Refuses (reads error?) _ :=
      .call loops_layered (floatLiteral_refuses_digits hw hdigit (hrest.head_ne (by decide)))
    have hint : (rule .intLiteral).Parses (reads error?) _ rest _ :=
      .call loops_layered (checkedInt_parses hw hdigit hle hconv)
    exact .call loops_layered (.first_tail hfloat (.first_head hint))

end Completeness

/-! ## Whole sources -/

/-- The loops match the whole of a text as its derivations say. -/
theorem whole_matches_iff {w : List Char} {e : Node} :
    (∃ q, whole.Matches w.toArray (reads error? w.toArray) 0 e q) ↔
      Derives error? .expression w e := by
  constructor
  · intro hread
    obtain ⟨q, h⟩ := hread
    obtain ⟨u, m, hexpr, hend⟩ := Form.matches_before.mp h
    obtain ⟨v, ⟨_, hv⟩, hderives⟩ := readRule_derived w.toArray _ .expression 0 e m hexpr
    -- the end of input is matched at the end only, so all of the text is derived
    have hm : m = w.toArray.size := by
      obtain ⟨reach, hreach⟩ := hend
      rw [Form.read] at hreach
      split at hreach
      next hsize => exact hsize
      next => cases hreach
    have hwv : w = v ++ w.drop w.length := by
      rw [hm, List.size_toArray] at hv
      exact hv
    rw [List.drop_length, List.append_nil] at hwv
    rw [hwv]
    exact hderives
  · intro h
    exact ⟨w.length, (h.readAs.expression_parses .nil).whole⟩

/-- **The tree of a derivation is unique.** What reading finds is the tree of every derivation. -/
theorem Derives.unique {w : List Char} {e e' : Node} (h : Derives error? .expression w e)
    (h' : Derives error? .expression w e') : e = e' := by
  obtain ⟨q, n, hn⟩ := whole_matches_iff.mpr h
  obtain ⟨q', n', hn'⟩ := whole_matches_iff.mpr h'
  rw [hn] at hn'
  cases hn'
  rfl

end CalcScript.Grammar.Arithmetic

namespace CalcScript

open Grammar.Arithmetic

end CalcScript
