import CalcScript.Proofs.Grammar.WrittenPrograms
import CalcScript.Proofs.Packrat.Extension

/-!
# Statements in a program that goes on

A statement with a semicolon behind it reads the same whatever comes after the semicolon, and so do
its failed alternatives.

> `statement_same`: a statement in front of a semicolon is the same in every code that goes on.

Most rules read no semicolon and no brace (`isPlain`), so the semicolon is as far as they can see.
Function definitions read both. One that is found ends with a closing brace, and so do the lists of
statements inside it. One that is not found has not come to an opening brace where there is an
expression in front of a semicolon: the expression has none, and what comes before the brace in a
definition has no semicolon.
-/

namespace CalcScript.Grammar.Program

open Packrat

variable {α : Type} {code code' : Array Char} {rest : List Char} {c : Char} {p q m j : Nat}

/-! ## Positions of matches -/

theorem matches_advances {form : Part α} {a : α} (h : form.Matches code (reads code) p a q) :
    p ≤ q ∧ q ≤ max p code.size ∧ (form.takes layers.takes = true → p < q) := by
  obtain ⟨reach, h⟩ := h
  obtain ⟨hle, hmax, _, htakes⟩ :=
    Form.read_advances (Grammar.readRule_advances loops_layered.takes _) form p _ h
  exact ⟨hle, hmax, htakes⟩

theorem matches_rule {r : Name} {a : Result r} :
    (rule r).Matches code (reads code) p a q ↔ (loops r).form.Matches code (reads code) p a q := by
  rw [Form.Matches, Form.Matches, Form.read, reads, Grammar.reader_eq loops_layered]

/-- Where a character is matched, it stands. -/
theorem getElem?_of_matches {text : String}
    (h : (Form.char c : Part String).Matches code (reads code) p text q) :
    code[p]? = some c ∧ q = p + 1 := by
  obtain ⟨rfl, hfrom⟩ := matches_char h
  exact ⟨hfrom.getElem?, rfl⟩

theorem matchesEach_le {form : Part α} {items : List α}
    (h : form.MatchesEach code (reads code) p items q) : p ≤ q := by
  induction h with
  | nil p => exact Nat.le_refl p
  | cons head _ ih => exact Nat.le_trans (matches_advances head).1 ih

/-! ## Forms that read no delimiter -/

/-- The characters that end statements and enclose them. -/
def delimiters : List Char := [';', '{', '}']

/-- The rule reads no delimiter. -/
def isPlain : Name → Bool
  | .functionDef => false
  | .statement => false
  | .functionStatement => false
  | .statements => false
  | .functionStatements => false
  | _ => true

/-- The form does not read the delimiter. -/
def Avoids (c : Char) (form : Part α) : Prop :=
  c ∈ delimiters ∧ form.madeOf (Lexeme.rejects c) false isPlain = true

instance (c : Char) (form : Part α) : Decidable (Avoids c form) :=
  inferInstanceAs (Decidable (_ ∧ _))

theorem isPlain_madeOf (hc : c ∈ delimiters) (r : Name) (hr : isPlain r = true) :
    (loops r).form.madeOf (Lexeme.rejects c) false isPlain = true := by
  rcases List.mem_cons.mp hc with rfl | hc
  · cases r <;> first | rfl | cases hr
  · rcases List.mem_pair.mp hc with rfl | rfl
    · cases r <;> first | rfl | cases hr
    · cases r <;> first | rfl | cases hr

theorem someBlanks_avoids (hc : c ∈ delimiters) : Avoids c someBlanks := by
  rcases List.mem_cons.mp hc with rfl | hc
  · decide
  · rcases List.mem_pair.mp hc with rfl | rfl
    · decide
    · decide

/-- What does not read a delimiter is the same in front of it. -/
theorem Avoids.same {form : Part α} (h : Avoids c form)
    (hcode : code'.toList = code.toList ++ rest) (hj : code[j]? = some c) (hp : p ≤ j) :
    form.Same reads code code' p :=
  (Form.same_of_rejects loops_layered (isPlain_madeOf h.1) hcode h.2 hj hp).1

/-- What does not read a delimiter does not go beyond it. -/
theorem Avoids.le {form : Part α} {a : α} (h : Avoids c form) (hj : code[j]? = some c) (hp : p ≤ j)
    (hmatch : form.Matches code (reads code) p a q) : q ≤ j :=
  (Form.same_of_rejects loops_layered (isPlain_madeOf h.1) (List.append_nil _).symm h.2 hj hp).2 a q
    hmatch

/-! ## In front of a semicolon -/

/-- The form matches, and with blanks behind it the match ends in front of a semicolon. -/
structure EndsBefore (code : Array Char) (form : Part Node) (p : Nat) (s : Node) (j : Nat) :
    Prop where
  matched : (form <* someBlanks).Matches code (reads code) p s j
  semicolon : code[j]? = some ';'

namespace EndsBefore

variable {form form' : Part Node} {s : Node}

theorem le (h : EndsBefore code form p s j) : p ≤ j := (matches_advances h.matched).1

theorem lt_size (h : EndsBefore code form p s j) : j < code.size := lt_size_of_getElem? h.semicolon

/-- What does not read semicolons is the same in front of one. -/
theorem same (h : EndsBefore code form p s j) {other : Part α} (hother : Avoids ';' other)
    (hcode : code'.toList = code.toList ++ rest) : other.Same reads code code' p :=
  hother.same hcode h.semicolon h.le

/-- Another form that matches alike ends before the same semicolon. -/
theorem imp (h : EndsBefore code form p s j)
    (hform : ∀ e, form.Matches code (reads code) p s e → form'.Matches code (reads code) p s e) :
    EndsBefore code form' p s j := by
  obtain ⟨o, e, hmatch, hblanks⟩ := Form.matches_before.mp h.matched
  exact ⟨Form.matches_before.mpr ⟨o, e, hform e hmatch, hblanks⟩, h.semicolon⟩

end EndsBefore

/-- A statement up to its semicolon. -/
def terminatedHead (statement : Part Node) : Part Node :=
  someBlanks *> statement <* someBlanks <* .char ';'

/-- The parts of a statement up to its semicolon: blanks, and the statement in front of it. -/
theorem terminatedHead_matches {statement : Part Node} {s : Node}
    (h : (terminatedHead statement).Matches code (reads code) p s q) :
    ∃ i j, (∃ o, someBlanks.Matches code (reads code) p o i) ∧ EndsBefore code statement i s j ∧
      q = j + 1 := by
  obtain ⟨_, j, h, hsemicolon⟩ := Form.matches_before.mp h
  obtain ⟨o, e, h, hblanks⟩ := Form.matches_before.mp h
  obtain ⟨o', i, hbefore, hstatement⟩ := Form.matches_andThen.mp h
  obtain ⟨hj, hq⟩ := getElem?_of_matches hsemicolon
  exact ⟨i, j, ⟨o', hbefore⟩, ⟨Form.matches_before.mpr ⟨o, e, hstatement, hblanks⟩, hj⟩, hq⟩

section

variable (hcode : code'.toList = code.toList ++ rest)

/-! ## Function definitions that are not found -/

/-- The opening brace of a function's body. -/
def bodyOpening : Part (Option String) := someBlanks *> .char '{' *> someBlanks

/-- Before the opening brace of a definition there is no semicolon, and in an expression no brace:
in front of a semicolon that ends an expression, no body begins. -/
theorem EndsBefore.not_matches_bodyOpening {s : Node} {i : Nat}
    (h : EndsBefore code (rule .expression) p s j) (hp : p ≤ i) (hi : i ≤ j) (o : Option String)
    (m : Nat) : ¬bodyOpening.Matches code (reads code) i o m := by
  intro hopening
  have hbefore : Avoids ';' bodyOpening := by decide
  have hexpression : Avoids '{' (rule .expression <* someBlanks) := by decide
  have hm : m ≤ j := hbefore.le h.semicolon hi hopening
  obtain ⟨_, b', hopening, hblanks⟩ := Form.matches_andThen.mp hopening
  obtain ⟨_, b, hblanks', hbrace⟩ := Form.matches_andThen.mp hopening
  obtain ⟨hb, rfl⟩ := getElem?_of_matches hbrace
  have hib := (matches_advances hblanks').1
  have hbm := (matches_advances hblanks).1
  have hjb : j ≤ b := hexpression.le hb (by omega) h.matched
  omega

include hcode

/-- Where there is an expression in front of a semicolon, a definition fails in the same way. -/
theorem EndsBefore.functionDef_same {s : Node} (h : EndsBefore code (rule .expression) p s j) :
    (rule .functionDef).Same reads code code' p := by
  have hname : Avoids ';' functionName := by decide
  have hparams : Avoids ';' parameterList := by decide
  have hopening : Avoids ';' bodyOpening := by decide
  refine Form.Same.call loops_layered (Form.Same.map ?_)
  refine Form.Same.pair (h.same hname hcode) fun name i hi => ?_
  have hij : i ≤ j := hname.le h.semicolon h.le hi
  refine Form.Same.pair (hparams.same hcode h.semicolon hij) fun params i' hi' => ?_
  have hij' : i' ≤ j := hparams.le h.semicolon hij hi'
  have hle := (matches_advances hi).1
  have hle' := (matches_advances hi').1
  have hnot := h.not_matches_bodyOpening (show p ≤ i' by omega) hij'
  have hsame : bodyOpening.Same reads code code' i' := hopening.same hcode h.semicolon hij'
  exact ((hsame.andThen_of_not_matches hnot).before_of_not_matches
    (Form.not_matches_andThen hnot)).before_of_not_matches
    (Form.not_matches_before (Form.not_matches_andThen hnot))

/-! ## Statements with a semicolon -/

/-- A statement is the same up to its semicolon if it is the same by itself. -/
theorem terminatedHead_same {statement : Part Node} {s : Node}
    (h : (terminatedHead statement).Matches code (reads code) p s q)
    (hsame : ∀ i j, p ≤ i → EndsBefore code statement i s j → statement.Same reads code code' i) :
    (terminatedHead statement).Same reads code code' p := by
  obtain ⟨i, j, ⟨o, hbefore⟩, hends, -⟩ := terminatedHead_matches h
  have hpi := (matches_advances hbefore).1
  have hij := hends.le
  have hblanks : ∀ k ≤ j, someBlanks.Same reads code code' k := fun k hk =>
    (someBlanks_avoids (by decide)).same hcode hends.semicolon hk
  have hstatement := hsame i j hpi hends
  obtain ⟨o', e, hmatch, hbehind⟩ := Form.matches_before.mp hends.matched
  have hbegin : (someBlanks *> statement).Matches code (reads code) p s e :=
    Form.matches_andThen.mpr ⟨o, i, hbefore, hmatch⟩
  have hspaced : (someBlanks *> statement <* someBlanks).Matches code (reads code) p s j :=
    Form.matches_before.mpr ⟨o', e, hbegin, hbehind⟩
  have hbeginSame : (someBlanks *> statement).Same reads code code' p :=
    (hblanks p (by omega)).andThen_at hbefore hstatement
  have hspacedSame : (someBlanks *> statement <* someBlanks).Same reads code code' p :=
    hbeginSame.before_at hbegin (hblanks e (matches_advances hbehind).1)
  exact hspacedSame.before_at hspaced (Form.Same.char hcode hends.lt_size)

/-- A statement with its semicolon is the same if a delimiter stands behind it. -/
theorem terminatedOne_same {statement : Part Node} {s : Node} {d : Nat}
    (h : (terminatedOne statement).Matches code (reads code) p s q) (hc : c ∈ delimiters)
    (hd : code[d]? = some c) (hqd : q ≤ d)
    (hsame : ∀ i j, p ≤ i → EndsBefore code statement i s j → statement.Same reads code code' i) :
    (terminatedOne statement).Same reads code code' p := by
  obtain ⟨o, m, hhead, hblanks⟩ := Form.matches_before.mp h
  have hmq := (matches_advances hblanks).1
  exact (terminatedHead_same hcode hhead hsame).before_at hhead
    ((someBlanks_avoids hc).same hcode hd (by omega))

/-! ## Function definitions that are found -/

/-- Before a closing brace no statement is found, in the same way. -/
theorem functionStatement_same_at_brace (hp : code[p]? = some '}') :
    (rule .functionStatement).Same reads code code' p ∧
    (rule .functionStatement).Fails code (reads code) p := by
  have hname : Avoids '}' functionName := by decide
  have hassignment : Avoids '}' (rule .assignment) := by decide
  have hexpression : Avoids '}' (rule .expression) := by decide
  have hreturn : Avoids '}' returnStatement := by decide
  have hsame : ∀ {β : Type} {form : Part β}, Avoids '}' form → form.Same reads code code' p :=
    fun h => h.same hcode hp (Nat.le_refl p)
  have hdefinition : (rule .functionDef).Same reads code code' p := by
    refine Form.Same.call loops_layered (Form.Same.map ?_)
    refine Form.Same.pair_of_not_matches (hsame hname) fun name m hm => ?_
    -- the word that a definition begins with takes characters, and none of them is a brace
    have hle : m ≤ p := hname.le hp (Nat.le_refl p) hm
    have hlt : p < m := (matches_advances hm).2.2 (by decide)
    omega
  have hstatement : (rule .statement).Same reads code code' p :=
    Form.Same.call loops_layered (Form.Same.first_cons (hsame hassignment) fun _ =>
      Form.Same.first_cons hdefinition fun _ =>
        Form.Same.first_cons (hsame hexpression) fun _ => Form.Same.first_nil)
  constructor
  · exact Form.Same.call loops_layered (Form.Same.first_cons (hsame hreturn) fun _ =>
      Form.Same.first_cons hstatement fun _ => Form.Same.first_nil)
  · refine functionStatement_refuses (w := code.toList.drop p) (fun d hd => ?_) code p rfl
    rw [List.head?_drop, Array.getElem?_toList, hp] at hd
    cases hd
    exact List.mem_cons_self

/-- A list of statements in a function's body ends before the closing brace, in the same way. -/
theorem terminatedOne_same_at_brace {o : Option String}
    (hblanks : someBlanks.Matches code (reads code) p o q) (hq : code[q]? = some '}') :
    (terminatedOne (rule .functionStatement)).Same reads code code' p ∧
    ∀ s m, ¬(terminatedOne (rule .functionStatement)).Matches code (reads code) p s m := by
  obtain ⟨hsame, hfails⟩ := functionStatement_same_at_brace hcode hq
  have hblanksSame : someBlanks.Same reads code code' p :=
    (someBlanks_avoids (by decide)).same hcode hq (matches_advances hblanks).1
  have hnot : ∀ s m, ¬(someBlanks *> rule .functionStatement).Matches code (reads code) p s m := by
    intro s m h
    obtain ⟨o', q', hblanks', hstatement⟩ := Form.matches_andThen.mp h
    obtain ⟨_, rfl⟩ := hblanks.unique hblanks'
    exact hfails.not_matches hstatement
  have hbegin := hblanksSame.andThen_at hblanks hsame
  have hnot' := Form.not_matches_before (g := someBlanks) hnot
  have hnot'' := Form.not_matches_before (g := (.char ';' : Part String)) hnot'
  exact ⟨((hbegin.before_of_not_matches hnot).before_of_not_matches hnot').before_of_not_matches
    hnot'', Form.not_matches_before hnot''⟩

/-- From `i` on, statements of a body are matched one after the other up to `e`, where the list of
them ends that begins at `m`. -/
def GoesOn (code : Array Char) (m e i : Nat) : Prop :=
  m ≤ i ∧
    ∃ items, (terminatedOne (rule .functionStatement)).MatchesEach code (reads code) i items e

/-- The statements of a function's body are the same if each of them is. -/
theorem functionStatements_same {body : List Node} {e b : Nat} {o : Option String}
    (h : (rule .functionStatements).Matches code (reads code) m body e)
    (hblanks : someBlanks.Matches code (reads code) e o b) (hb : code[b]? = some '}')
    (hinner : ∀ i j s, m ≤ i → EndsBefore code (rule .functionStatement) i s j →
      (rule .functionStatement).Same reads code code' i) :
    (rule .functionStatements).Same reads code code' m := by
  have heb := (matches_advances hblanks).1
  have hlt := lt_size_of_getElem? hb
  have hsize := le_size_of_append hcode
  have hbegin : GoesOn code m e m := ⟨Nat.le_refl m, body, (matches_rule.mp h).many⟩
  refine Form.Same.call loops_layered (Form.Same.many
    (Grammar.readRule_advances loops_layered.takes _) ?_ ?_ ?_ hbegin (matches_rule.mp h))
  · intro i hi
    obtain ⟨_, items, hitems⟩ := hi
    have hle := matchesEach_le hitems
    omega
  · intro i hi
    obtain ⟨hi, items, hitems⟩ := hi
    cases hitems with
    | nil => exact (terminatedOne_same_at_brace hcode hblanks hb).1
    | cons head tail =>
      have hle := matchesEach_le tail
      exact terminatedOne_same hcode head (by decide) hb (by omega) fun i' j hi' hends =>
        hinner i' j _ (by omega) hends
  · intro i s i' hi hmatch
    obtain ⟨hi, items, hitems⟩ := hi
    cases hitems with
    | nil => exact absurd hmatch ((terminatedOne_same_at_brace hcode hblanks hb).2 s i')
    | cons head tail =>
      obtain ⟨_, rfl⟩ := head.unique hmatch
      exact ⟨Nat.le_trans hi (matches_advances hmatch).1, _, tail⟩

/-- A definition that is found is the same if the statements in it are. -/
theorem functionDef_same_of_matches {d : Node}
    (h : (rule .functionDef).Matches code (reads code) p d q)
    (hinner : ∀ i j s, p < i → EndsBefore code (rule .functionStatement) i s j →
      (rule .functionStatement).Same reads code code' i) :
    (rule .functionDef).Same reads code code' p := by
  obtain ⟨⟨name, params, body⟩, hparts, -⟩ := Form.matches_map.mp (matches_rule.mp h)
  obtain ⟨m₁, hname, hparts⟩ := Form.matches_pair.mp hparts
  obtain ⟨m₂, hparams, hbody⟩ := Form.matches_pair.mp hparts
  obtain ⟨_, b, hspaced, hclose⟩ := Form.matches_before.mp hbody
  obtain ⟨o, e, hopened, hblanks⟩ := Form.matches_before.mp hspaced
  obtain ⟨o', m₃, hopening, hstatements⟩ := Form.matches_andThen.mp hopened
  obtain ⟨hb, -⟩ := getElem?_of_matches hclose
  have h₁ := (matches_advances hname).2.2 (by decide)
  have h₂ := (matches_advances hparams).1
  have h₃ := (matches_advances hopening).1
  have h₄ := (matches_advances hstatements).1
  have h₅ := (matches_advances hblanks).1
  have hsame : ∀ {β : Type} {form : Part β} (i : Nat), i ≤ b → Avoids '}' form →
      form.Same reads code code' i := fun i hi hform => hform.same hcode hb hi
  have hlist : (rule .functionStatements).Same reads code code' m₃ :=
    functionStatements_same hcode hstatements hblanks hb fun i j s hi hends =>
      hinner i j s (by omega) hends
  have hbegin : (bodyOpening *> rule .functionStatements).Same reads code code' m₂ :=
    (hsame m₂ (by omega) (by decide)).andThen_at hopening hlist
  have hbodySame : functionBody.Same reads code code' m₂ :=
    (hbegin.before_at hopened (hsame e h₅ (by decide))).before_at hspaced
      (Form.Same.char hcode (lt_size_of_getElem? hb))
  exact Form.Same.call loops_layered (Form.Same.map ((hsame p (by omega) (by decide)).pair_at hname
    ((hsame m₁ (by omega) (by decide)).pair_at hparams hbodySame)))

/-! ## Statements -/

theorem functionStatement_same {s : Node} (h : EndsBefore code (rule .functionStatement) p s j)
    (hinner : EndsBefore code (rule .statement) p s j → (rule .statement).Same reads code code' p) :
    (rule .functionStatement).Same reads code code' p := by
  have hreturn : Avoids ';' returnStatement := by decide
  refine Form.Same.call loops_layered (Form.Same.first_cons (h.same hreturn hcode) fun hfails => ?_)
  refine Form.Same.first_cons (hinner (h.imp fun e hmatch => ?_)) fun _ => Form.Same.first_nil
  rcases Form.matches_first_cons.mp (matches_rule.mp hmatch) with hmatch | ⟨_, hmatch⟩
  · exact absurd hmatch hfails.not_matches
  · exact Form.matches_first_one.mp hmatch

/-- **A statement in front of a semicolon is the same in every code that goes on.** By induction on
what is left of the code: the statements in a definition stand behind its beginning. -/
theorem statement_same {s : Node} (h : EndsBefore code (rule .statement) p s j) :
    (rule .statement).Same reads code code' p := by
  induction hleft : code.size - p using Nat.strong_induction_on generalizing p s j with
  | _ left ih =>
    have hp := h.le
    have hj := h.lt_size
    have hassignment : Avoids ';' (rule .assignment) := by decide
    have hexpression : Avoids ';' (rule .expression) := by decide
    obtain ⟨o, e, hmatch, hblanks⟩ := Form.matches_before.mp h.matched
    refine Form.Same.call loops_layered
      (Form.Same.first_cons (h.same hassignment hcode) fun hfails => ?_)
    have hdefinition : (rule .functionDef).Same reads code code' p := by
      rcases Form.matches_first_cons.mp (matches_rule.mp hmatch) with hmatch | ⟨_, hmatch⟩
      · exact absurd hmatch hfails.not_matches
      · rcases Form.matches_first_cons.mp hmatch with hmatch | ⟨_, hmatch⟩
        · refine functionDef_same_of_matches hcode hmatch fun i k t hi hinner => ?_
          have hik := hinner.le
          have hk := hinner.lt_size
          exact functionStatement_same hcode hinner fun hstatement =>
            ih (code.size - i) (by omega) hstatement rfl
        · have hends : EndsBefore code (rule .expression) p s j :=
            ⟨Form.matches_before.mpr ⟨o, e, Form.matches_first_one.mp hmatch, hblanks⟩, h.semicolon⟩
          exact hends.functionDef_same hcode
    exact Form.Same.first_cons hdefinition fun _ =>
      Form.Same.first_cons (h.same hexpression hcode) fun _ => Form.Same.first_nil

end

end CalcScript.Grammar.Program
