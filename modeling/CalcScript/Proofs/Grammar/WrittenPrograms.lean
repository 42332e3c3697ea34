import CalcScript.Proofs.Grammar.ProgramTrees
import CalcScript.Proofs.Grammar.WrittenExpressions

/-!
# Written programs are read back

> `readProgram_written`: what a program is read as has a text, and from each text of it the program
> is read again.

Statements are tried in order, and names may begin with words of the language or be such words. What
decides is the character behind a word: behind the name that an expression begins with there is
neither a sign of equality (`assignment_refuses`) nor a blank (`keyword_refuses`), so no assignment,
definition or return statement is found where an expression is written.
-/

namespace CalcScript.Grammar.Program

open Packrat

section

variable {u w rest : List Char} {e s : Node} {body : List Node} {name : String} {inBody : Bool}

/-! ## Alternatives that fail -/

/-- A word with blanks behind it is not found in a text without them. -/
theorem keyword_refuses {word : String} {accepts : Char → Bool} (hword : ';' ∉ word.toList)
    (hw : ∀ c ∈ w, accepts c = false) (hsemicolon : accepts ';' = false) :
    (.text word *> .lexeme [.many1 accepts] : Part String).Refuses reads (w ++ ';' :: rest) := by
  by_cases hpre : word.toList <+: w ++ ';' :: rest
  · obtain ⟨x, hx⟩ := hpre
    -- the word ends inside the text, or just before the semicolon
    have hbehind : ∃ v, x = v ++ ';' :: rest ∧ ∀ c ∈ v, c ∈ w := by
      rcases List.append_eq_append_iff.mp hx with ⟨v, hv, hrest⟩ | ⟨v, hv, hrest⟩
      · refine ⟨v, hrest, fun c hc => ?_⟩
        rw [hv]
        exact List.mem_append_right _ hc
      · cases v with
        | nil => exact ⟨[], hrest.symm, fun c hc => absurd hc List.not_mem_nil⟩
        | cons d v =>
          injection hrest with hd _
          refine absurd ?_ hword
          rw [hv, ← hd]
          exact List.mem_append_right _ List.mem_cons_self
    obtain ⟨v, rfl, hv⟩ := hbehind
    rw [← hx]
    refine Form.Parses.text.andThen_refuses (.lexeme (Lexeme.taken?_cons_eq_none ?_))
    exact Piece.taken?_many1_eq_none (notStarting_append (fun c hc => hw c (hv c hc)) hsemicolon)
  · exact .andThen (.text hpre)

/-- A character behind spaces is not read where another one stands. -/
theorem someGap_refuses {c : Char} (h : NotStarting isGap w) (hc : w.head? ≠ some c) :
    (someGap *> .char c : Part String).Refuses reads w :=
  (someGap_parses h).andThen_refuses (.char hc)

/-- An expression is not read as an assignment: no sign of equality follows its first name. -/
theorem assignment_refuses (hw : ExpressionText w) :
    (rule .assignment).Refuses reads (w ++ ';' :: rest) := by
  obtain ⟨hne, hchars⟩ := hw
  cases w with
  | nil => exact absurd rfl hne
  | cons c w =>
    by_cases hc : isNameStart c = true
    · -- the longest name the text begins with is read; what is behind it is no sign of equality
      have hsplit := List.takeWhile_append_dropWhile (p := isNamePart) (l := w)
      have hname : IsName (String.ofList (c :: w.takeWhile isNamePart)) :=
        ⟨c, _, String.toList_ofList, hc, List.all_eq_true.mp List.all_takeWhile⟩
      have hbehind : ∀ d ∈ w.dropWhile isNamePart, isExpressionChar d = true := fun d hd =>
        hchars d (List.mem_cons_of_mem c (List.dropWhile_subset _ hd))
      have hpart : NotStarting isNamePart (w.dropWhile isNamePart ++ ';' :: rest) := by
        intro d hd
        cases hdrop : w.dropWhile isNamePart with
        | nil => rw [hdrop] at hd; cases hd; rfl
        | cons d' v =>
          rw [hdrop] at hd
          cases hd
          have hhead := List.head_dropWhile_not isNamePart (by rw [hdrop]; exact List.cons_ne_nil _ _)
          simp only [hdrop, List.head_cons] at hhead
          exact hhead
      have hvariable := variable_parses hname hpart
      have hgap : NotStarting isGap (w.dropWhile isNamePart ++ ';' :: rest) :=
        notStarting_append (fun d hd => isGap_of_isExpressionChar (hbehind d hd)) (by decide)
      have hequals : NotStarting (· = '=') (w.dropWhile isNamePart ++ ';' :: rest) := by
        refine notStarting_append (fun d hd => decide_eq_false ?_) (by decide)
        rintro rfl
        exact absurd (hbehind _ hd) (by decide)
      have hnotEquals : (w.dropWhile isNamePart ++ ';' :: rest).head? ≠ some '=' :=
        fun heq => of_decide_eq_false (hequals _ heq) rfl
      have hrefuses := hvariable.pair_refuses
        (Form.Refuses.andThen (g := rule .expression)
          (Form.Refuses.andThen (g := someGap) (someGap_refuses hgap hnotEquals)))
      rw [String.toList_ofList, ← List.append_assoc, List.cons_append, hsplit] at hrefuses
      exact .call loops_layered hrefuses.map
    · have hstart : NotStarting isNameStart ((c :: w) ++ ';' :: rest) :=
        notStarting_cons (Bool.eq_false_iff.mpr hc)
      exact .call loops_layered (.map (.pair (variable_refuses hstart)))

/-- An expression is not read as a definition. -/
theorem functionDef_refuses (hw : ExpressionText w) :
    (rule .functionDef).Refuses reads (w ++ ';' :: rest) := by
  have hkeyword : (.text "function" *> gap : Part String).Refuses reads (w ++ ';' :: rest) :=
    keyword_refuses (by decide) (fun c hc => isGap_of_isExpressionChar (hw.2 c hc)) (by decide)
  exact .call loops_layered (.map (.pair (.before (.andThen hkeyword))))

/-- What holds no blank is not read as a return statement. -/
theorem returnStatement_refuses (hw : ∀ c ∈ w, isBlank c = false) :
    returnStatement.Refuses reads (w ++ ';' :: rest) :=
  .map (.andThen (keyword_refuses (by decide) hw (by decide)))

/-- No statement stands before a closing brace or the end. -/
theorem statement_refuses (h : ClosedBy ['}'] w) : (rule .statement).Refuses reads w := by
  have hvariable : (rule .variable).Refuses reads w :=
    variable_refuses (h.notStarting (by decide))
  have hfunction : ¬"function".toList <+: w := by
    intro hread
    obtain ⟨v, rfl⟩ := hread
    exact absurd (h 'f' rfl) (by decide)
  refine .call loops_layered (.first fun f hf => ?_)
  rcases List.mem_cons.mp hf with rfl | hf
  · exact .call loops_layered (.map (.pair hvariable))
  · rcases List.mem_pair.mp hf with rfl | rfl
    · exact .call loops_layered (.map (.pair (.before (.andThen (.andThen (.text hfunction))))))
    · exact expression_refuses (h.subset (by decide))

/-- No statement is read where a body ends. -/
theorem functionStatement_refuses (h : ClosedBy ['}'] w) :
    (rule .functionStatement).Refuses reads w := by
  have hreturn : ¬"return".toList <+: w := by
    intro hread
    obtain ⟨v, rfl⟩ := hread
    exact absurd (h 'r' rfl) (by decide)
  refine .call loops_layered (.first fun f hf => ?_)
  rcases List.mem_pair.mp hf with rfl | rfl
  · exact .map (.andThen (.andThen (.text hreturn)))
  · exact statement_refuses h

/-! ## Statements -/

/-- The rule for statements, in the body of a function or outside of functions. -/
def statementRule : Bool → Part Node
  | true => rule .functionStatement
  | false => rule .statement

/-- What is read as a statement and not as a return statement is read so everywhere. -/
theorem statementRule_parses (inBody : Bool)
    (h : (rule .statement).Parses reads w (';' :: rest) s)
    (hreturn : returnStatement.Refuses reads (w ++ ';' :: rest)) :
    (statementRule inBody).Parses reads w (';' :: rest) s := by
  cases inBody with
  | false => exact h
  | true =>
    -- in bodies a return statement is tried first, and fails
    have hparses : (rule .functionStatement).Parses reads w (';' :: rest) s :=
      .call loops_layered (.first_tail hreturn (.first_head h))
    exact hparses

/-- An expression is read as a statement: it is no assignment and no definition. -/
theorem expression_statement_parses (inBody : Bool) (htext : ExpressionText w)
    (hexpression : (rule .expression).Parses reads w (';' :: rest) e) :
    (statementRule inBody).Parses reads w (';' :: rest) e := by
  refine statementRule_parses inBody ?_
    (returnStatement_refuses fun c hc => isBlank_of_isExpressionChar (htext.2 c hc))
  exact .call loops_layered (.first_tail (assignment_refuses htext)
    (.first_tail (functionDef_refuses htext) (.first_head hexpression)))

/-- An assignment is read where what is assigned is read as an expression. -/
theorem assignment_parses (inBody : Bool) (hname : IsName name) (htext : ExpressionText w)
    (hexpression : (rule .expression).Parses reads w (';' :: rest) e) :
    (statementRule inBody).Parses reads (name.toList ++ '=' :: w) (';' :: rest)
      (.assign name e) := by
  have hvariable : (rule .variable).Parses reads name.toList ('=' :: (w ++ ';' :: rest)) name :=
    variable_parses hname (notStarting_cons (by decide))
  have hequals : (someGap *> .char '=' : Part String).Parses reads ['='] (w ++ ';' :: rest) _ :=
    .nil_andThen (someGap_parses (notStarting_cons (by decide))) .char
  have hvalue := (hequals.andThen_nil (someGap_parses (htext.notGap _))).andThen hexpression
  have hassignment : (rule .assignment).Parses reads (name.toList ++ '=' :: w) (';' :: rest)
      (.assign name e) := .call loops_layered (.map (.pair hvariable hvalue))
  refine statementRule_parses inBody (.call loops_layered (.first_head hassignment))
    (returnStatement_refuses fun c hc => ?_)
  rcases List.mem_append.mp hc with hc | hc
  · exact isBlank_of_isExpressionChar (hname.expressionText.2 c hc)
  · rcases List.mem_cons.mp hc with rfl | hc
    · decide
    · exact isBlank_of_isExpressionChar (htext.2 c hc)

/-- One blank, up to something that is none. -/
theorem oneBlank_parses {accepts : Char → Bool} {c : Char} (hc : accepts c = true)
    (h : NotStarting accepts rest) :
    (.lexeme [.many1 accepts] : Part String).Parses reads [c] rest (String.ofList [c]) := by
  refine .lexeme ?_
  rw [Lexeme.taken?_singleton]
  exact Piece.taken?_many1 (List.cons_ne_nil _ _) (List.forall_mem_singleton.mpr hc) h

/-- A return statement is read in a body. -/
theorem return_parses (h : Written (.bare e) w) (he : IsExpression e) :
    (statementRule true).Parses reads ("return ".toList ++ w) (';' :: rest) (.ret e) := by
  have htext := h.expressionText he
  have hspace : blanks.Parses reads [' '] (w ++ ';' :: rest) _ :=
    oneBlank_parses (by decide) (htext.notBlank _)
  have hexpression : (rule .expression).Parses reads w (';' :: rest) e :=
    h.expression_parses he (.cons (by decide))
  have hword : (Form.text "return" : Part String).Parses reads "return".toList
      ([' '] ++ (w ++ ';' :: rest)) _ := .text
  have hreturn : returnStatement.Parses reads ("return ".toList ++ w) (';' :: rest) (.ret e) :=
    .map ((hword.andThen hspace).andThen hexpression)
  have hparses : (rule .functionStatement).Parses reads ("return ".toList ++ w) (';' :: rest)
      (.ret e) := .call loops_layered (.first_head hreturn)
  exact hparses

/-! ## Definitions -/

/-- Parameters are written with commas between them. -/
theorem joined_namesText {params : List String} (hne : params ≠ [])
    (h : ∀ p ∈ params, IsName p) : Joined (rule .variable) params (namesText params) := by
  have hitem : ∀ p ∈ params, ∀ rest, ClosedBy [',', ')'] rest →
      (rule .variable).Parses reads p.toList rest p := fun p hp rest hrest =>
    variable_parses (h p hp) (hrest.notStarting (by decide))
  induction params with
  | nil => exact absurd rfl hne
  | cons p params ih =>
    cases params with
    | nil => exact .one (hitem p List.mem_cons_self)
    | cons p' params =>
      have hrest := ih (List.cons_ne_nil _ _) (fun q hq => h q (List.mem_cons_of_mem p hq))
        fun q hq => hitem q (List.mem_cons_of_mem p hq)
      have htext : ExpressionText p'.toList :=
        (h p' (List.mem_cons_of_mem p List.mem_cons_self)).expressionText
      refine .more (hitem p List.mem_cons_self) hrest fun rest => ?_
      cases params with
      | nil => exact htext.notBlank rest
      | cons p'' params =>
        rw [namesText, List.append_assoc]
        exact htext.notBlank _

/-- The parameters of a definition; none are read where there are none. -/
theorem parameterList_parses {params : List String} (h : ∀ p ∈ params, IsName p)
    (rest : List Char) :
    ∃ list : Option (List String), list.getD [] = params ∧
      parameterList.Parses reads ('(' :: (namesText params ++ [')'])) rest list := by
  cases params with
  | nil =>
    refine ⟨none, rfl, bracketed_parses ?_ (notStarting_cons (by decide))⟩
    exact Form.Refuses.optional (.call loops_layered
      (.map (.pair (variable_refuses (notStarting_cons (by decide))))))
  | cons p params =>
    have hjoined := joined_namesText (List.cons_ne_nil p params) h
    refine ⟨some (p :: params), rfl, bracketed_parses ?_ ?_⟩
    · exact .optional (.call loops_layered (commaSeparated_parses hjoined (.cons (by decide))))
    · have htext := (h p List.mem_cons_self).expressionText
      cases params with
      | nil => exact htext.notBlank _
      | cons p' params =>
        rw [namesText, List.append_assoc]
        exact htext.notBlank _

/-- The name of a definition is read behind the keyword. -/
theorem functionName_parses (h : IsName name) :
    functionName.Parses reads ("function ".toList ++ name.toList) ('(' :: rest) name := by
  have hspace : gap.Parses reads [' '] (name.toList ++ '(' :: rest) _ :=
    oneBlank_parses (by decide) (h.expressionText.notGap _)
  have hword : (Form.text "function" : Part String).Parses reads "function".toList
      ([' '] ++ (name.toList ++ '(' :: rest)) _ := .text
  have hname : (rule .variable).Parses reads name.toList ('(' :: rest) name :=
    variable_parses h (notStarting_cons (by decide))
  exact ((hword.andThen hspace).andThen hname).before_nil
    (someGap_parses (notStarting_cons (by decide)))

/-- The word that a definition begins with is a name, but no sign of equality follows it. -/
theorem assignment_refuses_function (h : IsName name) :
    (rule .assignment).Refuses reads ("function ".toList ++ (name.toList ++ rest)) := by
  have hgap : NotStarting isGap (name.toList ++ rest) := h.expressionText.notGap rest
  have hequals : (name.toList ++ rest).head? ≠ some '=' := by
    obtain ⟨c, cs, hchars, hc, _⟩ := h
    rw [hchars]
    exact head_ne_of_accepts hc rfl
  have hword : (rule .variable).Parses reads "function".toList ([' '] ++ (name.toList ++ rest))
      "function" :=
    variable_parses ⟨'f', "unction".toList, rfl, rfl, List.all_eq_true.mp (by decide)⟩
      (notStarting_cons (by decide))
  have hspace : someGap.Parses reads [' '] (name.toList ++ rest) _ :=
    .optional (oneBlank_parses (by decide) hgap)
  have hvalue : (someGap *> .char '=' *> someGap *> rule .expression).Refuses reads
      ([' '] ++ (name.toList ++ rest)) :=
    .andThen (.andThen (hspace.andThen_refuses (.char hequals)))
  exact .call loops_layered (hword.pair_refuses hvalue).map

/-- A definition is read where its body is read as statements. -/
theorem functionDef_parses (inBody : Bool) {params : List String} (hname : IsName name)
    (hparams : ∀ p ∈ params, IsName p) (hw : NotStarting isBlank (w ++ '}' :: ';' :: rest))
    (hbody : (rule .functionStatements).Parses reads w ('}' :: ';' :: rest) body) :
    (statementRule inBody).Parses reads
      ("function ".toList ++ (name.toList ++ '(' :: (namesText params ++ ')' :: '{' :: (w ++ ['}']))))
      (';' :: rest) (.func name params body) := by
  have hbrace : (someBlanks *> .char '{' : Part String).Parses reads ['{'] (w ++ '}' :: ';' :: rest)
      _ := .nil_andThen (someBlanks_parses (notStarting_cons (by decide))) .char
  have hbraces : functionBody.Parses reads ('{' :: (w ++ ['}'])) (';' :: rest) body :=
    between_parses hbrace hbody hw (by decide)
  obtain ⟨list, rfl, hlist⟩ := parameterList_parses hparams ('{' :: (w ++ ['}']) ++ ';' :: rest)
  have hhead : functionName.Parses reads ("function ".toList ++ name.toList)
      ('(' :: (namesText (list.getD []) ++ [')']) ++ '{' :: (w ++ ['}']) ++ ';' :: rest) name :=
    functionName_parses hname
  have hdefinition := hhead.pair (hlist.pair hbraces)
  have htext : "function ".toList ++ name.toList ++
      ('(' :: (namesText (list.getD []) ++ [')']) ++ '{' :: (w ++ ['}'])) =
      "function ".toList ++
        (name.toList ++ '(' :: (namesText (list.getD []) ++ ')' :: '{' :: (w ++ ['}']))) := by
    simp only [List.append_assoc, List.cons_append, List.nil_append]
  rw [htext] at hdefinition
  -- the word `function` alone is a name, so an assignment is tried with it
  have hassignment : (rule .assignment).Refuses reads ("function ".toList ++ (name.toList ++
      '(' :: (namesText (list.getD []) ++ ')' :: '{' :: (w ++ ['}']))) ++ ';' :: rest) := by
    rw [List.append_assoc, List.append_assoc name.toList]
    exact assignment_refuses_function hname
  have hreturn : ¬"return".toList <+: "function ".toList ++ (name.toList ++
      '(' :: (namesText (list.getD []) ++ ')' :: '{' :: (w ++ ['}']))) ++ ';' :: rest := by
    intro hread
    obtain ⟨v, hv⟩ := hread
    injection hv with hchar _
    exact absurd hchar (by decide)
  refine statementRule_parses inBody ?_ (.map (.andThen (.andThen (.text hreturn))))
  exact .call loops_layered (.first_tail hassignment
    (.first_head (.call loops_layered hdefinition.map)))

/-! ## Lists of statements -/

/-- A statement with a semicolon behind it, as lists of statements have them. -/
def terminatedOne (statement : Part Node) : Part Node :=
  someBlanks *> statement <* someBlanks <* .char ';' <* someBlanks

/-- A statement with a semicolon behind it. -/
theorem semicolon_parses {statement : Part Node}
    (h : statement.Parses reads w (';' :: rest) s) (hw : NotStarting isBlank (w ++ ';' :: rest)) :
    (someBlanks *> statement <* someBlanks <* .char ';').Parses reads (w ++ [';']) rest s := by
  have hstatement : (someBlanks *> statement).Parses reads w (';' :: rest) s :=
    .nil_andThen (someBlanks_parses hw) h
  have hblanks : (someBlanks *> statement <* someBlanks).Parses reads w (';' :: rest) s :=
    hstatement.before_nil (someBlanks_parses (notStarting_cons (by decide)))
  exact hblanks.before .char

/-- A statement of a list: its semicolon is behind it, and no blanks follow. -/
theorem terminatedOne_parses {statement : Part Node}
    (h : statement.Parses reads w (';' :: rest) s) (hw : NotStarting isBlank (w ++ ';' :: rest))
    (hrest : NotStarting isBlank rest) :
    (terminatedOne statement).Parses reads (w ++ [';']) rest s :=
  (semicolon_parses h hw).before_nil (someBlanks_parses hrest)

/-- A list of statements ends before a closing brace or the end. -/
theorem terminatedOne_refuses (inBody : Bool) (h : ClosedBy ['}'] rest) :
    (terminatedOne (statementRule inBody)).Refuses reads rest := by
  have hstatement : (statementRule inBody).Refuses reads rest := by
    cases inBody with
    | false => exact statement_refuses h
    | true => exact functionStatement_refuses h
  have hblank : NotStarting isBlank rest := h.notStarting (by decide)
  exact .before (.before (.before ((someBlanks_parses hblank).andThen_refuses hstatement)))

/-- What it means that a phrase is read back: statements before a semicolon, and lists of statements
before a closing brace or the end. -/
def StatementRead : Phrase → List Char → Prop
  | .statement s, w =>
    ∀ inBody, IsStatement inBody s →
      (∀ rest, NotStarting isBlank (w ++ ';' :: rest)) ∧
      ∀ rest, (statementRule inBody).Parses reads w (';' :: rest) s
  | .statements body, w =>
    ∀ inBody, (∀ s ∈ body, IsStatement inBody s) → ∀ rest, ClosedBy ['}'] rest →
      NotStarting isBlank (w ++ rest) ∧
      (terminatedOne (statementRule inBody)).Repeats reads w rest body
  | _, _ => True

/-- What is written as an expression is no other statement. -/
theorem Written.isExpression {e : Node} (h : Written (.bare e) w) (hs : IsStatement inBody e) :
    IsExpression e := by
  cases hs with
  | expression he => exact he
  | assign _ _ => cases h
  | func _ _ _ => cases h
  | ret _ => cases h

/-- Every statement is read as it is written: by induction on how it is written. -/
theorem Written.statementRead {φ : Phrase} (h : Written φ w) : StatementRead φ w := by
  induction h with
  | expression h _ =>
    intro inBody hs
    have he := h.isExpression hs
    exact ⟨fun rest => (h.expressionText he).notBlank _,
      fun rest => expression_statement_parses inBody (h.expressionText he)
        (h.expression_parses he (.cons (by decide)))⟩
  | assign h _ =>
    intro inBody hs
    cases hs with
    | expression he => cases he
    | assign hname he =>
      refine ⟨fun rest => ?_, fun rest => assignment_parses inBody hname (h.expressionText he)
        (h.expression_parses he (.cons (by decide)))⟩
      rw [List.append_assoc]
      exact hname.expressionText.notBlank _
  | ret h _ =>
    intro inBody hs
    cases hs with
    | expression he => cases he
    | ret he => exact ⟨fun rest => notStarting_cons (by decide), fun rest => return_parses h he⟩
  | func _ ih =>
    intro inBody hs
    cases hs with
    | expression he => cases he
    | func hname hparams hbody =>
      refine ⟨fun rest => notStarting_cons (by decide), fun rest => ?_⟩
      -- the statements of the body end at the brace, whatever list the definition stands in
      obtain ⟨hblank, hrepeats⟩ := ih true hbody ('}' :: ';' :: rest) (.cons (by decide))
      exact functionDef_parses inBody hname hparams hblank
        (.call loops_layered hrepeats.parses)
  | noStatement =>
    intro inBody _ rest hrest
    exact ⟨hrest.notStarting (by decide), .stop (terminatedOne_refuses inBody hrest)⟩
  | @moreStatements s body u w _ _ ih ihs =>
    intro inBody hbody rest hrest
    obtain ⟨hblank, hstatement⟩ := ih inBody (hbody s List.mem_cons_self)
    obtain ⟨hblanks, hrepeats⟩ :=
      ihs inBody (fun s' hs' => hbody s' (List.mem_cons_of_mem s hs')) rest hrest
    have hstep : (terminatedOne (statementRule inBody)).Parses reads (u ++ [';']) (w ++ rest) s :=
      terminatedOne_parses (hstatement _) (hblank _) hblanks
    have htext : u ++ [';'] ++ w = u ++ ';' :: w := (List.append_cons u ';' w).symm
    constructor
    · rw [List.append_assoc]
      exact hblank (w ++ rest)
    · rw [← htext]
      exact .next (List.append_ne_nil_of_right_ne_nil u (List.cons_ne_nil ';' [])) hstep hrepeats
  | _ => trivial

/-- Statements up to the end of a text are matched as a program. -/
theorem whole_matches_of_repeats (h : (terminatedOne (rule .statement)).Repeats reads w [] body) :
    ∃ q, whole.Matches w.toArray (reads w.toArray) 0 body q := by
  have hstatements : (rule .statements).Parses reads w [] body := .call loops_layered h.parses
  exact ⟨w.length, hstatements.whole⟩

/-- The text of a program is matched as the program, to its end. -/
theorem Written.whole_matches (h : Written (.statements body) w) (hbody : IsProgram body) :
    ∃ q, whole.Matches w.toArray (reads w.toArray) 0 body q := by
  obtain ⟨_, hrepeats⟩ := h.statementRead false hbody [] .nil
  exact whole_matches_of_repeats hrepeats

end

end CalcScript.Grammar.Program

namespace CalcScript

open Grammar.Program

/-- **Writing a program and reading its text gives the program.** What a source is read as is a
program; every program has a text; and whatever text of it is written, the program is read from it,
unless calls are nested too deeply for the budget. -/
theorem readProgram_written (body : List Node) :
    (∀ source, readProgram source = .ok body → IsProgram body) ∧
    (IsProgram body → ∃ w, Written (.statements body) w) ∧
    (IsProgram body → ∀ w, Written (.statements body) w →
      rules.Recognises w.toArray whole body ∧
      (¬NestedTooDeeply (readProgram (String.ofList w)) →
        readProgram (String.ofList w) = .ok body)) := by
  refine ⟨fun source hok => ?_, exists_written, fun hbody w hw => ⟨?_, fun hdepth => ?_⟩⟩
  · have hdepth : ¬NestedTooDeeply (readProgram source) := by rw [hok]; exact id
    obtain ⟨q, hq⟩ := (readWith_eq_ok_iff rules_unroll loops_layered hdepth).mp hok
    exact matches_isProgram hq
  · exact (recognises_iff rules_unroll loops_layered).mpr (hw.whole_matches hbody)
  · refine (readWith_eq_ok_iff rules_unroll loops_layered hdepth).mpr ?_
    rw [String.toList_ofList]
    exact hw.whole_matches hbody

/-- An assignment to a variable called `function`, and a function that calls its parameter. -/
def Grammar.Program.callingProgram : List Node :=
  [.assign "function" (.bin .times (.bin .minus (.int (-2)) (.var "a")) (.int 3)),
    .func "f" ["x"] [.ret (.call (.var "x") [.int 1])]]

/-- It is one that can be read from a text. -/
theorem callingProgram_isProgram : IsProgram callingProgram := by
  have hname : ∀ c cs, isNameStart c = true → cs.all isNamePart = true →
      IsName (String.ofList (c :: cs)) := fun c cs hc hcs =>
    ⟨c, cs, String.toList_ofList, hc, List.all_eq_true.mp hcs⟩
  have hproduct : IsExpression (.bin .times (.bin .minus (.int (-2)) (.var "a")) (.int 3)) :=
    .bin (.bin (.int (by decide)) (.var (hname 'a' [] rfl rfl))) (.int (by decide))
  have hcall : IsExpression (.call (.var "x") [.int 1]) :=
    .call (.var (hname 'x' [] rfl rfl)) (List.forall_mem_singleton.mpr (.int (by decide)))
  have hfunc : IsStatement false (.func "f" ["x"] [.ret (.call (.var "x") [.int 1])]) :=
    .func (hname 'f' [] rfl rfl) (List.forall_mem_singleton.mpr (hname 'x' [] rfl rfl))
      (List.forall_mem_singleton.mpr (.ret hcall))
  exact List.forall_mem_cons.mpr ⟨.assign (hname 'f' "unction".toList rfl (by decide)) hproduct,
    List.forall_mem_singleton.mpr hfunc⟩

/-- A text of the program. -/
theorem callingProgram_written : Written (.statements callingProgram)
    "function=(-2-a)*3;function f(x){return x(1);};".toList := by
  have hdifference : Written (.bare (.bin .minus (.int (-2)) (.var "a"))) "-2-a".toList :=
    .bin (.unparenthesized (by decide) (.int (-2))) (.unparenthesized (by decide) (.var "a"))
  have hproduct : Written (.bare (.bin .times (.bin .minus (.int (-2)) (.var "a")) (.int 3)))
      "(-2-a)*3".toList :=
    .bin (.parenthesized (by decide) hdifference) (.unparenthesized (by decide) (.int 3))
  have hbody : Written (.statements [.ret (.call (.var "x") [.int 1])]) "return x(1);".toList :=
    .moreStatements (.ret (.call (.unparenthesized (by decide) (.var "x")) (.oneArgument (.int 1))))
      .noStatement
  have hfunc : Written (.statement (.func "f" ["x"] [.ret (.call (.var "x") [.int 1])]))
      "function f(x){return x(1);}".toList := .func hbody
  have hassign : Written (.statement (.assign "function"
      (.bin .times (.bin .minus (.int (-2)) (.var "a")) (.int 3)))) "function=(-2-a)*3".toList :=
    .assign hproduct
  exact .moreStatements hassign (.moreStatements hfunc .noStatement)

/-- The text is read back as the program. -/
theorem readProgram_written_callingProgram :
    ¬NestedTooDeeply (readProgram "function=(-2-a)*3;function f(x){return x(1);};") ∧
    readProgram "function=(-2-a)*3;function f(x){return x(1);};" = .ok callingProgram := by
  have hdepth : ¬NestedTooDeeply
      (readProgram "function=(-2-a)*3;function f(x){return x(1);};") := by
    decide +kernel
  have hread := ((readProgram_written callingProgram).2.2 callingProgram_isProgram _
    callingProgram_written).2
  rw [String.ofList_toList] at hread
  exact ⟨hdepth, hread hdepth⟩

end CalcScript
