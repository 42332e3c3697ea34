import CalcScript.Proofs.Evaluation.Frame
import CalcScript.Proofs.Evaluation.Safety
import CalcScript.Proofs.Grammar.ProgramBlanks
import CalcScript.Session.Basic

/-!
# How a session is cut into blocks

A language session runs a block when a blank line or the end of the input comes. How its lines are
cut into blocks is of little account:

> `transcript_cuts`: more blank lines where one can stand change nothing; two blocks can be run as
> one if both are programs and the first does not fault; and a block that is rejected leaves nothing
> behind but its complaint.

Three layers are joined for this. The session collects the lines of both blocks, so the text it runs
is the one text behind the other (`Session.feedAll_block`). That text is read as the statements of
both (`readProgram_joined`). And evaluation goes on with the second statements where the first have
ended (`runStatements_append`), while the session starts them on a machine that has the same scopes
but has printed nothing yet: this changes no ending (`Node.eval_fresh`).
-/

namespace CalcScript

open Grammar.Program

/-! ## Lines and blocks -/

/-- The line holds nothing but blanks. -/
def isBlankLine (line : String) : Bool := isBlankText line.toList

/-- What a line adds to the text of a block. -/
def collectedLine (line : String) : String := String.ofList (dropLineEnds line.toList) ++ "\n"

/-- The text of a block. -/
def blockText : List String → String
  | [] => ""
  | line :: rest => collectedLine line ++ blockText rest

/-- The text of a block is put together from the texts of its parts. -/
theorem blockText_append (first second : List String) :
    blockText (first ++ second) = blockText first ++ blockText second := by
  induction first with
  | nil => exact String.empty_append.symm
  | cons line rest ih => rw [List.cons_append, blockText, ih, blockText, String.append_assoc]

/-- Lines that make up a block: some lines, and none of them blank. -/
structure IsBlock (lines : List String) : Prop where
  ne_nil : lines ≠ []
  filled : ∀ line ∈ lines, isBlankLine line = false

/-- Two blocks with nothing between them are one block. -/
theorem IsBlock.append {first second : List String} (h : IsBlock first) (h' : IsBlock second) :
    IsBlock (first ++ second) where
  ne_nil := List.append_ne_nil_of_left_ne_nil h.ne_nil second
  filled := List.forall_mem_append.mpr ⟨h.filled, h'.filled⟩

/-- The text of a block is not empty. -/
theorem IsBlock.text_ne_empty {lines : List String} (h : IsBlock lines) :
    blockText lines ≠ "" := by
  cases lines with
  | nil => exact absurd rfl h.ne_nil
  | cons line rest => simp [blockText, collectedLine]

/-- A block may begin behind these lines: there are none, or the last one is blank. -/
def EndsBlank (lines : List String) : Prop := ∀ line ∈ lines.getLast?, isBlankLine line = true

/-- A block may end in front of these lines: there are none, or the first one is blank. -/
def BeginsBlank (lines : List String) : Prop := ∀ line ∈ lines.head?, isBlankLine line = true

instance (lines : List String) : Decidable (IsBlock lines) :=
  decidable_of_iff (lines ≠ [] ∧ ∀ line ∈ lines, isBlankLine line = false)
    ⟨fun h => ⟨h.1, h.2⟩, fun h => ⟨h.ne_nil, h.filled⟩⟩

instance (lines : List String) : Decidable (EndsBlank lines) :=
  inferInstanceAs (Decidable (∀ line ∈ lines.getLast?, isBlankLine line = true))

instance (lines : List String) : Decidable (BeginsBlank lines) :=
  inferInstanceAs (Decidable (∀ line ∈ lines.head?, isBlankLine line = true))

/-! ## Lines fed to a session -/

namespace Session

/-- Nothing is run if nothing has been collected. -/
theorem runCollected_empty (m : Machine) : runCollected m "" = (.language m "", .silent) :=
  if_pos rfl

/-- The text of a block is run, since it is not empty. -/
theorem runCollected_block {lines : List String} (h : IsBlock lines) (m : Machine) :
    runCollected m (blockText lines) =
      ((Session.language (runBlock m (blockText lines)).1 "").after (runBlock m (blockText lines)).2,
        (runBlock m (blockText lines)).2) := if_neg h.text_ne_empty

/-- A session that has run its block has no other, or a failure has ended it. -/
theorem runCollected_cases (m : Machine) (block : String) :
    (∃ m', (runCollected m block).1 = .language m' "") ∨
    ∃ last message, (runCollected m block).1 = .broken last message := by
  rw [runCollected]
  split
  next => exact .inl ⟨m, rfl⟩
  next =>
    dsimp only [after]
    split
    next => exact .inl ⟨_, rfl⟩
    next message _ => exact .inr ⟨_, message, rfl⟩

/-- A blank line runs what has been collected. -/
theorem feed_blank {line : String} (hline : isBlankLine line = true) (m : Machine)
    (block : String) : (Session.language m block).feed line = runCollected m block := by
  rw [feed]
  exact if_pos hline

/-- Any other line is collected. -/
theorem feed_filled {line : String} (hline : isBlankLine line = false) (m : Machine)
    (block : String) :
    (Session.language m block).feed line =
      (.language m (block ++ collectedLine line), .silent) := by
  rw [feed, collectedLine, ← String.append_assoc]
  exact if_neg (by rw [← isBlankLine, hline]; exact Bool.false_ne_true)

theorem feedAll_cons (session : Session) (line : String) (rest : List String) :
    session.feedAll (line :: rest) =
      (((session.feed line).1.feedAll rest).1,
        (session.feed line).2.text ++ ((session.feed line).1.feedAll rest).2) := rfl

/-- Lines may be fed in two parts. -/
theorem feedAll_append (session : Session) (lines lines' : List String) :
    session.feedAll (lines ++ lines') =
      (((session.feedAll lines).1.feedAll lines').1,
        (session.feedAll lines).2 ++ ((session.feedAll lines).1.feedAll lines').2) := by
  induction lines generalizing session with
  | nil => exact Prod.ext rfl String.empty_append.symm
  | cons line rest ih =>
    rw [List.cons_append, feedAll_cons, ih, feedAll_cons, String.append_assoc]

/-- Between blocks, blank lines do nothing. -/
theorem feedAll_blank {gap : List String} (hgap : ∀ line ∈ gap, isBlankLine line = true)
    (m : Machine) : (Session.language m "").feedAll gap = (.language m "", "") := by
  induction gap with
  | nil => rfl
  | cons line rest ih =>
    obtain ⟨hline, hrest⟩ := List.forall_mem_cons.mp hgap
    rw [feedAll_cons, feed_blank hline, runCollected_empty, ih hrest]
    rfl

/-- The lines of a block are collected. -/
theorem feedAll_block {lines : List String} (hlines : ∀ line ∈ lines, isBlankLine line = false)
    (m : Machine) (block : String) :
    (Session.language m block).feedAll lines = (.language m (block ++ blockText lines), "") := by
  induction lines generalizing block with
  | nil => rw [feedAll, blockText, String.append_empty]
  | cons line rest ih =>
    obtain ⟨hline, hrest⟩ := List.forall_mem_cons.mp hlines
    rw [feedAll_cons, feed_filled hline, ih hrest, blockText, String.append_assoc]
    rfl

/-- A session that has failed takes no more lines. -/
theorem feedAll_broken (last : Session) (message : String) (lines : List String) :
    (Session.broken last message).feedAll lines = (.broken last message, "") := by
  induction lines with
  | nil => rfl
  | cons line rest ih =>
    have hfeed : (Session.broken last message).feed line = (.broken last message, .silent) := rfl
    rw [feedAll_cons, hfeed, ih]
    rfl

/-- A language session remains one, or a failure has ended it. -/
theorem feedAll_language (lines : List String) (m : Machine) (block : String) :
    (∃ m' block', ((Session.language m block).feedAll lines).1 = .language m' block') ∨
    ∃ last message, ((Session.language m block).feedAll lines).1 = .broken last message := by
  induction lines generalizing m block with
  | nil => exact .inl ⟨m, block, rfl⟩
  | cons line rest ih =>
    rw [feedAll_cons]
    cases hline : isBlankLine line with
    | true =>
      rw [feed_blank hline]
      rcases runCollected_cases m block with ⟨m', hm'⟩ | ⟨last, message, hbroken⟩
      · rw [hm']
        exact ih _ _
      · rw [hbroken, feedAll_broken]
        exact .inr ⟨last, message, rfl⟩
    | false =>
      rw [feed_filled hline]
      exact ih _ _

/-- Where a block may begin, nothing is collected, or a failure has ended the session. -/
theorem feedAll_endsBlank {lines : List String} (hlines : EndsBlank lines) (m : Machine) :
    (∃ m', ((Session.language m "").feedAll lines).1 = .language m' "") ∨
    ∃ last message, ((Session.language m "").feedAll lines).1 = .broken last message := by
  rcases List.eq_nil_or_concat lines with rfl | ⟨before, line, rfl⟩
  · exact .inl ⟨m, rfl⟩
  · have hline : isBlankLine line = true := hlines line (by simp)
    rw [List.concat_eq_append, feedAll_append]
    rcases feedAll_language before m "" with ⟨m', block, hbefore⟩ | ⟨last, message, hbefore⟩
    · rw [hbefore, feedAll_cons, feed_blank hline]
      exact runCollected_cases m' block
    · rw [hbefore, feedAll_broken]
      exact .inr ⟨last, message, rfl⟩

end Session

/-! ## Blocks run one after the other -/

/-- How a session shows what a program has come to. -/
def shownEnding : Except Fault Value → String
  | .ok v => shownResult v
  | .error fault => fault.message ++ "\n"

/-- Running a program writes what it prints and what it comes to, and leaves its scopes; and the
session goes on. -/
theorem runBlock_of_read {block : String} {body : List Node} (hread : readProgram block = .ok body)
    (m : Machine) :
    (runBlock m block).2.failure = none ∧
    (runBlock m block).2.text =
        (Node.eval evaluationBudget (.stmts body) m.fresh).2.output ++
          shownEnding (Node.eval evaluationBudget (.stmts body) m.fresh).1 ∧
      (runBlock m block).1.fresh = (Node.eval evaluationBudget (.stmts body) m.fresh).2.fresh := by
  obtain ⟨events, hrun⟩ := m.fresh.run_eq (.stmts body)
  unfold runBlock
  rw [hread]
  dsimp only
  rw [hrun]
  generalize Node.eval evaluationBudget (.stmts body) m.fresh = ending
  obtain ⟨result, n⟩ := ending
  cases result with
  | ok v => exact ⟨rfl, rfl, rfl⟩
  | error fault => exact ⟨rfl, String.append_assoc .., rfl⟩

/-- Two programs run as one write what they write one after the other, and leave the same
scopes. -/
theorem runBlock_joined {first second : String} {body body' : List Node} {m : Machine}
    (hread : readProgram first = .ok body) (hread' : readProgram second = .ok body')
    (hdepth : ¬NestedTooDeeply (readProgram (first ++ second)))
    (hruns : (m.fresh.run (.stmts body)).1.isOk = true) :
    (runBlock m (first ++ second)).2.text =
        (runBlock m first).2.text ++ (runBlock (runBlock m first).1 second).2.text ∧
      (runBlock m (first ++ second)).1.fresh = (runBlock (runBlock m first).1 second).1.fresh := by
  obtain ⟨-, htext, hfresh⟩ := runBlock_of_read hread m
  obtain ⟨-, htext', hfresh'⟩ := runBlock_of_read hread' (runBlock m first).1
  obtain ⟨-, htextAll, hfreshAll⟩ := runBlock_of_read (readProgram_joined hread hread' hdepth) m
  rw [hfresh] at htext' hfresh'
  cases hfirst : Node.eval evaluationBudget (.stmts body) m.fresh with
  | mk result n =>
    obtain ⟨events, hrun⟩ := m.fresh.run_eq (.stmts body)
    rw [hrun, hfirst] at hruns
    cases result with
    | error fault => cases hruns
    | ok v =>
      obtain ⟨rfl, hall⟩ := (readProgram_isProgram hread).eval_append body' hfirst
      rw [hfirst] at htext htext' hfresh'
      dsimp only at htext htext' hfresh'
      rw [hall] at htextAll hfreshAll
      obtain ⟨hresult, houtput, hscopes⟩ := Node.eval_fresh evaluationBudget (.stmts body') n
      constructor
      · rw [htextAll, htext, htext', hresult, houtput]
        show _ = n.output ++ "" ++ _
        rw [String.append_empty, String.append_assoc]
      · rw [hfreshAll, hfresh', hscopes]

/-! ## The end of a session -/

/-- The scopes of a session, the current one first. Only a language session has any. -/
def Session.scopes : Session → List Scope
  | .language m _ => m.scope :: m.below
  | .calculator => []
  | .closed => []
  | .broken last _ => last.scopes

/-- The scopes at the end of a language session. -/
def finalScopes (lines : List String) : List Scope :=
  ((Session.start false).feedAll lines).1.finish.1.scopes

/-- What a session comes to: the text it still writes, and the scopes at its end. -/
structure Conclusion where
  text : String
  scopes : List Scope

/-- A conclusion behind a text that has been written before. -/
def Conclusion.behind (text : String) (c : Conclusion) : Conclusion := ⟨text ++ c.text, c.scopes⟩

/-- Texts written before are put together. -/
theorem Conclusion.behind_behind (text text' : String) (c : Conclusion) :
    (c.behind text').behind text = c.behind (text ++ text') := by
  rw [behind, behind, behind, String.append_assoc]

theorem Conclusion.behind_empty (c : Conclusion) : c.behind "" = c := by
  rw [behind, String.empty_append]

namespace Session

/-- What a session comes to with the lines that are left. -/
def conclude (session : Session) (lines : List String) : Conclusion :=
  ⟨(session.feedAll lines).2 ++ (session.feedAll lines).1.finish.2.text,
    (session.feedAll lines).1.finish.1.scopes⟩

/-- What a session comes to with a line and more lines. -/
theorem conclude_cons (session : Session) (line : String) (rest : List String) :
    session.conclude (line :: rest) =
      ((session.feed line).1.conclude rest).behind (session.feed line).2.text := by
  rw [conclude, feedAll_cons, Conclusion.behind, conclude, String.append_assoc]

/-- What a session comes to with lines in two parts. -/
theorem conclude_append (session : Session) (lines lines' : List String) :
    session.conclude (lines ++ lines') =
      ((session.feedAll lines).1.conclude lines').behind (session.feedAll lines).2 := by
  rw [conclude, feedAll_append, Conclusion.behind, conclude, String.append_assoc]

/-- A session that has failed writes nothing more. -/
theorem conclude_broken (last : Session) (message : String) (lines : List String) :
    (Session.broken last message).conclude lines = ⟨"", last.scopes⟩ := by
  rw [conclude, feedAll_broken]
  rfl

/-- Behind a block, a blank line does nothing, and neither does the end of the input. -/
theorem feed_runCollected {line : String} (hline : isBlankLine line = true) (m : Machine)
    (block : String) :
    (runCollected m block).1.feed line = ((runCollected m block).1, .silent) := by
  rcases runCollected_cases m block with ⟨m', hm'⟩ | ⟨last, message, hbroken⟩
  · rw [hm', feed_blank hline, runCollected_empty]
  · rw [hbroken]
    rfl

/-- The same at the end of the input. -/
theorem finish_runCollected (m : Machine) (block : String) :
    (runCollected m block).1.finish = ((runCollected m block).1, .silent) := by
  rcases runCollected_cases m block with ⟨m', hm'⟩ | ⟨last, message, hbroken⟩
  · rw [hm', finish, runCollected_empty]
  · rw [hbroken]
    rfl

/-- A block ends at a blank line and at the end of the input alike. -/
theorem conclude_beginsBlank {post : List String} (hpost : BeginsBlank post) (m : Machine)
    (block : String) :
    (Session.language m block).conclude post =
      ((runCollected m block).1.conclude post).behind (runCollected m block).2.text := by
  cases post with
  | nil =>
    show Conclusion.mk ("" ++ (runCollected m block).2.text) (runCollected m block).1.scopes =
      ⟨(runCollected m block).2.text ++ ("" ++ (runCollected m block).1.finish.2.text),
        (runCollected m block).1.finish.1.scopes⟩
    rw [finish_runCollected, String.empty_append, String.empty_append]
    exact congrArg (Conclusion.mk · _) String.append_empty.symm
  | cons line rest =>
    have hline : isBlankLine line = true := hpost line rfl
    rw [conclude_cons, conclude_cons, feed_blank hline, feed_runCollected hline]
    exact congrArg (Conclusion.behind _) (Conclusion.behind_empty _).symm

/-- Blank lines where a block may begin change nothing. -/
theorem conclude_blank {gap : List String} (hgap : ∀ line ∈ gap, isBlankLine line = true)
    (m : Machine) (post : List String) :
    (Session.language m "").conclude (gap ++ post) = (Session.language m "").conclude post := by
  rw [conclude_append, feedAll_blank hgap, Conclusion.behind_empty]

/-- A block is run when its lines have been collected. -/
theorem conclude_block {block post : List String} (hblock : IsBlock block)
    (hpost : BeginsBlank post) (m : Machine) :
    (Session.language m "").conclude (block ++ post) =
      (((Session.language (runBlock m (blockText block)).1 "").after
        (runBlock m (blockText block)).2).conclude post).behind
        (runBlock m (blockText block)).2.text := by
  rw [conclude_append, feedAll_block hblock.filled, Conclusion.behind_empty, String.empty_append,
    conclude_beginsBlank hpost, runCollected_block hblock]

/-- Behind a program the session goes on. -/
theorem conclude_program {block post : List String} {body : List Node} (hblock : IsBlock block)
    (hpost : BeginsBlank post) (hread : readProgram (blockText block) = .ok body) (m : Machine) :
    (Session.language m "").conclude (block ++ post) =
      ((Session.language (runBlock m (blockText block)).1 "").conclude post).behind
        (runBlock m (blockText block)).2.text := by
  rw [conclude_block hblock hpost, after, (runBlock_of_read hread m).1]

/-- Sessions with the same block on machines with the same scopes, or ended by the same failure. -/
inductive Alike : Session → Session → Prop where
  | language {m m' : Machine} (h : m.fresh = m'.fresh) (block : String) :
      Alike (.language m block) (.language m' block)
  | broken {last last' : Session} (h : Alike last last') (message : String) :
      Alike (.broken last message) (.broken last' message)

namespace Alike

variable {s s' : Session}

/-- Sessions that are alike remain so after the same answer. -/
theorem after (h : Alike s s') (answer : Answer) : Alike (s.after answer) (s'.after answer) := by
  rw [Session.after, Session.after]
  split
  next => exact h
  next message _ => exact .broken h message

/-- Sessions that are alike have the same scopes. -/
theorem scopes (h : Alike s s') : s.scopes = s'.scopes := by
  induction h with
  | @language m m' hfresh block =>
    have hscopes : m.fresh.scope :: m.fresh.below = m'.fresh.scope :: m'.fresh.below := by
      rw [hfresh]
    exact hscopes
  | broken _ _ ih => exact ih

/-- Machines with the same scopes run a block alike. -/
theorem runCollected {m m' : Machine} (h : m.fresh = m'.fresh) (block : String) :
    Alike (Session.runCollected m block).1 (Session.runCollected m' block).1 ∧
      (Session.runCollected m block).2.text = (Session.runCollected m' block).2.text := by
  by_cases hblock : block = ""
  · rw [Session.runCollected, Session.runCollected, if_pos hblock, if_pos hblock]
    exact ⟨.language h "", rfl⟩
  · rw [Session.runCollected, Session.runCollected, if_neg hblock, if_neg hblock]
    unfold runBlock
    cases readProgram block with
    | error u => exact ⟨(Alike.language h "").after u.answer, rfl⟩
    | ok body =>
      dsimp only
      rw [h]
      exact ⟨(Alike.language rfl "").after _, rfl⟩

/-- Sessions that are alike answer to a line with the same text, and remain alike. -/
theorem feed (h : Alike s s') (line : String) :
    Alike (s.feed line).1 (s'.feed line).1 ∧ (s.feed line).2.text = (s'.feed line).2.text := by
  cases h with
  | language hfresh block =>
    cases hline : isBlankLine line with
    | true => rw [feed_blank hline, feed_blank hline]; exact runCollected hfresh block
    | false => rw [feed_filled hline, feed_filled hline]; exact ⟨.language hfresh _, rfl⟩
  | broken h message => exact ⟨.broken h message, rfl⟩

/-- Sessions that are alike come to the same. -/
theorem conclude (h : Alike s s') (lines : List String) : s.conclude lines = s'.conclude lines := by
  induction lines generalizing s s' with
  | nil =>
    cases h with
    | language hfresh block =>
      obtain ⟨halike, htext⟩ := runCollected hfresh block
      exact congrArg₂ Conclusion.mk (congrArg ("" ++ ·) htext) halike.scopes
    | broken h message => exact congrArg (Conclusion.mk _) h.scopes
  | cons line rest ih =>
    obtain ⟨halike, htext⟩ := h.feed line
    rw [conclude_cons, conclude_cons, htext, ih halike]

end Alike

/-! ## Cuts -/

/-- More blank lines where no block is open, or in front of a blank line, change nothing. -/
theorem conclude_gap {pre gap post : List String} (hgap : ∀ line ∈ gap, isBlankLine line = true)
    (hplace : EndsBlank pre ∨ BeginsBlank post) (m : Machine) :
    (Session.language m "").conclude (pre ++ gap ++ post) =
      (Session.language m "").conclude (pre ++ post) := by
  rw [List.append_assoc, conclude_append _ pre, conclude_append _ pre]
  rcases hplace with hpre | hpost
  · rcases feedAll_endsBlank hpre m with ⟨m', hm'⟩ | ⟨last, message, hbroken⟩
    · rw [hm', conclude_blank hgap]
    · rw [hbroken, conclude_broken, conclude_broken]
  · rcases feedAll_language pre m "" with ⟨m', block, hm'⟩ | ⟨last, message, hbroken⟩
    · have hboth : BeginsBlank (gap ++ post) := by
        cases gap with
        | nil => exact hpost
        | cons line rest =>
          intro first hfirst
          cases hfirst
          exact hgap line List.mem_cons_self
      -- the block that is open behind the lines before is run at the first blank line in any case
      rw [hm', conclude_beginsBlank hboth, conclude_beginsBlank hpost]
      congr 1
      rcases runCollected_cases m' block with ⟨m'', hm''⟩ | ⟨last, message, hbroken⟩
      · rw [hm'', conclude_blank hgap]
      · rw [hbroken, conclude_broken, conclude_broken]
    · rw [hbroken, conclude_broken, conclude_broken]

/-- Two blocks that are programs can be run as one if the first does not fault. -/
theorem conclude_joined {first gap second post : List String} {body body' : List Node}
    {m : Machine} (hfirst : IsBlock first) (hne : gap ≠ [])
    (hgap : ∀ line ∈ gap, isBlankLine line = true) (hsecond : IsBlock second)
    (hpost : BeginsBlank post) (hread : readProgram (blockText first) = .ok body)
    (hread' : readProgram (blockText second) = .ok body')
    (hdepth : ¬NestedTooDeeply (readProgram (blockText (first ++ second))))
    (hruns : (m.fresh.run (.stmts body)).1.isOk = true) :
    (Session.language m "").conclude (first ++ (gap ++ (second ++ post))) =
      (Session.language m "").conclude (first ++ second ++ post) := by
  have hbegins : BeginsBlank (gap ++ (second ++ post)) := by
    intro line hline
    rw [List.head?_append_of_ne_nil gap hne] at hline
    exact hgap line (List.mem_of_mem_head? hline)
  rw [blockText_append] at hdepth
  obtain ⟨htext, hfresh⟩ := runBlock_joined hread hread' hdepth hruns
  have hreadAll : readProgram (blockText (first ++ second)) = .ok (body ++ body') := by
    rw [blockText_append]
    exact readProgram_joined hread hread' hdepth
  rw [conclude_program hfirst hbegins hread, conclude_blank hgap,
    conclude_program hsecond hpost hread', conclude_program (hfirst.append hsecond) hpost hreadAll,
    blockText_append, htext, (Alike.language hfresh.symm "").conclude, Conclusion.behind_behind]

/-- A block that is rejected leaves nothing behind but its complaint. -/
theorem conclude_rejected {block post : List String} {r : Rejection} (hblock : IsBlock block)
    (hpost : BeginsBlank post) (hread : readProgram (blockText block) = .error (.rejected r))
    (m : Machine) :
    (Session.language m "").conclude (block ++ post) =
      ((Session.language m "").conclude post).behind r.complaint := by
  have hrun : runBlock m (blockText block) = (m, (Unreadable.rejected r).answer) := by
    unfold runBlock
    rw [hread]
  rw [conclude_block hblock hpost, hrun]
  rfl

end Session

/-- A transcript is what a new session comes to, behind its greeting. -/
theorem transcript_eq_conclude (lines : List String) :
    transcript false lines =
      Session.greeting false ++ ((Session.start false).conclude lines).text :=
  String.append_assoc ..

/-- The scopes at the end are part of what it comes to. -/
theorem finalScopes_eq_conclude (lines : List String) :
    finalScopes lines = ((Session.start false).conclude lines).scopes := rfl

/-- A function that divides what has been bound before, behind a line that binds it anew. -/
def dividingBlock : List String := ["x = x + 2;", "function f(n) { return x / n; };"]

/-- It prints what the function gives, and then makes it divide by zero. -/
def failingBlock : List String := ["println(f(2));", "f(0);"]

end CalcScript
