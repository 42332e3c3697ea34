import CalcScript.Evaluation.Calculator
import CalcScript.Evaluation.Evaluate

/-!
# Interactive sessions

A session is fed lines and answers with text. A language session collects lines into a block until
a blank line comes, and runs the block as a program on one machine. A calculator session calculates
each line by itself and ends at a blank line. A failure that is not caught ends any session.

`Session.feed` is one line and `Session.finish` the end of the input; both give the text written
and what is put on record. `transcript` is a whole session.
-/

namespace CalcScript

/-- Who puts something on record. -/
inductive Recorder where
  | reading
  | evaluation
  | session
  deriving DecidableEq, Repr

/-- Something put on record. -/
structure Record where
  recorder : Recorder
  text : String
  deriving Repr

/-- What an evaluation has put on record, the earliest first. -/
def Machine.records (m : Machine) : List Record :=
  m.events.reverse.map fun event => ⟨.evaluation, event.text⟩

/-- What is put on record of a rejected source. -/
def Rejection.record (r : Rejection) : Record := ⟨.reading, r.trace⟩

/-- An answer: the text written, what is put on record, and the failure that ends it if there is
one. -/
structure Answer where
  text : String
  records : List Record
  failure : Option String

/-- The answer that says nothing. -/
def Answer.silent : Answer := ⟨"", [], none⟩

/-- An interactive session. -/
inductive Session where
  /-- A language session with the block collected so far. -/
  | language (machine : Machine) (block : String)
  | calculator
  /-- A session that takes no more lines. -/
  | closed
  /-- A session that a failure has ended, with the session as it was left. -/
  | broken (last : Session) (message : String)

/-! ## Blocks and lines -/

/-- How a session speaks of a rejected source. -/
def Rejection.complaint (r : Rejection) : String := "Invalid input: " ++ r.message ++ "\n"

/-- How a session shows the value of a block: not at all if there is none. -/
def shownResult : Value → String
  | .null => ""
  | v => v.text ++ "\n"

/-- How a session answers to a source that is not read. -/
def Unreadable.answer : Unreadable → Answer
  | .rejected r => ⟨r.complaint, [r.record], none⟩
  | .failure message => ⟨"", [], some message⟩

/-- Runs a block as a program. -/
def runBlock (machine : Machine) (block : String) : Machine × Answer :=
  match readProgram block with
  | .error u => (machine, u.answer)
  | .ok body =>
    match machine.fresh.run (.stmts body) with
    | (.ok v, m) => (m, ⟨m.output ++ shownResult v, m.records, none⟩)
    | (.error fault, m) =>
      let aborted : Record := ⟨.session, "Evaluation aborted"⟩
      (m, ⟨m.output ++ fault.message ++ "\n", m.records ++ [aborted], none⟩)

/-- Calculates a line. -/
def runLine (code : String) : Answer :=
  match calculate code with
  | .ok x => ⟨code ++ " = " ++ x.text ++ "\n", [], none⟩
  | .error (.unreadable u) => u.answer
  | .error (.fault fault) => ⟨fault.message ++ "\n", [], none⟩

/-! ## Sessions -/

namespace Session

/-- A new session. -/
def start (calculator : Bool) : Session :=
  if calculator then .calculator else .language (.start []) ""

/-- The session with a record that is watched. -/
def watched : Session → Session
  | .language machine block => .language machine.watched block
  | session => session

/-- What a session says first. -/
def greeting (calculator : Bool) : String :=
  if calculator then "Enter a mathematical expression or press Enter to quit:\n"
  else "an empty line runs the input, ^D quits:\n"

/-- The session after an answer: it goes on unless the answer is a failure. -/
def after (session : Session) (answer : Answer) : Session :=
  match answer.failure with
  | none => session
  | some message => .broken session message

/-- Runs the block collected so far, if there is one. -/
def runCollected (machine : Machine) (block : String) : Session × Answer :=
  if block = "" then (.language machine "", .silent)
  else
    let (machine, answer) := runBlock machine block
    ((Session.language machine "").after answer, answer)

/-- The session after a line, and its answer. -/
def feed (session : Session) (line : String) : Session × Answer :=
  match session with
  | .closed => (session, .silent)
  | .broken _ _ => (session, .silent)
  | .calculator =>
    let code := dropLineEnds line.toList
    if isBlankText code then (.closed, .silent)
    else
      let answer := runLine (String.ofList code)
      (Session.calculator.after answer, answer)
  | .language machine block =>
    if isBlankText line.toList then runCollected machine block
    else (.language machine (block ++ String.ofList (dropLineEnds line.toList) ++ "\n"), .silent)

/-- The session after the end of the input, and its answer. -/
def finish (session : Session) : Session × Answer :=
  match session with
  | .language machine block => runCollected machine block
  | session => (session, .silent)

/-- The session after some lines, and the text written. -/
def feedAll : Session → List String → Session × String
  | session, [] => (session, "")
  | session, line :: rest =>
    let (next, answer) := session.feed line
    let (last, text) := feedAll next rest
    (last, answer.text ++ text)

end Session

/-- All that a session writes for some lines. -/
def transcript (calculator : Bool) (lines : List String) : String :=
  let (session, text) := (Session.start calculator).feedAll lines
  Session.greeting calculator ++ text ++ session.finish.2.text

end CalcScript
