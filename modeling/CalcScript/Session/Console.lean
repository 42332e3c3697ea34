import CalcScript.Session.Basic
import CalcScript.Session.CommandLine

/-!
# The console

What a run of the program writes to its two output streams. The prompt comes before each line that
is read, and a line end at the end of the input. `Console.run` is a whole run for a given input.
-/

namespace CalcScript

/-- What stands before a line that is read. -/
def prompt : String := ">>> "

/-- The name under which something is put on record. -/
def Recorder.name : Recorder → String
  | .reading => "minilang.parser"
  | .evaluation => "minilang.runtime"
  | .session => "minilang.repl"

/-- The line that shows a record. -/
def Record.line (r : Record) : String := "DEBUG " ++ r.recorder.name ++ ": " ++ r.text

/-- How a run ends. -/
inductive Exit where
  /-- With an exit code. -/
  | code (n : Nat)
  /-- With a failure that is not caught. -/
  | failure (message : String)
  deriving DecidableEq, Repr

/-- What a run has written, and how it ended. -/
structure Console where
  stdout : String
  stderr : String
  exit : Exit
  deriving Repr

namespace Console

/-- What an answer writes to the second stream. -/
def recordLines (shown : Bool) (records : List Record) : String :=
  if shown then String.join (records.map fun r => r.line ++ "\n") else ""

/-- How a run ends with a session. -/
def exitOf : Session → Exit
  | .broken _ message => .failure message
  | _ => .code 0

/-- The rest of a session for the lines still to be read: what it writes to the two streams, and how
it ends. -/
def converse (shown : Bool) : Session → List String → Console
  | .closed, _ => ⟨"", "", .code 0⟩
  | .broken _ message, _ => ⟨"", "", .failure message⟩
  | session, [] =>
    let (last, answer) := session.finish
    ⟨prompt ++ "\n" ++ answer.text, recordLines shown answer.records, exitOf last⟩
  | session, line :: rest =>
    let (next, answer) := session.feed line
    let console := converse shown next rest
    ⟨prompt ++ answer.text ++ console.stdout,
      recordLines shown answer.records ++ console.stderr, console.exit⟩

/-- The lines of an input text. A line end closes a line, so behind the last one no line begins. -/
def linesOf (input : String) : List String :=
  let parts := input.splitOn "\n"
  if parts.getLast? = some "" then parts.dropLast else parts

/-- The session that a run begins with. -/
def session (calculator shown : Bool) : Session :=
  if shown then (Session.start calculator).watched else .start calculator

/-- A whole run. -/
def run (arguments : List String) (input : String) : Console :=
  match parseArguments arguments with
  | .help => ⟨helpText, "", .code 0⟩
  | .misuse complaint => ⟨"", misuseText complaint, .code 2⟩
  | .run settings =>
    match showsRecords? settings.level with
    | none => ⟨"", "", .failure (unknownLevel settings.level)⟩
    | some shown =>
      let console := converse shown (session settings.calculator shown) (linesOf input)
      { console with stdout := Session.greeting settings.calculator ++ console.stdout }

end Console

end CalcScript
