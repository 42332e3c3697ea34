import CalcScript.Session.Console

/-!
# The program

Reads lines from standard input and answers each as soon as it is read. All that is written is
decided by sessions and by the command line.
-/

namespace CalcScript

/-- Writes an answer. -/
def writeAnswer (shown : Bool) (answer : Answer) : IO Unit := do
  IO.print answer.text
  IO.eprint (Console.recordLines shown answer.records)
  (← IO.getStdout).flush

/-- Reports a failure that is not caught, and gives the exit code. -/
def reportFailure (message : String) : IO UInt32 := do
  IO.eprintln ("ValueError: " ++ message)
  return 1

/-- The exit code of a session that has ended. -/
def exitCode (session : Session) : IO UInt32 :=
  match Console.exitOf session with
  | .code n => return UInt32.ofNat n
  | .failure message => reportFailure message

/-- Reads lines until the session closes or the input ends, and gives the exit code. -/
partial def converseWith (stdin : IO.FS.Stream) (shown : Bool) (session : Session) : IO UInt32 := do
  match session with
  | .closed => exitCode session
  | .broken _ _ => exitCode session
  | session =>
    IO.print prompt
    (← IO.getStdout).flush
    let line ← stdin.getLine
    if line.isEmpty then
      IO.print "\n"
      let (last, answer) := session.finish
      writeAnswer shown answer
      exitCode last
    else
      let (next, answer) := session.feed (String.ofList (dropLineEnds line.toList))
      writeAnswer shown answer
      converseWith stdin shown next

/-- Runs the program with some arguments and gives its exit code. -/
def runProgram (arguments : List String) : IO UInt32 := do
  match parseArguments arguments with
  | .help =>
    IO.print helpText
    return 0
  | .misuse complaint =>
    IO.eprint (misuseText complaint)
    return 2
  | .run settings =>
    match showsRecords? settings.level with
    | none => reportFailure (unknownLevel settings.level)
    | some shown =>
      IO.print (Session.greeting settings.calculator)
      converseWith (← IO.getStdin) shown (Console.session settings.calculator shown)

end CalcScript

/-- The program. -/
def main (arguments : List String) : IO UInt32 := CalcScript.runProgram arguments
