import CalcScript.Text.Quoted

/-!
# Diagnostics

A diagnostic points into a source text in three lines: the reason, a window of the source around
the position, and a caret below the character at the position. The window reaches ten characters
to both sides; dots say that the source goes on beyond it. Line ends inside it are shown as spaces,
so it stays one line.
-/

namespace CalcScript

/-- How far the window reaches to each side of the position. -/
def windowReach : Nat := 10

/-- The dots that stand for what is left out. -/
def ellipsis : List Char := ['.', '.', '.']

/-- A character as it is shown in the window. -/
def shownInWindow (c : Char) : Char := if c = '\n' then ' ' else c

/-- The window of a source around a position. -/
def window (source : List Char) (index : Nat) : List Char :=
  let start := index - windowReach
  let stop := min source.length (index + windowReach)
  (if 0 < start then ellipsis else [])
    ++ ((source.take stop).drop start).map shownInWindow
    ++ (if stop < source.length then ellipsis else [])

/-- The caret below the position. -/
def caret (index : Nat) : List Char :=
  let start := index - windowReach
  List.replicate (index - start + if 0 < start then ellipsis.length else 0) ' ' ++ ['^']

/-- The diagnostic for a position of a source. -/
def diagnostic (reason : String) (source : List Char) (index : Nat) : String :=
  "[Parser error] " ++ reason ++ "\n" ++ String.ofList (window source index) ++ "\n"
    ++ String.ofList (caret index)

/-- The complaint about a code in which nothing matches from a position on. -/
def noMatch (code : String) (pos : Nat) : String :=
  "No match at position " ++ toString pos ++ " of " ++ quoted code

/-! ## Rejected sources -/

/-- Why a source is rejected. -/
inductive RejectionCause where
  | invalid
  | tooDeep
  deriving DecidableEq, Repr

/-- The wording of a cause. -/
def RejectionCause.reason : RejectionCause → String
  | .invalid => "Invalid input"
  | .tooDeep => "Input is nested too deeply"

/-- A source that has been rejected. -/
structure Rejection where
  cause : RejectionCause
  /-- The source as it was given. -/
  source : String
  /-- The text in which recognition was tried. -/
  code : String
  /-- The position in that text at which recognition gave up. -/
  reached : Nat
  /-- The same position in the source. -/
  index : Nat
  deriving Repr

/-- The diagnostic of a rejected source. -/
def Rejection.message (r : Rejection) : String :=
  diagnostic r.cause.reason r.source.toList r.index

/-- What is put on record about a rejected source. -/
def Rejection.trace (r : Rejection) : String :=
  match r.cause with
  | .invalid =>
    "No match for " ++ quoted r.code ++ ", furthest position reached: " ++ toString r.reached
  | .tooDeep =>
    "Recursion limit hit while parsing " ++ quoted r.code ++ " at position " ++ toString r.reached

/-- Why a source is not read. -/
inductive Unreadable where
  | rejected (r : Rejection)
  /-- A failure in a conversion, which is not caught. -/
  | failure (message : String)
  deriving Repr

end CalcScript
