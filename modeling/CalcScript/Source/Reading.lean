import CalcScript.Grammar.Arithmetic
import CalcScript.Grammar.Program
import CalcScript.Source.Diagnostic

/-!
# Reading sources

`readProgram` and `readArithmetic` read a source into a syntax tree, or reject it with the
position at which reading gave up: the largest one at which anything failed. An error in a
conversion is passed on as a failure. Blanks are taken out of an arithmetic source before it is
read, and positions are mapped back to the source as given.
-/

namespace CalcScript

open Packrat

/-- How many rule calls may be nested. The host nests a thousand calls of any kind; where most others
stand between those of rules, in operands that are calls, there are two hundred calls of rules
among them. -/
def nestingBudget : Nat := 200

/-- Reads a code with a grammar. `toSource` maps positions of the code to positions of the source. -/
def readWith {ρ : Type} [DecidableEq ρ] {Res : ρ → Type} {α : Type} (G : Grammar ρ Res)
    (whole : Form ρ Res α) (source : String) (code : List Char) (toSource : Nat → Nat) :
    Except Unreadable α :=
  let reject (cause : RejectionCause) (reached : Nat) : Except Unreadable α :=
    .error (.rejected ⟨cause, source, String.ofList code, reached, toSource reached⟩)
  match G.parse code.toArray nestingBudget whole .start with
  | .matched result _ => .ok result
  | .failed s => reject .invalid s.furthest
  | .stopped .tooDeep s => reject .tooDeep s.pos
  | .stopped (.error message) _ => .error (.failure message)

/-! ## Programs -/

/-- Reads a program: its statements. -/
def readProgram (source : String) : Except Unreadable (List Node) :=
  readWith Grammar.Program.rules Grammar.Program.whole source source.toList id

/-! ## Arithmetic expressions -/

/-- The positions of the characters of a text that are no blanks, counted from `pos`. -/
def keptPositions : Nat → List Char → List Nat
  | _, [] => []
  | pos, c :: rest =>
    if isBlank c then keptPositions (pos + 1) rest else pos :: keptPositions (pos + 1) rest

/-- There are as many positions as characters that are kept. -/
theorem length_keptPositions (text : List Char) :
    ∀ pos, (keptPositions pos text).length = (withoutBlanks text).length := by
  induction text with
  | nil => intro pos; rfl
  | cons c rest ih =>
    intro pos
    have hrest := ih (pos + 1)
    by_cases h : isBlank c = true
    · simp [keptPositions, withoutBlanks, h] at hrest ⊢
      exact hrest
    · simp [keptPositions, withoutBlanks, h] at hrest ⊢
      exact hrest

/-- The position in a source that belongs to a position in the source without its blanks. Behind
the last character that is kept, it is the position after that character. -/
def sourcePosition (source : List Char) (pos : Nat) : Nat :=
  let kept := keptPositions 0 source
  match kept[pos]? with
  | some p => p
  | none =>
    match kept.getLast? with
    | some p => p + 1
    | none => 0

/-- Reads an arithmetic expression. -/
def readArithmetic (source : String) : Except Unreadable Node :=
  readWith Grammar.Arithmetic.rules Grammar.Arithmetic.whole source (withoutBlanks source.toList)
    (sourcePosition source.toList)

end CalcScript
