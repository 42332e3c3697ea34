import Std.Data.TreeMap

/-!
# Memo tables

A memo table keeps what a rule gave at a position: a failure, or a result with the position after
the match. It is a table of rows, one for each position, and a row holds one cell for each rule
that has been recorded. `Memo.find?_insert_self` and `Memo.find?_insert_of_ne` say that recording an
entry changes that entry and no other.
-/

namespace CalcScript.Packrat

/-- What a rule gave at a position. -/
inductive Entry (α : Type) where
  | failed
  | matched (result : α) (stop : Nat)

variable {ρ : Type} {Res : ρ → Type}

/-- The recorded entry of one rule. -/
structure Cell (ρ : Type) (Res : ρ → Type) where
  rule : ρ
  entry : Entry (Res rule)

/-! ## Rows -/

/-- The entry of a rule in a row. -/
def findInRow [DecidableEq ρ] (r : ρ) : List (Cell ρ Res) → Option (Entry (Res r))
  | [] => none
  | cell :: row => if h : cell.rule = r then some (h ▸ cell.entry) else findInRow r row

/-- The row with the entry of one rule recorded. -/
def recordInRow [DecidableEq ρ] (r : ρ) (entry : Entry (Res r)) :
    List (Cell ρ Res) → List (Cell ρ Res)
  | [] => [⟨r, entry⟩]
  | cell :: row =>
    if cell.rule = r then ⟨r, entry⟩ :: row else cell :: recordInRow r entry row

theorem findInRow_record_self [DecidableEq ρ] (r : ρ) (entry : Entry (Res r))
    (row : List (Cell ρ Res)) : findInRow r (recordInRow r entry row) = some entry := by
  induction row with
  | nil => simp [recordInRow, findInRow]
  | cons cell row ih =>
    by_cases h : cell.rule = r
    · simp [recordInRow, findInRow, h]
    · simp [recordInRow, findInRow, h, ih]

theorem findInRow_record_of_ne [DecidableEq ρ] {r r' : ρ} (entry : Entry (Res r))
    (row : List (Cell ρ Res)) (hne : r' ≠ r) :
    findInRow r' (recordInRow r entry row) = findInRow r' row := by
  induction row with
  | nil => simp [recordInRow, findInRow, hne.symm]
  | cons cell row ih =>
    by_cases h : cell.rule = r
    · simp [recordInRow, findInRow, h, hne.symm]
    · by_cases h' : cell.rule = r'
      · subst h'
        simp [recordInRow, findInRow, h]
      · simp [recordInRow, findInRow, h, h', ih]

/-! ## Tables -/

/-- What rules gave at positions. -/
structure Memo (ρ : Type) (Res : ρ → Type) where
  rows : Std.TreeMap Nat (List (Cell ρ Res))

namespace Memo

/-- The table in which nothing is recorded. -/
def empty : Memo ρ Res := ⟨.empty⟩

/-- What is recorded of a position. -/
def row (memo : Memo ρ Res) (pos : Nat) : List (Cell ρ Res) := memo.rows[pos]?.getD []

/-- The entry of a rule at a position. -/
def find? [DecidableEq ρ] (memo : Memo ρ Res) (r : ρ) (pos : Nat) : Option (Entry (Res r)) :=
  findInRow r (memo.row pos)

/-- Records the entry of a rule at a position, in place of one recorded before. -/
def insert [DecidableEq ρ] (memo : Memo ρ Res) (r : ρ) (pos : Nat) (entry : Entry (Res r)) :
    Memo ρ Res :=
  ⟨memo.rows.insert pos (recordInRow r entry (memo.row pos))⟩

@[simp] theorem find?_empty [DecidableEq ρ] (r : ρ) (pos : Nat) :
    (empty : Memo ρ Res).find? r pos = none := by
  simp [find?, row, empty, findInRow]

@[simp] theorem find?_insert_self [DecidableEq ρ] (memo : Memo ρ Res) (r : ρ) (pos : Nat)
    (entry : Entry (Res r)) : (memo.insert r pos entry).find? r pos = some entry := by
  simp [find?, row, insert, findInRow_record_self]

theorem find?_insert_of_ne [DecidableEq ρ] (memo : Memo ρ Res) {r r' : ρ} {pos pos' : Nat}
    (entry : Entry (Res r)) (hne : ¬(r' = r ∧ pos' = pos)) :
    (memo.insert r pos entry).find? r' pos' = memo.find? r' pos' := by
  by_cases hp : pos' = pos
  · subst hp
    have hr : r' ≠ r := fun e => hne ⟨e, rfl⟩
    simp [find?, row, insert, findInRow_record_of_ne entry _ hr]
  · have hp' : pos ≠ pos' := fun e => hp e.symm
    simp [find?, row, insert, hp', Std.TreeMap.getElem?_insert]

end Memo

end CalcScript.Packrat
