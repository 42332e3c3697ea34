/-!
# Blanks

A blank is a character of Unicode's white space, or one of the four separators before the space
in ASCII. A gap is a blank or a tabulator: what may stand inside a line of source.
-/

namespace CalcScript

/-- The characters that count as blanks, as ranges of code points. -/
def blankRanges : List (Nat × Nat) :=
  [(0x09, 0x0d), (0x1c, 0x20), (0x85, 0x85), (0xa0, 0xa0), (0x1680, 0x1680), (0x2000, 0x200a),
    (0x2028, 0x2029), (0x202f, 0x202f), (0x205f, 0x205f), (0x3000, 0x3000)]

/-- The character is a blank. -/
def isBlank (c : Char) : Bool :=
  blankRanges.any fun (low, high) => low ≤ c.toNat && c.toNat ≤ high

/-- The character is a space or a tabulator. -/
def isGap (c : Char) : Bool := c = ' ' || c = '\t'

/-- Every gap is a blank. -/
theorem isBlank_of_isGap {c : Char} (h : isGap c = true) : isBlank c = true := by
  simp only [isGap, Bool.or_eq_true, decide_eq_true_eq] at h
  rcases h with rfl | rfl <;> decide

/-- The text without its blanks. -/
def withoutBlanks (text : List Char) : List Char := text.filter (!isBlank ·)

/-- The text holds nothing but blanks. -/
def isBlankText (text : List Char) : Bool := text.all isBlank

/-- The text without the line ends it closes with. -/
def dropLineEnds (text : List Char) : List Char :=
  (text.reverse.dropWhile (· = '\n')).reverse

end CalcScript
