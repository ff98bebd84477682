import SqlOutline.Character.Ranges

/-!
# Blanks and trimming

A blank is a character with the property White_Space of Unicode: the control characters
from tab to carriage return, the space, and the line, paragraph and no-break spaces beyond
ASCII. `trimBlanks` takes blanks off both ends and leaves those inside alone.
-/

namespace SqlOutline

/-- The code points with the property White_Space. -/
def blankRanges : Ranges :=
  [(0x09, 0x0D), (0x20, 0x20), (0x85, 0x85), (0xA0, 0xA0), (0x1680, 0x1680), (0x2000, 0x200A),
   (0x2028, 0x2029), (0x202F, 0x202F), (0x205F, 0x205F), (0x3000, 0x3000)]

/-- The ranges of blanks are in order, and none touches the next. -/
theorem blankRanges_ascending : blankRanges.Ascending := by
  decide

/-- Whether a character has the property White_Space. -/
def isBlank (c : Char) : Bool := blankRanges.contains c.toNat

/-- The text without the blanks at its end. -/
def trimBlanksRight (cs : List Char) : List Char := (cs.reverse.dropWhile isBlank).reverse

/-- The text without the blanks at either end. -/
def trimBlanks (cs : List Char) : List Char := trimBlanksRight (cs.dropWhile isBlank)

/-- The blanks of ASCII are blanks. -/
theorem isBlank_of_isWhitespace {c : Char} (h : c.isWhitespace = true) : isBlank c = true := by
  simp only [Char.isWhitespace, Bool.or_eq_true, decide_eq_true_eq] at h
  rcases h with ((rfl | rfl) | rfl) | rfl <;> decide

end SqlOutline
