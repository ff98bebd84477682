import SqlOutline.Character.Alphabetic
import SqlOutline.Character.Numeric

/-!
# Characters of words

Which characters begin an unquoted word of a statement and which may follow, and the
narrower class of the characters that make a match part of a longer word.
-/

namespace SqlOutline

/-- Letters, marks and numbers of every script. -/
def isAlphanumeric (c : Char) : Bool := isAlphabetic c || isNumeric c

/-- A word begins with an alphabetic character or an underscore. -/
def isWordStart (c : Char) : Bool := isAlphabetic c || c == '_'

/-- A word goes on with alphanumeric characters, underscores and dollar signs. -/
def isWordPart (c : Char) : Bool := isAlphanumeric c || c == '_' || c == '$'

/-- The characters that bind a neighbouring text into a longer name. -/
def isNameCharacter (c : Char) : Bool := isAlphanumeric c || c == '_'

/-- What begins a word may also stand inside it. -/
theorem isWordPart_of_isWordStart {c : Char} (h : isWordStart c = true) :
    isWordPart c = true := by
  simp only [isWordStart, isWordPart, isAlphanumeric, Bool.or_eq_true] at h ⊢
  rcases h with h | h <;> simp [h]

end SqlOutline
