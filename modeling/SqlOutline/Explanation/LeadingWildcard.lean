import SqlOutline.Character.Blank
import SqlOutline.Character.Word
import SqlOutline.Lexeme.Quoted

/-!
# Patterns with a leading wildcard

A condition is searched for `LIKE` or `ILIKE`, in any ASCII case, with a quoted text behind
it that begins with `%` or `_`. The search is textual and does not ask whether the word
stands inside of a literal. A word that only ends in `LIKE` does not count.
-/

namespace SqlOutline.LeadingWildcard

/-- Whether a text begins with `LIKE` up to ASCII case. -/
def beginsWithLike (cs : List Char) : Bool :=
  (cs.take 4).map Char.toUpper == ['L', 'I', 'K', 'E']

/-- The text without the letter `I` next to `LIKE`; the nearest character comes first. -/
def withoutI : List Char → List Char
  | [] => []
  | c :: rest => if c.toUpper = 'I' then rest else c :: rest

/-- Whether `LIKE` or `ILIKE` is a word of its own behind a text, nearest character first. -/
def standsFree (before : List Char) : Bool := !(withoutI before).head?.any isNameCharacter

/-- Whether a quoted text that begins with a wildcard comes next. -/
def opensPattern (after : List Char) : Bool :=
  match after.dropWhile isBlank with
  | mark :: wildcard :: _ =>
    (mark == Quoted.single || mark == Quoted.double) && (wildcard == '%' || wildcard == '_')
  | _ => false

/-- Whether such a pattern occurs in a text that comes after `before`. -/
def occursAfter (before : List Char) : List Char → Bool
  | [] => false
  | c :: rest =>
    (beginsWithLike (c :: rest) && standsFree before && opensPattern (rest.drop 3)) ||
      occursAfter (c :: before) rest

/-- Whether a condition has a pattern with a leading wildcard. -/
def occursIn (condition : String) : Bool := occursAfter [] condition.toList

end SqlOutline.LeadingWildcard
