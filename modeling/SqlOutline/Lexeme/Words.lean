import SqlOutline.Lexeme

/-!
# Words of a run

A word is a longest stretch of tokens that touch each other: a dotted name, a call with its
arguments, an operator with its operands when no blank or comment stands between them.
-/

namespace SqlOutline.Lexeme

/-- A run cut wherever trivia stands before a token. -/
def words (run : List Lexeme) : List (List Lexeme) :=
  run.splitBy fun _ l => l.touchesPrevious

/-- Whether a word is the given keyword and nothing else. -/
def isKeywordWord (keyword : Keyword) : List Lexeme → Bool
  | [l] => l.token = .keyword keyword
  | _ => false

end SqlOutline.Lexeme
