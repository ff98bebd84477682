import SqlOutline.Token

/-!
# Lexemes

A lexeme is a token with its spelling and with the trivia in front of it, so that a list of
lexemes keeps every character of the text it was cut from, and whether two tokens touch can
be read off the second one. The text of a run of lexemes is the part of the source from its
first token to its last.
-/

namespace SqlOutline

/-- A token, its spelling, and the trivia before it. -/
structure Lexeme where
  gap : List Char
  token : Token
  text : List Char
  deriving DecidableEq, Repr

namespace Lexeme

/-- The characters of a lexeme, trivia included. -/
def source (l : Lexeme) : List Char := l.gap ++ l.text

/-- Whether the token stands right behind the one before it. -/
def touchesPrevious (l : Lexeme) : Bool := l.gap.isEmpty

/-- The characters from the first token of a run to its last, with the trivia between. -/
def spelling : List Lexeme → List Char
  | [] => []
  | l :: rest => l.text ++ rest.flatMap source

/-- The text of a run of lexemes, unless the run is empty. -/
def text? : List Lexeme → Option String
  | [] => none
  | l :: rest => some (String.ofList (spelling (l :: rest)))

end Lexeme

end SqlOutline
