import SqlOutline.Character.Word
import SqlOutline.Lexeme
import SqlOutline.Lexeme.Numeral
import SqlOutline.Lexeme.Quoted
import SqlOutline.Trivia

/-!
# Cutting a text into lexemes

Every text can be cut: quoted texts and comments that are never closed run to the end, and
a character that begins nothing else is a token by itself. Each reader returns the
characters of the token after the first one, so the rest of the text always gets shorter.
-/

namespace SqlOutline.Lexeme

/-- The operator or lone character `c`, and the second character of an operator. -/
def symbol (c : Char) : List Char → Token × List Char
  | [] => (Token.ofChar c, [])
  | d :: _ =>
    match Token.ofPair? c d with
    | some token => (token, [d])
    | none => (Token.ofChar c, [])

/-- The unquoted word that begins with `c`: a keyword if it spells one. -/
def word (c : Char) (rest : List Char) : Token × List Char :=
  let tail := rest.takeWhile isWordPart
  match Keyword.ofText? (c :: tail) with
  | some keyword => (.keyword keyword, tail)
  | none => (.identifier, tail)

/-- The number that goes on with `rest` behind its first digit. -/
def number (rest : List Char) : Token × List Char :=
  let numeral := Numeral.leading rest
  (.number numeral.isFloat, numeral.text)

/-- The token that begins with `c`, and its characters after `c`. -/
def next (c : Char) (rest : List Char) : Token × List Char :=
  if c = Quoted.single then (.string, Quoted.tail c rest)
  else if c = Quoted.double ∨ c = Quoted.back then (.quotedIdentifier, Quoted.tail c rest)
  else if c = '[' then (.quotedIdentifier, Quoted.bracketTail rest)
  else if c.isDigit then number rest
  else if isWordStart c then word c rest
  else symbol c rest

/-- The lexemes of a text, in order. Trivia at the end belongs to no lexeme. -/
def ofText (cs : List Char) : List Lexeme :=
  let gap := Trivia.leading .between cs
  match _h : cs.drop gap.length with
  | [] => []
  | c :: rest =>
    let (token, tail) := next c rest
    ⟨gap, token, c :: tail⟩ :: ofText (rest.drop tail.length)
termination_by cs.length
decreasing_by
  have hlen := congrArg List.length _h
  simp only [List.length_drop, List.length_cons] at hlen ⊢
  omega

end SqlOutline.Lexeme
