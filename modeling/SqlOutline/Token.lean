import SqlOutline.Keyword

/-!
# Tokens

What a piece of a statement is, apart from how it is spelled. Operators are looked up by
their one or two characters; a character without a rule of its own is `Token.other`, so
that every character belongs to some token.
-/

namespace SqlOutline

/-- The kind of a piece of a statement. -/
inductive Token where
  | keyword (word : Keyword)
  | identifier
  | quotedIdentifier
  | number (isFloat : Bool)
  | string
  | comma
  | period
  | semicolon
  | leftParen
  | rightParen
  | question
  | equal
  | notEqual
  | greaterThan
  | greaterThanOrEqual
  | lessThan
  | lessThanOrEqual
  | lessOrGreaterThan
  | caret
  | plus
  | minus
  | asterisk
  | slash
  | percent
  | concat
  | other
  deriving DecidableEq, Repr

namespace Token

/-- The operators of two characters. -/
def ofPair? : Char → Char → Option Token
  | '=', '=' => some equal
  | '<', '>' => some lessOrGreaterThan
  | '<', '=' => some lessThanOrEqual
  | '>', '=' => some greaterThanOrEqual
  | '!', '=' => some notEqual
  | '|', '|' => some concat
  | _, _ => none

/-- The token of a single character that begins nothing longer. -/
def ofChar : Char → Token
  | '.' => period
  | '=' => equal
  | '<' => lessThan
  | '>' => greaterThan
  | '+' => plus
  | '-' => minus
  | '*' => asterisk
  | '/' => slash
  | '%' => percent
  | '^' => caret
  | '?' => question
  | '(' => leftParen
  | ')' => rightParen
  | ',' => comma
  | ';' => semicolon
  | _ => other

/-- Whether the token is a keyword, whichever one. -/
def isAnyKeyword : Token → Bool
  | keyword _ => true
  | _ => false

/-- Whether the token is a parenthesis. -/
def isParen (token : Token) : Bool := token = leftParen ∨ token = rightParen

end Token

end SqlOutline
