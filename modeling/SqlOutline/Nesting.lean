import SqlOutline.Lexeme

/-!
# Parentheses and the top level

The depth of a place in a run of lexemes is the number of parentheses open there; a closing
parenthesis with no partner leaves it at zero. Separators and keywords count only at depth
zero.
-/

namespace SqlOutline

/-- The depth after a token that stands at depth `depth`. -/
def Token.depthAfter (depth : Nat) : Token → Nat
  | .leftParen => depth + 1
  | .rightParen => depth - 1
  | _ => depth

/-- Only parentheses change the depth. -/
theorem Token.depthAfter_of_not_isParen {token : Token} (h : token.isParen = false)
    (depth : Nat) :
    token.depthAfter depth = depth := by
  cases token <;> first | rfl | exact absurd h (by decide)

namespace Lexeme

/-- The depth after a run that begins at depth `depth`. -/
def depthAfter (depth : Nat) (run : List Lexeme) : Nat :=
  run.foldl (fun depth l => l.token.depthAfter depth) depth

/-- The parts of a run between the separators at depth zero. There is always at least one
part, and parts may be empty. -/
def splitTopLevel (separator : Token) (depth : Nat) : List Lexeme → List (List Lexeme)
  | [] => [[]]
  | l :: rest =>
    if depth = 0 ∧ l.token = separator then [] :: splitTopLevel separator depth rest
    else (splitTopLevel separator (l.token.depthAfter depth) rest).modifyHead (l :: ·)

/-- The parts of a run before and after its first `keyword` at depth zero. -/
def cutTopLevel? (keyword : Keyword) (depth : Nat) :
    List Lexeme → Option (List Lexeme × List Lexeme)
  | [] => none
  | l :: rest =>
    if depth = 0 ∧ l.token = .keyword keyword then some ([], rest)
    else (cutTopLevel? keyword (l.token.depthAfter depth) rest).map fun (before, after) =>
      (l :: before, after)

end Lexeme

end SqlOutline
