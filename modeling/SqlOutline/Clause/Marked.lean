import SqlOutline.Nesting

/-!
# Active lexemes

Only some lexemes of a statement can begin or end a clause: those outside of parentheses
that are no parenthesis themselves and no part of a dotted name. In `o.order` the second
word names a column, although it is spelled like a keyword. `mark` decides this for every
lexeme once, before the clauses are told apart.
-/

namespace SqlOutline

/-- A lexeme, and whether it can begin or end a clause. -/
structure Marked where
  lexeme : Lexeme
  active : Bool
  deriving DecidableEq, Repr

namespace Lexeme

/-- Whether a lexeme is a period right behind the lexeme before it. -/
def isPeriodBehind (l : Lexeme) : Bool := l.token = .period && l.touchesPrevious

/-- Whether `l` is a keyword in a dotted name: a period touches it on one side. -/
def isQualified (previous l : Lexeme) (following : Option Lexeme) : Bool :=
  l.token.isAnyKeyword &&
    ((previous.token = .period && l.touchesPrevious) || following.any isPeriodBehind)

/-- Marks the lexemes that come after `previous`, from depth `depth` on. -/
def mark (previous : Lexeme) (depth : Nat) : List Lexeme → List Marked
  | [] => []
  | l :: rest =>
    ⟨l, depth = 0 && !l.token.isParen && !isQualified previous l rest.head?⟩ ::
      mark l (l.token.depthAfter depth) rest

/-- Marking changes no lexeme and loses none. -/
theorem map_lexeme_mark (previous : Lexeme) (depth : Nat) (run : List Lexeme) :
    (mark previous depth run).map (·.lexeme) = run := by
  induction run generalizing previous depth with
  | nil => rfl
  | cons l rest ih => simp [mark, ih]

end Lexeme

end SqlOutline
