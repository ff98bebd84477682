import SqlOutline.Character.Blank

/-!
# Trivia

What stands between the tokens of a statement: blanks, comments from `--` to the end of
the line, and comments from `/*` to the first `*/` after those two characters. A comment
that is never closed runs to the end of the text.
-/

namespace SqlOutline.Trivia

/-- Where a scan of trivia stands: outside of comments or in one of the two forms. -/
inductive Place where
  | between
  | lineComment
  | blockComment
  deriving DecidableEq, Repr

/-- The trivia at the front of a text of which the part before ended at `place`. -/
def leading : Place → List Char → List Char
  | _, [] => []
  | .between, '-' :: '-' :: rest => '-' :: '-' :: leading .lineComment rest
  | .between, '/' :: '*' :: rest => '/' :: '*' :: leading .blockComment rest
  | .between, c :: rest => if isBlank c then c :: leading .between rest else []
  | .lineComment, c :: rest =>
    c :: leading (if c = '\n' then .between else .lineComment) rest
  | .blockComment, '*' :: '/' :: rest => '*' :: '/' :: leading .between rest
  | .blockComment, c :: rest => c :: leading .blockComment rest

end SqlOutline.Trivia
