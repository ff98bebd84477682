/-!
# Quoted texts

The extent of a quoted text once its opening mark has been read. Between two equal marks a
doubled mark stands for the mark itself; between brackets nothing is doubled. A quoted text
that is never closed runs to the end.
-/

namespace SqlOutline.Quoted

/-- The mark around string literals. -/
def single : Char := '\x27'

/-- The mark around identifiers in the standard form. -/
def double : Char := '\x22'

/-- The other mark around identifiers. -/
def back : Char := '\x60'

/-- What follows an opening `mark` up to and with the closing one. -/
def tail (mark : Char) : List Char → List Char
  | [] => []
  | c :: rest =>
    if c = mark then
      match rest with
      | d :: rest => if d = mark then c :: d :: tail mark rest else [c]
      | [] => [c]
    else c :: tail mark rest

/-- What follows an opening bracket up to and with the first closing one. -/
def bracketTail : List Char → List Char
  | [] => []
  | c :: rest => if c = ']' then [c] else c :: bracketTail rest

end SqlOutline.Quoted
