/-!
# Numerals

A numeral is a run of ASCII digits, then optionally a point and more digits, then
optionally an exponent: the letter `e` in either case, a sign and digits, where sign and
digits may be missing. A numeral with a point or an exponent is a floating point number.
-/

namespace SqlOutline

/-- The parts of a numeral; the two optional ones are empty when they are missing. -/
structure Numeral where
  whole : List Char
  fraction : List Char
  exponent : List Char
  deriving DecidableEq, Repr

namespace Numeral

/-- The ASCII digits at the front of a text. -/
def digits (cs : List Char) : List Char := cs.takeWhile Char.isDigit

/-- The point at the front of a text with the digits after it. -/
def fractionOf : List Char → List Char
  | '.' :: rest => '.' :: digits rest
  | _ => []

/-- The sign at the front of a text. -/
def signOf : List Char → List Char
  | '+' :: _ => ['+']
  | '-' :: _ => ['-']
  | _ => []

/-- The exponent at the front of a text. -/
def exponentOf : List Char → List Char
  | [] => []
  | c :: rest =>
    if c = 'e' ∨ c = 'E' then
      c :: (signOf rest ++ digits (rest.drop (signOf rest).length))
    else []

/-- The numeral at the front of a text. Its whole part is empty if no digit stands there. -/
def leading (cs : List Char) : Numeral :=
  let whole := digits cs
  let afterWhole := cs.drop whole.length
  let fraction := fractionOf afterWhole
  ⟨whole, fraction, exponentOf (afterWhole.drop fraction.length)⟩

/-- The characters of a numeral. -/
def text (n : Numeral) : List Char := n.whole ++ n.fraction ++ n.exponent

/-- Whether a numeral has a point or an exponent. -/
def isFloat (n : Numeral) : Bool := !n.fraction.isEmpty || !n.exponent.isEmpty

end Numeral

end SqlOutline
