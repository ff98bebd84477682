import SqlOutline.Lexeme

/-!
# Places in the source

A value together with the bytes of the UTF-8 source that it was read from. Both ends are
inclusive, so a located value covers at least one byte, and two values touch when the
second begins at the byte after the first. The place is not part of the value: two located
values are equal when what they hold is equal.
-/

namespace SqlOutline

/-- A value and the first and last byte of its place in the source. -/
structure Located (α : Type) where
  value : α
  first : Nat
  last : Nat
  deriving Repr

namespace Located

instance {α : Type} [BEq α] : BEq (Located α) where
  beq a b := a.value == b.value

/-- Whether `b` begins right where `a` ends. -/
def touches {α β : Type} (a : Located α) (b : Located β) : Bool := a.last + 1 == b.first

end Located

namespace Lexeme

/-- The number of bytes that characters take in UTF-8. -/
def byteCount : List Char → Nat
  | [] => 0
  | c :: cs => c.utf8Size + byteCount cs

/-- The lexemes with their places in the source, if the first begins at byte `offset`. -/
def locate (offset : Nat) : List Lexeme → List (Located Lexeme)
  | [] => []
  | l :: rest =>
    let first := offset + byteCount l.gap
    let next := first + byteCount l.text
    ⟨l, first, next - 1⟩ :: locate next rest

end Lexeme

end SqlOutline
