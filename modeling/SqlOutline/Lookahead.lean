import SqlOutline.Lookahead.Source

/-!
# Looking ahead

A cursor over a source that can look at items without taking them. Items that have been
looked at wait in a buffer. A source that might go on behind its end is released at its first
end and never asked again. A fused one is kept: it may be asked again, and gives nothing.
-/

namespace SqlOutline

/-- A source, whether it has been released, and the items pulled from it but not yet taken. -/
structure Lookahead (σ α : Type) where
  state : σ
  released : Bool
  buffer : List α
  deriving DecidableEq, Repr

namespace Lookahead

variable {σ α : Type}

/-- The cursor in front of a source. -/
def ofState (state : σ) : Lookahead σ α := ⟨state, false, []⟩

/-- Asks the source for an item, unless it has been released. It is released if it has none,
and is not fused. -/
def pull (source : Source σ α) (c : Lookahead σ α) : Option α × Lookahead σ α :=
  if c.released then (none, c)
  else match source.next c.state with
    | (some a, state) => (some a, { c with state })
    | (none, state) => (none, { c with state, released := !source.fused })

/-- Pulls items into the buffer, up to a number of them. -/
def fill (source : Source σ α) : Nat → Lookahead σ α → Lookahead σ α
  | 0, c => c
  | n + 1, c =>
    match pull source c with
    | (some a, c) => fill source n { c with buffer := c.buffer ++ [a] }
    | (none, c) => c

/-- The item `n` places ahead. Nothing is taken. -/
def peekNth (source : Source σ α) (n : Nat) (c : Lookahead σ α) : Option α × Lookahead σ α :=
  let c := fill source (n + 1 - c.buffer.length) c
  (c.buffer[n]?, c)

/-- The next item. Nothing is taken. -/
def peek (source : Source σ α) (c : Lookahead σ α) : Option α × Lookahead σ α :=
  peekNth source 0 c

/-- Takes the next item. -/
def next (source : Source σ α) (c : Lookahead σ α) : Option α × Lookahead σ α :=
  match c.buffer with
  | a :: rest => (some a, { c with buffer := rest })
  | [] => pull source c

/-- Takes the next item if it is accepted. -/
def nextIf (source : Source σ α) (accept : α → Bool) (c : Lookahead σ α) :
    Option α × Lookahead σ α :=
  match peek source c with
  | (some a, c) => if accept a then next source c else (none, c)
  | (none, c) => (none, c)

/-- Whether the next `count` items from place `i` on are there and accepted at their places.
The first item that is not ends the search. -/
def acceptsEach (source : Source σ α) (accept : Nat → α → Bool) :
    Nat → Nat → Lookahead σ α → Bool × Lookahead σ α
  | 0, _, c => (true, c)
  | count + 1, i, c =>
    match peekNth source i c with
    | (some a, c) =>
      if accept i a then acceptsEach source accept count (i + 1) c else (false, c)
    | (none, c) => (false, c)

/-- Takes the next `n` items if all of them are accepted at their places, and returns the
last of them. -/
def advanceIfEach (source : Source σ α) (n : Nat) (accept : Nat → α → Bool)
    (c : Lookahead σ α) : Option α × Lookahead σ α :=
  if n = 0 then (none, c)
  else match acceptsEach source accept n 0 c with
    | (true, c) => (c.buffer[n - 1]?, { c with buffer := c.buffer.drop n })
    | (false, c) => (none, c)

/-- Takes items until there are none, at most `count` of them. -/
def take (source : Source σ α) : Nat → Lookahead σ α → List α × Lookahead σ α
  | 0, c => ([], c)
  | count + 1, c =>
    match next source c with
    | (some a, c) =>
      let (items, c) := take source count c
      (a :: items, c)
    | (none, c) => ([], c)

/-- Bounds on the number of items to come. A source that has been released gives none; one that
is kept has bounds of its own, behind its end too. -/
def sizeHint (source : Source σ α) (c : Lookahead σ α) : SizeHint :=
  (if c.released then ⟨0, some 0⟩ else source.hint c.state).add c.buffer.length

end Lookahead

end SqlOutline
