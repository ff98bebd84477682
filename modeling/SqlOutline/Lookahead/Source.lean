/-!
# Sources of items

A source gives one item after another and may end. It also gives bounds on the number of
items to come, which are machine words: a bound that does not fit is left out above and
capped below. Behind its end a source may give items again, unless it is fused.
-/

namespace SqlOutline

/-- Bounds on the number of items to come; without `high` there is no upper one. -/
structure SizeHint where
  low : Nat
  high : Option Nat
  deriving DecidableEq, Repr

namespace SizeHint

/-- The first number that a machine word cannot hold. -/
def wordBound : Nat := UInt64.size

/-- The bounds when `count` more items are known to come. -/
def add (hint : SizeHint) (count : Nat) : SizeHint :=
  { low := min (hint.low + count) (wordBound - 1)
    high := hint.high.bind fun high =>
      if high + count < wordBound then some (high + count) else none }

end SizeHint

/-- How to pull an item from a state, and the bounds that a state gives. -/
structure Source (σ α : Type) where
  next : σ → Option α × σ
  hint : σ → SizeHint
  /-- Whether the source is known to give nothing any more once it has given nothing. -/
  fused : Bool
  none_of_fused : fused = true → ∀ state, (next state).1 = none →
    (next (next state).2).1 = none

namespace Source

/-- The items of a list. -/
def list {α : Type} : Source (List α) α where
  next
    | [] => (none, [])
    | a :: rest => (some a, rest)
  hint items := ⟨items.length, some items.length⟩
  fused := true
  none_of_fused
    | _, [], _ => rfl
    | _, _ :: _, h => nomatch h

/-- The items of a list that satisfy a predicate. Any number of the others may be passed
over, so nothing is promised from below. -/
def filter {α : Type} (p : α → Bool) : Source (List α) α where
  next items :=
    match items.dropWhile (!p ·) with
    | [] => (none, [])
    | a :: rest => (some a, rest)
  hint items := ⟨0, some items.length⟩
  fused := true
  none_of_fused := by
    intro _ items h
    split at h
    · rfl
    · cases h

/-- A list with gaps. At a gap the source seems to end, although items may follow. -/
def gaps {α : Type} : Source (List (Option α)) α where
  next
    | [] => (none, [])
    | item :: rest => (item, rest)
  hint _ := ⟨0, none⟩
  fused := false
  none_of_fused := by
    intro h
    cases h

/-- One item without end. -/
def always {α : Type} : Source (Option α) α where
  next item := (item, item)
  hint _ := ⟨SizeHint.wordBound - 1, none⟩
  fused := true
  none_of_fused _ _ h := h

/-- The parts of a text between separators. How many there are is not told before. -/
def split (separator : Char) : Source (Option (List Char)) String where
  next
    | none => (none, none)
    | some text =>
      (some (String.ofList (text.takeWhile (· != separator))),
        (text.dropWhile (· != separator)).tail?)
  hint _ := ⟨0, none⟩
  fused := true
  none_of_fused
    | _, none, _ => rfl
    | _, some _, h => nomatch h

end Source

end SqlOutline
