import SqlOutline.Proofs.Lookahead.Log

/-!
# Bounds on the number of items to come

A cursor adds the length of its buffer to the bounds that its source gives, as machine words:
the lower one is capped, and an upper one that does not fit is left out. An item that is pulled
into the buffer is one of those that the source was still to give, and the bounds of the next
state are for the others. So the sums are bounds on all items in front of the cursor, although
a source may take more off its own bounds than the items it has given.

Behind the end of a source the two kinds part again. One that has been released counts as
nothing, whatever its bounds were, so that both sums are the length of the buffer. A fused one
still gives bounds of its own. The lower one is zero, as nothing is left to come; but the upper
one may be open, as it is for the parts of a text, and then so is the sum.

## Main results

* `SizeHint.Bounds.add`: bounds on a row and the length of a buffer are bounds on both
  together.
* `Lookahead.reaches_of_conversation`: a cursor stays in the states of a source that is kept.
* `Lookahead.sizeHint_eq_of_isExact`: exact bounds stay exact as long as they fit.
* `Lookahead.tellsRemaining_of_bounds`: what the bounds are after every conversation.
* `Lookahead.sizeHint_ne_buffer_split`: they may be open behind the end of a fused source.
-/

namespace SqlOutline

open Stream'

variable {σ α : Type}

/-! ### Bounds of a row -/

namespace SizeHint

/-- Whether bounds hold of the number of items in a row, which may have no end. -/
structure Bounds (hint : SizeHint) (items : Seq α) : Prop where
  low : (hint.low : ℕ∞) ≤ items.length'
  high : ∀ high ∈ hint.high, items.length' ≤ (high : ℕ∞)

/-- Whether both bounds are the same number. -/
def IsExact (hint : SizeHint) : Prop := hint.high = some hint.low

/-- The items of a list and of the row behind it are counted together. -/
theorem length'_ofList_append (xs : List α) (rest : Seq α) :
    ((Seq.ofList xs).append rest).length' = xs.length + rest.length' := by
  induction xs with
  | nil => simp
  | cons a xs ih =>
      rw [Seq.ofList_cons, Seq.cons_append, Seq.length'_cons, ih,
        List.length_cons, Nat.cast_add, Nat.cast_one, add_right_comm]

/-- The lower bound is the capped sum. -/
theorem low_add (hint : SizeHint) (count : Nat) :
    (hint.add count).low = min (hint.low + count) (wordBound - 1) := rfl

/-- The upper bound is the sum, if there was one and the sum fits. -/
theorem mem_high_add {hint : SizeHint} {count high : Nat} :
    high ∈ (hint.add count).high ↔
      ∃ own ∈ hint.high, high = own + count ∧ own + count < wordBound := by
  rw [add, Option.mem_def, Option.bind_eq_some_iff]
  constructor
  · rintro ⟨own, hown, h⟩
    split_ifs at h with hfits
    exact ⟨own, hown, (Option.some_inj.mp h).symm, hfits⟩
  · rintro ⟨own, hown, rfl, hfits⟩
    exact ⟨own, hown, if_pos hfits⟩

/-- There is no upper bound if there was none, or if the sum does not fit. -/
theorem high_add_eq_none_iff {hint : SizeHint} {count : Nat} :
    (hint.add count).high = none ↔
      hint.high = none ∨ ∃ own ∈ hint.high, wordBound ≤ own + count := by
  rw [add]
  cases hhigh : hint.high with
  | none => simp
  | some own => simp

/-- Bounds on a row and the length of a buffer are bounds on both together. -/
theorem Bounds.add {hint : SizeHint} {rest : Seq α} (h : hint.Bounds rest) (buffer : List α) :
    (hint.add buffer.length).Bounds ((Seq.ofList buffer).append rest) := by
  constructor
  case low =>
      rw [length'_ofList_append, low_add]
      calc ((min (hint.low + buffer.length) (wordBound - 1) : ℕ) : ℕ∞)
          ≤ ((hint.low + buffer.length : ℕ) : ℕ∞) := Nat.cast_le.mpr (min_le_left _ _)
        _ = buffer.length + hint.low := by rw [Nat.cast_add, add_comm]
        _ ≤ buffer.length + rest.length' := by gcongr; exact h.low
  case high =>
      intro high hhigh
      obtain ⟨own, hown, rfl, -⟩ := mem_high_add.mp hhigh
      rw [length'_ofList_append, Nat.cast_add, add_comm]
      gcongr
      exact h.high own hown

/-- Nothing is left behind the end of a source. -/
theorem bounds_nil : (⟨0, some 0⟩ : SizeHint).Bounds (.nil : Seq α) := by
  constructor <;> simp

/-- Exact bounds are the number of items. -/
theorem Bounds.length'_eq {hint : SizeHint} {items : Seq α} (h : hint.Bounds items)
    (hexact : hint.IsExact) : items.length' = hint.low :=
  le_antisymm (h.high hint.low hexact) h.low

/-- Exact bounds and the length of a buffer are exact if the sum fits. -/
theorem IsExact.add_eq {hint : SizeHint} (h : hint.IsExact) {count : Nat}
    (hfits : hint.low + count < wordBound) :
    hint.add count = ⟨hint.low + count, some (hint.low + count)⟩ := by
  have hcap : min (hint.low + count) (wordBound - 1) = hint.low + count :=
    min_eq_left (by omega)
  rw [add, hcap, h, Option.bind_some, if_pos hfits]

end SizeHint

/-! ### The states of a source -/

namespace Source

/-- The states that a source goes through: those up to the first time that it gives no item,
and if it is fused also those behind. -/
inductive Reaches (source : Source σ α) (start : σ) : σ → Prop
  | start : Reaches source start start
  | next {state next : σ} {a : α} :
      Reaches source start state → source.next state = (some a, next) →
        Reaches source start next
  | behind {state next : σ} : source.fused = true →
      Reaches source start state → source.next state = (none, next) → Reaches source start next

end Source

namespace Lookahead

variable {source : Source σ α} {start : σ} {c : Lookahead σ α} {es : List (Exchange α)}
  {log : List (Option α)}

/-- To pull an item leads to the next state, unless the source is released. -/
theorem reaches_pull (c : Lookahead σ α)
    (h : c.released = false → source.Reaches start c.state) :
    (pull source c).2.released = false → source.Reaches start (pull source c).2.state := by
  intro hreleased
  rw [pull] at hreleased ⊢
  split_ifs at hreleased ⊢ with hc
  · exact absurd hreleased (by rw [hc]; exact Bool.noConfusion)
  · have hstate := h (Bool.of_not_eq_true hc)
    rcases hnext : source.next c.state with ⟨_ | a, next⟩
    · rw [hnext] at hreleased
      exact .behind (Bool.not_eq_eq_eq_not.mp hreleased) hstate hnext
    · exact .next hstate hnext

/-- A cursor stays in the states of its source until that has been released. -/
theorem reaches_of_conversation (h : Conversation (Answers source) (ofState start) es c) :
    c.released = false → source.Reaches start c.state :=
  Conversation.of_pull
    (P := fun state released => released = false → source.Reaches start state)
    reaches_pull h fun _ => .start

/-! ### The bounds of a cursor -/

/-- The bounds of a source on the items that have not been pulled yet. -/
def unreadHint (source : Source σ α) (c : Lookahead σ α) : SizeHint :=
  if c.released then ⟨0, some 0⟩ else source.hint c.state

/-- The bounds of a cursor are those on what is unread with the buffer added to them. -/
theorem sizeHint_eq_add : c.sizeHint source = (c.unreadHint source).add c.buffer.length := rfl

/-- The buffer is added to the bounds that a source gives as long as it is kept. -/
theorem sizeHint_of_not_released (h : c.released = false) :
    c.sizeHint source = (source.hint c.state).add c.buffer.length := by
  have hown : c.unreadHint source = source.hint c.state := if_neg (by simp [h])
  rw [sizeHint_eq_add, hown]

/-- The bounds on what is unread hold if the source gives such bounds as long as it is kept. -/
theorem bounds_unreadHint
    (h : c.released = false → (source.hint c.state).Bounds (source.items c.state)) :
    (c.unreadHint source).Bounds (c.unread source) := by
  rw [unreadHint, unread]
  split_ifs with hreleased
  · exact SizeHint.bounds_nil
  · exact h (Bool.of_not_eq_true hreleased)

/-- The bounds on what is unread are exact if the source gives exact ones as long as it is
kept. -/
theorem isExact_unreadHint (h : c.released = false → (source.hint c.state).IsExact) :
    (c.unreadHint source).IsExact := by
  rw [unreadHint]
  split_ifs with hreleased
  · rfl
  · exact h (Bool.of_not_eq_true hreleased)

/-- The items in front of a cursor are those in the buffer and those that are unread. -/
theorem length'_remaining (source : Source σ α) (c : Lookahead σ α) :
    (c.remaining source).length' = c.buffer.length + (c.unread source).length' :=
  SizeHint.length'_ofList_append c.buffer (c.unread source)

/-- Exact bounds stay exact as long as a machine word can count the items in front
of the cursor. -/
theorem sizeHint_eq_of_isExact {n : Nat} (h : (c.unreadHint source).Bounds (c.unread source))
    (hexact : (c.unreadHint source).IsExact) (hn : (c.remaining source).length' = n)
    (hfits : n < SizeHint.wordBound) : c.sizeHint source = ⟨n, some n⟩ := by
  rw [length'_remaining, h.length'_eq hexact, ← Nat.cast_add, Nat.cast_inj, add_comm] at hn
  rw [sizeHint_eq_add, hexact.add_eq (hn ▸ hfits), hn]

/-- If nothing is unread then the lower bound is the length of the buffer. -/
theorem low_sizeHint_of_unread_eq_nil (h : (c.unreadHint source).Bounds (c.unread source))
    (hunread : c.unread source = .nil) (hfits : c.buffer.length < SizeHint.wordBound) :
    (c.sizeHint source).low = c.buffer.length := by
  have hzero : (c.unreadHint source).low = 0 := by
    have hlow := h.low
    rw [hunread, Seq.length'_nil] at hlow
    exact Nat.cast_eq_zero.mp (nonpos_iff_eq_zero.mp hlow)
  rw [sizeHint_eq_add, SizeHint.low_add, hzero, Nat.zero_add]
  exact min_eq_left (Nat.le_sub_one_of_lt hfits)

/-- What the bounds of a cursor tell of the items in front of it, when the log of its
source is known. -/
structure TellsRemaining (source : Source σ α) (start : σ) (log : List (Option α))
    (c : Lookahead σ α) : Prop where
  /-- They hold of the number of these items. -/
  bounds : (c.sizeHint source).Bounds (c.remaining source)
  /-- Before the source has given nothing the lower one is the capped sum; for a fused source
  it stays so. -/
  low : none ∉ log ∨ source.fused = true → (c.sizeHint source).low =
    min ((source.hint c.state).low + c.buffer.length) (2 ^ 64 - 1)
  /-- The upper one is the sum if that fits. -/
  high : none ∉ log ∨ source.fused = true → ∀ high, high ∈ (c.sizeHint source).high ↔
    ∃ own ∈ (source.hint c.state).high, high = own + c.buffer.length ∧
      own + c.buffer.length < 2 ^ 64
  absent : none ∉ log ∨ source.fused = true →
    ((c.sizeHint source).high = none ↔ (source.hint c.state).high = none ∨
      ∃ own ∈ (source.hint c.state).high, 2 ^ 64 ≤ own + c.buffer.length)
  /-- Behind the end the lower one is the length of the buffer, which is a machine word
  in any memory. -/
  lowBehind : none ∈ log → c.buffer.length < 2 ^ 64 → (c.sizeHint source).low = c.buffer.length
  /-- Both are, unless the source is fused. -/
  behind : none ∈ log → source.fused = false → c.buffer.length < 2 ^ 64 →
    c.sizeHint source = ⟨c.buffer.length, some c.buffer.length⟩
  /-- If the source always gives exact bounds, so does the cursor. -/
  exact : (∀ state, source.Reaches start state → (source.hint state).IsExact) →
    ∀ n : Nat, (c.remaining source).length' = n → n < 2 ^ 64 → c.sizeHint source = ⟨n, some n⟩

/-- A source is kept until it has given nothing, and a fused one is always kept. -/
theorem IsLog.released_eq_false {pulled : List α} {misses : Nat}
    (h : IsLog source start (c.state, log) c.released pulled misses)
    (hkept : none ∉ log ∨ source.fused = true) : c.released = false := by
  cases hfused : source.fused with
  | true => exact h.kept hfused
  | false =>
      have hnone : none ∉ log := hkept.resolve_right (Bool.eq_false_iff.mp hfused)
      have hmisses := h.none_mem_iff.not.mp hnone
      rw [h.once hfused, not_not] at hmisses
      exact Bool.toNat_eq_zero.mp hmisses

/-- A source that is not fused is released once it has given nothing. -/
theorem IsLog.released_eq_true {pulled : List α} {misses : Nat}
    (h : IsLog source start (c.state, log) c.released pulled misses) (hnone : none ∈ log)
    (hfused : source.fused = false) : c.released = true := by
  have hmisses := h.none_mem_iff.mp hnone
  rw [h.once hfused] at hmisses
  exact Bool.of_not_eq_false fun hreleased => hmisses (by rw [hreleased]; rfl)

/-- If the bounds of a source hold in each of its states then those of a cursor hold after
every conversation. -/
theorem tellsRemaining_of_bounds
    (hbounds : ∀ state, source.Reaches start state →
      (source.hint state).Bounds (source.items state))
    (h : Conversation (Answers source) (ofState start) es c) :
    ∃ log, Conversation (Answers (logged source)) (ofState (start, [])) es (c.withLog log) ∧
      TellsRemaining source start log c := by
  obtain ⟨log, hlogged⟩ := Conversation.iff_exists_withLog.mp h
  obtain ⟨pulled, misses, hlog⟩ : ∃ pulled misses,
      IsLog source start (c.state, log) c.released pulled misses := exists_isLog hlogged
  have hstate := reaches_of_conversation h
  have hunread : (c.unreadHint source).Bounds (c.unread source) :=
    bounds_unreadHint fun hreleased => hbounds c.state (hstate hreleased)
  refine ⟨log, hlogged, ?_⟩
  constructor
  case bounds => exact hunread.add c.buffer
  case low =>
      intro hkept
      rw [sizeHint_of_not_released (hlog.released_eq_false hkept)]
      exact SizeHint.low_add _ _
  case high =>
      intro hkept high
      rw [sizeHint_of_not_released (hlog.released_eq_false hkept)]
      exact SizeHint.mem_high_add
  case absent =>
      intro hkept
      rw [sizeHint_of_not_released (hlog.released_eq_false hkept)]
      exact SizeHint.high_add_eq_none_iff
  case lowBehind =>
      intro hnone hfits
      have hnil : c.unread source = .nil := hlog.nothing (hlog.none_mem_iff.mp hnone)
      exact low_sizeHint_of_unread_eq_nil hunread hnil hfits
  case behind =>
      intro hnone hfused hfits
      have hzero : (⟨0, some 0⟩ : SizeHint).IsExact := rfl
      have hsum : 0 + c.buffer.length < SizeHint.wordBound := by rwa [Nat.zero_add]
      rw [sizeHint_eq_add, unreadHint, if_pos (hlog.released_eq_true hnone hfused),
        hzero.add_eq hsum, Nat.zero_add]
  case exact =>
      intro hexact n hn hfits
      have hexact' := isExact_unreadHint fun hreleased => hexact c.state (hstate hreleased)
      exact sizeHint_eq_of_isExact hunread hexact' hn hfits

end Lookahead

/-! ### Sources that pass over items -/

namespace Source

/-- States with the same next item and state give the same items. -/
theorem items_eq_of_next_eq {source : Source σ α} {s t : σ}
    (h : source.next s = source.next t) :
    source.items s = source.items t := by
  rcases hnext : source.next t with ⟨_ | a, next⟩
  · rw [items_of_next_none (h.trans hnext), items_of_next_none hnext]
  · rw [items_of_next_some (h.trans hnext), items_of_next_some hnext]

/-- No more items can be given than are left in the list, whichever are passed over. -/
theorem bounds_filter (p : α → Bool) (items : List α) :
    ((filter p).hint items).Bounds ((filter p).items items) := by
  refine ⟨zero_le, fun high hhigh => ?_⟩
  obtain rfl : items.length = high := Option.some_inj.mp hhigh
  induction items with
  | nil =>
      have hnext : (filter p).next [] = (none, []) := rfl
      rw [items_of_next_none hnext, Seq.length'_nil]
      exact zero_le
  | cons a items ih =>
      rw [List.length_cons, Nat.cast_add, Nat.cast_one]
      cases ha : p a with
      | true =>
          have hnext : (filter p).next (a :: items) = (some a, items) := by simp [filter, ha]
          rw [items_of_next_some hnext, Seq.length'_cons]
          gcongr
          exact ih rfl
      | false =>
          have hnext : (filter p).next (a :: items) = (filter p).next items := by
            simp [filter, ha]
          rw [items_eq_of_next_eq hnext]
          exact (ih rfl).trans le_self_add

/-- Nothing is promised of the parts of a text. -/
theorem bounds_split (separator : Char) (state : Option (List Char)) :
    ((split separator).hint state).Bounds ((split separator).items state) :=
  ⟨zero_le, fun _ h => nomatch h⟩

end Source

namespace Lookahead

/-- A look at the second even item of six takes three items off the bounds of the source, and
two of them are in the buffer. -/
theorem tellsRemaining_of_bounds_filter :
    let source : Source (List Nat) Nat := Source.filter (· % 2 == 0)
    let c : Lookahead (List Nat) Nat := ⟨[5, 6, 7], false, [2, 4]⟩
    (∀ state, source.Reaches [2, 1, 4, 5, 6, 7] state →
      (source.hint state).Bounds (source.items state)) ∧
    Conversation (Answers source) (ofState [2, 1, 4, 5, 6, 7])
      [⟨.peekNth 1, .item (some 4)⟩] c ∧
    ∃ log, Conversation (Answers (logged source)) (ofState ([2, 1, 4, 5, 6, 7], []))
        [⟨.peekNth 1, .item (some 4)⟩] (c.withLog log) ∧
      TellsRemaining source [2, 1, 4, 5, 6, 7] log c := by
  intro source c
  have hbounds : ∀ state, source.Reaches [2, 1, 4, 5, 6, 7] state →
      (source.hint state).Bounds (source.items state) := by
    intro state _
    exact Source.bounds_filter _ state
  have hconversation : Conversation (Answers source) (ofState [2, 1, 4, 5, 6, 7])
      [⟨.peekNth 1, .item (some 4)⟩] c :=
    .cons (.peekNth 1 _) (.nil _)
  exact ⟨hbounds, hconversation, tellsRemaining_of_bounds hbounds hconversation⟩

/-- The parts of a text are a fused source, and their number stays open when all of them have
been taken. -/
theorem sizeHint_ne_buffer_split :
    let source := Source.split ' '
    let start := some ['a', ' ', 'b', ' ', 'c']
    (∀ state, source.Reaches start state → (source.hint state).Bounds (source.items state)) ∧
    ∃ (log : List (Option String)) (c : Lookahead (Option (List Char)) String),
      Conversation (Answers (logged source)) (ofState (start, []))
        [⟨.drain, .items ["a", "b", "c"]⟩] (c.withLog log) ∧
      none ∈ log ∧ c.buffer = [] ∧ c.sizeHint source = ⟨0, none⟩ ∧
      c.sizeHint source ≠ ⟨c.buffer.length, some c.buffer.length⟩ := by
  intro source start
  refine ⟨fun state _ => Source.bounds_split ' ' state,
    [some "a", some "b", some "c", none], ⟨none, false, []⟩, ?_, ?_, rfl, rfl, ?_⟩
  · exact .cons (.drain 4 _ (Nat.lt_succ_self 3)) (.nil _)
  · simp
  · exact fun h => nomatch congrArg SizeHint.high h

end Lookahead

end SqlOutline
