import Mathlib.Data.Seq.Basic
import SqlOutline.Lookahead

/-!
# The items that remain in front of a cursor

What a source gives up to its first end is a row of items, which may have no end. The items
that remain in front of a cursor are those in its buffer and behind them those that it has not
pulled yet. How they are divided between the two is of no consequence: to look ahead leaves
what remains as it is, and to take items takes them from its front.

## Main results

* `exists_peekNth`: the item that is looked at, and that nothing is taken.
* `exists_next`, `exists_nextIf_of_accepted`: the item that is taken, and what remains behind
  it.
* `exists_advanceIfEach_of_accepted`, `exists_advanceIfEach_of_refused`: all of these items are
  taken, or none.
* `exists_take`: items are taken from the front until there are none.
-/

namespace SqlOutline

open Stream'

variable {σ α : Type}

namespace Source

/-- The items that a source gives from a state on, up to the first time that it gives none. -/
def items (source : Source σ α) (state : σ) : Seq α :=
  .corec (fun state => (source.next state).1.map fun a => (a, (source.next state).2)) state

variable {source : Source σ α} {state next : σ}

/-- The item that is given next is in front of the others. -/
theorem items_of_next_some {a : α} (h : source.next state = (some a, next)) :
    source.items state = .cons a (source.items next) := by
  rw [items, Seq.corec_cons (by rw [h]; rfl), items]

/-- No item is given. -/
theorem items_of_next_none (h : source.next state = (none, next)) :
    source.items state = .nil := by
  rw [items, Seq.corec_nil _ _ (by rw [h]; rfl)]

/-- The first item is the one that is given next. -/
theorem head_items (source : Source σ α) (state : σ) :
    (source.items state).head = (source.next state).1 := by
  rcases hnext : source.next state with ⟨_ | a, next⟩
  · rw [items_of_next_none hnext, Seq.head_nil]
  · rw [items_of_next_some hnext, Seq.head_cons]

/-- A fused source gives nothing behind its end. -/
theorem items_eq_nil_of_fused (hfused : source.fused = true)
    (h : source.next state = (none, next)) : source.items next = .nil := by
  have hnone : (source.next next).1 = none := by
    have hagain := source.none_of_fused hfused state
    rw [h] at hagain
    exact hagain rfl
  exact items_of_next_none (Prod.ext hnone rfl)

end Source

namespace Lookahead

/-- The items that a cursor has not pulled yet. -/
def unread (source : Source σ α) (c : Lookahead σ α) : Seq α :=
  if c.released then .nil else source.items c.state

/-- The items in front of a cursor. -/
def remaining (source : Source σ α) (c : Lookahead σ α) : Seq α :=
  (Seq.ofList c.buffer).append (c.unread source)

/-! ### The buffer and what is behind it -/

/-- The items of a list keep their places in front of a row. -/
theorem get?_ofList_append (xs : List α) (rest : Seq α) (n : Nat) :
    ((Seq.ofList xs).append rest).get? n =
      if n < xs.length then xs[n]? else rest.get? (n - xs.length) := by
  induction xs generalizing n with
  | nil => simp
  | cons a xs ih =>
      rw [Seq.ofList_cons, Seq.cons_append]
      cases n with
      | zero => simp
      | succ n => simp [ih]

/-- An item between a list and a row may be counted with either. -/
theorem ofList_append_cons (xs : List α) (a : α) (rest : Seq α) :
    (Seq.ofList (xs ++ [a])).append rest = (Seq.ofList xs).append (.cons a rest) := by
  rw [Seq.ofList_append, Seq.append_assoc, Seq.ofList_cons, Seq.ofList_nil, Seq.cons_append,
    Seq.nil_append]

/-- Items are dropped from the list first. -/
theorem drop_ofList_append {xs : List α} {n : Nat} (h : n ≤ xs.length) (rest : Seq α) :
    ((Seq.ofList xs).append rest).drop n = (Seq.ofList (xs.drop n)).append rest := by
  induction xs generalizing n with
  | nil =>
      obtain rfl : n = 0 := by simpa using h
      rfl
  | cons a xs ih =>
      cases n with
      | zero => rfl
      | succ n =>
          rw [Seq.ofList_cons, Seq.cons_append, Seq.drop_succ_cons, List.drop_succ_cons]
          exact ih (by simpa using h)

variable {source : Source σ α} {c c' : Lookahead σ α}

/-- At the start all items of the source remain. -/
@[simp] theorem remaining_ofState (state : σ) :
    (ofState state : Lookahead σ α).remaining source = source.items state :=
  Seq.nil_append _

/-- An item in the buffer has the same place among the remaining ones; if nothing is unread, so
has every item. -/
theorem getElem?_buffer {n : Nat} (h : n < c.buffer.length ∨ c.unread source = .nil) :
    c.buffer[n]? = (c.remaining source).get? n := by
  rw [remaining, get?_ofList_append]
  split_ifs with hlt
  · rfl
  · rw [h.resolve_left hlt, Seq.get?_nil]
    exact List.getElem?_eq_none (by omega)

/-! ### Pulling items -/

/-- An item that is pulled is the first of those that were unread. -/
theorem unread_of_pull_some {a : α} (h : pull source c = (some a, c')) :
    c'.buffer = c.buffer ∧ c.unread source = .cons a (c'.unread source) := by
  rw [pull] at h
  split_ifs at h with hreleased
  · cases h
  · rcases hnext : source.next c.state with ⟨_ | b, state⟩
    · rw [hnext] at h
      cases h
    · rw [hnext] at h
      cases h
      refine ⟨rfl, ?_⟩
      rw [unread, unread, if_neg hreleased, if_neg hreleased, Source.items_of_next_some hnext]

/-- If no item can be pulled then none was unread, and none ever will be: the source is
released then, or it is fused. -/
theorem unread_of_pull_none (h : pull source c = (none, c')) :
    c'.buffer = c.buffer ∧ c.unread source = .nil ∧ c'.unread source = .nil := by
  rw [pull] at h
  split_ifs at h with hreleased
  · cases h
    exact ⟨rfl, if_pos hreleased, if_pos hreleased⟩
  · rcases hnext : source.next c.state with ⟨_ | b, state⟩
    · rw [hnext] at h
      cases h
      refine ⟨rfl, ?_, ?_⟩
      · rw [unread, if_neg hreleased, Source.items_of_next_none hnext]
      · rw [unread]
        cases hfused : source.fused with
        | false => rfl
        | true => exact Source.items_eq_nil_of_fused hfused hnext
    · rw [hnext] at h
      cases h

/-- Items that are pulled into the buffer stay in front of the cursor. -/
theorem remaining_fill (n : Nat) :
    (fill source n c).remaining source = c.remaining source := by
  induction n generalizing c with
  | zero => rfl
  | succ n ih =>
      rw [fill]
      rcases hpull : pull source c with ⟨_ | a, c'⟩
      · obtain ⟨hbuffer, hunread, hunread'⟩ := unread_of_pull_none hpull
        rw [remaining, remaining, hbuffer, hunread, hunread']
      · obtain ⟨hbuffer, hunread⟩ := unread_of_pull_some hpull
        rw [ih, remaining, remaining, hunread, ← ofList_append_cons, ← hbuffer]
        rfl

/-- The buffer gets as many items as are asked for, unless there are no more. -/
theorem fill_spec (n : Nat) :
    c.buffer.length + n ≤ (fill source n c).buffer.length ∨
      (fill source n c).unread source = .nil := by
  induction n generalizing c with
  | zero => exact .inl le_rfl
  | succ n ih =>
      rw [fill]
      rcases hpull : pull source c with ⟨_ | a, c'⟩
      · exact .inr (unread_of_pull_none hpull).2.2
      · obtain ⟨hbuffer, -⟩ := unread_of_pull_some hpull
        refine ih.imp_left fun h => le_trans ?_ h
        simp only [hbuffer, List.length_append, List.length_singleton]
        omega

/-! ### Looking ahead -/

/-- The item that is looked at is the one at its place, it is in the buffer then, and nothing
is taken. -/
theorem exists_peekNth (source : Source σ α) (c : Lookahead σ α) (n : Nat) :
    ∃ c', peekNth source n c = ((c.remaining source).get? n, c') ∧
      c'.remaining source = c.remaining source ∧
      (((c.remaining source).get? n).isSome = true → n < c'.buffer.length) := by
  obtain ⟨c', hc'⟩ : ∃ c', fill source (n + 1 - c.buffer.length) c = c' := ⟨_, rfl⟩
  have hremaining : c'.remaining source = c.remaining source := hc' ▸ remaining_fill _
  have hfill := hc' ▸ fill_spec (n + 1 - c.buffer.length)
  have hitem : c'.buffer[n]? = (c.remaining source).get? n := by
    rw [← hremaining]
    exact getElem?_buffer (hfill.imp_left fun h => by omega)
  refine ⟨c', ?_, hremaining, fun hsome => ?_⟩
  · rw [← hitem, ← hc']
    rfl
  · rw [← hitem] at hsome
    exact (List.getElem?_eq_some_iff.mp (Option.get_mem hsome)).1

/-- The first item is looked at, and nothing is taken. -/
theorem exists_peek (source : Source σ α) (c : Lookahead σ α) :
    ∃ c', peek source c = ((c.remaining source).head, c') ∧
      c'.remaining source = c.remaining source := by
  obtain ⟨c', hpeek, hremaining, -⟩ := exists_peekNth source c 0
  exact ⟨c', hpeek, hremaining⟩

/-! ### Taking one item -/

/-- The first item is taken. -/
theorem exists_next (source : Source σ α) (c : Lookahead σ α) :
    ∃ c', next source c = ((c.remaining source).head, c') ∧
      c'.remaining source = (c.remaining source).tail := by
  cases hbuffer : c.buffer with
  | nil =>
      have hremaining : c.remaining source = c.unread source := by
        rw [remaining, hbuffer, Seq.ofList_nil, Seq.nil_append]
      rw [next, hbuffer, hremaining]
      rcases hpull : pull source c with ⟨_ | a, c'⟩
      · obtain ⟨hsame, hunread, hunread'⟩ := unread_of_pull_none hpull
        refine ⟨c', by rw [hunread, Seq.head_nil], ?_⟩
        rw [remaining, hsame, hbuffer, hunread, hunread', Seq.ofList_nil, Seq.nil_append,
          Seq.tail_nil]
      · obtain ⟨hsame, hunread⟩ := unread_of_pull_some hpull
        refine ⟨c', by rw [hunread, Seq.head_cons], ?_⟩
        rw [remaining, hsame, hbuffer, hunread, Seq.ofList_nil, Seq.nil_append, Seq.tail_cons]
  | cons a rest =>
      rw [next, hbuffer, remaining, hbuffer, Seq.ofList_cons, Seq.cons_append, Seq.head_cons,
        Seq.tail_cons]
      exact ⟨_, rfl, rfl⟩

/-- The next item is taken if there is one and it is accepted. -/
theorem exists_nextIf_of_accepted {accept : α → Bool} {a : α}
    (ha : (c.remaining source).head = some a) (haccept : accept a = true) :
    ∃ c', nextIf source accept c = (some a, c') ∧
      c'.remaining source = (c.remaining source).tail := by
  obtain ⟨c₁, hpeek, hremaining⟩ := exists_peek source c
  obtain ⟨c₂, hnext, htail⟩ := exists_next source c₁
  rw [hremaining] at hnext htail
  refine ⟨c₂, ?_, htail⟩
  rw [nextIf, hpeek, ha]
  dsimp only
  rw [if_pos haccept, hnext, ha]

/-- Otherwise nothing is taken. -/
theorem exists_nextIf_of_refused {accept : α → Bool}
    (h : ∀ a, (c.remaining source).head = some a → accept a = false) :
    ∃ c', nextIf source accept c = (none, c') ∧ c'.remaining source = c.remaining source := by
  obtain ⟨c', hpeek, hremaining⟩ := exists_peek source c
  refine ⟨c', ?_, hremaining⟩
  rw [nextIf, hpeek]
  cases hhead : (c.remaining source).head with
  | none => rfl
  | some a =>
      dsimp only
      rw [if_neg (by simp [h a hhead])]

/-! ### Taking several items -/

/-- Whether there is an item at a place of a row and it is accepted there. -/
def AcceptedAt (accept : Nat → α → Bool) (rest : Seq α) (i : Nat) : Prop :=
  ∃ a, rest.get? i = some a ∧ accept i a = true

/-- The search succeeds if every item of the row is there and accepted; then all of the row is
in the buffer. Nothing is taken. -/
theorem exists_acceptsEach (source : Source σ α) (accept : Nat → α → Bool) (c : Lookahead σ α)
    (count i : Nat) :
    ∃ success c', acceptsEach source accept count i c = (success, c') ∧
      c'.remaining source = c.remaining source ∧
      (success = true → 0 < count → i + count ≤ c'.buffer.length) ∧
      (success = true ↔ ∀ j < count, AcceptedAt accept (c.remaining source) (i + j)) := by
  induction count generalizing i c with
  | zero =>
      exact ⟨true, c, rfl, rfl, fun _ h => absurd h (lt_irrefl 0),
        iff_of_true rfl fun j hj => absurd hj (Nat.not_lt_zero j)⟩
  | succ count ih =>
      obtain ⟨c₁, hpeek, hremaining, hbuffer⟩ := exists_peekNth source c i
      by_cases haccepted : AcceptedAt accept (c.remaining source) i
      · obtain ⟨a, ha, haccept⟩ := haccepted
        obtain ⟨success, c₂, hsearch, hremaining', hbuffer', hiff⟩ := ih c₁ (i + 1)
        refine ⟨success, c₂, ?_, hremaining'.trans hremaining, fun hsuccess _ => ?_, ?_⟩
        · rw [acceptsEach, hpeek, ha]
          dsimp only
          rw [if_pos haccept, hsearch]
        · rcases Nat.eq_zero_or_pos count with rfl | hpos
          · cases hsearch
            exact hbuffer (by rw [ha]; rfl)
          · have := hbuffer' hsuccess hpos
            omega
        · rw [hiff, hremaining, Nat.forall_lt_succ_left]
          simp only [Nat.add_right_comm i 1, Nat.add_assoc i, Nat.add_zero]
          exact (and_iff_right ⟨a, ha, haccept⟩).symm
      · refine ⟨false, c₁, ?_, hremaining, fun h => absurd h Bool.false_ne_true,
          iff_of_false Bool.false_ne_true fun h => haccepted (h 0 (Nat.succ_pos count))⟩
        rw [acceptsEach, hpeek]
        cases ha : (c.remaining source).get? i with
        | none => rfl
        | some a =>
            dsimp only
            rw [if_neg fun haccept => haccepted ⟨a, ha, haccept⟩]

/-- The first `n` items are taken if all of them are there and accepted. -/
theorem exists_advanceIfEach_of_accepted {accept : Nat → α → Bool} {n : Nat} (hn : 0 < n)
    (h : ∀ i < n, AcceptedAt accept (c.remaining source) i) :
    ∃ c', advanceIfEach source n accept c = ((c.remaining source).get? (n - 1), c') ∧
      c'.remaining source = (c.remaining source).drop n := by
  obtain ⟨success, c₁, hsearch, hremaining, hbuffer, hiff⟩ :=
    exists_acceptsEach source accept c n 0
  obtain rfl : success = true := hiff.mpr (by simpa using h)
  have hlength : n ≤ c₁.buffer.length := by simpa using hbuffer rfl hn
  refine ⟨{ c₁ with buffer := c₁.buffer.drop n }, ?_, ?_⟩
  · rw [advanceIfEach, if_neg (by omega), hsearch]
    dsimp only
    have hlast : c₁.buffer[n - 1]? = (c₁.remaining source).get? (n - 1) :=
      getElem?_buffer (.inl (by omega))
    rw [hlast, hremaining]
  · rw [← hremaining, remaining, remaining, drop_ofList_append hlength]
    rfl

/-- Otherwise nothing is taken. -/
theorem exists_advanceIfEach_of_refused {accept : Nat → α → Bool} {n : Nat}
    (h : n = 0 ∨ ∃ i < n, ¬ AcceptedAt accept (c.remaining source) i) :
    ∃ c', advanceIfEach source n accept c = (none, c') ∧
      c'.remaining source = c.remaining source := by
  rcases Nat.eq_zero_or_pos n with rfl | hn
  · exact ⟨c, if_pos rfl, rfl⟩
  · obtain ⟨i, hi, hrefused⟩ := h.resolve_left (by omega)
    obtain ⟨success, c₁, hsearch, hremaining, -, hiff⟩ :=
      exists_acceptsEach source accept c n 0
    obtain rfl : success = false := by
      rw [← Bool.not_eq_true, hiff]
      exact fun hall => hrefused (by simpa using hall i hi)
    refine ⟨c₁, ?_, hremaining⟩
    rw [advanceIfEach, if_neg (by omega), hsearch]

/-! ### Taking all items -/

/-- Items are taken from the front, as many as are asked for or as there are. -/
theorem exists_take (source : Source σ α) (c : Lookahead σ α) (count : Nat) :
    ∃ c', take source count c = ((c.remaining source).take count, c') ∧
      c'.remaining source = (c.remaining source).drop count := by
  induction count generalizing c with
  | zero => exact ⟨c, rfl, rfl⟩
  | succ count ih =>
      obtain ⟨c₁, hnext, htail⟩ := exists_next source c
      rw [take, hnext]
      cases hrest : c.remaining source using Stream'.Seq.recOn with
      | nil =>
          rw [hrest] at htail
          refine ⟨c₁, rfl, ?_⟩
          rw [htail, Seq.tail_nil, Seq.drop_nil]
      | cons a rest =>
          obtain ⟨c₂, htake, hdrop⟩ := ih c₁
          rw [htail, hrest, Seq.tail_cons] at htake hdrop
          refine ⟨c₂, ?_, ?_⟩
          · rw [Seq.head_cons, Seq.take_succ_cons]
            dsimp only
            rw [htake]
          · rw [hdrop, Seq.drop_succ_cons]

end Lookahead

end SqlOutline
