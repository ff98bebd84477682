import SqlOutline.Proofs.Lookahead.Conversation

/-!
# The log of a source

Nothing that a cursor answers tells how often its source was asked. A source that writes a log
does: the cursor in front of it holds the same conversations, and at their end the log stands
in its state. It begins with the items that were asked for. Behind them it says that there was
none, and here the two kinds of sources part. One that might go on behind its end is released
at its first end, so that is the last thing it is asked for. A fused one is kept, and every
request that runs past the end asks it again; all that it gives is nothing, as it has promised.

## Main results

* `Answers.of_pull`: what every pull preserves is preserved by an exchange.
* `Conversation.iff_exists_withLog`: a log is written in the same conversations.
* `isLog_pull`: what a pull adds to a log.
* `followsItems`: every conversation with a cursor is one with the items of its source.
* `not_stopsAtEnd_list`: a fused source is asked again.
-/

namespace SqlOutline

open Stream'

variable {σ α : Type}

namespace Lookahead

/-! ### What every pull preserves -/

section Pull

variable {source : Source σ α} {P : σ → Bool → Prop}
  (hpull : ∀ c : Lookahead σ α, P c.state c.released →
    P (pull source c).2.state (pull source c).2.released)

include hpull

/-- Filling the buffer is a row of pulls. -/
theorem fill_of_pull (n : Nat) {c : Lookahead σ α} (hc : P c.state c.released) :
    P (fill source n c).state (fill source n c).released := by
  induction n generalizing c with
  | zero => exact hc
  | succ n ih =>
      have hpulled := hpull c hc
      rw [fill]
      generalize pull source c = pulled at hpulled
      obtain ⟨_ | a, c'⟩ := pulled
      · exact hpulled
      · exact ih hpulled

/-- To look ahead is to fill the buffer. -/
theorem peekNth_of_pull (n : Nat) {c : Lookahead σ α} (hc : P c.state c.released) :
    P (peekNth source n c).2.state (peekNth source n c).2.released :=
  fill_of_pull hpull _ hc

/-- To take an item is to pull one, if none is in the buffer. -/
theorem next_of_pull {c : Lookahead σ α} (hc : P c.state c.released) :
    P (next source c).2.state (next source c).2.released := by
  rw [next]
  cases c.buffer with
  | nil => exact hpull c hc
  | cons => exact hc

/-- A conditional step looks ahead first. -/
theorem nextIf_of_pull (accept : α → Bool) {c : Lookahead σ α} (hc : P c.state c.released) :
    P (nextIf source accept c).2.state (nextIf source accept c).2.released := by
  have hpeeked := peekNth_of_pull hpull 0 hc
  rw [nextIf, peek]
  generalize peekNth source 0 c = peeked at hpeeked
  obtain ⟨_ | a, c'⟩ := peeked
  · exact hpeeked
  · dsimp only
    split_ifs
    · exact next_of_pull hpull hpeeked
    · exact hpeeked

/-- The search for items that are accepted looks ahead at each place. -/
theorem acceptsEach_of_pull (accept : Nat → α → Bool) (count i : Nat) {c : Lookahead σ α}
    (hc : P c.state c.released) :
    P (acceptsEach source accept count i c).2.state
      (acceptsEach source accept count i c).2.released := by
  induction count generalizing i c with
  | zero => exact hc
  | succ count ih =>
      have hpeeked := peekNth_of_pull hpull i hc
      rw [acceptsEach]
      generalize peekNth source i c = peeked at hpeeked
      obtain ⟨_ | a, c'⟩ := peeked
      · exact hpeeked
      · dsimp only
        split_ifs
        · exact ih (i + 1) hpeeked
        · exact hpeeked

/-- All pulls of a step over several items are made in the search. -/
theorem advanceIfEach_of_pull (n : Nat) (accept : Nat → α → Bool) {c : Lookahead σ α}
    (hc : P c.state c.released) :
    P (advanceIfEach source n accept c).2.state
      (advanceIfEach source n accept c).2.released := by
  have hsearched := acceptsEach_of_pull hpull accept n 0 hc
  rw [advanceIfEach]
  split_ifs
  · exact hc
  · generalize acceptsEach source accept n 0 c = searched at hsearched
    obtain ⟨_ | _, c'⟩ := searched <;> exact hsearched

/-- To take several items is a row of single steps. -/
theorem take_of_pull (count : Nat) {c : Lookahead σ α} (hc : P c.state c.released) :
    P (take source count c).2.state (take source count c).2.released := by
  induction count generalizing c with
  | zero => exact hc
  | succ count ih =>
      have hnext := next_of_pull hpull hc
      rw [take]
      generalize next source c = following at hnext
      obtain ⟨_ | a, c'⟩ := following
      · exact hnext
      · exact ih hnext

/-- What every pull preserves of the source is preserved by every exchange. -/
theorem Answers.of_pull {e : Exchange α} {c c' : Lookahead σ α} (h : Answers source c e c')
    (hc : P c.state c.released) : P c'.state c'.released := by
  cases h with
  | peek => exact peekNth_of_pull hpull 0 hc
  | peekNth n => exact peekNth_of_pull hpull n hc
  | next => exact next_of_pull hpull hc
  | nextIf accept => exact nextIf_of_pull hpull accept hc
  | advanceIfEach n accept => exact advanceIfEach_of_pull hpull n accept hc
  | drain count => exact take_of_pull hpull count hc

/-- What every pull preserves of the source is preserved by every conversation. -/
theorem Conversation.of_pull {es : List (Exchange α)} {c c' : Lookahead σ α}
    (h : Conversation (Answers source) c es c') (hc : P c.state c.released) :
    P c'.state c'.released := by
  induction h with
  | nil => exact hc
  | cons hanswers _ ih => exact ih (hanswers.of_pull hpull hc)

end Pull

/-! ### Writing a log -/

/-- A source that writes down every item that it has been asked for, or that there was none. -/
def logged (source : Source σ α) : Source (σ × List (Option α)) α where
  next state :=
    let (item, next) := source.next state.1
    (item, (next, state.2 ++ [item]))
  hint state := source.hint state.1
  fused := source.fused
  none_of_fused hfused state h := source.none_of_fused hfused state.1 h

/-- The same item is given, and written down. -/
theorem next_logged (source : Source σ α) (state : σ) (log : List (Option α)) :
    (logged source).next (state, log) =
      ((source.next state).1, ((source.next state).2, log ++ [(source.next state).1])) :=
  rfl

/-- A cursor in front of a source, with the log of the source. -/
def withLog (c : Lookahead σ α) (log : List (Option α)) : Lookahead (σ × List (Option α)) α :=
  ⟨(c.state, log), c.released, c.buffer⟩

/-- A cursor without the log of its source. -/
def forget (c : Lookahead (σ × List (Option α)) α) : Lookahead σ α :=
  ⟨c.state.1, c.released, c.buffer⟩

section Forget

variable {source : Source σ α}

/-- A pull is the same without the log. -/
theorem pull_forget (c : Lookahead (σ × List (Option α)) α) :
    pull source c.forget = Prod.map id forget (pull (logged source) c) := by
  obtain ⟨⟨state, log⟩, released, buffer⟩ := c
  cases released with
  | true => rfl
  | false =>
      rw [pull, pull, forget, if_neg Bool.false_ne_true,
        if_neg Bool.false_ne_true, next_logged]
      rcases source.next state with ⟨_ | a, next⟩ <;> rfl

/-- The buffer is filled with the same items. -/
theorem fill_forget (n : Nat) (c : Lookahead (σ × List (Option α)) α) :
    fill source n c.forget = (fill (logged source) n c).forget := by
  induction n generalizing c with
  | zero => rfl
  | succ n ih =>
      rw [fill, fill, pull_forget]
      rcases pull (logged source) c with ⟨_ | a, c'⟩
      · rfl
      · exact ih { c' with buffer := c'.buffer ++ [a] }

/-- The same item is looked at. -/
theorem peekNth_forget (n : Nat) (c : Lookahead (σ × List (Option α)) α) :
    peekNth source n c.forget = Prod.map id forget (peekNth (logged source) n c) := by
  have hfill : fill source (n + 1 - c.forget.buffer.length) c.forget =
      (fill (logged source) (n + 1 - c.buffer.length) c).forget := fill_forget _ c
  rw [peekNth, peekNth, hfill]
  rfl

/-- The same item is taken. -/
theorem next_forget (c : Lookahead (σ × List (Option α)) α) :
    next source c.forget = Prod.map id forget (next (logged source) c) := by
  obtain ⟨state, released, buffer⟩ := c
  cases buffer with
  | nil => exact pull_forget _
  | cons a rest => rfl

/-- The same item is taken, or refused. -/
theorem nextIf_forget (accept : α → Bool) (c : Lookahead (σ × List (Option α)) α) :
    nextIf source accept c.forget = Prod.map id forget (nextIf (logged source) accept c) := by
  rw [nextIf, nextIf, peek, peek, peekNth_forget]
  rcases peekNth (logged source) 0 c with ⟨_ | a, c'⟩
  · rfl
  · dsimp only [Prod.map, id]
    split_ifs
    · exact next_forget c'
    · rfl

/-- The search for items that are accepted ends the same. -/
theorem acceptsEach_forget (accept : Nat → α → Bool) (count i : Nat)
    (c : Lookahead (σ × List (Option α)) α) :
    acceptsEach source accept count i c.forget =
      Prod.map id forget (acceptsEach (logged source) accept count i c) := by
  induction count generalizing i c with
  | zero => rfl
  | succ count ih =>
      rw [acceptsEach, acceptsEach, peekNth_forget]
      rcases peekNth (logged source) i c with ⟨_ | a, c'⟩
      · rfl
      · dsimp only [Prod.map, id]
        split_ifs
        · exact ih (i + 1) c'
        · rfl

/-- The same items are taken, or refused. -/
theorem advanceIfEach_forget (n : Nat) (accept : Nat → α → Bool)
    (c : Lookahead (σ × List (Option α)) α) :
    advanceIfEach source n accept c.forget =
      Prod.map id forget (advanceIfEach (logged source) n accept c) := by
  rw [advanceIfEach, advanceIfEach, acceptsEach_forget]
  split_ifs
  · rfl
  · rcases acceptsEach (logged source) accept n 0 c with ⟨_ | _, c'⟩ <;> rfl

/-- The same items are taken one after another. -/
theorem take_forget (count : Nat) (c : Lookahead (σ × List (Option α)) α) :
    take source count c.forget = Prod.map id forget (take (logged source) count c) := by
  induction count generalizing c with
  | zero => rfl
  | succ count ih =>
      rw [take, take, next_forget]
      rcases next (logged source) c with ⟨_ | a, c'⟩
      · rfl
      · dsimp only [Prod.map, id]
        rw [ih c']
        rfl

/-- An exchange takes place without the log too. -/
theorem Answers.forget {e : Exchange α} {c c' : Lookahead (σ × List (Option α)) α}
    (h : Answers (logged source) c e c') : Answers source c.forget e c'.forget := by
  cases h with
  | peek =>
      have hpeek : Answers source c.forget _ _ := .peek c.forget
      rwa [Lookahead.peek, peekNth_forget] at hpeek
  | peekNth n =>
      have hpeekNth : Answers source c.forget _ _ := .peekNth n c.forget
      rwa [peekNth_forget] at hpeekNth
  | next =>
      have hnext : Answers source c.forget _ _ := .next c.forget
      rwa [next_forget] at hnext
  | nextIf accept =>
      have hnextIf : Answers source c.forget _ _ := .nextIf accept c.forget
      rwa [nextIf_forget] at hnextIf
  | advanceIfEach n accept =>
      have hadvance : Answers source c.forget _ _ := .advanceIfEach n accept c.forget
      rwa [advanceIfEach_forget] at hadvance
  | drain count _ hlength =>
      have htake : take source count c.forget = _ := take_forget count c
      have hdrain : Answers source c.forget _ _ := .drain count c.forget (by rwa [htake])
      rwa [htake] at hdrain

/-- An exchange takes place with a log too, whatever stands in it already. -/
theorem Answers.exists_withLog {e : Exchange α} {c c' : Lookahead σ α}
    (h : Answers source c e c') (log : List (Option α)) :
    ∃ log', Answers (logged source) (c.withLog log) e (c'.withLog log') := by
  cases h with
  | peek =>
      have hpeek : Lookahead.peek source c = _ := peekNth_forget 0 (c.withLog log)
      rw [hpeek]
      exact ⟨_, .peek (c.withLog log)⟩
  | peekNth n =>
      have hpeekNth : Lookahead.peekNth source n c = _ := peekNth_forget n (c.withLog log)
      rw [hpeekNth]
      exact ⟨_, .peekNth n (c.withLog log)⟩
  | next =>
      have hnext : Lookahead.next source c = _ := next_forget (c.withLog log)
      rw [hnext]
      exact ⟨_, .next (c.withLog log)⟩
  | nextIf accept =>
      have hnextIf : Lookahead.nextIf source accept c = _ :=
        nextIf_forget accept (c.withLog log)
      rw [hnextIf]
      exact ⟨_, .nextIf accept (c.withLog log)⟩
  | advanceIfEach n accept =>
      have hadvance : Lookahead.advanceIfEach source n accept c = _ :=
        advanceIfEach_forget n accept (c.withLog log)
      rw [hadvance]
      exact ⟨_, .advanceIfEach n accept (c.withLog log)⟩
  | drain count _ hlength =>
      have htake : take source count c = _ := take_forget count (c.withLog log)
      rw [htake] at hlength ⊢
      exact ⟨_, .drain count (c.withLog log) hlength⟩

/-- A conversation takes place without the log too. -/
theorem Conversation.forget {es : List (Exchange α)} {c c' : Lookahead (σ × List (Option α)) α}
    (h : Conversation (Answers (logged source)) c es c') :
    Conversation (Answers source) c.forget es c'.forget := by
  induction h with
  | nil c => exact .nil c.forget
  | cons hanswers _ ih => exact .cons hanswers.forget ih

/-- A conversation takes place with a log too. -/
theorem Conversation.exists_withLog {es : List (Exchange α)} {c c' : Lookahead σ α}
    (h : Conversation (Answers source) c es c') (log : List (Option α)) :
    ∃ log', Conversation (Answers (logged source)) (c.withLog log) es (c'.withLog log') := by
  induction h generalizing log with
  | nil c => exact ⟨log, .nil _⟩
  | cons hanswers _ ih =>
      obtain ⟨log₁, hlogged⟩ := hanswers.exists_withLog log
      obtain ⟨log₂, hlater⟩ := ih log₁
      exact ⟨log₂, .cons hlogged hlater⟩

/-- A log is written in the same conversations. -/
theorem Conversation.iff_exists_withLog {start : σ} {es : List (Exchange α)}
    {c : Lookahead σ α} :
    Conversation (Answers source) (ofState start) es c ↔
      ∃ log,
        Conversation (Answers (logged source)) (ofState (start, [])) es (c.withLog log) := by
  constructor
  · intro h
    exact Conversation.exists_withLog h []
  · rintro ⟨log, h⟩
    exact Conversation.forget h

end Forget

/-! ### What stands in a log -/

/-- What a log says of a source from a start on: which items were asked for before a state was
reached, and how often there was none. -/
structure IsLog (source : Source σ α) (start : σ) (state : σ × List (Option α))
    (released : Bool) (pulled : List α) (misses : Nat) : Prop where
  log : state.2 = pulled.map some ++ List.replicate misses none
  /-- The items that were asked for are the first ones of the source. -/
  items : source.items start =
    (Seq.ofList pulled).append (if released then .nil else source.items state.1)
  /-- They are all of its items once there was none. -/
  nothing : misses ≠ 0 → (if released then .nil else source.items state.1) = .nil
  /-- A source that is not fused is released at its first end. -/
  once : source.fused = false → misses = released.toNat
  kept : source.fused = true → released = false

/-- Whether nothing was asked for behind the first time that there was none. -/
def StopsAtEnd (log : List (Option α)) : Prop := none ∉ log.dropLast

section IsLog

variable {source : Source σ α} {start : σ}

/-- A log that has not been begun says nothing. -/
theorem isLog_start (source : Source σ α) (start : σ) :
    IsLog source start (start, []) false [] 0 := by
  constructor
  case log => rfl
  case items =>
      rw [Seq.ofList_nil, Seq.nil_append]
      rfl
  case nothing =>
      intro h
      exact absurd rfl h
  case once => exact fun _ => rfl
  case kept => exact fun _ => rfl

/-- A pull adds a line to the log if the source has not been released: the next item, if there
has always been one, or once more that there was none. -/
theorem isLog_pull (c : Lookahead (σ × List (Option α)) α)
    (h : ∃ pulled misses, IsLog source start c.state c.released pulled misses) :
    ∃ pulled misses, IsLog source start (pull (logged source) c).2.state
      (pull (logged source) c).2.released pulled misses := by
  obtain ⟨⟨state, log⟩, released, buffer⟩ := c
  obtain ⟨pulled, misses, hlog, hitems, hnothing, honce, hkept⟩ := h
  cases released with
  | true => exact ⟨pulled, misses, hlog, hitems, hnothing, honce, hkept⟩
  | false =>
      rw [if_neg Bool.false_ne_true] at hitems hnothing
      rcases hnext : source.next state with ⟨_ | a, next⟩
      · -- whichever kind the source is of, nothing is unread behind this
        have hunread : (if !source.fused then .nil else source.items next) = .nil := by
          cases hfused : source.fused with
          | false => rfl
          | true => exact Source.items_eq_nil_of_fused hfused hnext
        have hpull : pull (logged source) ⟨(state, log), false, buffer⟩ =
            (none, ⟨(next, log ++ [none]), !source.fused, buffer⟩) := by
          rw [pull, if_neg Bool.false_ne_true, next_logged, hnext]
          rfl
        rw [hpull]
        refine ⟨pulled, misses + 1, ?_, ?_, fun _ => hunread, ?_, ?_⟩
        · rw [List.replicate_succ', ← List.append_assoc]
          exact congrArg (· ++ [none]) hlog
        · rw [hitems, Source.items_of_next_none hnext, hunread]
        · intro hfused
          rw [honce hfused, hfused]
          rfl
        · intro hfused
          rw [hfused]
          rfl
      · obtain rfl : misses = 0 := by
          by_contra hmisses
          have hhead := Source.head_items source state
          rw [hnothing hmisses, hnext] at hhead
          cases hhead
        have hpull : pull (logged source) ⟨(state, log), false, buffer⟩ =
            (some a, ⟨(next, log ++ [some a]), false, buffer⟩) := by
          rw [pull, if_neg Bool.false_ne_true, next_logged, hnext]
        rw [Source.items_of_next_some hnext, ← ofList_append_cons] at hitems
        rw [hpull]
        refine ⟨pulled ++ [a], 0, ?_, hitems, fun h => absurd rfl h, honce, hkept⟩
        rw [List.replicate_zero, List.append_nil] at hlog ⊢
        rw [List.map_append]
        exact congrArg (· ++ [some a]) hlog

/-- At the end of a conversation the log tells which items were asked for, and how often there
was none. -/
theorem exists_isLog {es : List (Exchange α)} {c : Lookahead (σ × List (Option α)) α}
    (h : Conversation (Answers (logged source)) (ofState (start, [])) es c) :
    ∃ pulled misses, IsLog source start c.state c.released pulled misses :=
  Conversation.of_pull
    (P := fun state released =>
      ∃ pulled misses, IsLog source start state released pulled misses)
    isLog_pull h ⟨[], 0, isLog_start source start⟩

variable {state : σ × List (Option α)} {released : Bool} {pulled : List α} {misses : Nat}

/-- A source that is not fused has not been asked behind its end. -/
theorem IsLog.stopsAtEnd (h : IsLog source start state released pulled misses)
    (hfused : source.fused = false) : StopsAtEnd state.2 := by
  have hpulled : none ∉ pulled.map some := by simp
  rw [StopsAtEnd, h.log, h.once hfused]
  cases released with
  | false =>
      rw [Bool.toNat_false, List.replicate_zero, List.append_nil]
      exact fun hmem => hpulled (List.dropLast_subset _ hmem)
  | true => rwa [Bool.toNat_true, List.replicate_one, List.dropLast_concat]

/-- Whether there was none at all stands in the log. -/
theorem IsLog.none_mem_iff (h : IsLog source start state released pulled misses) :
    none ∈ state.2 ↔ misses ≠ 0 := by
  rw [h.log, List.mem_append, List.mem_replicate]
  simp

end IsLog

/-! ### The promise -/

/-- What holds of all conversations with a cursor in front of a source. -/
structure FollowsItems (source : Source σ α) (start : σ) : Prop where
  /-- They are those with the row of the items of the source. -/
  onItems : ∀ es, (∃ c, Conversation (Answers source) (ofState start) es c) ↔
    ∃ rest, Conversation Exchange.OnItems (source.items start) es rest
  /-- The requests tell the answers. -/
  determined : ∀ es₁ es₂ c₁ c₂, Conversation (Answers source) (ofState start) es₁ c₁ →
    Conversation (Answers source) (ofState start) es₂ c₂ →
    es₁.map (·.request) = es₂.map (·.request) → es₁ = es₂
  /-- No item is lost, doubled or moved. -/
  remaining : ∀ es c, Conversation (Answers source) (ofState start) es c →
    c.remaining source = (source.items start).drop (es.map Exchange.taken).sum
  /-- Without idle exchanges all others are the same. -/
  padded : ∀ es padded c, Exchange.Padded es padded →
    Conversation (Answers source) (ofState start) padded c →
    ∃ c', Conversation (Answers source) (ofState start) es c' ∧
      c'.remaining source = c.remaining source
  /-- To write a log changes none of them. -/
  unchanged : ∀ es c, Conversation (Answers source) (ofState start) es c ↔
    ∃ log, Conversation (Answers (logged source)) (ofState (start, [])) es (c.withLog log)
  /-- The log holds items of the source, and behind them only that there was none. -/
  log : ∀ es c, Conversation (Answers (logged source)) (ofState (start, [])) es c →
    ∃ pulled misses, IsLog source start c.state c.released pulled misses
  /-- Unless it is fused, the source is asked for no item once it has had none. -/
  stops : source.fused = false → ∀ es c,
    Conversation (Answers (logged source)) (ofState (start, [])) es c → StopsAtEnd c.state.2

/-- Conversations with a cursor are those with the items of its source. -/
theorem exists_conversation_iff (source : Source σ α) (start : σ) (es : List (Exchange α)) :
    (∃ c, Conversation (Answers source) (ofState start) es c) ↔
      ∃ rest, Conversation Exchange.OnItems (source.items start) es rest := by
  have hremaining : (ofState start : Lookahead σ α).remaining source = source.items start :=
    remaining_ofState start
  constructor
  · rintro ⟨c, h⟩
    exact ⟨_, hremaining ▸ h.onItems⟩
  · rintro ⟨rest, h⟩
    obtain ⟨c, hconversation, -⟩ := h.exists_of_onItems hremaining
    exact ⟨c, hconversation⟩

/-- A cursor that looks ahead is the row of the items of its source. -/
theorem followsItems (source : Source σ α) (start : σ) : FollowsItems source start := by
  constructor
  case onItems => exact exists_conversation_iff source start
  case determined =>
      intro es₁ es₂ c₁ c₂ h₁ h₂ hrequests
      exact h₁.onItems.eq_of_requests_eq h₂.onItems hrequests
  case remaining =>
      intro es c h
      rw [h.onItems.eq_drop, remaining_ofState]
  case padded =>
      intro es padded c hpadded h
      exact (h.onItems.of_padded hpadded).exists_of_onItems rfl
  case unchanged =>
      intro es c
      exact Conversation.iff_exists_withLog
  case log =>
      intro es c h
      exact exists_isLog h
  case stops =>
      intro hfused es c h
      obtain ⟨pulled, misses, hlog⟩ := exists_isLog h
      exact hlog.stopsAtEnd hfused

/-- The items of a list are a fused source, and it is asked once more behind its end. -/
theorem not_stopsAtEnd_list :
    ∃ c, Conversation (Answers (logged (Source.list : Source (List Nat) Nat))) (ofState ([7], []))
        [⟨.drain, .items [7]⟩, ⟨.next, .item none⟩] c ∧
      c.state.2 = [some 7, none, none] ∧ ¬ StopsAtEnd c.state.2 := by
  refine ⟨⟨([], [some 7, none, none]), false, []⟩, ?_, rfl, ?_⟩
  · exact .cons (.drain 2 _ (Nat.lt_succ_self 1)) (.cons (.next _) (.nil _))
  · simp [StopsAtEnd]

/-- What a source gives behind its first end never counts. -/
example : (take Source.gaps 5 (ofState [some 1, none, some 2])).1 = [1] := rfl

end Lookahead

end SqlOutline
