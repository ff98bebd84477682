import SqlOutline.Proofs.Lookahead.Remaining

/-!
# Conversations with a cursor

A cursor that looks ahead answers every request as if it were nothing but the row of the items
to come. So the answers of a whole conversation are told by the items of the source up to its
first end. To look at items, and to take items only if a condition holds that fails, has no
bearing on any later answer.

## Main results

* `Answers.onItems`, `exists_answers_of_onItems`: one exchange with a cursor is one with its
  items.
* `Exchange.OnItems.eq_drop`: an exchange takes as many items from the front as its answer
  tells.
* `Conversation.onItems`, `Conversation.exists_of_onItems`: the same for whole conversations.
-/

namespace SqlOutline

open Stream'

/-- What a cursor can be asked for. -/
inductive Request (α : Type) where
  | peek
  | peekNth (n : Nat)
  | next
  | nextIf (accept : α → Bool)
  | advanceIfEach (n : Nat) (accept : Nat → α → Bool)
  | drain

/-- One item or none, or all items that there are. -/
inductive Answer (α : Type) where
  | item (item : Option α)
  | items (items : List α)

/-- A request and its answer. -/
structure Exchange (α : Type) where
  request : Request α
  answer : Answer α

/-- A row of exchanges that lead from one state to another. -/
inductive Conversation {S α : Type} (exchange : S → Exchange α → S → Prop) :
    S → List (Exchange α) → S → Prop
  | nil (s : S) : Conversation exchange s [] s
  | cons {s t u : S} {e : Exchange α} {es : List (Exchange α)} :
      exchange s e t → Conversation exchange t es u → Conversation exchange s (e :: es) u

variable {σ α : Type}

/-! ### Exchanges with a row of items -/

namespace Exchange

/-- The exchanges with a cursor that is nothing but the row of the items to come. A row without
end cannot be drained. -/
inductive OnItems : Seq α → Exchange α → Seq α → Prop
  | peek (rest : Seq α) : OnItems rest ⟨.peek, .item rest.head⟩ rest
  | peekNth (n : Nat) (rest : Seq α) : OnItems rest ⟨.peekNth n, .item (rest.get? n)⟩ rest
  | next (rest : Seq α) : OnItems rest ⟨.next, .item rest.head⟩ rest.tail
  | nextIf_accepted {accept : α → Bool} {rest : Seq α} {a : α} :
      rest.head = some a → accept a = true →
      OnItems rest ⟨.nextIf accept, .item (some a)⟩ rest.tail
  | nextIf_refused {accept : α → Bool} {rest : Seq α} :
      (∀ a, rest.head = some a → accept a = false) →
      OnItems rest ⟨.nextIf accept, .item none⟩ rest
  | advanceIfEach_accepted {n : Nat} {accept : Nat → α → Bool} {rest : Seq α} :
      0 < n → (∀ i < n, Lookahead.AcceptedAt accept rest i) →
      OnItems rest ⟨.advanceIfEach n accept, .item (rest.get? (n - 1))⟩ (rest.drop n)
  | advanceIfEach_refused {n : Nat} {accept : Nat → α → Bool} {rest : Seq α} :
      (n = 0 ∨ ∃ i < n, ¬ Lookahead.AcceptedAt accept rest i) →
      OnItems rest ⟨.advanceIfEach n accept, .item none⟩ rest
  | drain {rest : Seq α} {items : List α} :
      rest = .ofList items → OnItems rest ⟨.drain, .items items⟩ .nil

/-- The number of items that are taken in an exchange. -/
def taken : Exchange α → Nat
  | ⟨.next, .item (some _)⟩ => 1
  | ⟨.nextIf _, .item (some _)⟩ => 1
  | ⟨.advanceIfEach n _, .item (some _)⟩ => n
  | ⟨.drain, .items items⟩ => items.length
  | _ => 0

/-- Whether an exchange only looks at items, or is a refusal to take some. -/
def isIdle : Exchange α → Bool
  | ⟨.peek, _⟩ => true
  | ⟨.peekNth _, _⟩ => true
  | ⟨.nextIf _, .item none⟩ => true
  | ⟨.advanceIfEach _ _, .item none⟩ => true
  | _ => false

/-- A conversation into which idle exchanges have been put. -/
inductive Padded : List (Exchange α) → List (Exchange α) → Prop
  | nil : Padded [] []
  | keep (e : Exchange α) {es padded : List (Exchange α)} :
      Padded es padded → Padded (e :: es) (e :: padded)
  | idle {e : Exchange α} {es padded : List (Exchange α)} :
      e.isIdle = true → Padded es padded → Padded es (e :: padded)

namespace OnItems

variable {rest rest' : Seq α} {e : Exchange α}

/-- An idle exchange takes nothing. -/
theorem of_isIdle (h : OnItems rest e rest') (hidle : e.isIdle = true) : rest' = rest := by
  cases h with
  | peek | peekNth | nextIf_refused | advanceIfEach_refused => rfl
  | next | nextIf_accepted | drain => cases hidle
  | advanceIfEach_accepted hn haccepted =>
      -- the answer is the last item that was accepted, so it is there
      obtain ⟨a, ha, -⟩ := haccepted (_ - 1) (Nat.sub_one_lt_of_lt hn)
      rw [ha] at hidle
      cases hidle

/-- The items are taken from the front, and none of them is left out. -/
theorem eq_drop (h : OnItems rest e rest') : rest' = rest.drop e.taken := by
  cases h with
  | peek | peekNth | nextIf_refused | advanceIfEach_refused => rfl
  | next =>
      cases hrest : rest using Stream'.Seq.recOn with
      | nil => rfl
      | cons => rfl
  | nextIf_accepted => rfl
  | advanceIfEach_accepted hn haccepted =>
      obtain ⟨a, ha, -⟩ := haccepted (_ - 1) (Nat.sub_one_lt_of_lt hn)
      rw [ha]
      rfl
  | @drain _ items hrest =>
      rw [hrest]
      have hdrop := Lookahead.drop_ofList_append (le_refl items.length) (.nil : Seq α)
      rw [Seq.append_nil, List.drop_length, Seq.ofList_nil, Seq.append_nil] at hdrop
      exact hdrop.symm

/-- The items that are to come tell the answer. -/
theorem eq_of_request_eq {e₁ e₂ : Exchange α} {rest₁ rest₂ : Seq α}
    (h₁ : OnItems rest e₁ rest₁)
    (h₂ : OnItems rest e₂ rest₂) (h : e₁.request = e₂.request) : e₁ = e₂ := by
  cases h₁ <;> cases h₂ <;> cases h
  case peek.peek | peekNth.peekNth | next.next => rfl
  -- a request is accepted twice or refused twice, as the items are the same
  case nextIf_refused.nextIf_refused => rfl
  case nextIf_accepted.nextIf_accepted a _ ha b hb _ =>
      rw [Option.some_inj.mp (ha.symm.trans hb)]
  case nextIf_accepted.nextIf_refused a haccept ha hrefused =>
      rw [hrefused a ha] at haccept
      cases haccept
  case nextIf_refused.nextIf_accepted hrefused a ha haccept =>
      rw [hrefused a ha] at haccept
      cases haccept
  case advanceIfEach_accepted.advanceIfEach_accepted => rfl
  case advanceIfEach_refused.advanceIfEach_refused => rfl
  case advanceIfEach_accepted.advanceIfEach_refused hn haccepted hrefused =>
      obtain ⟨i, hi, hnot⟩ := hrefused.resolve_left (by omega)
      exact absurd (haccepted i hi) hnot
  case advanceIfEach_refused.advanceIfEach_accepted hrefused hn haccepted =>
      obtain ⟨i, hi, hnot⟩ := hrefused.resolve_left (by omega)
      exact absurd (haccepted i hi) hnot
  case drain.drain hitems₁ _ hitems₂ =>
      rw [Seq.ofList_injective (hitems₁.symm.trans hitems₂)]

end OnItems

end Exchange

/-! ### Exchanges with a cursor -/

namespace Lookahead

/-- The exchanges with a cursor in front of a source. It is drained when it gives fewer items
than are asked for. -/
inductive Answers (source : Source σ α) : Lookahead σ α → Exchange α → Lookahead σ α → Prop
  | peek (c : Lookahead σ α) :
  Answers source c ⟨.peek, .item (peek source c).1⟩ (peek source c).2
  | peekNth (n : Nat) (c : Lookahead σ α) :
      Answers source c ⟨.peekNth n, .item (peekNth source n c).1⟩ (peekNth source n c).2
  | next (c : Lookahead σ α) :
      Answers source c ⟨.next, .item (next source c).1⟩ (next source c).2
  | nextIf (accept : α → Bool) (c : Lookahead σ α) :
      Answers source c ⟨.nextIf accept, .item (nextIf source accept c).1⟩
        (nextIf source accept c).2
  | advanceIfEach (n : Nat) (accept : Nat → α → Bool) (c : Lookahead σ α) :
      Answers source c ⟨.advanceIfEach n accept, .item (advanceIfEach source n accept c).1⟩
        (advanceIfEach source n accept c).2
  | drain (count : Nat) (c : Lookahead σ α) :
      (take source count c).1.length < count →
      Answers source c ⟨.drain, .items (take source count c).1⟩ (take source count c).2

variable {source : Source σ α} {c c' : Lookahead σ α} {e : Exchange α}

/-- Items are taken from a list as from its row. -/
theorem take_ofList (items : List α) (n : Nat) : (Seq.ofList items).take n = items.take n := by
  induction items generalizing n with
  | nil => rw [Seq.ofList_nil, Seq.take_nil, List.take_nil]
  | cons a items ih =>
      cases n with
      | zero => rfl
      | succ n => rw [Seq.ofList_cons, Seq.take_succ_cons, ih, List.take_succ_cons]

/-- A row of which fewer items can be taken than are asked for consists of these items. -/
theorem eq_ofList_of_length_take_lt {rest : Seq α} {count : Nat}
    (h : (rest.take count).length < count) :
    rest = .ofList (rest.take count) ∧ rest.drop count = .nil := by
  induction count generalizing rest with
  | zero => exact absurd h (Nat.not_lt_zero _)
  | succ count ih =>
      cases rest using Stream'.Seq.recOn with
      | nil => exact ⟨by rw [Seq.take_nil, Seq.ofList_nil], Seq.drop_nil⟩
      | cons a rest =>
          rw [Seq.take_succ_cons, List.length_cons, Nat.add_lt_add_iff_right] at h
          obtain ⟨hrest, hdrop⟩ := ih h
          rw [Seq.take_succ_cons, Seq.ofList_cons, ← hrest, Seq.drop_succ_cons]
          exact ⟨rfl, hdrop⟩

/-- An exchange with a cursor is one with the items in front of it. -/
theorem Answers.onItems (h : Answers source c e c') :
    e.OnItems (c.remaining source) (c'.remaining source) := by
  cases h with
  | peek =>
      obtain ⟨c', hpeek, hremaining⟩ := exists_peek source c
      rw [hpeek, hremaining]
      exact .peek _
  | peekNth n =>
      obtain ⟨c', hpeek, hremaining, -⟩ := exists_peekNth source c n
      rw [hpeek, hremaining]
      exact .peekNth n _
  | next =>
      obtain ⟨c', hnext, hremaining⟩ := exists_next source c
      rw [hnext, hremaining]
      exact .next _
  | nextIf accept =>
      by_cases h : ∃ a, (c.remaining source).head = some a ∧ accept a = true
      · obtain ⟨a, ha, haccept⟩ := h
        obtain ⟨c', hnextIf, hremaining⟩ := exists_nextIf_of_accepted ha haccept
        rw [hnextIf, hremaining]
        exact .nextIf_accepted ha haccept
      · have hrefused : ∀ a, (c.remaining source).head = some a → accept a = false :=
          fun a ha => Bool.eq_false_iff.mpr fun haccept => h ⟨a, ha, haccept⟩
        obtain ⟨c', hnextIf, hremaining⟩ := exists_nextIf_of_refused hrefused
        rw [hnextIf, hremaining]
        exact .nextIf_refused hrefused
  | advanceIfEach n accept =>
      by_cases h : n = 0 ∨ ∃ i < n, ¬ AcceptedAt accept (c.remaining source) i
      · obtain ⟨c', hadvance, hremaining⟩ := exists_advanceIfEach_of_refused h
        rw [hadvance, hremaining]
        exact .advanceIfEach_refused h
      · push Not at h
        have hn := Nat.pos_of_ne_zero h.1
        obtain ⟨c', hadvance, hremaining⟩ := exists_advanceIfEach_of_accepted hn h.2
        rw [hadvance, hremaining]
        exact .advanceIfEach_accepted hn h.2
  | drain count c hlength =>
      obtain ⟨c', htake, hremaining⟩ := exists_take source c count
      rw [htake] at hlength ⊢
      obtain ⟨hitems, hdrop⟩ := eq_ofList_of_length_take_lt hlength
      rw [hremaining, hdrop]
      exact .drain hitems

/-- Every exchange with the items in front of a cursor takes place with the cursor. -/
theorem exists_answers_of_onItems {rest : Seq α} (h : e.OnItems (c.remaining source) rest) :
    ∃ c', Answers source c e c' ∧ c'.remaining source = rest := by
  -- the cursor answers the same request, and the items in front of it leave one answer only
  have hexists : ∃ e' c', Answers source c e' c' ∧ e'.request = e.request := by
    obtain ⟨request, answer⟩ := e
    cases request with
    | peek => exact ⟨_, _, .peek c, rfl⟩
    | peekNth n => exact ⟨_, _, .peekNth n c, rfl⟩
    | next => exact ⟨_, _, .next c, rfl⟩
    | nextIf accept => exact ⟨_, _, .nextIf accept c, rfl⟩
    | advanceIfEach n accept => exact ⟨_, _, .advanceIfEach n accept c, rfl⟩
    | drain =>
        cases h with
        | @drain _ items hitems =>
            -- one item more than there are is asked for, and the cursor is seen to be empty
            obtain ⟨c', htake, -⟩ := exists_take source c (items.length + 1)
            refine ⟨_, _, .drain (items.length + 1) c ?_, rfl⟩
            rw [htake, hitems, take_ofList, List.take_of_length_le (Nat.le_succ _)]
            exact Nat.lt_succ_self _
  obtain ⟨e', c', hanswers, hrequest⟩ := hexists
  obtain rfl := hanswers.onItems.eq_of_request_eq h hrequest
  refine ⟨c', hanswers, ?_⟩
  rw [hanswers.onItems.eq_drop, h.eq_drop]

end Lookahead

/-! ### Whole conversations -/

namespace Conversation

open Lookahead Exchange

variable {source : Source σ α} {c c' : Lookahead σ α} {es : List (Exchange α)}

/-- A conversation with a cursor is one with the items in front of it. -/
theorem onItems (h : Conversation (Answers source) c es c') :
    Conversation OnItems (c.remaining source) es (c'.remaining source) := by
  induction h with
  | nil c => exact .nil _
  | cons hanswers _ ih => exact .cons hanswers.onItems ih

/-- Every conversation with the items in front of a cursor takes place with the cursor. -/
theorem exists_of_onItems {rest rest' : Seq α} (h : Conversation OnItems rest es rest')
    (hrest : c.remaining source = rest) :
    ∃ c', Conversation (Answers source) c es c' ∧ c'.remaining source = rest' := by
  induction h generalizing c with
  | nil rest => exact ⟨c, .nil c, hrest⟩
  | cons honItems _ ih =>
      rw [← hrest] at honItems
      obtain ⟨c₁, hanswers, hremaining⟩ := exists_answers_of_onItems honItems
      obtain ⟨c₂, hconversation, hremaining'⟩ := ih hremaining
      exact ⟨c₂, .cons hanswers hconversation, hremaining'⟩

variable {rest rest₁ rest₂ : Seq α}

/-- The items that are taken in a conversation are the first ones of the row. -/
theorem eq_drop (h : Conversation OnItems rest es rest₁) :
    rest₁ = rest.drop (es.map taken).sum := by
  induction h with
  | nil => rfl
  | cons honItems _ ih =>
      rw [ih, honItems.eq_drop, List.map_cons, List.sum_cons, Seq.dropn_add]

/-- The items that are to come tell all answers. -/
theorem eq_of_requests_eq {es₁ es₂ : List (Exchange α)}
    (h₁ : Conversation OnItems rest es₁ rest₁) (h₂ : Conversation OnItems rest es₂ rest₂)
    (h : es₁.map (·.request) = es₂.map (·.request)) : es₁ = es₂ := by
  induction h₁ generalizing es₂ with
  | nil =>
      rw [List.map_nil, eq_comm, List.map_eq_nil_iff] at h
      exact h.symm
  | cons honItems₁ _ ih =>
      cases h₂ with
      | nil => cases h
      | cons honItems₂ hlater =>
          rw [List.map_cons, List.map_cons, List.cons_eq_cons] at h
          obtain rfl := honItems₁.eq_of_request_eq honItems₂ h.1
          rw [honItems₂.eq_drop, ← honItems₁.eq_drop] at hlater
          rw [ih hlater h.2]

/-- Idle exchanges can be left out. -/
theorem of_padded {padded : List (Exchange α)} (hpadded : Padded es padded)
    (h : Conversation OnItems rest padded rest₁) : Conversation OnItems rest es rest₁ := by
  induction hpadded generalizing rest with
  | nil => exact h
  | keep e _ ih =>
      cases h with
      | cons honItems hlater => exact .cons honItems (ih hlater)
  | idle hidle _ ih =>
      cases h with
      | cons honItems hlater =>
          rw [honItems.of_isIdle hidle] at hlater
          exact ih hlater

end Conversation

end SqlOutline
