import SqlOutline.Proofs.Placement

/-!
# Accesses that may fail

The other modules read a text as a list of characters, where nothing can go wrong. A reader
that keeps byte offsets and indices instead has to cut its source and its tokens by them, and
such a cut fails when the offsets do not fit. Here every cut is made by an operation that says
so, and it is shown when the cuts succeed: between parts of the source, and between parts of a
row of tokens.

## Main results

* `sliceText_eq_ok_iff`: a cut of the source succeeds between parts of it, and only there.
* `sliceList_eq_ok_iff`: a cut of a row succeeds at ordered indices of it, and only there.
* `Locates.sliceList`, `Locates.sliceText`: a stretch of located tokens is cut out, and its
  text.
-/

namespace SqlOutline

open Lexeme (byteCount)

/-- What can go wrong: a range goes beyond the end, ends before it begins, or begins or ends
inside a character, and a loop can go round without any progress. -/
inductive Fault where
  | outside
  | reversed
  | insideCharacter
  | endless
  deriving DecidableEq, Repr

/-- A value, or what went wrong on the way to it. -/
abbrev Checked (α : Type) := Except Fault α

namespace Checked

/-- A step that has succeeded hands its value on. -/
@[simp] theorem ok_bind {α β : Type} (a : α) (f : α → Checked β) :
    ((Except.ok a : Checked α) >>= f) = f a := rfl

/-! ### Cutting a source -/

/-- The characters between two byte offsets of a source. -/
def sliceText (source : String) (start stop : Nat) : Checked (List Char) :=
  if stop < start then .error .reversed
  else if source.utf8ByteSize < stop then .error .outside
  else if String.Pos.Raw.isValid source ⟨start⟩ && String.Pos.Raw.isValid source ⟨stop⟩ then
    .ok (slice source start stop)
  else .error .insideCharacter

/-- What stands in a source between two other parts can be cut out. -/
theorem sliceText_of_split {source : String} {before middle after : List Char}
    (h : source.toList = before ++ (middle ++ after)) :
    sliceText source (byteCount before) (byteCount (before ++ middle)) =
      .ok middle := by
  have hbehind : source.toList = before ++ middle ++ after := by rw [h, List.append_assoc]
  have hstart := String.Pos.Raw.isValid_eq_true_iff.mpr (Lexeme.isValid_of_split h)
  have hstop := String.Pos.Raw.isValid_eq_true_iff.mpr (Lexeme.isValid_of_split hbehind)
  have hordered : ¬ byteCount (before ++ middle) < byteCount before := by
    rw [Lexeme.byteCount_append]
    omega
  have hwithin : ¬ source.utf8ByteSize < byteCount (before ++ middle) := by
    rw [Lexeme.utf8ByteSize_eq_byteCount, hbehind, Lexeme.byteCount_append]
    omega
  rw [sliceText, if_neg hordered, if_neg hwithin, hstart, hstop, Lexeme.slice_of_split h]
  rfl

/-- What stands in a source behind another part can be cut off. -/
theorem sliceText_to_end {source : String} {before after : List Char}
    (h : source.toList = before ++ after) :
    sliceText source (byteCount before) source.utf8ByteSize = .ok after := by
  have hsplit : source.toList = before ++ (after ++ []) := by rw [List.append_nil, h]
  have hslice := sliceText_of_split hsplit
  rwa [← h, ← Lexeme.utf8ByteSize_eq_byteCount] at hslice

/-- A byte offset is on a character boundary only if it counts the bytes of a first part. -/
theorem exists_split_of_isValid {source : String} {p : Nat}
    (h : String.Pos.Raw.isValid source ⟨p⟩ = true) :
    ∃ before after, source.toList = before ++ after ∧ byteCount before = p := by
  obtain ⟨front, back, hsource, hp⟩ :=
    String.Pos.Raw.isValid_iff_exists_append.mp (String.Pos.Raw.isValid_eq_true_iff.mp h)
  refine ⟨front.toList, back.toList, by rw [hsource, String.toList_append], ?_⟩
  rw [← Lexeme.utf8ByteSize_eq_byteCount]
  exact (congrArg String.Pos.Raw.byteIdx hp).symm

/-- A cut of a source succeeds between parts of it, and only there. -/
theorem sliceText_eq_ok_iff {source : String} {start stop : Nat} {cs : List Char} :
    sliceText source start stop = .ok cs ↔
      ∃ before after, source.toList = before ++ (cs ++ after) ∧ byteCount before = start ∧
        byteCount (before ++ cs) = stop := by
  constructor
  · intro h
    have hcut := h
    rw [sliceText] at h
    split_ifs at h with hordered hwithin hvalid
    rw [Bool.and_eq_true] at hvalid
    obtain ⟨before, rest, hbefore, rfl⟩ := exists_split_of_isValid hvalid.1
    obtain ⟨front, after, hfront, rfl⟩ := exists_split_of_isValid hvalid.2
    obtain ⟨middle, rfl⟩ : before <+: front :=
      Lexeme.prefix_of_byteCount_le ⟨rest, hbefore.symm⟩ ⟨after, hfront.symm⟩ (by omega)
    rw [List.append_assoc] at hfront
    rw [sliceText_of_split hfront, Except.ok.injEq] at hcut
    exact ⟨before, after, hcut ▸ hfront, rfl, hcut ▸ rfl⟩
  · rintro ⟨before, after, hsource, rfl, rfl⟩
    exact sliceText_of_split hsource

/-! ### Cutting a row -/

variable {α : Type}

/-- The elements of a row from one index up to another. -/
def sliceList (xs : List α) (start stop : Nat) : Checked (List α) :=
  if stop < start then .error .reversed
  else if xs.length < stop then .error .outside
  else .ok ((xs.take stop).drop start)

/-- The element of a row at an index. -/
def item (xs : List α) (i : Nat) : Checked α :=
  match xs[i]? with
  | some a => .ok a
  | none => .error .outside

/-- A slice whose bounds are in order and within the list is taken. -/
theorem sliceList_of_le {xs : List α} {start stop : Nat} (hordered : start ≤ stop)
    (hwithin : stop ≤ xs.length) :
    sliceList xs start stop = .ok ((xs.take stop).drop start) := by
  rw [sliceList, if_neg (by omega), if_neg (by omega)]

/-- A slice up to the end needs its start within the list only. -/
theorem sliceList_to_end {xs : List α} {start : Nat} (h : start ≤ xs.length) :
    sliceList xs start xs.length = .ok (xs.drop start) := by
  rw [sliceList_of_le h (Nat.le_refl _), List.take_length]

/-- A cut of a row succeeds at ordered indices of it, and only there. -/
theorem sliceList_eq_ok_iff {xs ys : List α} {start stop : Nat} :
    sliceList xs start stop = .ok ys ↔
      start ≤ stop ∧ stop ≤ xs.length ∧ (xs.take stop).drop start = ys := by
  constructor
  · intro h
    rw [sliceList] at h
    split_ifs at h with hordered hwithin
    exact ⟨by omega, by omega, Except.ok.inj h⟩
  · rintro ⟨hordered, hwithin, rfl⟩
    exact sliceList_of_le hordered hwithin

/-- There is an element at an index of a row, and at no other index. -/
theorem item_eq_ok_iff {xs : List α} {i : Nat} {a : α} :
    item xs i = .ok a ↔ xs[i]? = some a := by
  rw [item]
  cases xs[i]? <;> simp

/-- An index within the list has an item. -/
theorem item_of_lt {xs : List α} {i : Nat} (h : i < xs.length) : item xs i = .ok xs[i] :=
  item_eq_ok_iff.mpr (List.getElem?_eq_getElem h)

/-! ### Cursors -/

/-- The elements that are still to come, each with its index. -/
abbrev Cursor (α : Type) := List (α × Nat)

/-- The index of the next element of a row of some size, or that size at the end. -/
def nextIndex (size : Nat) (cursor : Cursor α) : Nat := cursor.head?.elim size (·.2)

/-- The next index of a cursor is the number of items passed. -/
theorem nextIndex_zipIdx {size i : Nat} {xs : List α} (h : size = i + xs.length) :
    nextIndex size (xs.zipIdx i) = i := by
  cases xs with
  | nil => exact h
  | cons a xs => rfl

/-- A numbered list from an item on is numbered from there. -/
theorem drop_zipIdx (xs : List α) (i n : Nat) :
    (xs.zipIdx i).drop n = (xs.drop n).zipIdx (i + n) := by
  induction xs generalizing i n with
  | nil => simp
  | cons a xs ih =>
      cases n with
      | zero => rfl
      | succ n =>
          rw [List.zipIdx_cons, List.drop_succ_cons, ih, List.drop_succ_cons,
            Nat.add_right_comm, Nat.add_assoc]

/-- The first of the numbered items is the first item. -/
theorem map_fst_head?_zipIdx (xs : List α) (i : Nat) :
    (xs.zipIdx i).head?.map (·.1) = xs.head? := by
  cases xs <;> rfl

/-! ### Tokens and the lexemes they belong to -/

/-- The tokens are those of a run that stands somewhere in the source. -/
def Locates (source : String) (tokens : List (Located Token)) (run : List Lexeme) : Prop :=
  ∃ offset, Lexeme.StandsAt source offset run ∧ tokens = Lexeme.tokensFrom offset run

namespace Locates

variable {source : String} {tokens : List (Located Token)}
    {run before middle after : List Lexeme}

/-- A run has as many tokens as lexemes. -/
theorem length_eq (h : Locates source tokens run) : tokens.length = run.length := by
  obtain ⟨offset, -, rfl⟩ := h
  exact Lexeme.length_tokensFrom offset run

/-- The tokens of a run are those of its lexemes. -/
theorem map_value (h : Locates source tokens run) :
    tokens.map (·.value) = run.map (·.token) := by
  obtain ⟨offset, -, rfl⟩ := h
  exact Lexeme.map_value_tokensFrom offset run

/-- The first tokens are those of the first lexemes. -/
theorem take (h : Locates source tokens run) (n : Nat) :
    Locates source (tokens.take n) (run.take n) := by
  obtain ⟨offset, hstands, rfl⟩ := h
  rw [← List.take_append_drop n run] at hstands
  exact ⟨offset, hstands.left, Lexeme.take_tokensFrom offset n run⟩

/-- The tokens behind the first ones are those of the lexemes behind. -/
theorem drop (h : Locates source tokens run) (n : Nat) :
    Locates source (tokens.drop n) (run.drop n) := by
  obtain ⟨offset, hstands, rfl⟩ := h
  rw [← List.take_append_drop n run] at hstands
  exact ⟨_, hstands.right, Lexeme.drop_tokensFrom offset n run⟩

/-- Behind the first token stand those behind the first lexeme. -/
theorem tail {t : Located Token} {more : List (Located Token)} {l : Lexeme}
    (h : Locates source (t :: more) (l :: run)) : Locates source more run := h.drop 1

/-- The first token is that of the first lexeme. -/
theorem exists_cons {l : Lexeme} (h : Locates source tokens (l :: run)) :
    ∃ t more, tokens = t :: more ∧ t.value = l.token ∧ Locates source more run := by
  have hvalue := h.map_value
  cases tokens with
  | nil => exact absurd h.length_eq (by simp)
  | cons t more => exact ⟨t, more, rfl, (List.cons.inj hvalue).1, h.tail⟩

/-- An empty run has no tokens. -/
theorem eq_nil (h : Locates source tokens []) : tokens = [] :=
  List.eq_nil_of_length_eq_zero h.length_eq

/-- A single token is that of a single lexeme. -/
theorem single_or (h : Locates source tokens run) :
    (∃ t l, tokens = [t] ∧ run = [l] ∧ t.value = l.token) ∨
      (∀ t, tokens ≠ [t]) ∧ ∀ l, run ≠ [l] := by
  have hlength := h.length_eq
  by_cases hone : run.length = 1
  · obtain ⟨l, rfl⟩ := List.length_eq_one_iff.mp hone
    obtain ⟨t, more, rfl, ht, hmore⟩ := h.exists_cons
    rw [hmore.eq_nil]
    exact .inl ⟨t, l, rfl, rfl, ht⟩
  · refine .inr ⟨?_, ?_⟩
    · rintro t rfl
      exact hone hlength.symm
    · rintro l rfl
      exact hone rfl

/-- Two tokens touch when no trivia stands between them. -/
theorem touches {t next : Located Token} {l m : Lexeme} {more : List (Located Token)}
    (h : Locates source (t :: next :: more) (l :: m :: run)) :
    t.touches next = m.touchesPrevious := by
  obtain ⟨offset, hstands, htokens⟩ := h
  have hpos : 0 < byteCount l.text := Lexeme.byteCount_pos (hstands.spelled l (by simp))
  rw [Lexeme.tokensFrom_cons, Lexeme.tokensFrom_cons] at htokens
  obtain ⟨rfl, rfl, -⟩ : _ ∧ _ ∧ _ := by simpa only [List.cons.injEq] using htokens
  rw [Located.touches, Lexeme.touchesPrevious, Lexeme.source, Lexeme.byteCount_append]
  dsimp only
  cases hgap : m.gap with
  | nil =>
      rw [Lexeme.byteCount_nil, List.isEmpty_nil, beq_iff_eq]
      omega
  | cons c gap =>
      have hgappos : 0 < byteCount (c :: gap) := Lexeme.byteCount_pos (by simp)
      rw [List.isEmpty_cons, beq_eq_false_iff_ne]
      omega

/-- A part of the run can be cut out of its tokens. -/
theorem sliceList (h : Locates source tokens (before ++ (middle ++ after))) :
    ∃ cut, Checked.sliceList tokens before.length (before.length + middle.length) = .ok cut ∧
      Locates source cut middle := by
  have hlength := h.length_eq
  have hcut := (h.take (before.length + middle.length)).drop before.length
  rw [List.take_length_add_append, List.take_left, List.drop_left] at hcut
  simp only [List.length_append] at hlength
  exact ⟨_, sliceList_of_le (by omega) (by omega), hcut⟩

/-- The text of a run can be cut out of the source. -/
theorem sliceText (h : Locates source tokens run) (hne : tokens ≠ []) :
    Checked.sliceText source (tokens.head hne).first ((tokens.getLast hne).last + 1) =
      .ok (Lexeme.spelling run) := by
  obtain ⟨offset, hstands, rfl⟩ := h
  have hrun : run ≠ [] := by
    rintro rfl
    exact hne rfl
  obtain ⟨front, back, hsource, -, hrange⟩ := hstands.exists_split hrun
  have hcut := sliceText_of_split hsource
  rw [Located.range, List.head?_eq_some_head hne, List.getLast?_eq_some_getLast hne] at hrange
  obtain ⟨hfirst, hlast⟩ := Prod.mk.inj hrange
  rw [← hfirst, ← hlast] at hcut
  exact hcut

end Locates

end Checked

end SqlOutline
