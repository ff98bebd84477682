import Mathlib.Data.List.Basic
import SqlOutline.Clause

/-!
# Active places of a statement

`Lexeme.mark` decides in one pass which lexemes can begin or end a clause, carrying along the
depth and the lexeme before. Here the same is said of one place at a time, by its index in
the statement and without a pass: the depth there is counted from the lexeme behind the
leading one, and a keyword is left out when it touches a period on either side. Places are
looked for with `firstIndex`, the least index of a stretch that has a property.

## Main results

* `firstIndex_spec`: the first index of a stretch is in it, has the property, and has none
  before it with the property.
* `Lexeme.getElem?_marks`: a lexeme is marked as active exactly at an active place.
-/

namespace SqlOutline

/-! ### The first index with a property -/

/-- The least index from `low` on and below `high` that has a property, or else `high`. -/
def firstIndex (p : Nat → Bool) (low high : Nat) : Nat :=
  ((List.range' low (high - low)).find? p).getD high

section FirstIndex

variable {p : Nat → Bool} {low high : Nat}

/-- In an empty interval the search ends at once. -/
theorem firstIndex_of_le (h : high ≤ low) : firstIndex p low high = high := by
  rw [firstIndex, Nat.sub_eq_zero_of_le h]
  rfl

/-- The search looks at the lowest index and goes on above it. -/
theorem firstIndex_of_lt (h : low < high) :
    firstIndex p low high = if p low then low else firstIndex p (low + 1) high := by
  obtain ⟨n, hn⟩ : ∃ n, high - low = n + 1 := ⟨high - low - 1, by omega⟩
  have hrest : high - (low + 1) = n := by omega
  rw [firstIndex, firstIndex, hn, hrest, List.range'_succ, List.find?_cons]
  cases p low <;> rfl

/-- The search ends at its first index if that is a hit. -/
theorem firstIndex_of_pos (hp : p low = true) (h : low < high) :
    firstIndex p low high = low := by
  rw [firstIndex_of_lt h, if_pos hp]

/-- The search goes on behind its first index if that is no hit. -/
theorem firstIndex_of_not (hp : p low = false) (h : low < high) :
    firstIndex p low high = firstIndex p (low + 1) high := by
  rw [firstIndex_of_lt h, if_neg (by simp [hp])]

/-- The first index of a stretch lies in it or is its end, has the property unless it is the
end, and no index before it has the property. -/
theorem firstIndex_spec (p : Nat → Bool) (h : low ≤ high) :
    low ≤ firstIndex p low high ∧ firstIndex p low high ≤ high ∧
      (firstIndex p low high < high → p (firstIndex p low high) = true) ∧
      ∀ i, low ≤ i → i < firstIndex p low high → p i = false := by
  induction hn : high - low generalizing low with
  | zero =>
      rw [firstIndex_of_le (by omega)]
      exact ⟨h, Nat.le_refl high, by omega, by omega⟩
  | succ n ih =>
      have hlow : low < high := by omega
      cases hp : p low with
      | true =>
          rw [firstIndex_of_pos hp hlow]
          exact ⟨Nat.le_refl low, h, fun _ => hp, by omega⟩
      | false =>
          obtain ⟨hge, hle, hholds, hbefore⟩ := ih (show low + 1 ≤ high by omega) (by omega)
          rw [firstIndex_of_not hp hlow]
          refine ⟨by omega, hle, hholds, fun i hi hlt => ?_⟩
          rcases Nat.eq_or_lt_of_le hi with rfl | hi
          · exact hp
          · exact hbefore i hi hlt

/-- Without an index that has the property the search comes to the end of the stretch. -/
theorem firstIndex_of_forall_not (h : low ≤ high)
    (hp : ∀ i, low ≤ i → i < high → p i = false) :
    firstIndex p low high = high := by
  obtain ⟨hge, hle, hholds, -⟩ := firstIndex_spec p h
  by_contra hne
  have hlt : firstIndex p low high < high := by omega
  simp [hp _ hge hlt] at hholds
  omega

/-- An index of the stretch that has the property, with none before it, is the first one. -/
theorem firstIndex_eq {i : Nat} (hlow : low ≤ i) (hhigh : i < high) (hi : p i = true)
    (hbefore : ∀ j, low ≤ j → j < i → p j = false) : firstIndex p low high = i := by
  obtain ⟨hge, hle, hholds, hmin⟩ := firstIndex_spec p (show low ≤ high by omega)
  rcases Nat.lt_trichotomy (firstIndex p low high) i with hlt | heq | hgt
  · simp [hbefore _ hge hlt] at hholds
    omega
  · exact heq
  · simp [hmin i hlow hgt] at hi

/-- The search does not pass an index that has the property. -/
theorem firstIndex_le {i : Nat} (hlow : low ≤ i) (hhigh : i < high) (hi : p i = true) :
    firstIndex p low high ≤ i := by
  obtain ⟨-, -, -, hbefore⟩ := firstIndex_spec p (show low ≤ high by omega)
  by_contra hlt
  simp [hbefore i hlow (by omega)] at hi

/-- Below the first index with a property there is nothing to be kept. -/
theorem filter_range'_of_eq (h : low ≤ high) (hend : firstIndex p low high = high) :
    (List.range' low (high - low)).filter p = [] := by
  obtain ⟨-, -, -, hbefore⟩ := firstIndex_spec p h
  refine List.filter_eq_nil_iff.mpr fun j hj => ?_
  rw [List.mem_range'_1] at hj
  simp [hbefore j hj.1 (by omega)]

/-- Of the indices of a stretch that have a property the first index is the first. -/
theorem filter_range'_of_lt {i : Nat} (h : low ≤ high) (hi : firstIndex p low high = i)
    (hlt : i < high) :
    (List.range' low (high - low)).filter p =
      i :: (List.range' (i + 1) (high - (i + 1))).filter p := by
  obtain ⟨hge, -, hholds, hbefore⟩ := firstIndex_spec p h
  rw [hi] at hge hholds hbefore
  have hsplit : List.range' low (high - low) =
      List.range' low (i - low) ++ i :: List.range' (i + 1) (high - (i + 1)) := by
    rw [← List.range'_succ, show high - (i + 1) + 1 = high - i by omega]
    have happend := List.range'_append_1 (s := low) (m := i - low) (n := high - i)
    rw [show low + (i - low) = i by omega, show i - low + (high - i) = high - low by omega]
      at happend
    exact happend.symm
  have hnone : (List.range' low (i - low)).filter p = [] := by
    refine List.filter_eq_nil_iff.mpr fun j hj => ?_
    rw [List.mem_range'_1] at hj
    simp [hbefore j hj.1 (by omega)]
  rw [hsplit, List.filter_append, hnone, List.nil_append, List.filter_cons_of_pos (hholds hlt)]

end FirstIndex

/-! ### Active places -/

namespace Lexeme

/-- The depth at an index, counted from the lexeme behind the leading one. -/
def depthAt (run : List Lexeme) (i : Nat) : Nat := depthAfter 0 ((run.take i).drop 1)

/-- Whether the lexeme at an index touches a period before it or behind it. -/
def touchesPeriod (run : List Lexeme) (i : Nat) : Bool :=
  (run[i - 1]?.any (·.token = .period) && run[i]?.any touchesPrevious) ||
    run[i + 1]?.any isPeriodBehind

/-- Whether the lexeme at an index can begin or end a clause: it is not the leading one,
stands outside of parentheses, is no parenthesis, and is no keyword that touches a period. -/
def isActive (run : List Lexeme) (i : Nat) : Bool :=
  decide (1 ≤ i) && decide (depthAt run i = 0) && run[i]?.any fun l =>
    !l.token.isParen && !(l.token.isAnyKeyword && touchesPeriod run i)

/-- Whether one of the given tokens stands at an index and is active there. -/
def isAt (run : List Lexeme) (tokens : List Token) (i : Nat) : Bool :=
  isActive run i && run[i]?.any fun l => decide (l.token ∈ tokens)

/-- The lexemes of a statement with their marks. The leading one is never active. -/
def marks : List Lexeme → List Marked
  | [] => []
  | lead :: rest => ⟨lead, false⟩ :: mark lead 0 rest

/-- The mark of a lexeme depends on the depth at its place and on its two neighbours. -/
theorem getElem?_mark (previous : Lexeme) (depth : Nat) (run : List Lexeme) (i : Nat) :
    (mark previous depth run)[i]? = run[i]?.map fun l =>
      ⟨l, decide (depthAfter depth (run.take i) = 0) && !l.token.isParen &&
        !isQualified ((previous :: run)[i]?.getD l) l run[i + 1]?⟩ := by
  induction run generalizing previous depth i with
  | nil => rfl
  | cons l run ih =>
      cases i with
      | zero => cases run <;> rfl
      | succ i =>
          rw [mark, List.getElem?_cons_succ, ih]
          rfl

/-- A lexeme is marked as active exactly at an active place. -/
theorem getElem?_marks (run : List Lexeme) (i : Nat) :
    (marks run)[i]? = run[i]?.map fun l => ⟨l, isActive run i⟩ := by
  cases run with
  | nil => rfl
  | cons lead rest =>
      cases i with
      | zero => rfl
      | succ i =>
          rw [marks, List.getElem?_cons_succ, List.getElem?_cons_succ, getElem?_mark]
          cases hl : rest[i]? with
          | none => rfl
          | some l =>
              have hlt : i < (lead :: rest).length := by
                obtain ⟨hrest, -⟩ := List.getElem?_eq_some_iff.mp hl
                simp only [List.length_cons]
                omega
              obtain ⟨previous, hprevious⟩ : ∃ previous, (lead :: rest)[i]? = some previous :=
                ⟨_, List.getElem?_eq_getElem hlt⟩
              simp [isActive, depthAt, touchesPeriod, isQualified, hl, hprevious,
                Bool.and_assoc]

/-- Every lexeme is marked. -/
theorem length_marks (run : List Lexeme) : (marks run).length = run.length := by
  cases run with
  | nil => rfl
  | cons lead rest =>
      have hlength := congrArg List.length (map_lexeme_mark lead 0 rest)
      rw [List.length_map] at hlength
      simp [marks, hlength]

/-- The marks leave the lexemes as they are. -/
theorem map_lexeme_marks (run : List Lexeme) : (marks run).map (·.lexeme) = run := by
  cases run with
  | nil => rfl
  | cons lead rest => simp [marks, map_lexeme_mark]

/-- The marked run from an index on begins with the lexeme there. -/
theorem drop_marks {run : List Lexeme} {i : Nat} (hi : i < run.length) :
    (marks run).drop i = ⟨run[i], isActive run i⟩ :: (marks run).drop (i + 1) := by
  have hmark := getElem?_marks run i
  rw [List.getElem?_eq_getElem hi, Option.map_some] at hmark
  obtain ⟨hlt, hget⟩ := List.getElem?_eq_some_iff.mp hmark
  rw [List.drop_eq_getElem_cons hlt, hget]

/-- A stretch of the marked run begins with the lexeme at its first index. -/
theorem drop_take_marks {run : List Lexeme} {i j : Nat} (hi : i < run.length) (hij : i < j) :
    ((marks run).take j).drop i =
      ⟨run[i], isActive run i⟩ :: ((marks run).take j).drop (i + 1) := by
  obtain ⟨n, hn⟩ : ∃ n, j - i = n + 1 := ⟨j - i - 1, by omega⟩
  have hrest : j - (i + 1) = n := by omega
  rw [List.drop_take, drop_marks hi, List.drop_take, hn, hrest, List.take_succ_cons]

/-! ### The end of a statement -/

/-- The index of the first active semicolon, where a statement ends. -/
def ending (run : List Lexeme) : Nat :=
  firstIndex (isAt run [.semicolon]) 1 run.length

/-- The word that opens a statement stands before its end. -/
theorem one_le_ending {run : List Lexeme} (h : run ≠ []) : 1 ≤ ending run :=
  (firstIndex_spec (isAt run [.semicolon]) (List.length_pos_iff.mpr h)).1

/-- A statement ends at a semicolon or with its last lexeme, and there is no
active semicolon before. -/
theorem ending_spec (run : List Lexeme) (h : 1 ≤ ending run) :
    ending run ≤ run.length ∧
      (ending run < run.length → isAt run [.semicolon] (ending run) = true) ∧
      ∀ i, 1 ≤ i → i < ending run → isAt run [.semicolon] i = false := by
  have hlength : 1 ≤ run.length := by
    by_contra hempty
    rw [ending, firstIndex_of_le (by omega)] at h
    omega
  obtain ⟨-, hle, hholds, hbefore⟩ := firstIndex_spec (isAt run [.semicolon]) hlength
  exact ⟨hle, hholds, hbefore⟩

/-- At the end of a statement stands nothing but a semicolon. -/
theorem token_of_getElem?_ending {run : List Lexeme} (h : 1 ≤ ending run) {l : Lexeme}
    (hl : run[ending run]? = some l) : l.token = .semicolon := by
  obtain ⟨-, hsemicolon, -⟩ := ending_spec run h
  obtain ⟨hlt, -⟩ := List.getElem?_eq_some_iff.mp hl
  have hat := hsemicolon hlt
  simp only [isAt, hl, Option.any_some, Bool.and_eq_true, decide_eq_true_eq,
    List.mem_singleton] at hat
  exact hat.2

end Lexeme

end SqlOutline
