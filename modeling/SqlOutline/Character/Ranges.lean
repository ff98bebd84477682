/-!
# Character classes as code point ranges

A character class is written as an ascending list of disjoint ranges, both ends included.
The list is searched from the front and the search stops at the first range that lies
above the character, so the common low characters are decided after few comparisons.

* `Ranges.contains_iff_exists`: on an ascending list, the early stop loses nothing.
-/

namespace SqlOutline

/-- Ranges of code points, first and last point of each. -/
abbrev Ranges := List (Nat × Nat)

namespace Ranges

/-- Whether a code point lies in one of the ranges of an ascending list. -/
def contains (n : Nat) : Ranges → Bool
  | [] => false
  | (first, last) :: rest =>
    if n < first then false else if n ≤ last then true else contains n rest

/-- Each range is in order, and the next one begins above its end. -/
def Ascending : Ranges → Prop
  | [] => True
  | (first, last) :: rest => first ≤ last ∧ (∀ next ∈ rest.head?, last < next.1) ∧ Ascending rest

instance : DecidablePred Ascending := go
where
  go : (ranges : Ranges) → Decidable ranges.Ascending
    | [] => inferInstanceAs (Decidable True)
    | (first, last) :: rest =>
      have := go rest
      inferInstanceAs (Decidable (first ≤ last ∧ (∀ next ∈ rest.head?, last < next.1) ∧ _))

/-- All ranges after the first one begin above its end. -/
theorem Ascending.lt_of_mem {range : Nat × Nat} {rest : Ranges}
    (h : Ascending (range :: rest)) : ∀ later ∈ rest, range.2 < later.1 := by
  induction rest generalizing range with
  | nil => simp
  | cons next rest ih =>
    obtain ⟨-, hnext, hrest⟩ := h
    have hlt := hnext next rfl
    have hle : next.1 ≤ next.2 := hrest.1
    intro later hlater
    rcases List.mem_cons.mp hlater with rfl | hmem
    · exact hlt
    · have := ih hrest later hmem
      omega

/-- The search finds a code point exactly when one of the ranges holds it. -/
theorem contains_iff_exists {n : Nat} {ranges : Ranges} (h : ranges.Ascending) :
    ranges.contains n = true ↔ ∃ range ∈ ranges, range.1 ≤ n ∧ n ≤ range.2 := by
  induction ranges with
  | nil => simp [contains]
  | cons range rest ih =>
    have hlater := h.lt_of_mem
    obtain ⟨hle, -, hrest⟩ := h
    have := ih hrest
    grind [contains]

end Ranges

end SqlOutline
