import SqlOutline.Proofs.Checked.Wildcards
import SqlOutline.Proofs.LikePattern

/-!
# What the search for a leading wildcard finds

The search stops at each `LIKE`, takes an `I` in front of it for the beginning of `ILIKE`, and
goes on where the place is none of a pattern. So it finds a pattern wherever one stands,
whatever stands in front of that. An `I` in front of `LIKE` that does not belong to the word
cannot hide a pattern: it is a letter, and `LIKE` does not stand free behind a letter.

## Main results

* `LeadingWildcard.occursAfter_append`: a pattern further on is found from every place in
  front.
* `LeadingWildcard.occursAfter_of_occurs`: a pattern is found wherever it stands.
* `LeadingWildcard.exists_leadingWildcard_iff`: the search has an answer on every condition,
  and it is whether the condition has a pattern.
-/

namespace SqlOutline.LeadingWildcard

/-- Whether a text has a free `LIKE` or `ILIKE` in it, with a quoted text behind that begins
with a wildcard. -/
def HasPattern (cs : List Char) : Prop :=
  ∃ before word blanks mark wildcard after,
    cs = before ++ (word ++ (blanks ++ mark :: wildcard :: after)) ∧
      Occurs before word blanks mark wildcard

variable {before word blanks : List Char} {mark wildcard : Char}

/-- What is found further on is found from every place in front of it. -/
theorem occursAfter_append (front : List Char) {taken cs : List Char}
    (h : occursAfter (front.reverse ++ taken) cs = true) :
    occursAfter taken (front ++ cs) = true := by
  induction front generalizing taken with
  | nil => exact h
  | cons c front ih =>
      rw [List.reverse_cons, List.append_assoc, List.singleton_append] at h
      rw [List.cons_append, occursAfter, Bool.or_eq_true]
      exact .inr (ih h)

/-- At `LIKE` a pattern is found. -/
theorem occursAfter_of_standsFree {taken like after : List Char}
    (hlike : like.map Char.toUpper = ['L', 'I', 'K', 'E']) (hfree : standsFree taken = true)
    (hopens : opensPattern after = true) : occursAfter taken (like ++ after) = true := by
  rw [Checked.occursAfter_like hlike, hfree, hopens]
  rfl

/-- The first letter of `ILIKE` may be part of a name. -/
theorem isNameCharacter_of_toUpper_eq_I {c : Char} (h : c.toUpper = 'I') :
    isNameCharacter c = true := by
  rw [← isNameCharacter_toUpper, h]
  exact isNameCharacter_of_isAlpha rfl

/-- Nothing that may be part of a name stands at the end of the text before. -/
theorem any_head?_reverse (h : ∀ c ∈ before.getLast?, isNameCharacter c = false) :
    before.reverse.head?.any isNameCharacter = false :=
  any_head?_eq_false_iff.mpr (by rwa [List.reverse_reverse])

/-- Behind what is not in names `LIKE` stands free. -/
theorem standsFree_reverse (h : ∀ c ∈ before.getLast?, isNameCharacter c = false) :
    standsFree before.reverse = true := by
  have hhead := any_head?_reverse h
  rw [standsFree, Bool.not_eq_true']
  cases hbefore : before.reverse with
  | nil => rfl
  | cons c rest =>
      rw [hbefore] at hhead
      have hletter : c.toUpper ≠ 'I' := by
        intro hc
        rw [List.head?_cons, Option.any_some, isNameCharacter_of_toUpper_eq_I hc] at hhead
        cases hhead
      rwa [withoutI, if_neg hletter]

/-- Behind what is not in names the `LIKE` in an `ILIKE` stands free. -/
theorem standsFree_cons_reverse {c : Char} (hc : c.toUpper = 'I')
    (h : ∀ c ∈ before.getLast?, isNameCharacter c = false) :
    standsFree (c :: before.reverse) = true := by
  rw [standsFree, withoutI, if_pos hc, any_head?_reverse h]
  rfl

/-- Where a pattern occurs it is seen to open. -/
theorem opensPattern_of_occurs (h : Occurs before word blanks mark wildcard)
    (after : List Char) :
    opensPattern (blanks ++ mark :: wildcard :: after) = true := by
  have hmark := Quoted.isBlank_of_mem_marks h.mark_mem
  have hdrop : (blanks ++ mark :: wildcard :: after).dropWhile isBlank =
      mark :: wildcard :: after := by
    rw [List.dropWhile_append_of_pos h.isBlank, List.dropWhile_cons_of_neg (by simp [hmark])]
  rw [opensPattern, hdrop]
  simp only [Bool.and_eq_true, Bool.or_eq_true, beq_iff_eq]
  exact ⟨h.mark, h.wildcard⟩

/-- A pattern is found wherever it stands. -/
theorem occursAfter_of_occurs (h : Occurs before word blanks mark wildcard)
    (after : List Char) :
    occursAfter [] (before ++ (word ++ (blanks ++ mark :: wildcard :: after))) = true := by
  have hopens := opensPattern_of_occurs h after
  apply occursAfter_append before
  rw [List.append_nil]
  rcases h.isLike with hlike | hlike
  · exact occursAfter_of_standsFree hlike (standsFree_reverse h.free) hopens
  · -- the search stops one character behind the beginning of `ILIKE`
    obtain ⟨i, like, rfl, hi, hlike⟩ := List.map_eq_cons_iff.mp hlike
    apply occursAfter_append [i]
    exact occursAfter_of_standsFree hlike (standsFree_cons_reverse hi h.free) hopens

/-- The search finds a pattern if there is one. -/
theorem occursIn_iff {condition : String} :
    occursIn condition = true ↔ HasPattern condition.toList := by
  constructor
  · intro h
    exact exists_occurs_of_occursAfter h
  · rintro ⟨before, word, blanks, mark, wildcard, after, hcs, hoccurs⟩
    rw [occursIn, hcs]
    exact occursAfter_of_occurs hoccurs after

/-- The search has an answer on every condition, and it is whether the condition has a pattern.
The search by offsets in a copy in upper case has the same answer. -/
theorem exists_leadingWildcard_iff (condition : String) :
    ∃ found, Checked.leadingWildcard condition = .ok found ∧ occursIn condition = found ∧
      (found = true ↔ HasPattern condition.toList) :=
  ⟨occursIn condition, Checked.leadingWildcard_eq condition, rfl, occursIn_iff⟩

end SqlOutline.LeadingWildcard
