import SqlOutline.Explanation
import SqlOutline.Proofs.Checked.Access
import SqlOutline.Proofs.UpperCase.Character

/-!
# Offsets in another case

A condition is searched for `LIKE` in a copy of it in upper case, and the offsets found there
are used on the condition itself. Only ASCII letters have another case in the copy, and those
take one byte in either case, so an offset between two characters of the copy is one between
two characters of the condition.

## Main results

* `opensAt_eq`: a place found in the copy is judged on the condition.
* `leadingWildcard_eq`: the search finds what `LeadingWildcard.occursIn` does.
* `advisories_eq`: the advice on every outline is found.
-/

namespace SqlOutline.Checked

open Lexeme (byteCount byteCount_map_toUpper)
open LeadingWildcard (beginsWithLike occursAfter occursIn opensPattern standsFree withoutI)

/-! ### Places in the copy -/

/-- A condition in upper case. -/
def upperCase (condition : String) : String :=
  String.ofList (condition.toList.map Char.toUpper)

/-- The offsets at which `LIKE` stands in a text whose first character has an offset. -/
def likeOffsets (offset : Nat) : List Char → List Nat
  | [] => []
  | c :: rest =>
    if (c :: rest).take 4 = ['L', 'I', 'K', 'E'] then
      offset :: likeOffsets (offset + 4) (rest.drop 3)
    else likeOffsets (offset + c.utf8Size) rest
termination_by cs => cs.length
decreasing_by
  · rw [List.length_drop, List.length_cons]
    omega
  · exact Nat.lt_succ_self _

/-- The text without the letter `I` at its end, if it has one. -/
def stripI? (cs : List Char) : Option (List Char) :=
  if cs.getLast? = some 'I' then some cs.dropLast else none

/-- Whether the `LIKE` at an offset of the copy is a word of its own, with a pattern behind it
that begins with a wildcard. -/
def opensAt (upper condition : String) (i : Nat) : Checked Bool := do
  let stripped := stripI? (← sliceText upper 0 i)
  let before := stripped.getD (← sliceText upper 0 i)
  if before.getLast?.any isNameCharacter then return false
  let rest ← sliceText condition (i + 4) condition.utf8ByteSize
  if rest.head?.any isNameCharacter then return false
  return opensPattern rest

/-- Whether a condition has a pattern with a leading wildcard. -/
def leadingWildcard (condition : String) : Checked Bool :=
  let upper := upperCase condition
  (likeOffsets 0 upper.toList).anyM (opensAt upper condition)

section Search

variable {condition : String} {taken like after : List Char}

/-- The letter in front of `LIKE` is found in the copy. -/
theorem any_getLast?_stripI? (taken : List Char) :
    ((stripI? (taken.map Char.toUpper)).getD (taken.map Char.toUpper)).getLast?.any
      isNameCharacter = !standsFree taken.reverse := by
  have hany : ∀ cs : List Char, (cs.map Char.toUpper).getLast?.any isNameCharacter =
      cs.reverse.head?.any isNameCharacter := by
    intro cs
    rw [List.getLast?_map, List.head?_reverse, Option.any_map]
    exact congrArg (Option.any · cs.getLast?) (funext isNameCharacter_toUpper)
  rw [standsFree, Bool.not_not, stripI?]
  rcases List.eq_nil_or_concat taken with rfl | ⟨front, c, rfl⟩
  · rfl
  · rw [List.concat_eq_append, List.reverse_append, List.reverse_singleton,
      List.singleton_append, withoutI]
    by_cases hc : c.toUpper = 'I'
    · have hlast : ((front ++ [c]).map Char.toUpper).getLast? = some 'I' := by simp [hc]
      have hfront : ((front ++ [c]).map Char.toUpper).dropLast = front.map Char.toUpper := by
        simp
      rw [if_pos hlast, if_pos hc, Option.getD_some, hfront, hany]
    · have hlast : ((front ++ [c]).map Char.toUpper).getLast? ≠ some 'I' := by simpa using hc
      rw [if_neg hlast, if_neg hc, Option.getD_none, hany, List.reverse_append]
      rfl

/-- Behind `LIKE` a letter is no pattern. -/
theorem opensPattern_of_isNameCharacter {c : Char} (h : isNameCharacter c = true)
    (rest : List Char) : opensPattern (c :: rest) = false := by
  have hpart : isWordPart c = true := by
    rw [isNameCharacter] at h
    rw [isWordPart, h, Bool.true_or]
  have hblank : isBlank c = false :=
    Lexeme.not_isBlank_of_not_isBreak (Lexeme.not_isBreak_of_isWordPart hpart)
  have hsingle : c ≠ Quoted.single := by
    rintro rfl
    exact absurd h (by decide)
  have hdouble : c ≠ Quoted.double := by
    rintro rfl
    exact absurd h (by decide)
  rw [opensPattern, List.dropWhile_cons_of_neg (by simp [hblank])]
  cases rest <;> simp [hsingle, hdouble]

/-- A place found in the copy is judged on the condition. -/
theorem opensAt_eq (h : condition.toList = taken ++ (like ++ after))
    (hlike : like.map Char.toUpper = ['L', 'I', 'K', 'E']) :
    opensAt (upperCase condition) condition (byteCount taken) =
      .ok (standsFree taken.reverse && opensPattern after) := by
  have hupper : (upperCase condition).toList =
      [] ++ (taken.map Char.toUpper ++ (like ++ after).map Char.toUpper) := by
    rw [upperCase, String.toList_ofList, h, List.map_append]
    rfl
  have hfront := sliceText_of_split hupper
  rw [List.nil_append, byteCount_map_toUpper, Lexeme.byteCount_nil] at hfront
  have hsize : byteCount (taken ++ like) = byteCount taken + 4 := by
    rw [Lexeme.byteCount_append, ← byteCount_map_toUpper like, hlike]
    rfl
  have hrest : sliceText condition (byteCount taken + 4) condition.utf8ByteSize =
      .ok after := by
    rw [← hsize]
    exact sliceText_to_end (by rw [h, List.append_assoc])
  rw [opensAt, hfront, ok_bind, ok_bind]
  dsimp only
  rw [any_getLast?_stripI?, hrest]
  cases standsFree taken.reverse with
  | false => rfl
  | true =>
      simp only [Bool.not_true, Bool.true_and, ok_bind]
      cases after with
      | nil => rfl
      | cons c after =>
          rw [List.head?_cons, Option.any_some]
          by_cases hname : isNameCharacter c = true
          · rw [hname, opensPattern_of_isNameCharacter hname]
            rfl
          · rw [Bool.of_not_eq_true hname]
            rfl

/-- The search goes on behind a character at which no `LIKE` begins. -/
theorem occursAfter_cons_of_ne {c : Char} {rest : List Char}
    (h : ((c :: rest).take 4).map Char.toUpper ≠ ['L', 'I', 'K', 'E']) (before : List Char) :
    occursAfter before (c :: rest) = occursAfter (c :: before) rest := by
  rw [occursAfter, beginsWithLike, beq_eq_false_iff_ne.mpr h]
  rfl

/-- No `LIKE` begins inside of another one. -/
theorem occursAfter_like (hlike : like.map Char.toUpper = ['L', 'I', 'K', 'E'])
    (before after : List Char) :
    occursAfter before (like ++ after) = ((standsFree before && opensPattern after) ||
      occursAfter (like.reverse ++ before) after) := by
  simp only [List.map_eq_cons_iff, List.map_eq_nil_iff] at hlike
  obtain ⟨l, _, rfl, hl, i, _, rfl, hi, k, _, rfl, hk, e, _, rfl, he, rfl⟩ := hlike
  have hbegins : beginsWithLike (l :: i :: k :: e :: after) = true := by
    simp [beginsWithLike, hl, hi, hk, he]
  have hbehind : occursAfter (l :: before) (i :: k :: e :: after) =
      occursAfter (e :: k :: i :: l :: before) after := by
    rw [occursAfter_cons_of_ne (by simp [hi]), occursAfter_cons_of_ne (by simp [hk]),
      occursAfter_cons_of_ne (by simp [he])]
  simp only [List.cons_append, List.nil_append, List.reverse_cons, List.reverse_nil]
  rw [occursAfter, hbegins, Bool.true_and, hbehind]
  rfl

/-- Behind a part of the condition the search finds what `occursAfter` does. -/
theorem anyM_opensAt {rest : List Char} (h : condition.toList = taken ++ rest) :
    (likeOffsets (byteCount taken) (rest.map Char.toUpper)).anyM
      (opensAt (upperCase condition) condition) = .ok (occursAfter taken.reverse rest) := by
  induction hn : rest.length using Nat.strong_induction_on generalizing taken rest with
  | _ n ih =>
      cases rest with
      | nil =>
          rw [List.map_nil, likeOffsets]
          rfl
      | cons c rest =>
          rw [List.length_cons] at hn
          rw [List.map_cons, likeOffsets, ← List.map_cons, ← List.map_take, ← List.map_drop]
          split_ifs with hlike
          · -- the four characters that spell `LIKE` are passed over at once
            have hsplit : c :: rest = (c :: rest).take 4 ++ rest.drop 3 :=
              (List.take_append_drop 4 (c :: rest)).symm
            have hsize : byteCount taken + 4 = byteCount (taken ++ (c :: rest).take 4) := by
              rw [Lexeme.byteCount_append, ← byteCount_map_toUpper ((c :: rest).take 4), hlike]
              rfl
            have hoccurs := occursAfter_like hlike taken.reverse (rest.drop 3)
            rw [← hsplit, ← List.reverse_append] at hoccurs
            rw [hsplit] at h
            have hmore := ih (rest.drop 3).length (by rw [List.length_drop]; omega)
              (h.trans (List.append_assoc _ _ _).symm) rfl
            rw [List.anyM_cons, opensAt_eq h hlike, ok_bind, hsize, hmore, hoccurs]
            cases standsFree taken.reverse && opensPattern (rest.drop 3) <;> rfl
          · have hsize : byteCount taken + c.toUpper.utf8Size = byteCount (taken ++ [c]) := by
              rw [Lexeme.byteCount_append, utf8Size_toUpper]
              rfl
            rw [hsize, occursAfter_cons_of_ne hlike, ih rest.length (by omega)
              (h.trans (List.append_assoc taken [c] rest).symm) rfl, List.reverse_append]
            rfl

/-- The search finds what `LeadingWildcard.occursIn` does. -/
theorem leadingWildcard_eq (condition : String) :
    leadingWildcard condition = .ok (occursIn condition) := by
  have hsearch := anyM_opensAt (List.nil_append condition.toList).symm
  rw [leadingWildcard, occursIn]
  rw [Lexeme.byteCount_nil] at hsearch
  rwa [← String.toList_ofList (l := condition.toList.map Char.toUpper)] at hsearch

end Search

/-! ### Advice -/

/-- Whether the condition of a statement has a pattern with a leading wildcard. -/
def hasLeadingWildcard (q : Query) : Checked Bool :=
  match q.filter with
  | none => return false
  | some condition => leadingWildcard condition

/-- The advice on a statement. -/
def advisories (q : Query) : Checked (List Advisory) := do
  if !q.isSelect then return []
  let wildcard ← hasLeadingWildcard q
  return Advisory.all.filter fun
    | .leadingWildcard => wildcard
    | advisory => advisory.applies q

/-- The advice on every outline is found. -/
theorem advisories_eq (q : Query) : advisories q = .ok q.advisories := by
  have hwildcard : hasLeadingWildcard q = .ok (Advisory.leadingWildcard.applies q) := by
    rw [hasLeadingWildcard, Advisory.applies]
    cases q.filter with
    | none => rfl
    | some condition => exact leadingWildcard_eq condition
  rw [advisories, Query.advisories, hwildcard]
  cases q.isSelect <;> rfl

end SqlOutline.Checked
