import SqlOutline.Proofs.Insides

/-!
# Neighbours in a source

What stands between two neighbouring tokens of a source is the trivia in front of the second
one. Their places say no more than how many bytes it has. That suffices to tell whether there
is any, since a character has at least one byte, and then it is a blank or a comment: between
neighbours that touch there is neither, and between any others there is one of the two.

## Main results

* `together_splitBy_iff`: neighbours are in one part of a list that is cut by a relation if the
  relation holds between them.
* `Trivia.Row.eq_nil_iff`: trivia is empty if no blank and no comment stands in it.
* `Lexeme.between_eq_gap`: what stands between neighbours.
* `Lexeme.touches_iff`: neighbours touch if neither a blank nor a comment stands between them.
* `Lexeme.textOf_eq_spelled`: the text of a run.
-/

namespace SqlOutline

/-! ### Neighbours in the parts of a list -/

section Parts

variable {α β : Type} {r : α → α → Bool} {xs front back : List α} {a b : α}

/-- Whether `a` and `b`, which come behind `front` in a list, are in one of its parts. -/
def Together (parts : List (List α)) (front : List α) (a b : α) : Prop :=
  ∃ earlier before after later, parts = earlier ++ (before ++ a :: b :: after) :: later ∧
    front = earlier.flatten ++ before

/-- Each element of a list is in one of its parts. -/
theorem exists_part_of_flatten {parts : List (List α)}
    (h : parts.flatten = front ++ a :: back) :
    ∃ earlier before after later, parts = earlier ++ (before ++ a :: after) :: later ∧
      front = earlier.flatten ++ before ∧ back = after ++ later.flatten := by
  induction parts generalizing front with
  | nil => simp at h
  | cons part parts ih =>
      rw [List.flatten_cons] at h
      rcases exists_of_append_eq_append_cons h with ⟨inner, rfl, hinner⟩ | ⟨after, rfl, rfl⟩
      · obtain ⟨earlier, before, after, later, rfl, rfl, rfl⟩ := ih hinner
        exact ⟨part :: earlier, before, after, later, rfl, by simp, rfl⟩
      · exact ⟨[], front, after, parts, rfl, rfl, rfl⟩

/-- Neighbours are in one part if the relation holds between them. -/
theorem together_splitBy_iff (h : xs = front ++ a :: b :: back) :
    Together (xs.splitBy r) front a b ↔ r a b = true := by
  constructor
  · rintro ⟨earlier, before, after, later, hparts, -⟩
    have hmem : before ++ a :: b :: after ∈ xs.splitBy r := by simp [hparts]
    exact (List.isChain_append_cons_cons.mp (List.isChain_of_mem_splitBy hmem)).2.1
  · intro hr
    obtain ⟨earlier, before, after, later, hparts, hfront, hback⟩ :=
      exists_part_of_flatten ((List.flatten_splitBy r xs).trans h)
    cases after with
    | cons c after =>
        obtain ⟨rfl, -⟩ := List.cons.inj hback
        exact ⟨earlier, before, after, later, hparts, hfront⟩
    | nil =>
        -- the part ends in `a`, so the next one begins with `b`, and a list is not cut there
        cases later with
        | nil => cases hback
        | cons part later =>
            have hne : part ≠ [] :=
              List.ne_nil_of_mem_splitBy (r := r) (l := xs) (by simp [hparts])
            obtain ⟨c, part, rfl⟩ := List.exists_cons_of_ne_nil hne
            obtain ⟨rfl, -⟩ := List.cons.inj hback
            have hseams := List.isChain_getLast_head_splitBy r xs
            rw [hparts, List.isChain_append_cons_cons] at hseams
            obtain ⟨_, _, hseam⟩ := hseams.2.1
            rw [List.getLast_append_singleton, List.head_cons, hr] at hseam
            cases hseam

/-- Lists that are cut at the same places have the same parts. -/
theorem map_splitBy {f : α → β} {s : β → β → Bool}
    (h : ∀ a b, [a, b] <:+: xs → r a b = s (f a) (f b)) :
    (xs.splitBy r).map (List.map f) = (xs.map f).splitBy s := by
  induction xs with
  | nil => rfl
  | cons a xs ih =>
      cases xs with
      | nil => rfl
      | cons b xs =>
          have hab := h a b ⟨[], xs, rfl⟩
          have hrest := ih fun c d hcd => h c d (hcd.trans (List.suffix_cons a _).isInfix)
          rw [List.map_cons] at hrest
          rw [List.map_cons, List.map_cons, splitBy_cons_cons, splitBy_cons_cons,
            ← hab, ← hrest]
          split_ifs
          · cases (b :: xs).splitBy r <;> rfl
          · rfl

/-- What comes behind the first element of a list is a neighbour of some element. -/
theorem mem_tail_iff : b ∈ xs.tail ↔ ∃ a, [a, b] <:+: xs := by
  constructor
  · intro hb
    induction xs with
    | nil => cases hb
    | cons a xs ih =>
        cases xs with
        | nil => cases hb
        | cons c xs =>
            rcases List.mem_cons.mp hb with rfl | hb
            · exact ⟨a, [], xs, rfl⟩
            · obtain ⟨d, hd⟩ := ih hb
              exact ⟨d, hd.trans (List.suffix_cons a _).isInfix⟩
  · rintro ⟨a, front, back, rfl⟩
    cases front <;> simp

end Parts

/-! ### Comments in trivia -/

namespace Trivia

/-- Whether a comment stands in a text, in front of another one. -/
def HoldsComment (text after : List Char) : Prop :=
  ∃ before comment rest, text = before ++ (comment ++ rest) ∧ Piece comment (rest ++ after) ∧
    (['-', '-'] <+: comment ∨ ['/', '*'] <+: comment)

variable {row after : List Char}

/-- No comment stands in blanks. -/
theorem not_holdsComment_of_isBlank (h : ∀ c ∈ row, isBlank c = true) :
    ¬ HoldsComment row after := by
  rintro ⟨before, comment, rest, rfl, -, ⟨more, rfl⟩ | ⟨more, rfl⟩⟩
  · exact absurd (h '-' (by simp)) (by decide)
  · exact absurd (h '/' (by simp)) (by decide)

/-- Trivia without a comment consists of blanks. -/
theorem Row.isBlank_of_not_holdsComment (h : Row row after)
    (hcomment : ¬ HoldsComment row after) :
    ∀ c ∈ row, isBlank c = true := by
  induction h with
  | nil => simp
  | @cons piece row after hpiece _ ih =>
      have hopens : ¬ (['-', '-'] <+: piece ∨ ['/', '*'] <+: piece) := fun hopens =>
        hcomment ⟨[], piece, row, rfl, hpiece, hopens⟩
      have hlater : ¬ HoldsComment row after := by
        rintro ⟨before, comment, rest, rfl, hlater⟩
        exact hcomment ⟨piece ++ before, comment, rest, by simp, hlater⟩
      rw [List.forall_mem_append]
      refine ⟨?_, ih hlater⟩
      generalize row ++ after = behind at hpiece
      cases hpiece with
      | blank hblank => simpa using hblank
      | lineComment => exact absurd (.inl ⟨_, rfl⟩) hopens
      | blockComment => exact absurd (.inr ⟨_, rfl⟩) hopens
      | openComment => exact absurd (.inr ⟨_, rfl⟩) hopens

/-- There is no trivia if there are no blanks and no comments. -/
theorem Row.eq_nil_iff (h : Row row after) :
    row = [] ↔ (¬ ∃ c ∈ row, isBlank c = true) ∧ ¬ HoldsComment row after := by
  constructor
  · rintro rfl
    exact ⟨by simp, not_holdsComment_of_isBlank (by simp)⟩
  · rintro ⟨hblank, hcomment⟩
    refine List.eq_nil_iff_forall_not_mem.mpr fun c hc => hblank ⟨c, hc, ?_⟩
    exact h.isBlank_of_not_holdsComment hcomment c hc

end Trivia

/-! ### Neighbours in a source -/

namespace Located

variable {α : Type}

/-- The characters of a source between two located values. -/
def between (source : String) (a b : Located α) :
    List Char := slice source (a.last + 1) b.first

/-- Whether a blank stands between two located values. -/
def BlankBetween (source : String) (a b : Located α) : Prop :=
  ∃ c ∈ between source a b, isBlank c = true

/-- Whether a comment stands between two located values. -/
def CommentBetween (source : String) (a b : Located α) : Prop :=
  Trivia.HoldsComment (between source a b) (slice source b.first source.utf8ByteSize)

end Located

open Located (BlankBetween CommentBetween between textOf)
open Lexeme (spelled)

namespace Lexeme

/-- To locate lexemes leaves them as they are. -/
theorem map_value_locate (offset : Nat) (ls : List Lexeme) :
    (locate offset ls).map (·.value) = ls := by
  induction ls generalizing offset with
  | nil => rfl
  | cons l ls ih => rw [locate, List.map_cons, ih]

/-- Tokens cover the bytes of their lexemes. -/
theorem range_tokensFrom (offset : Nat) (ls : List Lexeme) :
    Located.range (tokensFrom offset ls) = Located.range (locate offset ls) := by
  rw [Located.range, Located.range, tokensFrom, List.head?_map, List.getLast?_map]
  cases (locate offset ls).head? <;> cases (locate offset ls).getLast? <;> rfl

/-- Two parts of located lexemes are those of two parts of the lexemes. -/
theorem exists_of_locate_eq_append {offset : Nat} {ls : List Lexeme}
    {front back : List (Located Lexeme)} (h : locate offset ls = front ++ back) :
    ∃ xs ys, ls = xs ++ ys ∧ front = locate offset xs ∧
      back = locate (offset + byteCount (xs.flatMap source)) ys := by
  induction front generalizing offset ls with
  | nil => exact ⟨[], ls, rfl, rfl, h.symm⟩
  | cons t front ih =>
      cases ls with
      | nil => cases h
      | cons l ls =>
          rw [locate, List.cons_append] at h
          obtain ⟨rfl, hrest⟩ := List.cons.inj h
          obtain ⟨xs, ys, rfl, rfl, rfl⟩ := ih hrest
          refine ⟨l :: xs, ys, rfl, rfl, ?_⟩
          simp only [List.flatMap_cons, source, byteCount_append, Nat.add_assoc]

section Neighbours

variable {source : String} {a b : Located Lexeme}

/-- Where two neighbours of a source stand: between them is the trivia of the second one. -/
theorem exists_neighbours (h : [a, b] <:+: locate 0 (ofText source.toList)) :
    ∃ before after, source.toList = before ++ (b.value.gap ++ after) ∧
      Trivia.Row b.value.gap after ∧ a.last + 1 = byteCount before ∧
      b.first = byteCount (before ++ b.value.gap) := by
  obtain ⟨front, back, h⟩ := h
  rw [List.append_assoc] at h
  obtain ⟨xs, ys, hls, rfl, hys⟩ := exists_of_locate_eq_append h.symm
  -- behind `xs` there are two lexemes at least, since there are two places
  rcases ys with _ | ⟨l, _ | ⟨m, ys⟩⟩
  · cases hys
  · cases hys
  · obtain ⟨rfl, hbehind⟩ := List.cons.inj hys
    obtain ⟨rfl, -⟩ := List.cons.inj hbehind
    obtain ⟨_, hreads, -⟩ := exists_reads_ofText source.toList
    have hpos : 0 < byteCount l.text := byteCount_pos (hreads.text_ne_nil l (by simp [hls]))
    have hfirst : ofText source.toList = (xs ++ [l]) ++ m :: ys := by rw [hls]; simp
    obtain ⟨c, tail, behind, hcs, -, hseam, -⟩ := seam_of_ofText hfirst
    refine ⟨(xs ++ [l]).flatMap Lexeme.source, c :: (tail ++ behind), ?_, hseam.row, ?_, ?_⟩
    · rw [hcs, List.append_assoc]
    · simp only [List.flatMap_append, List.flatMap_singleton, Lexeme.source, byteCount_append]
      omega
    · simp only [List.flatMap_append, List.flatMap_singleton, Lexeme.source, byteCount_append]
      omega

/-- What stands between neighbours is trivia. -/
theorem between_eq_gap (h : [a, b] <:+: locate 0 (ofText source.toList)) :
    between source a b = b.value.gap ∧
      Trivia.Row b.value.gap (slice source b.first source.utf8ByteSize) := by
  obtain ⟨before, after, hsource, hrow, hlast, hfirst⟩ := exists_neighbours h
  have hbetween : between source a b = b.value.gap := by
    rw [between, hlast, hfirst, slice_of_split hsource]
  rw [← List.append_assoc] at hsource
  rw [hfirst, slice_to_end hsource]
  exact ⟨hbetween, hrow⟩

/-- Neighbours touch if nothing stands between them. -/
theorem touches_eq (h : [a, b] <:+: locate 0 (ofText source.toList)) :
    a.touches b = b.value.touchesPrevious := by
  obtain ⟨before, after, -, -, hlast, hfirst⟩ := exists_neighbours h
  rw [Located.touches, touchesPrevious, hlast, hfirst, byteCount_append]
  cases hgap : b.value.gap with
  | nil => simp
  | cons c gap =>
      have hpos : 0 < byteCount (c :: gap) := byteCount_pos (by simp)
      rw [List.isEmpty_cons, beq_eq_false_iff_ne]
      omega

/-- Neighbours touch if neither a blank nor a comment stands between them. -/
theorem touches_iff (h : [a, b] <:+: locate 0 (ofText source.toList)) :
    a.touches b = true ↔ ¬ BlankBetween source a b ∧ ¬ CommentBetween source a b := by
  obtain ⟨hgap, hrow⟩ := between_eq_gap h
  rw [touches_eq h, touchesPrevious, List.isEmpty_iff, BlankBetween, CommentBetween, hgap]
  exact hrow.eq_nil_iff

end Neighbours

section Run

variable {source : String} {run : List (Located Lexeme)}

/-- Located lexemes that stand together do so in the text. -/
theorem infix_ofText (h : run <:+: locate 0 (ofText source.toList)) :
    run.map (·.value) <:+: ofText source.toList := by
  have hmap := h.map (·.value)
  rwa [map_value_locate] at hmap

/-- The text of a run of a source is that of its lexemes. -/
theorem textOf_eq_spelled (h : run <:+: locate 0 (ofText source.toList)) (hne : run ≠ []) :
    textOf source run = spelled (run.map (·.value)) := by
  obtain ⟨front, back, h⟩ := h
  rw [List.append_assoc] at h
  obtain ⟨xs, ys, hls, rfl, hys⟩ := exists_of_locate_eq_append h.symm
  obtain ⟨part, zs, rfl, rfl, rfl⟩ := exists_of_locate_eq_append hys.symm
  have hstands := standsAt_ofText source
  rw [hls] at hstands
  have hpart : part ≠ [] := by
    rintro rfl
    exact hne rfl
  have hslice := hstands.right.left.slice_range hpart
  rw [range_tokensFrom] at hslice
  rw [textOf, hslice, map_value_locate, spelled]

end Run

end Lexeme

end SqlOutline
