import SqlOutline.Proofs.FirstWord

/-!
# What stands inside of tokens and comments

A part of a text that begins as a word does is a token, or at least the first part of one, or
it begins inside of a token or of a comment. This is what a search in the text that does not
know of tokens has to tell apart.

## Main results

* `Trivia.Row.exists_inside`: a letter in trivia stands inside of a comment.
* `Lexeme.exists_place`: what begins with a letter begins at a token, inside of a token, or
  inside of a comment.
-/

namespace SqlOutline

/-- The last part of a text begins in the last or in the first of two parts. -/
theorem exists_of_append_eq_append_cons {α : Type} {front back before after : List α} {a : α}
    (h : front ++ back = before ++ a :: after) :
    (∃ inner, before = front ++ inner ∧ back = inner ++ a :: after) ∨
      ∃ rest, front = before ++ a :: rest ∧ after = rest ++ back := by
  rcases List.append_eq_append_iff.mp h with ⟨inner, hbefore, hback⟩ | ⟨rest, hfront, hafter⟩
  · exact .inl ⟨inner, hbefore, hback⟩
  · cases rest with
    | nil => exact .inl ⟨[], by simpa using hfront.symm, hafter.symm⟩
    | cons b rest =>
        obtain ⟨rfl, rfl⟩ := List.cons.inj hafter
        exact .inr ⟨rest, hfront, rfl⟩

namespace Trivia

/-- No piece of trivia begins with a letter. -/
theorem Piece.ne_cons {piece after : List Char} (h : Piece piece after) {c : Char}
    (hc : isWordStart c = true) (rest : List Char) : piece ≠ c :: rest := by
  rintro rfl
  cases h with
  | blank hblank =>
      rw [isBlank_of_isWordStart hc] at hblank
      cases hblank
  | lineComment => exact absurd hc (by decide)
  | blockComment => exact absurd hc (by decide)
  | openComment => exact absurd hc (by decide)

/-- A letter in trivia stands inside of a comment. -/
theorem Row.exists_inside {row after before rest : List Char} {c : Char} (h : Row row after)
    (hc : isWordStart c = true) (hrow : row = before ++ c :: rest) :
    ∃ front inner more behind, before = front ++ inner ∧ inner ≠ [] ∧ rest = more ++ behind ∧
      Row front (inner ++ c :: rest ++ after) ∧
        Piece (inner ++ c :: more) (behind ++ after) := by
  induction h generalizing before with
  | nil => simp at hrow
  | @cons piece row after hpiece hlater ih =>
      rcases exists_of_append_eq_append_cons hrow with ⟨inner, rfl, hinner⟩ | ⟨more, rfl, rfl⟩
      · -- the letter is in a later piece
        obtain ⟨front, inside, more, behind, rfl, hne, rfl, hfront, hinside⟩ := ih hinner
        refine ⟨piece ++ front, inside, more, behind, (List.append_assoc ..).symm, hne, rfl,
          ?_, hinside⟩
        refine .cons ?_ hfront
        rw [hinner] at hpiece
        simpa using hpiece
      · -- the letter is in the first piece, which does not begin with it
        refine ⟨[], before, more, row, rfl, ?_, rfl, .nil, hpiece⟩
        rintro rfl
        exact hpiece.ne_cons hc more rfl

end Trivia

namespace Lexeme

/-- Whether a comment begins in front of a text and goes on in it. -/
def InComment (before after : List Char) : Prop :=
  ∃ outer inner rest behind earlier gap, before = outer ++ inner ∧ after = rest ++ behind ∧
    inner ≠ [] ∧ rest ≠ [] ∧ Seam outer earlier gap (inner ++ after) ∧
    Trivia.Piece (inner ++ rest) behind

/-- Whether a token begins in front of a text and goes on in it, with its text in two parts. -/
structure InToken (before after : List Char) (l : Lexeme) (inner rest : List Char) : Prop where
  text : l.text = inner ++ rest
  begun : inner ≠ []
  goesOn : rest ≠ []
  place : ∃ earlier later, ofText (before ++ after) = earlier ++ l :: later ∧
    before = earlier.flatMap source ++ l.gap ++ inner

/-- A place in a text lies in one of its lexemes or behind all of them. -/
theorem exists_lexeme_of_split {ls : List Lexeme}
    {trailing before after : List Char} {c : Char}
    (h : ls.flatMap source ++ trailing = before ++ c :: after) :
    (∃ earlier l later inner rest, ls = earlier ++ l :: later ∧
        before = earlier.flatMap source ++ inner ∧ l.source = inner ++ c :: rest) ∨
      ∃ inner, before = ls.flatMap source ++ inner ∧ trailing = inner ++ c :: after := by
  induction ls generalizing before with
  | nil => exact .inr ⟨before, rfl, h⟩
  | cons l ls ih =>
      rw [List.flatMap_cons, List.append_assoc] at h
      rcases exists_of_append_eq_append_cons h with ⟨inner, rfl, hinner⟩ | ⟨rest, hsource, -⟩
      · rcases ih hinner with
          ⟨earlier, m, later, inner, rest, rfl, rfl, hsource⟩ | ⟨inner, rfl, htrailing⟩
        · exact .inl ⟨l :: earlier, m, later, inner, rest, rfl, by simp, hsource⟩
        · exact .inr ⟨inner, by simp, htrailing⟩
      · exact .inl ⟨[], l, ls, before, rest, rfl, rfl, hsource⟩

/-- What begins with a letter in trivia behind lexemes begins inside of a comment. -/
theorem inComment_of_row {before after gap behind inner rest : List Char}
    {earlier : List Lexeme} {c : Char} (hc : isWordStart c = true)
    (hreads : Reads (before ++ c :: after) earlier (gap ++ behind))
    (hrow : Trivia.Row gap behind)
    (hbefore : before = earlier.flatMap source ++ inner) (hgap : gap = inner ++ c :: rest) :
    InComment before (c :: after) := by
  obtain ⟨front, inside, more, close, rfl, hne, rfl, hfront, hpiece⟩ :=
    hrow.exists_inside hc hgap
  have hsource := hreads.source_append
  obtain rfl : after = more ++ (close ++ behind) := by
    rw [hbefore, hgap] at hsource
    simpa using hsource.symm
  refine ⟨earlier.flatMap source ++ front, inside, c :: more, close ++ behind, earlier, front,
    by rw [hbefore, List.append_assoc], by simp, hne, by simp, ⟨?_, ?_⟩, hpiece⟩
  · rw [hbefore, hgap] at hreads
    simpa using hreads
  · simpa using hfront

/-- What begins with a letter begins inside of a comment, at a token, or inside of a token. -/
theorem exists_place (before after : List Char) {c : Char} (hc : isWordStart c = true) :
    InComment before (c :: after) ∨
      (∃ earlier l later, ofText (before ++ c :: after) = earlier ++ l :: later ∧
        before = earlier.flatMap source ++ l.gap) ∨
      ∃ l inner rest, InToken before (c :: after) l inner (c :: rest) := by
  obtain ⟨trailing, hreads, hrow⟩ := exists_reads_ofText (before ++ c :: after)
  rcases exists_lexeme_of_split hreads.source_append with
    ⟨earlier, l, later, inner, rest, hls, hbefore, hsource⟩ | ⟨inner, hbefore, htrailing⟩
  · rw [source] at hsource
    rcases exists_of_append_eq_append_cons hsource with ⟨inside, rfl, htext⟩ | ⟨more, hgap, -⟩
    · cases inside with
      | nil => exact .inr (.inl ⟨earlier, l, later, hls, by simpa using hbefore⟩)
      | cons d inside =>
          refine .inr (.inr
            ⟨l, d :: inside, rest, htext, by simp, by simp, earlier, later, hls, ?_⟩)
          rw [hbefore, List.append_assoc]
    · -- in the trivia in front of a token
      obtain ⟨d, tail, behind, hcs, -, hseam, -⟩ := seam_of_ofText hls
      have hfront := hseam.reads
      rw [← hcs] at hfront
      exact .inl (inComment_of_row hc hfront hseam.row hbefore hgap)
  · -- in the trivia behind the last token
    rw [← List.append_nil trailing] at hreads
    exact .inl (inComment_of_row hc hreads hrow hbefore htrailing)

end Lexeme

end SqlOutline
