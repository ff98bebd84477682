import SqlOutline.Proofs.Relexing

/-!
# Seams

A seam is a place in a text in front of which the lexemes and the trivia are complete, so that
a token may begin there. Wherever a token of a source begins there is a seam. What stands in
front of a seam is read alike with any other text behind it that begins with the same
character, and also when blanks are taken off its front.

## Main results

* `exists_seam`: a token of a source begins at a seam.
* `Seam.exchange`: a seam does not depend on what comes later.
* `Seam.ofText_eq`, `Seam.ofText_before`: the lexemes of the whole text, and of its first part.
* `Seam.exists_dropWhile`, `trimBlanks_append`: blanks at the ends of a text.
-/

namespace SqlOutline

/-- Unlike `==`, equality of located values looks at their places, too. -/
instance {α : Type} [DecidableEq α] : DecidableEq (Located α) := fun a b =>
  decidable_of_iff (a.value = b.value ∧ a.first = b.first ∧ a.last = b.last)
    (by cases a; cases b; simp)

namespace Lexeme

/-- The first part of a text consists of the lexemes `earlier` and the trivia `gap`, and no
token goes on from there into the second part. -/
structure Seam (before : List Char) (earlier : List Lexeme) (gap after : List Char) :
    Prop where
  reads : Reads (before ++ after) earlier (gap ++ after)
  row : Trivia.Row gap after

/-! ### Tokens begin at seams -/

/-- Parts of a text with as many bytes are the same. -/
theorem append_inj_of_byteCount_eq {front back front' back' : List Char}
    (h : front ++ back = front' ++ back') (hbytes : byteCount front = byteCount front') :
    front = front' ∧ back = back' := by
  have hle := prefix_of_byteCount_le ⟨back, h⟩ (List.prefix_append front' back') hbytes.le
  have hge := prefix_of_byteCount_le (List.prefix_append front' back') ⟨back, h⟩ hbytes.ge
  obtain rfl := hle.eq_of_length_le hge.length_le
  exact ⟨rfl, List.append_cancel_left h⟩

/-- A token of a row of lexemes has the other lexemes before and behind it. -/
theorem exists_append_of_mem_tokensFrom {offset : Nat} {ls : List Lexeme} {t : Located Token}
    (h : t ∈ tokensFrom offset ls) :
    ∃ xs l ys, ls = xs ++ l :: ys ∧
      t = ⟨l.token, offset + byteCount (xs.flatMap source ++ l.gap),
        offset + byteCount (xs.flatMap source ++ l.source) - 1⟩ := by
  induction ls generalizing offset with
  | nil => simp at h
  | cons m ls ih =>
      rw [tokensFrom_cons, List.mem_cons] at h
      rcases h with rfl | h
      · exact ⟨[], m, ls, rfl, rfl⟩
      · obtain ⟨xs, l, ys, rfl, rfl⟩ := ih h
        refine ⟨m :: xs, l, ys, rfl, ?_⟩
        simp only [List.flatMap_cons, byteCount_append, Nat.add_assoc]

/-- In front of each lexeme of a text there is a seam. -/
theorem seam_of_ofText {cs : List Char} {xs ys : List Lexeme} {l : Lexeme}
    (h : ofText cs = xs ++ l :: ys) :
    ∃ c tail behind,
      cs = xs.flatMap source ++ l.gap ++ c :: (tail ++ behind) ∧ l.text = c :: tail ∧
      Seam (xs.flatMap source ++ l.gap) xs l.gap (c :: (tail ++ behind)) ∧
      next c (tail ++ behind) = (l.token, tail) := by
  obtain ⟨trailing, hreads, -⟩ := exists_reads_ofText cs
  rw [h] at hreads
  obtain ⟨middle, hfront, hbehind⟩ := hreads.split
  have hsource := hfront.source_append
  cases hbehind with
  | @cons gap tail behind _ c token _ hgap _ hnext _ =>
      rw [← List.append_assoc] at hsource
      exact ⟨c, tail, behind, hsource.symm, rfl, ⟨hsource ▸ hfront, hgap⟩, hnext⟩

/-- A token of a text begins at a seam, where it is read next. -/
theorem seam_of_mem {cs : List Char} {t : Located Token} (h : t ∈ tokensFrom 0 (ofText cs)) :
    ∃ before earlier gap c tail behind, cs = before ++ c :: (tail ++ behind) ∧
      t.first = byteCount before ∧ t.last + 1 = byteCount (before ++ c :: tail) ∧
      Seam before earlier gap (c :: (tail ++ behind)) ∧
      next c (tail ++ behind) = (t.value, tail) := by
  obtain ⟨earlier, l, later, hls, rfl⟩ := exists_append_of_mem_tokensFrom h
  obtain ⟨c, tail, behind, hcs, htext, hseam, hnext⟩ := seam_of_ofText hls
  refine ⟨_, earlier, l.gap, c, tail, behind, hcs, Nat.zero_add _, ?_, hseam, hnext⟩
  have hpos : 0 < byteCount (c :: tail) := byteCount_pos (by simp)
  rw [source, htext]
  simp only [byteCount_append]
  omega

/-- A token of a source begins at a seam. -/
theorem exists_seam {before after : List Char} {token : Token} {last : Nat}
    (h : ⟨token, byteCount before, last⟩ ∈ tokensFrom 0 (ofText (before ++ after))) :
    ∃ earlier gap c tail behind, Seam before earlier gap after ∧ after = c :: (tail ++ behind) ∧
      next c (tail ++ behind) = (token, tail) ∧
      byteCount before + byteCount (c :: tail) = last + 1 := by
  obtain ⟨_, earlier, gap, c, tail, behind, hcs, hfirst, hlast, hseam, hnext⟩ := seam_of_mem h
  obtain ⟨rfl, rfl⟩ := append_inj_of_byteCount_eq hcs hfirst
  exact ⟨earlier, gap, c, tail, behind, hseam, rfl, hnext, by rw [hlast, byteCount_append]⟩

namespace Seam

variable {before gap after later : List Char} {earlier : List Lexeme}

/-- The text in front of a seam is the source of the lexemes there and a gap. -/
theorem eq_append (h : Seam before earlier gap after) :
    before = earlier.flatMap source ++ gap := by
  have hsource := h.reads.source_append
  rw [← List.append_assoc] at hsource
  exact (List.append_cancel_right hsource).symm

/-- A seam does not depend on what comes later. -/
theorem exchange (h : Seam before earlier gap after) (hafter : after ≠ [])
    (hhead : later.head? = after.head?) : Seam before earlier gap later := by
  have hends : EndsAlike (gap ++ later) (gap ++ after) :=
    .inr ⟨by simp [hafter], .inl (by rw [List.head?_append, List.head?_append, hhead])⟩
  have hreads := h.reads.exchange hends
  rw [← List.append_assoc, ← h.eq_append] at hreads
  exact ⟨hreads, h.row.congr hafter hhead⟩

/-- A token that begins at a seam is the next lexeme. -/
theorem ofText_eq {c : Char} {tail behind : List Char} {token : Token}
    (h : Seam before earlier gap (c :: (tail ++ behind)))
    (hbegins : Trivia.begins (c :: (tail ++ behind)) = false)
    (hnext : next c (tail ++ behind) = (token, tail)) :
    ofText (before ++ c :: (tail ++ behind)) =
      earlier ++ ⟨gap, token, c :: tail⟩ :: ofText behind := by
  have hreads := h.reads.append (.cons h.row hbegins hnext .nil)
  rw [hreads.ofText_eq, List.append_assoc, List.singleton_append]

/-- The first part has the lexemes in front of the seam. -/
theorem ofText_before (h : Seam before earlier gap after) : ofText before = earlier := by
  have hreads := h.reads.exchange (endsAlike_of_shorter (List.prefix_append gap after))
  rw [← h.eq_append] at hreads
  rw [hreads.ofText_eq, ofText_of_row (h.row.of_shorter List.nil_prefix), List.append_nil]

/-- A blank at the very beginning moves no seam. -/
theorem exists_of_blank_cons {c : Char} (hblank : isBlank c = true)
    (h : Seam (c :: before) earlier gap after) :
    ∃ earlier' gap', Seam before earlier' gap' after ∧
      earlier'.map (·.token) = earlier.map (·.token) := by
  obtain ⟨hreads, hrow⟩ := h
  rw [List.cons_append] at hreads
  generalize hwhole : c :: (before ++ after) = whole, hrest : gap ++ after = rest at hreads
  cases hreads with
  | nil =>
      rw [← hrest, ← List.cons_append, List.append_cancel_right_eq] at hwhole
      exact ⟨[], before, ⟨.nil, .of_blank_cons hblank (hwhole ▸ hrow)⟩, rfl⟩
  | @cons first tail behind _ d token later hgap hbegins hnext hlater =>
      cases first with
      | nil =>
          obtain ⟨rfl, -⟩ := List.cons.inj hwhole
          rw [Trivia.begins_cons_eq_false_iff, hblank] at hbegins
          cases hbegins.1
      | cons b first =>
          obtain ⟨rfl, hbefore⟩ := List.cons.inj hwhole
          refine ⟨⟨first, token, d :: tail⟩ :: later, gap, ⟨?_, hrow⟩, rfl⟩
          rw [hbefore, hrest]
          exact .cons (hgap.of_blank_cons hblank) hbegins hnext hlater

/-- Blanks in front of the text can be taken off, and the tokens stay the same. -/
theorem exists_dropWhile (h : Seam before earlier gap after) :
    ∃ earlier' gap', Seam (before.dropWhile isBlank) earlier' gap' after ∧
      earlier'.map (·.token) = earlier.map (·.token) := by
  induction before generalizing earlier gap with
  | nil => exact ⟨earlier, gap, h, rfl⟩
  | cons c before ih =>
      by_cases hblank : isBlank c = true
      · obtain ⟨_, _, hbefore, htokens⟩ := h.exists_of_blank_cons hblank
        obtain ⟨earlier', gap', hseam, htokens'⟩ := ih hbefore
        rw [List.dropWhile_cons_of_pos hblank]
        exact ⟨earlier', gap', hseam, htokens'.trans htokens⟩
      · rw [List.dropWhile_cons_of_neg hblank]
        exact ⟨earlier, gap, h, rfl⟩

end Seam

/-! ### Blanks around a text -/

/-- Nothing is dropped of a text that begins with what is to be kept. -/
theorem dropWhile_append_of_head? {p : Char → Bool} (front : List Char) {back : List Char}
    (h : ∀ c ∈ back.head?, p c = false) :
    (front ++ back).dropWhile p = front.dropWhile p ++ back := by
  have hback : back.dropWhile p = back := by
    cases back with
    | nil => rfl
    | cons c back => rw [List.dropWhile_cons_of_neg (by simp [h c rfl])]
  rw [List.dropWhile_append, hback]
  split
  · next hnil => rw [List.isEmpty_iff.mp hnil, List.nil_append]
  · rfl

/-- Without the blanks at its end a text is a front of itself. -/
theorem prefix_trimBlanksRight (cs : List Char) : trimBlanksRight cs <+: cs := by
  rw [trimBlanksRight, ← List.reverse_suffix, List.reverse_reverse]
  exact List.dropWhile_suffix _

/-- What is left of a text begins as the text does. -/
theorem mem_head?_of_trimBlanksRight {c : Char} {cs : List Char}
    (h : c ∈ (trimBlanksRight cs).head?) : c ∈ cs.head? := by
  obtain ⟨rest, hcs⟩ := prefix_trimBlanksRight cs
  obtain ⟨tail, htail⟩ := List.head?_eq_some_iff.mp h
  rw [← hcs, htail]
  rfl

/-- Blanks are taken off behind what does not end in one. -/
theorem trimBlanksRight_append {front : List Char}
    (h : ∀ c ∈ front.getLast?, isBlank c = false)
    (back : List Char) : trimBlanksRight (front ++ back) = front ++ trimBlanksRight back := by
  have hlast : ∀ c ∈ front.reverse.head?, isBlank c = false := by
    rwa [List.head?_reverse]
  rw [trimBlanksRight, trimBlanksRight, List.reverse_append, dropWhile_append_of_head? _ hlast,
    List.reverse_append, List.reverse_reverse]

/-- Blanks are taken off before and behind a character that is none. -/
theorem trimBlanks_append_cons {c : Char} (hc : isBlank c = false)
    (before behind : List Char) :
    trimBlanks (before ++ c :: behind) =
      before.dropWhile isBlank ++ c :: trimBlanksRight behind := by
  have hsplit : before.dropWhile isBlank ++ c :: behind =
      (before.dropWhile isBlank ++ [c]) ++ behind := by simp
  rw [trimBlanks, dropWhile_append_of_head? before (by simpa using hc), hsplit,
    trimBlanksRight_append (by simpa using hc), List.append_assoc, List.singleton_append]

/-- Blanks are taken off around what stands between two characters that are none. -/
theorem trimBlanks_append {first last : Char} (hfirst : isBlank first = false)
    (hlast : isBlank last = false) (before middle behind : List Char) :
    trimBlanks (before ++ first :: (middle ++ last :: behind)) =
      before.dropWhile isBlank ++ first :: (middle ++ last :: trimBlanksRight behind) := by
  have hsplit : before ++ first :: (middle ++ last :: behind) =
      (before ++ first :: middle) ++ last :: behind := by simp
  rw [hsplit, trimBlanks_append_cons hlast,
    dropWhile_append_of_head? before (by simpa using hfirst), List.append_assoc,
    List.cons_append]

end Lexeme

end SqlOutline
