import SqlOutline.Proofs.Extent
import SqlOutline.Proofs.Trivia

/-!
# Readings

`Lexeme.ofText` cuts a whole text. This module describes the cut piece by piece: `Reads cs ls
rest` says that the lexemes `ls` are read off the front of `cs` and leave `rest`. Readings of
neighbouring parts compose, and what they leave may be exchanged for another text that ends
the last token alike, so that facts about a text can be put together from facts about its
parts.

## Main results

* `exists_reads_ofText`: a text is read by its lexemes up to the trivia at its end.
* `Reads.ofText_eq`: what has been read makes up the first lexemes of the text.
* `Reads.exchange`: a reading does not depend on what comes later.
-/

namespace SqlOutline.Lexeme

/-- The lexemes `ls` are read off the front of a text, and the last argument is left. -/
inductive Reads : List Char → List Lexeme → List Char → Prop
  | nil {rest : List Char} : Reads rest [] rest
  | cons {gap tail rest last : List Char} {c : Char} {token : Token} {ls : List Lexeme} :
      Trivia.Row gap (c :: (tail ++ rest)) → Trivia.begins (c :: (tail ++ rest)) = false →
      next c (tail ++ rest) = (token, tail) → Reads rest ls last →
      Reads (gap ++ c :: (tail ++ rest)) (⟨gap, token, c :: tail⟩ :: ls) last

/-- A text consists of the lexemes read off it and of what they leave. -/
theorem Reads.source_append {cs rest : List Char} {ls : List Lexeme} (h : Reads cs ls rest) :
    ls.flatMap source ++ rest = cs := by
  induction h with
  | nil => rfl
  | cons _ _ _ _ ih =>
      rw [List.flatMap_cons, List.append_assoc, ih]
      simp [source]

/-- Readings of neighbouring parts of a text compose. -/
theorem Reads.append {cs middle rest : List Char} {ls more : List Lexeme}
    (h : Reads cs ls middle) (hmore : Reads middle more rest) :
    Reads cs (ls ++ more) rest := by
  induction h with
  | nil => exact hmore
  | cons hgap hbegins hnext _ ih => exact .cons hgap hbegins hnext (ih hmore)

/-- A lexeme of a reading is the token that begins at its place. -/
theorem Reads.exists_next {cs rest : List Char} {ls : List Lexeme} (h : Reads cs ls rest) :
    ∀ l ∈ ls, ∃ c tail after,
      l.text = c :: tail ∧ next c (tail ++ after) = (l.token, tail) := by
  induction h with
  | nil => simp
  | @cons gap tail rest last c token ls _ _ hnext _ ih =>
      intro l hl
      rcases List.mem_cons.mp hl with rfl | hl
      · exact ⟨c, tail, rest, rfl, hnext⟩
      · exact ih l hl

/-! ### Readings and the lexemes of a text -/

/-- A text of nothing but trivia has no lexemes. -/
theorem ofText_of_behind_nil {cs : List Char} (h : Trivia.behind .between cs = []) :
    ofText cs = [] := by
  rw [Trivia.behind] at h
  rw [ofText]
  split
  · rfl
  · simp_all

/-- Any other text begins with trivia and a token. -/
theorem ofText_of_behind_cons {cs rest : List Char} {c : Char}
    (h : Trivia.behind .between cs = c :: rest) :
    ofText cs = ⟨Trivia.leading .between cs, (next c rest).1, c :: (next c rest).2⟩ ::
      ofText (rest.drop (next c rest).2.length) := by
  rw [Trivia.behind] at h
  rw [ofText]
  split <;> simp_all

/-- Behind a row of trivia stands what no further piece begins with. -/
theorem behind_append_of_row {row after : List Char} (h : Trivia.Row row after)
    (hafter : Trivia.begins after = false) :
    Trivia.behind .between (row ++ after) = after := by
  rw [Trivia.behind, Trivia.leading_append_of_row h hafter, List.drop_left]

/-- A text of trivia has no lexemes. -/
theorem ofText_of_row {cs : List Char} (h : Trivia.Row cs []) : ofText cs = [] := by
  have hbehind := behind_append_of_row h rfl
  rw [List.append_nil] at hbehind
  exact ofText_of_behind_nil hbehind

/-- What has been read makes up the first lexemes of the text. -/
theorem Reads.ofText_eq {cs rest : List Char} {ls : List Lexeme} (h : Reads cs ls rest) :
    ofText cs = ls ++ ofText rest := by
  induction h with
  | nil => rfl
  | cons hgap hbegins hnext _ ih =>
      rw [ofText_of_behind_cons (behind_append_of_row hgap hbegins), hnext,
        Trivia.leading_append_of_row hgap hbegins, List.drop_left, ih, List.cons_append]

/-- A text is read by its lexemes up to the trivia at its end. -/
theorem exists_reads_ofText (cs : List Char) :
    ∃ trailing, Reads cs (ofText cs) trailing ∧ Trivia.Row trailing [] := by
  have hcs := Trivia.leading_append_behind .between cs
  have hgap := Trivia.leading_row cs
  have hbegins := Trivia.not_begins_behind .between cs
  cases hbehind : Trivia.behind .between cs with
  | nil =>
      rw [hbehind, List.append_nil] at hcs
      rw [hbehind, hcs] at hgap
      rw [ofText_of_behind_nil hbehind]
      exact ⟨cs, .nil, hgap⟩
  | cons c rest =>
      rw [hbehind] at hcs hgap hbegins
      rw [ofText_of_behind_cons hbehind]
      have hprefix := prefix_next c rest
      rcases hnext : next c rest with ⟨token, tail⟩
      rw [hnext] at hprefix
      obtain ⟨behind, rfl⟩ := hprefix
      have hshort : behind.length < cs.length := by
        rw [← hcs]
        simp only [List.length_append, List.length_cons]
        omega
      obtain ⟨trailing, hreads, hrow⟩ := exists_reads_ofText behind
      have hcons := Reads.cons hgap hbegins hnext hreads
      rw [hcs] at hcons
      rw [List.drop_left]
      exact ⟨trailing, hcons, hrow⟩
termination_by cs.length

/-! ### Exchanging what comes later -/

/-- Where no trivia begins, none begins with another text behind either. -/
theorem begins_of_endsAlike {c : Char} {after later : List Char}
    (h : Trivia.begins (c :: after) = false) (hends : EndsAlike later after) :
    Trivia.begins (c :: later) = false := by
  rw [Trivia.begins_cons_eq_false_iff] at h ⊢
  refine ⟨h.1, hends.head (fun d hd => ?_) h.2⟩
  have hminus : d ≠ '-' := ne_of_isBreak hd (by simp [joiners])
  have hstar : d ≠ '*' := ne_of_isBreak hd (by simp [joiners])
  simp [hminus, hstar]

/-- A reading does not depend on what comes later. -/
theorem Reads.exchange {cs : List Char} {ls : List Lexeme} {after later : List Char}
    (h : Reads cs ls after) (hends : EndsAlike later after) :
    Reads (ls.flatMap source ++ later) ls later := by
  induction h with
  | nil => exact .nil
  | @cons gap tail rest last c token ls hgap hbegins hnext hrest ih =>
      have hsource := hrest.source_append
      subst hsource
      have hends' := hends.append_left (ls.flatMap source)
      have hbegins' := begins_of_endsAlike hbegins (hends'.append_left tail)
      have hgap' : Trivia.Row gap (c :: (tail ++ (ls.flatMap source ++ later))) :=
        hgap.congr (by simp) rfl
      have hnext' : next c (tail ++ (ls.flatMap source ++ later)) = (token, tail) :=
        next_of_endsAlike hnext hends'
      have hcons := Reads.cons hgap' hbegins' hnext' (ih hends)
      simpa [source] using hcons

end SqlOutline.Lexeme
