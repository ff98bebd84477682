import SqlOutline.Proofs.Extent

/-!
# The last character of a token

Blanks around a statement are cut off, so it matters that a token does not end in one. A
quoted text may hold blanks, but once something follows it, it has been closed and ends in
its mark. Every other token is made up of characters that a token may go on with, and no
blank is among those.

## Main results

* `isBreak_of_isBlank`: no token goes on with a blank.
* `not_isBlank_of_next`: a token that something follows does not end in a blank.
-/

namespace SqlOutline.Lexeme

/-! ### Characters inside of tokens -/

/-- No token goes on with a blank. -/
theorem isBreak_of_isBlank {c : Char} (h : isBlank c = true) : isBreak c = true := by
  have hpoints : ∀ range ∈ blankRanges, ∀ n ∈ List.range' range.1 (range.2 + 1 - range.1),
      alphabeticRanges.contains n = false ∧ numericRanges.contains n = false := by
    decide +kernel
  obtain ⟨range, hrange, hfirst, hlast⟩ :=
    (Ranges.contains_iff_exists blankRanges_ascending).mp h
  obtain ⟨halphabetic, hnumeric⟩ := hpoints range hrange c.toNat (by
    rw [List.mem_range'_1]
    omega)
  have hne : ∀ d, isBlank d = false → c ≠ d := by
    rintro d hd rfl
    simp [h] at hd
  have hjoiners : joiners.all (!isBlank ·) = true := by decide
  have hunderscore : c ≠ '_' := hne _ (by decide)
  have hdollar : c ≠ '$' := hne _ (by decide)
  have hmem : c ∉ joiners := by
    intro hmem
    simpa [h] using List.all_eq_true.mp hjoiners c hmem
  simp [isBreak, isWordPart, isAlphanumeric, isAlphabetic, isNumeric, halphabetic, hnumeric,
    hunderscore, hdollar, hmem]

/-- A character with which a token may go on is no blank. -/
theorem not_isBlank_of_not_isBreak {c : Char} (h : isBreak c = false) : isBlank c = false := by
  by_contra hblank
  rw [isBreak_of_isBlank (Bool.of_not_eq_false hblank)] at h
  exact absurd h (by decide)

/-- No part of a word is a break. -/
theorem not_isBreak_of_isWordPart {c : Char} (h : isWordPart c = true) :
    isBreak c = false := by
  simp [isBreak, h]

/-- Nothing that joins two characters is a break. -/
theorem not_isBreak_of_mem_joiners {c : Char} (h : c ∈ joiners) : isBreak c = false := by
  simp [isBreak, h]

/-- No digit is a break. -/
theorem not_isBreak_of_isDigit {c : Char} (h : c.isDigit = true) : isBreak c = false := by
  refine not_isBreak_of_isWordPart ?_
  simp [isWordPart, isAlphanumeric, isNumeric_of_isDigit h]

/-- A numeral has digits, points, signs and the letter `e` in it and no break. -/
theorem not_isBreak_of_mem_leading {cs : List Char} :
    ∀ c ∈ (Numeral.leading cs).text, isBreak c = false := by
  have hdigits : ∀ cs, ∀ c ∈ Numeral.digits cs, isBreak c = false := fun cs c hc =>
    not_isBreak_of_isDigit (List.mem_takeWhile_imp hc)
  have hfraction : ∀ cs, ∀ c ∈ Numeral.fractionOf cs, isBreak c = false := by
    intro cs c hc
    unfold Numeral.fractionOf at hc
    split at hc
    · rcases List.mem_cons.mp hc with rfl | hc
      · exact not_isBreak_of_mem_joiners (by simp [joiners])
      · exact hdigits _ c hc
    · simp at hc
  have hsign : ∀ cs, ∀ c ∈ Numeral.signOf cs, isBreak c = false := by
    intro cs c hc
    unfold Numeral.signOf at hc
    split at hc <;> simp only [List.mem_singleton, List.not_mem_nil] at hc
    · exact not_isBreak_of_mem_joiners (by simp [joiners, hc])
    · exact not_isBreak_of_mem_joiners (by simp [joiners, hc])
  have hexponent : ∀ cs, ∀ c ∈ Numeral.exponentOf cs, isBreak c = false := by
    intro cs c hc
    unfold Numeral.exponentOf at hc
    split at hc
    · simp at hc
    · split at hc
      · next he =>
        rcases List.mem_cons.mp hc with rfl | hc
        · rcases he with rfl | rfl <;> exact not_isBreak_of_isWordPart (by decide +kernel)
        · rcases List.mem_append.mp hc with hc | hc
          · exact hsign _ c hc
          · exact hdigits _ c hc
      · simp at hc
  intro c hc
  simp only [Numeral.leading, Numeral.text, List.mem_append] at hc
  rcases hc with (hc | hc) | hc
  · exact hdigits _ c hc
  · exact hfraction _ c hc
  · exact hexponent _ c hc

/-! ### Closed tokens -/

/-- A quoted text that something follows ends in its mark. -/
theorem getLast?_tail {mark : Char} {text after : List Char}
    (h : Quoted.tail mark (text ++ after) = text) (hafter : after ≠ []) :
    text.getLast? = some mark := by
  induction text using Quoted.tail.induct mark with
  | case1 =>
      rw [List.nil_append, tail_eq_nil_iff] at h
      exact absurd h hafter
  | case2 rest ih =>
      simp only [List.cons_append, Quoted.tail, if_true, List.cons.injEq, true_and] at h
      rw [List.getLast?_cons, List.getLast?_cons, ih h]
      rfl
  | case3 d rest hd => simp [Quoted.tail, hd] at h
  | case4 => rfl
  | case5 c rest hc ih =>
      simp only [List.cons_append, tail_cons_of_ne hc, List.cons.injEq, true_and] at h
      rw [List.getLast?_cons, ih h]
      rfl

/-- A bracketed text that something follows ends in the closing bracket. -/
theorem getLast?_bracketTail {text after : List Char}
    (h : Quoted.bracketTail (text ++ after) = text) (hafter : after ≠ []) :
    text.getLast? = some ']' := by
  induction text with
  | nil =>
      rw [List.nil_append, bracketTail_eq_nil_iff] at h
      exact absurd h hafter
  | cons c text ih =>
      by_cases hc : c = ']'
      · simp only [List.cons_append, Quoted.bracketTail, if_pos hc, List.cons.injEq] at h
        rw [← h.2, hc]
        rfl
      · simp only [List.cons_append, Quoted.bracketTail, if_neg hc, List.cons.injEq,
          true_and] at h
        rw [List.getLast?_cons, ih h]
        rfl

/-- A token that something follows does not end in a blank. -/
theorem not_isBlank_of_next {c : Char} {text after : List Char} {token : Token}
    (h : next c (text ++ after) = (token, text)) (hc : isBlank c = false)
    (hafter : after ≠ []) :
    ∀ last ∈ (c :: text).getLast?, isBlank last = false := by
  have hplain : (∀ d ∈ text, isBreak d = false) →
      ∀ last ∈ (c :: text).getLast?, isBlank last = false := by
    intro htext last hlast
    rcases List.mem_cons.mp (List.mem_of_getLast? hlast) with rfl | hmem
    · exact hc
    · exact not_isBlank_of_not_isBreak (htext last hmem)
  have hclosed : ∀ mark, text.getLast? = some mark → isBlank mark = false →
      ∀ last ∈ (c :: text).getLast?, isBlank last = false := by
    intro mark hmark hblank last hlast
    rw [List.getLast?_cons, hmark] at hlast
    obtain rfl : mark = last := by simpa using hlast
    exact hblank
  rw [next] at h
  split_ifs at h with hsingle hmark
  · rw [Prod.mk.injEq] at h
    exact hclosed c (getLast?_tail h.2 hafter) hc
  · rw [Prod.mk.injEq] at h
    exact hclosed c (getLast?_tail h.2 hafter) hc
  · rw [Prod.mk.injEq] at h
    exact hclosed ']' (getLast?_bracketTail h.2 hafter) (by decide)
  · rw [number, Prod.mk.injEq] at h
    exact hplain fun d hd => not_isBreak_of_mem_leading d (h.2 ▸ hd)
  · have htail : (text ++ after).takeWhile isWordPart = text := by rw [← word_snd c, h]
    refine hplain fun d hd => not_isBreak_of_isWordPart ?_
    rw [← htail] at hd
    exact List.mem_takeWhile_imp hd
  · refine hplain fun d hd => ?_
    by_contra hbreak
    have hsecond : Token.ofPair? c d = none :=
      ofPair?_of_isBreak (Bool.of_not_eq_false hbreak)
    cases text with
    | nil => simp at hd
    | cons e text =>
        simp only [List.cons_append, symbol] at h
        split at h <;> simp_all

end SqlOutline.Lexeme
