import SqlOutline.Proofs.Limit
import SqlOutline.Proofs.Placement
import SqlOutline.Proofs.UpperCase.Character

/-!
# Lexemes in upper case

A text in upper case has the same tokens at the same places: what a token is and where it ends
depends on classes of characters that do not tell letters from each other, on single characters
that are no letters, and on words that are compared in upper case. So each reader of a part of
a token reads of a text in upper case what it reads of the text, in upper case.

## Main results

* `next_map_toUpper`: a token is read alike in upper case.
* `Reads.upper`: so is a row of tokens with the trivia between them.
* `ofText_map_toUpper`, `tokensOf_toUpper`: the lexemes of a text, and their places.
-/

namespace SqlOutline

/-! ### Trivia -/

namespace Trivia

/-- A comment closes in upper case where it closes. -/
theorem closing_infix_map_toUpper (cs : List Char) :
    closing <:+: cs.map Char.toUpper ↔ closing <:+: cs := by
  induction cs with
  | nil => rfl
  | cons c cs ih =>
      have hslash : (cs.map Char.toUpper).head? = some '/' ↔ cs.head? = some '/' := by
        cases cs <;> simp [toUpper_eq_iff]
      rw [List.map_cons, closing_infix_cons, closing_infix_cons, ih, hslash,
        toUpper_eq_iff rfl]

/-- A piece of trivia is one in upper case. -/
theorem Piece.upper {piece after : List Char} (h : Piece piece after) :
    Piece (piece.map Char.toUpper) (after.map Char.toUpper) := by
  cases h with
  | blank hblank => exact .blank (by rw [isBlank_toUpper, hblank])
  | lineComment hbody hend =>
      refine .lineComment ?_ ?_
      · simpa [toUpper_eq_iff] using hbody
      · cases after <;> simp_all
  | @blockComment body after hbody =>
      rw [← closing_infix_map_toUpper, List.map_append] at hbody
      have hpiece : Piece _ (after.map Char.toUpper) := .blockComment hbody
      simpa [closing] using hpiece
  | openComment hbody =>
      rw [← closing_infix_map_toUpper] at hbody
      exact .openComment hbody

/-- A row of trivia is one in upper case. -/
theorem Row.upper {row after : List Char} (h : Row row after) :
    Row (row.map Char.toUpper) (after.map Char.toUpper) := by
  induction h with
  | nil => exact .nil
  | cons hpiece _ ih =>
      have hupper := hpiece.upper
      rw [List.map_append] at hupper ⊢
      exact .cons hupper ih

/-- Trivia begin in upper case where they begin. -/
theorem begins_map_toUpper (cs : List Char) : begins (cs.map Char.toUpper) = begins cs := by
  cases cs with
  | nil => rfl
  | cons c cs =>
      rw [Bool.eq_iff_iff, ← not_iff_not, Bool.not_eq_true, Bool.not_eq_true, List.map_cons,
        begins_cons_eq_false_iff, begins_cons_eq_false_iff, isBlank_toUpper]
      cases cs <;> simp [toUpper_eq_iff]

end Trivia

/-! ### Parts of tokens -/

/-- A quoted text ends in upper case where it ends. -/
theorem Quoted.tail_map_toUpper {mark : Char} (hmark : mark.isAlpha = false) (cs : List Char) :
    tail mark (cs.map Char.toUpper) = (tail mark cs).map Char.toUpper := by
  have hsame : mark.toUpper = mark := (toUpper_eq_iff hmark).mpr rfl
  fun_induction tail mark cs with
  | case1 => rfl
  | case2 rest ih => simp [tail, hsame, ih]
  | case3 d rest hd => simp [tail, hsame, toUpper_eq_iff hmark, hd]
  | case4 => simp [tail, hsame]
  | case5 c rest hc ih =>
      have hupper : c.toUpper ≠ mark := by rwa [Ne, toUpper_eq_iff hmark]
      rw [List.map_cons, Lexeme.tail_cons_of_ne hupper, ih, List.map_cons]

/-- A name in brackets ends in upper case where it ends. -/
theorem Quoted.bracketTail_map_toUpper (cs : List Char) :
    bracketTail (cs.map Char.toUpper) = (bracketTail cs).map Char.toUpper := by
  induction cs with
  | nil => rfl
  | cons c cs ih =>
      rw [List.map_cons, bracketTail, bracketTail, ih]
      simp only [toUpper_eq_iff (d := ']') rfl]
      split <;> rfl

namespace Numeral

/-- A numeral in upper case. -/
def upper (n : Numeral) : Numeral :=
  ⟨n.whole.map Char.toUpper, n.fraction.map Char.toUpper, n.exponent.map Char.toUpper⟩

/-- Digits are as many in upper case. -/
theorem digits_map_toUpper (cs : List Char) :
    digits (cs.map Char.toUpper) = (digits cs).map Char.toUpper := by
  have hdigit : Char.isDigit ∘ Char.toUpper = Char.isDigit := funext isDigit_toUpper
  rw [digits, digits, List.takeWhile_map, hdigit]

/-- A fraction goes as far in upper case. -/
theorem fractionOf_map_toUpper (cs : List Char) :
    fractionOf (cs.map Char.toUpper) = (fractionOf cs).map Char.toUpper := by
  fun_cases fractionOf cs with
  | case1 rest => rw [List.map_cons, List.map_cons, ← digits_map_toUpper]; rfl
  | case2 cs h =>
      rw [List.map_nil, Lexeme.fractionOf_eq_nil_iff]
      cases cs with
      | nil => simp
      | cons c cs => simpa [toUpper_eq_iff] using h

/-- A sign goes as far in upper case. -/
theorem signOf_map_toUpper (cs : List Char) :
    signOf (cs.map Char.toUpper) = (signOf cs).map Char.toUpper := by
  fun_cases signOf cs with
  | case1 => rfl
  | case2 => rfl
  | case3 cs hplus hminus =>
      rw [List.map_nil, Lexeme.signOf_eq_nil_iff]
      cases cs with
      | nil => simp
      | cons c cs => simp_all [toUpper_eq_iff]

/-- The letter of an exponent has two cases, and both are looked for. -/
theorem exponentOf_map_toUpper (cs : List Char) :
    exponentOf (cs.map Char.toUpper) = (exponentOf cs).map Char.toUpper := by
  cases cs with
  | nil => rfl
  | cons c cs =>
      have hletter : (c.toUpper = 'e' ∨ c.toUpper = 'E') ↔ (c = 'e' ∨ c = 'E') := by
        rw [← toUpper_eq_E_iff, ← toUpper_eq_E_iff, toUpper_toUpper]
      rw [List.map_cons, exponentOf, exponentOf]
      by_cases hc : c = 'e' ∨ c = 'E'
      · rw [if_pos hc, if_pos (hletter.mpr hc), signOf_map_toUpper, List.length_map,
          ← List.map_drop, digits_map_toUpper, List.map_cons, List.map_append]
      · rw [if_neg hc, if_neg (mt hletter.mp hc), List.map_nil]

/-- A numeral goes as far in upper case. -/
theorem leading_map_toUpper (cs : List Char) :
    leading (cs.map Char.toUpper) = (leading cs).upper := by
  rw [leading, leading, upper]
  simp only [digits_map_toUpper, List.length_map, ← List.map_drop, fractionOf_map_toUpper,
    exponentOf_map_toUpper]

/-- The text of a numeral in upper case is its text in upper case. -/
theorem text_upper (n : Numeral) : n.upper.text = n.text.map Char.toUpper := by
  rw [text, text, List.map_append, List.map_append]
  rfl

/-- A numeral is whole in upper case if it is whole. -/
theorem isFloat_upper (n : Numeral) : n.upper.isFloat = n.isFloat := by
  rw [isFloat, isFloat, upper, List.isEmpty_map, List.isEmpty_map]

end Numeral

/-- A keyword is looked for in upper case. -/
theorem Keyword.ofText?_map_toUpper (cs : List Char) :
    ofText? (cs.map Char.toUpper) = ofText? cs := by
  have htwice : Char.toUpper ∘ Char.toUpper = Char.toUpper := funext toUpper_toUpper
  rw [ofText?, ofText?, List.map_map, htwice]

/-- Letters are no operators. -/
theorem Token.ofChar_of_isAlpha {c : Char} (h : c.isAlpha = true) : ofChar c = other := by
  unfold ofChar
  split <;> first | rfl | cases h

/-- No letter is part of an operator. -/
theorem Token.ofPair?_of_isAlpha {c d : Char} (h : c.isAlpha = true ∨ d.isAlpha = true) :
    ofPair? c d = none := by
  unfold ofPair?
  split
  case h_7 => rfl
  all_goals rcases h with h | h <;> cases h

/-- Operators are the same in upper case. -/
theorem Token.ofPair?_map_toUpper (c d : Char) :
    ofPair? c.toUpper d.toUpper = ofPair? c d := by
  rw [apply_toUpper (f := fun c => ofPair? c d.toUpper)
      (fun _ hc => ofPair?_of_isAlpha (.inl hc)) c,
    apply_toUpper (fun _ hd => ofPair?_of_isAlpha (.inr hd)) d]

/-! ### Tokens -/

namespace Lexeme

/-- A word is the same token in upper case. -/
theorem word_map_toUpper (c : Char) (rest : List Char) :
    word c.toUpper (rest.map Char.toUpper) =
      ((word c rest).1, (word c rest).2.map Char.toUpper) := by
  have hpart : isWordPart ∘ Char.toUpper = isWordPart := funext isWordPart_toUpper
  have htail : (rest.map Char.toUpper).takeWhile isWordPart =
      (rest.takeWhile isWordPart).map Char.toUpper := by
    rw [List.takeWhile_map, hpart]
  rw [word, word, htail, ← List.map_cons, Keyword.ofText?_map_toUpper]
  split <;> rfl

/-- A number is the same token in upper case. -/
theorem number_map_toUpper (rest : List Char) :
    number (rest.map Char.toUpper) = ((number rest).1, (number rest).2.map Char.toUpper) := by
  simp only [number, Numeral.leading_map_toUpper, Numeral.isFloat_upper, Numeral.text_upper]

/-- A symbol is the same token in upper case. -/
theorem symbol_map_toUpper (c : Char) (rest : List Char) :
    symbol c.toUpper (rest.map Char.toUpper) =
      ((symbol c rest).1, (symbol c rest).2.map Char.toUpper) := by
  have hchar : Token.ofChar c.toUpper = Token.ofChar c :=
    apply_toUpper (fun _ => Token.ofChar_of_isAlpha) c
  cases rest with
  | nil => rw [List.map_nil, symbol, symbol, hchar, List.map_nil]
  | cons d rest =>
      rw [List.map_cons, symbol, symbol, Token.ofPair?_map_toUpper, hchar]
      split <;> rfl

/-- A token is read alike in upper case. -/
theorem next_map_toUpper (c : Char) (rest : List Char) :
    next c.toUpper (rest.map Char.toUpper) =
      ((next c rest).1, (next c rest).2.map Char.toUpper) := by
  have hmark : ∀ mark : Char, mark.isAlpha = false → (c.toUpper = mark ↔ c = mark) :=
    fun _ => toUpper_eq_iff
  have hquoted : c.isAlpha = false → Quoted.tail c.toUpper (rest.map Char.toUpper) =
      (Quoted.tail c rest).map Char.toUpper := by
    intro hc
    rw [(toUpper_eq_iff hc).mpr rfl, Quoted.tail_map_toUpper hc]
  rw [next, next]
  simp only [hmark Quoted.single rfl, hmark Quoted.double rfl, hmark Quoted.back rfl,
    hmark '[' rfl, isDigit_toUpper, isWordStart_toUpper]
  split_ifs with hsingle hquote hbracket hdigit hword
  · rw [hquoted (by rw [hsingle]; rfl)]
  · rw [hquoted (by rcases hquote with rfl | rfl <;> rfl)]
  · rw [Quoted.bracketTail_map_toUpper]
  · exact number_map_toUpper rest
  · exact word_map_toUpper c rest
  · exact symbol_map_toUpper c rest

/-! ### Rows of tokens -/

/-- A lexeme in upper case. -/
def upper (l : Lexeme) : Lexeme := ⟨l.gap.map Char.toUpper, l.token, l.text.map Char.toUpper⟩

/-- Lexemes touch in upper case where they touch. -/
theorem touchesPrevious_upper (l : Lexeme) : l.upper.touchesPrevious = l.touchesPrevious :=
  List.isEmpty_map

/-- A row of tokens is read alike in upper case. -/
theorem Reads.upper {cs rest : List Char} {ls : List Lexeme} (h : Reads cs ls rest) :
    Reads (cs.map Char.toUpper) (ls.map Lexeme.upper) (rest.map Char.toUpper) := by
  induction h with
  | nil => exact .nil
  | @cons gap tail rest last c token ls hgap hbegins hnext _ ih =>
      have hgap' := hgap.upper
      have hnext' := next_map_toUpper c (tail ++ rest)
      rw [← Trivia.begins_map_toUpper] at hbegins
      rw [hnext] at hnext'
      simp only [List.map_append, List.map_cons] at hgap' hbegins hnext' ⊢
      exact .cons hgap' hbegins hnext' ih

/-- The lexemes of a text in upper case are its lexemes in upper case. -/
theorem ofText_map_toUpper (cs : List Char) :
    ofText (cs.map Char.toUpper) = (ofText cs).map upper := by
  obtain ⟨trailing, hreads, hrow⟩ := exists_reads_ofText cs
  rw [hreads.upper.ofText_eq, ofText_of_row hrow.upper, List.append_nil]

/-- All tokens stand at the same places in upper case. -/
theorem tokensFrom_map_upper (offset : Nat) (ls : List Lexeme) :
    tokensFrom offset (ls.map upper) = tokensFrom offset ls := by
  induction ls generalizing offset with
  | nil => rfl
  | cons l ls ih =>
      have hsource : byteCount l.upper.source = byteCount l.source := by
        rw [source, source, byteCount_append, byteCount_append, upper, byteCount_map_toUpper,
          byteCount_map_toUpper]
      rw [List.map_cons, tokensFrom_cons, tokensFrom_cons, ih, hsource, upper,
        byteCount_map_toUpper]

/-- The tokens of a text have the same places in upper case. -/
theorem tokensOf_toUpper (source : String) : tokensOf source.toUpper = tokensOf source := by
  rw [tokensOf, tokensOf, toList_toUpper, ofText_map_toUpper, tokensFrom_map_upper]

/-- The text of a run in upper case. -/
theorem spelling_map_upper (run : List Lexeme) :
    spelling (run.map upper) = (spelling run).map Char.toUpper := by
  have hsource : ∀ ls : List Lexeme,
      (ls.map upper).flatMap source = (ls.flatMap source).map Char.toUpper := by
    intro ls
    induction ls with
    | nil => rfl
    | cons l ls ih =>
        rw [List.map_cons, List.flatMap_cons, ih, List.flatMap_cons, List.map_append, source,
          source, List.map_append]
        rfl
  cases run with
  | nil => rfl
  | cons l rest =>
      rw [List.map_cons, spelling, spelling, hsource, List.map_append]
      rfl

/-- Whole numbers have no letters. -/
theorem text_upper_of_number {cs : List Char} {l : Lexeme} (hl : l ∈ ofText cs)
    (hnumber : l.token = .number false) : l.upper.text = l.text := by
  have hdigits := (token_eq_number_iff hl).mp hnumber
  have hsame : l.text.map Char.toUpper = l.text.map id := by
    refine List.map_congr_left fun c hc => ?_
    rcases toUpper_eq_or_isAlpha c with hupper | ⟨halpha, -⟩
    · exact hupper
    · have hdigit := hdigits c hc
      rw [isDigit_of_isAlpha halpha] at hdigit
      cases hdigit
  rw [upper, hsame, List.map_id]

end Lexeme

/-- The same blanks stand around a text in upper case. -/
theorem trimBlanks_map_toUpper (cs : List Char) :
    trimBlanks (cs.map Char.toUpper) = (trimBlanks cs).map Char.toUpper := by
  have hblank : isBlank ∘ Char.toUpper = isBlank := funext isBlank_toUpper
  rw [trimBlanks, trimBlanks, trimBlanksRight, trimBlanksRight, List.dropWhile_map, hblank,
    ← List.map_reverse, List.dropWhile_map, hblank, List.map_reverse]

end SqlOutline
