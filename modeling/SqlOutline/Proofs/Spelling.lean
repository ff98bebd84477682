import SqlOutline.Proofs.LastCharacter
import SqlOutline.Proofs.Reading

/-!
# Texts that spell lexemes

A text spells a run of lexemes when the run is read off it in front of every further text
that no token goes on with. What is spelled can be put together: one text behind another,
when the second begins with a blank or a comma, spells both runs.

## Main results

* `Spells.append`, `Spells.spaced`: texts behind one another, and behind a blank.
* `Spells.ofText_eq`: the lexemes of a text are those that it spells.
* `spells_keyword`, `spells_number`: keywords and numbers as they are printed.
* `Spells.not_isBlank_of_getLast?`: what is spelled does not end in a blank.
-/

namespace SqlOutline.Lexeme

/-- No token goes on with a text. -/
def Clear (later : List Char) : Prop := ∀ c ∈ later.head?, isBreak c = true

/-- The text is read as a whole, whatever stands clear of it. -/
def Spells (text : List Char) (ls : List Lexeme) : Prop :=
  ∀ later, Clear later → Reads (text ++ later) ls later

/-- A run behind a blank. -/
def spaced : List Lexeme → List Lexeme
  | [] => []
  | l :: ls => { l with gap := ' ' :: l.gap } :: ls

/-- A space is a break. -/
theorem isBreak_space : isBreak ' ' = true := isBreak_of_isBlank (by decide)

/-- The end of a text ends every token. -/
theorem clear_nil : Clear [] := by simp [Clear]

/-- A space ends every token. -/
theorem clear_space (cs : List Char) : Clear (' ' :: cs) := by simp [Clear, isBreak_space]

/-- A comma ends every token. -/
theorem clear_comma (cs : List Char) : Clear (',' :: cs) := by
  have hcomma : isBreak ',' = true := by decide +kernel
  simp [Clear, hcomma]

/-- A text that stands clear of a token ends it as a blank does. -/
theorem Clear.endsAlike {later : List Char} (h : Clear later) : EndsAlike later [' '] := by
  cases later with
  | nil => exact .inl rfl
  | cons c later => exact .inr ⟨by simp, .inr ⟨c, rfl, h c rfl⟩⟩

/-- What is behind a text that ends every token is of no consequence. -/
theorem Clear.append {more later : List Char} (h : Clear more) (hlater : Clear later) :
    Clear (more ++ later) := by
  cases more with
  | nil => exact hlater
  | cons c more => simpa [Clear] using h

/-! ### Putting spellings together -/

variable {text more : List Char} {ls ms : List Lexeme}

/-- No text spells no lexemes. -/
theorem spells_nil : Spells [] [] := fun _ _ => .nil

/-- Two texts spell their lexemes one behind the other, if the second one ends every token. -/
theorem Spells.append (h : Spells text ls) (hmore : Spells more ms) (hclear : Clear more) :
    Spells (text ++ more) (ls ++ ms) := by
  intro later hlater
  rw [List.append_assoc]
  exact (h _ (hclear.append hlater)).append (hmore later hlater)

/-- A text that is read in front of a blank is read in front of all that stands clear. -/
theorem spells_of_reads (h : Reads (text ++ [' ']) ls [' ']) : Spells text ls := by
  intro later hlater
  have htext : ls.flatMap source = text := List.append_cancel_right h.source_append
  rw [← htext]
  exact h.exchange hlater.endsAlike

/-- A token that a blank ends is spelled by its characters. -/
theorem spells_of_next {c : Char} {tail : List Char} {token : Token}
    (h : next c (tail ++ [' ']) = (token, tail))
    (hbegins : Trivia.begins (c :: (tail ++ [' '])) = false) :
    Spells (c :: tail) [⟨[], token, c :: tail⟩] :=
  spells_of_reads (.cons .nil hbegins h .nil)

/-- A space in front belongs to the gap of the first lexeme. -/
theorem Spells.spaced (h : Spells text ls) (hls : ls ≠ []) :
    Spells (' ' :: text) (spaced ls) := by
  intro later hlater
  have hreads := h later hlater
  rw [List.cons_append]
  generalize text ++ later = cs at hreads
  cases hreads with
  | nil => exact absurd rfl hls
  | cons hgap hbegins hnext hrest =>
      exact .cons (.cons (.blank (by decide)) hgap) hbegins hnext hrest

/-- The lexemes of a text are those that it spells. -/
theorem Spells.ofText_eq (h : Spells text ls) : ofText text = ls := by
  have hreads := h [] clear_nil
  rw [List.append_nil] at hreads
  rw [hreads.ofText_eq, ofText_of_row .nil, List.append_nil]

/-- A text is the source of the lexemes that it spells. -/
theorem Spells.source_eq (h : Spells text ls) : ls.flatMap source = text := by
  simpa using (h [] clear_nil).source_append

/-! ### Single tokens -/

/-- A token that begins with neither a blank nor a comment mark has no trivia before it. -/
theorem begins_of_ne {c : Char} (hblank : isBlank c = false) (hminus : c ≠ '-')
    (hslash : c ≠ '/') (cs : List Char) : Trivia.begins (c :: cs) = false := by
  rw [Trivia.begins.eq_3 _ _ (by simp [hminus]) (by simp [hslash])]
  exact hblank

/-- A comma spells itself. -/
theorem spells_comma : Spells [','] [⟨[], .comma, [',']⟩] :=
  spells_of_next (by decide +kernel) (begins_of_ne (by decide) (by decide) (by decide) _)

/-- An asterisk spells itself. -/
theorem spells_asterisk : Spells ['*'] [⟨[], .asterisk, ['*']⟩] :=
  spells_of_next (by decide +kernel) (begins_of_ne (by decide) (by decide) (by decide) _)

/-- No other text than the character itself has an asterisk or a semicolon as its token. -/
theorem eq_of_next_eq_ofChar {c d : Char} {rest tail : List Char} (hd : d = '*' ∨ d = ';')
    (h : next c rest = (Token.ofChar d, tail)) : c = d ∧ tail = [] := by
  have hchar : Token.ofChar c = Token.ofChar d → c = d := by
    rcases hd with rfl | rfl <;> rw [Token.ofChar.eq_def c] <;> split <;> simp [Token.ofChar]
  have hpair : ∀ e, Token.ofPair? c e ≠ some (Token.ofChar d) := by
    intro e
    rcases hd with rfl | rfl <;> unfold Token.ofPair? <;> split <;> simp [Token.ofChar]
  have htoken : Token.ofChar d = .asterisk ∨ Token.ofChar d = .semicolon :=
    hd.imp (by rintro rfl; rfl) (by rintro rfl; rfl)
  generalize Token.ofChar d = token at *
  rcases htoken with rfl | rfl
  all_goals
    rw [next] at h
    split_ifs at h <;> try simp [number] at h
    · unfold word at h
      dsimp only at h
      split at h <;> simp at h
    · unfold symbol at h
      split at h
      · simp_all
      · split at h <;> simp_all

/-- Only an asterisk spells the token of one, if nothing stands before it. -/
theorem Spells.eq_asterisk {l : Lexeme} (h : Spells text [l]) (htoken : l.token = .asterisk)
    (hgap : l.gap = []) : text = ['*'] := by
  have hreads := h [] clear_nil
  generalize hcs : text ++ [] = cs at hreads
  cases hreads with
  | cons _ _ hnext hrest =>
      subst htoken hgap
      obtain ⟨rfl, rfl⟩ := eq_of_next_eq_ofChar (.inl rfl) hnext
      cases hrest
      simpa using hcs

/-- The name of a keyword spells it. -/
theorem spells_keyword (k : Keyword) :
    Spells k.name.toList [⟨[], .keyword k, k.name.toList⟩] := by
  have hfirst : ∃ c tail, k.name.toList = c :: tail ∧
      next c (tail ++ [' ']) = (.keyword k, tail) ∧ isBlank c = false ∧ c ≠ '-' ∧ c ≠ '/' := by
    cases k <;> exact ⟨_, _, rfl, by decide +kernel⟩
  obtain ⟨c, tail, hname, hnext, hblank, hminus, hslash⟩ := hfirst
  rw [hname]
  exact spells_of_next hnext (begins_of_ne hblank hminus hslash _)

/-- The word that marks the ascending order is no keyword. -/
theorem spells_ascending : Spells "ASC".toList [⟨[], .identifier, "ASC".toList⟩] :=
  spells_of_next (by decide +kernel) (begins_of_ne (by decide) (by decide) (by decide) _)

/-- A row of digits spells a whole number. -/
theorem spells_digits {digits : List Char} (hdigits : ∀ c ∈ digits, c.isDigit = true)
    (hne : digits ≠ []) : Spells digits [⟨[], .number false, digits⟩] := by
  cases digits with
  | nil => exact absurd rfl hne
  | cons c tail =>
      have hc : c.isDigit = true := hdigits c List.mem_cons_self
      have hother : ∀ d, d.isDigit = false → c ≠ d := by
        rintro d hd rfl
        simp [hc] at hd
      have hblank : isBlank c = false := not_isBlank_of_not_isBreak (not_isBreak_of_isDigit hc)
      have htail : Numeral.digits (tail ++ [' ']) = tail := by
        refine takeWhile_append_eq_left_iff.mpr ⟨fun d hd => ?_, by simp⟩
        exact hdigits d (List.mem_cons_of_mem c hd)
      have hnumeral : Numeral.leading (tail ++ [' ']) = ⟨tail, [], []⟩ := by
        simp [Numeral.leading, htail, Numeral.fractionOf, Numeral.exponentOf]
      have hnext : next c (tail ++ [' ']) = (.number false, tail) := by
        rw [next_of_isDigit hc, number, hnumeral]
        simp [Numeral.text, Numeral.isFloat]
      exact spells_of_next hnext
        (begins_of_ne hblank (hother _ (by decide)) (hother _ (by decide)) _)

/-- The digits of a number spell it. -/
theorem spells_number (n : Nat) :
    Spells n.repr.toList [⟨[], .number false, n.repr.toList⟩] := by
  rw [Nat.toList_repr]
  exact spells_digits (fun c hc => Nat.isDigit_of_mem_toDigits (by decide) (by decide) hc)
    Nat.toDigits_ne_nil

/-! ### Texts behind a blank -/

/-- A text that begins with a blank or a comma, if it is not empty, and spells a run. -/
structure Continues (text : String) (run : List Lexeme) : Prop where
  clear : Clear text.toList
  spells : Spells text.toList run

/-- A keyword behind a blank. -/
def keywordAfterBlank (k : Keyword) : Lexeme := ⟨[' '], .keyword k, k.name.toList⟩

/-- Runs with a comma between them. -/
def commaSeparated (runs : List (List Lexeme)) : List Lexeme :=
  [⟨[], .comma, [',']⟩].intercalate runs

/-- No text continues any other with nothing. -/
theorem continues_nil : Continues "" [] := ⟨clear_nil, spells_nil⟩

/-- Two texts that continue any other do so together. -/
theorem Continues.append {s t : String} (h : Continues s ls) (hmore : Continues t ms) :
    Continues (s ++ t) (ls ++ ms) := by
  constructor
  · rw [String.toList_append]
    exact h.clear.append hmore.clear
  · rw [String.toList_append]
    exact h.spells.append hmore.spells hmore.clear

/-- A text behind a space continues any other. -/
theorem Spells.continues {s : String} (h : Spells s.toList ls) (hls : ls ≠ []) :
    Continues (" " ++ s) (Lexeme.spaced ls) := by
  have htext : (" " ++ s).toList = ' ' :: s.toList := by
    rw [String.toList_append]
    rfl
  constructor
  · rw [htext]
    exact clear_space _
  · rw [htext]
    exact h.spaced hls

/-- A keyword behind a space continues any text. -/
theorem continues_keyword (k : Keyword) : Continues (" " ++ k.name) [keywordAfterBlank k] :=
  (spells_keyword k).continues (by simp)

/-- A comma continues any text. -/
theorem continues_comma : Continues "," [⟨[], .comma, [',']⟩] :=
  ⟨clear_comma [], spells_comma⟩

/-- A part that may be left out continues any text if it does so when it is there. -/
theorem continues_elim {α : Type} {text : α → String} {run : α → List Lexeme}
    (h : ∀ a, Continues (text a) (run a)) (option : Option α) :
    Continues (option.elim "" text) (option.elim [] run) := by
  cases option with
  | none => exact continues_nil
  | some a => exact h a

/-- Parts that continue any text do so one behind the other. -/
theorem continues_join {α : Type} {text : α → String} {run : α → List Lexeme}
    (h : ∀ a, Continues (text a) (run a)) (items : List α) :
    Continues (String.join (items.map text)) (items.flatMap run) := by
  induction items with
  | nil => exact continues_nil
  | cons a items ih =>
      rw [List.map_cons, String.join_cons, List.flatMap_cons]
      exact (h a).append ih

/-- Parts that continue any text do so with commas between them. -/
theorem continues_intercalate {α : Type} {text : α → String} {run : α → List Lexeme}
    (h : ∀ a, Continues (text a) (run a)) (items : List α) :
    Continues (",".intercalate (items.map text)) (commaSeparated (items.map run)) := by
  induction items with
  | nil => exact continues_nil
  | cons a items ih =>
      cases items with
      | nil =>
          rw [List.map_singleton, String.intercalate_singleton, commaSeparated,
            List.map_singleton, List.intercalate_singleton]
          exact h a
      | cons b items =>
          rw [List.map_cons, List.map_cons, String.intercalate_cons_cons, commaSeparated,
            List.map_cons, List.map_cons, List.intercalate_cons_cons]
          exact ((h a).append continues_comma).append ih

/-! ### The last character -/

/-- What has been read in front of something does not end in a blank. -/
theorem Reads.not_isBlank_of_getLast? {cs rest : List Char} (h : Reads cs ls rest)
    (hrest : rest ≠ []) : ∀ c ∈ (ls.flatMap source).getLast?, isBlank c = false := by
  induction h with
  | nil => simp
  | @cons gap tail between last c token ls _ hbegins hnext hmore ih =>
      have hc : isBlank c = false := (Trivia.begins_cons_eq_false_iff.mp hbegins).1
      cases hmore with
      | nil =>
          have hlast := not_isBlank_of_next hnext hc hrest
          simpa [source] using hlast
      | cons hgap' hbegins' hnext' hmore' =>
          have hlast := ih hrest
          simp only [List.flatMap_cons, source, List.append_assoc] at hlast ⊢
          rw [List.getLast?_append_of_ne_nil _ (by simp),
            List.getLast?_append_of_ne_nil _ (by simp)]
          exact hlast

/-- What is spelled does not end in a blank. -/
theorem Spells.not_isBlank_of_getLast? (h : Spells text ls) :
    ∀ c ∈ text.getLast?, isBlank c = false := by
  rw [← h.source_eq]
  exact (h [' '] (clear_space [])).not_isBlank_of_getLast? (by simp)

/-- Nothing is cut off a text that neither begins nor ends in a blank. -/
theorem trimBlanks_eq_self {cs : List Char} (hfirst : ∀ c ∈ cs.head?, isBlank c = false)
    (hlast : ∀ c ∈ cs.getLast?, isBlank c = false) : trimBlanks cs = cs := by
  have hdrop : ∀ {text : List Char}, (∀ c ∈ text.head?, isBlank c = false) →
      text.dropWhile isBlank = text := by
    intro text htext
    cases text with
    | nil => rfl
    | cons c text => simp [htext c rfl]
  rw [trimBlanks, hdrop hfirst, trimBlanksRight, hdrop (by simpa using hlast),
    List.reverse_reverse]

end SqlOutline.Lexeme
