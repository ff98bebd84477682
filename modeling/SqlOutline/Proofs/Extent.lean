import Mathlib.Data.List.TakeWhile
import SqlOutline.Character.Blank
import SqlOutline.Lexeme.OfText

/-!
# The extent of a token

Where a token ends is decided by the token and by at most one character behind it. So a
token is read alike from two texts that go on behind it with the same character, or in the
second one with nothing, or with a character that no token goes on with (`isBreak`). A
reader with this property is `Local`; the readers of a token are built from local ones.

## Main results

* `prefix_next`: a token takes its characters off the front of the text.
* `next_of_endsAlike`: the extent of a token does not depend on what comes later.
-/

namespace SqlOutline.Lexeme

/-- The characters outside of words that a token or a comment mark may go on with. -/
def joiners : List Char :=
  ['.', '+', '-', '*', '=', '>', '|', Quoted.single, Quoted.double, Quoted.back]

/-- Whether a character is one that no token and no comment mark goes on with. -/
def isBreak (c : Char) : Bool := !isWordPart c && !joiners.contains c

/-- A token that ends in front of `after` also ends in front of `later`. -/
def EndsAlike (later after : List Char) : Prop :=
  later = [] ∨
    (after ≠ [] ∧ (later.head? = after.head? ∨ ∃ c, later.head? = some c ∧ isBreak c = true))

/-- A reader whose extent is decided by what it reads and the character behind. -/
def Local (read : List Char → List Char) : Prop :=
  ∀ {text after later : List Char}, read (text ++ after) = text → EndsAlike later after →
    read (text ++ later) = text

/-! ### What stands behind a token -/

/-- Texts that end a token alike still do so behind the same further characters. -/
theorem EndsAlike.append_left {later after : List Char} (h : EndsAlike later after)
    (between : List Char) : EndsAlike (between ++ later) (between ++ after) := by
  cases between with
  | nil => exact h
  | cons c between => exact .inr ⟨by simp, .inl rfl⟩

/-- What ends in front of a text ends in front of any first part of it. -/
theorem endsAlike_of_shorter {front after : List Char} (h : front <+: after) :
    EndsAlike front after := by
  cases front with
  | nil => exact .inl rfl
  | cons c front =>
      obtain ⟨rest, rfl⟩ := h
      exact .inr ⟨by simp, .inl rfl⟩

/-- A class of characters without breaks that does not go on in front of `after` does not go
on in front of `later`. -/
theorem EndsAlike.head {later after : List Char} (h : EndsAlike later after) {p : Char → Bool}
    (hp : ∀ c, isBreak c = true → p c = false) (hafter : ∀ c ∈ after.head?, p c = false) :
    ∀ c ∈ later.head?, p c = false := by
  intro c hc
  rcases h with rfl | ⟨-, hsame | ⟨d, hd, hbreak⟩⟩
  · simp at hc
  · exact hafter c (hsame ▸ hc)
  · rw [hd, Option.mem_some_iff] at hc
    exact hc ▸ hp d hbreak

/-- No break is part of a word. -/
theorem isWordPart_of_isBreak {c : Char} (h : isBreak c = true) : isWordPart c = false := by
  simp only [isBreak, Bool.and_eq_true, Bool.not_eq_true'] at h
  exact h.1

/-- No break is a digit. -/
theorem isDigit_of_isBreak {c : Char} (h : isBreak c = true) : c.isDigit = false := by
  have hword := isWordPart_of_isBreak h
  by_contra hdigit
  simp [isWordPart, isAlphanumeric,
    isNumeric_of_isDigit (Bool.of_not_eq_false hdigit)] at hword

/-- No break joins two characters to one token. -/
theorem ne_of_isBreak {c d : Char} (h : isBreak c = true) (hd : d ∈ joiners) : c ≠ d := by
  rintro rfl
  simp [isBreak, hd] at h

/-! ### Local readers -/

/-- A stretch of a class of characters ends where its first other character stands. -/
theorem takeWhile_append_eq_left_iff {p : Char → Bool} {text after : List Char} :
    (text ++ after).takeWhile p = text ↔
      (∀ c ∈ text, p c = true) ∧ ∀ c ∈ after.head?, p c = false := by
  have hstop : after.takeWhile p = [] ↔ ∀ c ∈ after.head?, p c = false := by
    cases after with
    | nil => simp
    | cons c after => by_cases hc : p c = true <;> simp [hc]
  constructor
  · intro htext
    have hall : ∀ c ∈ text, p c = true := by
      intro c hc
      rw [← htext] at hc
      exact List.mem_takeWhile_imp hc
    rw [List.takeWhile_append_of_pos hall, List.append_right_eq_self] at htext
    exact ⟨hall, hstop.mp htext⟩
  · rintro ⟨hall, hafter⟩
    rw [List.takeWhile_append_of_pos hall, hstop.mpr hafter, List.append_nil]

/-- A reader that goes on as long as a class of characters without breaks does is local. -/
theorem local_takeWhile {p : Char → Bool} (hp : ∀ c, isBreak c = true → p c = false) :
    Local (List.takeWhile p) := by
  intro text after later htext hends
  rw [takeWhile_append_eq_left_iff] at htext ⊢
  exact ⟨htext.1, hends.head hp htext.2⟩

/-- One local reader behind another is local. -/
theorem Local.seq {first second : List Char → List Char} (hfirst : Local first)
    (hsecond : Local second) :
    Local fun cs => first cs ++ second (cs.drop (first cs).length) := by
  intro text after later htext hends
  dsimp only at htext ⊢
  generalize hone : first (text ++ after) = one at htext
  generalize htwo : second ((text ++ after).drop one.length) = two at htext
  subst htext
  rw [List.append_assoc] at hone htwo ⊢
  rw [List.drop_left] at htwo
  rw [hfirst hone (hends.append_left two), List.drop_left, hsecond htwo hends]

/-! ### Numerals -/

/-- How far digits go is told by the next character. -/
theorem local_digits : Local Numeral.digits := local_takeWhile fun _ => isDigit_of_isBreak

/-- There is a fraction wherever a point stands. -/
theorem fractionOf_eq_nil_iff {cs : List Char} :
    Numeral.fractionOf cs = [] ↔ ∀ c ∈ cs.head?, (c == '.') = false := by
  cases cs with
  | nil => simp [Numeral.fractionOf]
  | cons c cs => by_cases hc : c = '.' <;> simp [Numeral.fractionOf, hc]

/-- There is a sign wherever one stands. -/
theorem signOf_eq_nil_iff {cs : List Char} :
    Numeral.signOf cs = [] ↔ ∀ c ∈ cs.head?, (c == '+' || c == '-') = false := by
  cases cs with
  | nil => simp [Numeral.signOf]
  | cons c cs =>
      by_cases hplus : c = '+'
      · simp [Numeral.signOf, hplus]
      · by_cases hminus : c = '-' <;> simp [Numeral.signOf, hplus, hminus]

/-- There is an exponent wherever its letter stands. -/
theorem exponentOf_eq_nil_iff {cs : List Char} :
    Numeral.exponentOf cs = [] ↔ ∀ c ∈ cs.head?, (c == 'e' || c == 'E') = false := by
  unfold Numeral.exponentOf
  split <;> simp_all

/-- How far a fraction goes is told by the next character. -/
theorem local_fractionOf : Local Numeral.fractionOf := by
  intro text after later htext hends
  cases text with
  | nil =>
      rw [List.nil_append, fractionOf_eq_nil_iff] at htext ⊢
      refine hends.head (fun c hc => ?_) htext
      simpa using ne_of_isBreak hc (by simp [joiners])
  | cons c text =>
      obtain rfl : c = '.' := by
        by_contra hne
        rw [fractionOf_eq_nil_iff.mpr (by simpa using hne)] at htext
        simp at htext
      rw [List.cons_append, Numeral.fractionOf, List.cons.injEq] at htext ⊢
      exact ⟨rfl, local_digits htext.2 hends⟩

/-- How far a sign goes is told by the next character. -/
theorem local_signOf : Local Numeral.signOf := by
  intro text after later htext hends
  cases text with
  | nil =>
      rw [List.nil_append, signOf_eq_nil_iff] at htext ⊢
      refine hends.head (fun c hc => ?_) htext
      have hplus : c ≠ '+' := ne_of_isBreak hc (by simp [joiners])
      have hminus : c ≠ '-' := ne_of_isBreak hc (by simp [joiners])
      simp [hplus, hminus]
  | cons c text =>
      rw [← htext, List.cons_append]
      unfold Numeral.signOf
      split <;> simp_all [Numeral.signOf]

/-- How far an exponent goes is told by the next character. -/
theorem local_exponentOf : Local Numeral.exponentOf := by
  intro text after later htext hends
  cases text with
  | nil =>
      rw [List.nil_append, exponentOf_eq_nil_iff] at htext ⊢
      refine hends.head (fun c hc => ?_) htext
      have hword := isWordPart_of_isBreak hc
      simp only [Bool.or_eq_false_iff, beq_eq_false_iff_ne]
      constructor <;> rintro rfl <;> exact absurd hword (by decide)
  | cons c text =>
      by_cases hc : c = 'e' ∨ c = 'E'
      · simp only [List.cons_append, Numeral.exponentOf, if_pos hc, List.cons.injEq,
          true_and] at htext ⊢
        exact local_signOf.seq local_digits htext hends
      · simp [Numeral.exponentOf, hc] at htext

/-- A numeral is read alike in front of texts that end it alike. -/
theorem leading_of_endsAlike {text after later : List Char}
    (h : (Numeral.leading (text ++ after)).text = text) (hends : EndsAlike later after) :
    Numeral.leading (text ++ later) = Numeral.leading (text ++ after) := by
  simp only [Numeral.leading, Numeral.text] at h ⊢
  generalize hwhole : Numeral.digits (text ++ after) = whole at h ⊢
  generalize hfraction :
    Numeral.fractionOf ((text ++ after).drop whole.length) = fraction at h ⊢
  generalize hexponent :
    Numeral.exponentOf (((text ++ after).drop whole.length).drop fraction.length) = exponent
    at h ⊢
  subst h
  simp only [List.append_assoc, List.drop_left] at hwhole hfraction hexponent ⊢
  rw [local_digits hwhole ((hends.append_left exponent).append_left fraction), List.drop_left,
    local_fractionOf hfraction (hends.append_left exponent), List.drop_left,
    local_exponentOf hexponent hends]

/-! ### Quoted texts -/

/-- Behind an opening mark everything there is belongs to the quoted text. -/
theorem tail_eq_nil_iff {mark : Char} {cs : List Char} :
    Quoted.tail mark cs = [] ↔ cs = [] := by
  fun_cases Quoted.tail mark cs <;> simp

/-- Behind a bracket everything there is belongs to the quoted name. -/
theorem bracketTail_eq_nil_iff {cs : List Char} : Quoted.bracketTail cs = [] ↔ cs = [] := by
  fun_cases Quoted.bracketTail cs <;> simp

/-- A mark closes a quoted text exactly when it does not stand again behind itself. -/
theorem tail_mark_eq_iff {mark : Char} {after : List Char} :
    Quoted.tail mark (mark :: after) = [mark] ↔ ∀ c ∈ after.head?, (c == mark) = false := by
  cases after with
  | nil => simp [Quoted.tail]
  | cons c after => by_cases hc : c = mark <;> simp [Quoted.tail, hc]

/-- A character that is not the mark belongs to the quoted text. -/
theorem tail_cons_of_ne {mark c : Char} (hc : c ≠ mark) (cs : List Char) :
    Quoted.tail mark (c :: cs) = c :: Quoted.tail mark cs := by
  cases cs <;> simp [Quoted.tail, hc]

/-- How far a quoted text goes is told by the next character. -/
theorem local_quotedTail {mark : Char} (hmark : isBreak mark = false) :
    Local (Quoted.tail mark) := by
  intro text after later htext hends
  induction text using Quoted.tail.induct mark with
  | case1 =>
      rw [List.nil_append, tail_eq_nil_iff] at htext ⊢
      exact hends.resolve_right fun hright => hright.1 htext
  | case2 rest ih =>
      simp only [List.cons_append, Quoted.tail, if_true, List.cons.injEq, true_and] at htext ⊢
      exact ih htext
  | case3 d rest hd => simp [Quoted.tail, hd] at htext
  | case4 =>
      simp only [List.cons_append, List.nil_append, tail_mark_eq_iff] at htext ⊢
      refine hends.head (fun c hc => ?_) htext
      rw [beq_eq_false_iff_ne]
      rintro rfl
      simp [hmark] at hc
  | case5 c rest hc ih =>
      simp only [List.cons_append, tail_cons_of_ne hc, List.cons.injEq, true_and] at htext ⊢
      exact ih htext

/-- How far a name in brackets goes is told by the next character. -/
theorem local_bracketTail : Local Quoted.bracketTail := by
  intro text after later htext hends
  induction text with
  | nil =>
      rw [List.nil_append, bracketTail_eq_nil_iff] at htext ⊢
      exact hends.resolve_right fun hright => hright.1 htext
  | cons c text ih =>
      by_cases hc : c = ']'
      · simp_all [Quoted.bracketTail]
      · simp only [List.cons_append, Quoted.bracketTail, if_neg hc, List.cons.injEq,
          true_and] at htext ⊢
        exact ih htext

/-! ### Tokens -/

/-- A quoted text is a front of what is there. -/
theorem prefix_tail (mark : Char) (cs : List Char) : Quoted.tail mark cs <+: cs := by
  fun_induction Quoted.tail mark cs <;> simp_all

/-- A name in brackets is a front of what is there. -/
theorem prefix_bracketTail (cs : List Char) : Quoted.bracketTail cs <+: cs := by
  fun_induction Quoted.bracketTail cs <;> simp_all

/-- Digits are a front of what is there. -/
theorem prefix_digits (cs : List Char) : Numeral.digits cs <+: cs := List.takeWhile_prefix _

/-- A fraction is a front of what is there. -/
theorem prefix_fractionOf (cs : List Char) : Numeral.fractionOf cs <+: cs := by
  unfold Numeral.fractionOf
  split <;> simp [prefix_digits]

/-- A sign is a front of what is there. -/
theorem prefix_signOf (cs : List Char) : Numeral.signOf cs <+: cs := by
  unfold Numeral.signOf
  split <;> simp

/-- Two readers, one behind the other, take a prefix if each of them does. -/
theorem prefix_seq {first second : List Char → List Char} (hfirst : ∀ cs, first cs <+: cs)
    (hsecond : ∀ cs, second cs <+: cs) (cs : List Char) :
    first cs ++ second (cs.drop (first cs).length) <+: cs := by
  obtain ⟨rest, hrest⟩ := hfirst cs
  generalize first cs = one at hrest ⊢
  subst hrest
  rw [List.drop_left, List.prefix_append_right_inj]
  exact hsecond rest

/-- An exponent is a front of what is there. -/
theorem prefix_exponentOf (cs : List Char) : Numeral.exponentOf cs <+: cs := by
  unfold Numeral.exponentOf
  split
  · exact List.prefix_rfl
  · split
    · rw [List.cons_prefix_cons]
      exact ⟨rfl, prefix_seq prefix_signOf prefix_digits _⟩
    · exact List.nil_prefix

/-- A whole numeral is a front of what is there. -/
theorem prefix_leading_text (cs : List Char) : (Numeral.leading cs).text <+: cs := by
  rw [Numeral.leading, Numeral.text]
  rw [List.append_assoc]
  exact prefix_seq prefix_digits (prefix_seq prefix_fractionOf prefix_exponentOf) cs

/-- A word goes on as far as its characters do. -/
theorem word_snd (c : Char) (rest : List Char) :
    (word c rest).2 = rest.takeWhile isWordPart := by
  unfold word
  dsimp only
  split <;> rfl

/-- A digit begins a number. -/
theorem next_of_isDigit {c : Char} (hc : c.isDigit = true) (rest : List Char) :
    next c rest = number rest := by
  have hother : ∀ d, d.isDigit = false → c ≠ d := by
    rintro d hd rfl
    simp [hc] at hd
  have hmarks : ¬ (c = Quoted.double ∨ c = Quoted.back) := by
    rintro (h | h)
    · exact hother _ (by decide) h
    · exact hother _ (by decide) h
  rw [next, if_neg (hother _ (by decide)), if_neg hmarks,
    if_neg (hother _ (by decide)), if_pos hc]

/-- No word begins with a digit. -/
theorem isDigit_of_isWordStart {c : Char} (hc : isWordStart c = true) : c.isDigit = false := by
  by_contra hdigit
  rw [Bool.not_eq_false, Char.isDigit, Bool.and_eq_true, decide_eq_true_eq, decide_eq_true_eq,
    ge_iff_le, UInt32.le_iff_toNat_le, UInt32.le_iff_toNat_le] at hdigit
  have hrange : 48 ≤ c.toNat ∧ c.toNat ≤ 57 := hdigit
  have hascii : ∀ n < 128, 48 ≤ n ∧ n ≤ 57 → alphabeticRanges.contains n = false := by
    decide +kernel
  have hne : c ≠ '_' := by
    rintro rfl
    exact absurd hrange (by decide)
  simp [isWordStart, isAlphabetic, hascii c.toNat (by omega) hrange, hne] at hc

/-- What begins a word begins nothing else. -/
theorem next_of_isWordStart {c : Char} (hc : isWordStart c = true) (rest : List Char) :
    next c rest = word c rest := by
  have hother : ∀ d, isWordStart d = false → c ≠ d := by
    rintro d hd rfl
    simp [hc] at hd
  have hmarks : ¬ (c = Quoted.double ∨ c = Quoted.back) := by
    rintro (h | h)
    · exact hother _ (by decide) h
    · exact hother _ (by decide) h
  rw [next, if_neg (hother _ (by decide)), if_neg hmarks, if_neg (hother _ (by decide)),
    isDigit_of_isWordStart hc, if_neg (by decide), if_pos hc]

/-- A token takes its characters off the front of the text. -/
theorem prefix_next (c : Char) (rest : List Char) : (next c rest).2 <+: rest := by
  rw [next]
  split_ifs
  · exact prefix_tail c rest
  · exact prefix_tail c rest
  · exact prefix_bracketTail rest
  · exact prefix_leading_text rest
  · rw [word_snd]
    exact List.takeWhile_prefix _
  · unfold symbol
    split
    · exact List.nil_prefix
    · split <;> simp

/-- A symbol is its first character alone exactly when the next one makes no operator of it. -/
theorem symbol_snd_eq_nil_iff {c : Char} {rest : List Char} :
    (symbol c rest).2 = [] ↔ ∀ d ∈ rest.head?, (Token.ofPair? c d).isSome = false := by
  cases rest with
  | nil => simp [symbol]
  | cons d rest => cases hpair : Token.ofPair? c d <;> simp [symbol, hpair]

/-- A symbol that takes no second character is told by its first one. -/
theorem symbol_of_alone {c : Char} {rest : List Char} (h : (symbol c rest).2 = []) :
    symbol c rest = (Token.ofChar c, []) := by
  cases rest with
  | nil => rfl
  | cons d rest => cases hpair : Token.ofPair? c d <;> simp_all [symbol]

/-- The second character of an operator is no break. -/
theorem ofPair?_of_isBreak {c d : Char} (h : isBreak d = true) : Token.ofPair? c d = none := by
  have hne : d ≠ '=' ∧ d ≠ '>' ∧ d ≠ '|' := by
    refine ⟨?_, ?_, ?_⟩ <;> exact ne_of_isBreak h (by simp [joiners])
  unfold Token.ofPair?
  split <;> simp_all

/-- A word is the same in front of texts that end it alike. -/
theorem word_of_endsAlike {c : Char} {text after later : List Char} {token : Token}
    (h : word c (text ++ after) = (token, text)) (hends : EndsAlike later after) :
    word c (text ++ later) = (token, text) := by
  have htail : (text ++ after).takeWhile isWordPart = text := by rw [← word_snd c, h]
  have hlater := local_takeWhile (fun _ => isWordPart_of_isBreak) htail hends
  rw [word] at h ⊢
  rw [htail] at h
  rwa [hlater]

/-- A symbol is the same in front of texts that end it alike. -/
theorem symbol_of_endsAlike {c : Char} {text after later : List Char} {token : Token}
    (h : symbol c (text ++ after) = (token, text)) (hends : EndsAlike later after) :
    symbol c (text ++ later) = (token, text) := by
  cases text with
  | nil =>
      rw [List.nil_append] at h ⊢
      have halone := congrArg Prod.snd h
      rw [symbol_of_alone halone] at h
      rw [symbol_of_alone, h]
      rw [symbol_snd_eq_nil_iff] at halone ⊢
      exact hends.head (fun d hd => by simp [ofPair?_of_isBreak hd]) halone
  | cons d text =>
      simp only [List.cons_append, symbol] at h ⊢
      exact h

/-- The extent of a token does not depend on what comes later. -/
theorem next_of_endsAlike {c : Char} {text after later : List Char} {token : Token}
    (h : next c (text ++ after) = (token, text)) (hends : EndsAlike later after) :
    next c (text ++ later) = (token, text) := by
  rw [next] at h ⊢
  split_ifs at h ⊢ with hsingle hmark hbracket hdigit hword
  · rw [Prod.mk.injEq] at h ⊢
    exact ⟨h.1, local_quotedTail (hsingle ▸ by decide) h.2 hends⟩
  · rw [Prod.mk.injEq] at h ⊢
    exact ⟨h.1, local_quotedTail (by rcases hmark with rfl | rfl <;> decide) h.2 hends⟩
  · rw [Prod.mk.injEq] at h ⊢
    exact ⟨h.1, local_bracketTail h.2 hends⟩
  · simp only [number, Prod.mk.injEq] at h ⊢
    rw [leading_of_endsAlike h.2 hends]
    exact h
  · exact word_of_endsAlike h hends
  · exact symbol_of_endsAlike h hends

end SqlOutline.Lexeme
