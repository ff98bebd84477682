import SqlOutline.Proofs.Json.Tokens

/-!
# What is written is JSON

Both layouts lay the tokens of a value in their order, and they put nothing but blanks between
them. So what is written is a JSON text of the value in either layout, and the two texts differ
in their blanks only.

## Main results

* `Token.isSpelled_text`: the writer spells every token as the grammar allows.
* `lays_write`: a value is written as its tokens, with the blanks of the layout between them.
* `isText_write`: what is written is a JSON text of the value.
* `withoutBlanks_write`: without its blanks it is what is written on one line.
* `isPrintable_write_compact`: on one line no control character is written.
-/

namespace SqlOutline.Json

/-! ### The spelling of the writer -/

/-- How a token is written. -/
def Token.text : Token → List Char
  | .beginArray => ['[']
  | .endArray => [']']
  | .beginObject => ['\x7b']
  | .endObject => ['\x7d']
  | .comma => [',']
  | .colon => [':']
  | .bool true => ['t', 'r', 'u', 'e']
  | .bool false => ['f', 'a', 'l', 's', 'e']
  | .number value => Nat.toDigits 10 value
  | .string value => quote value

/-- A number is written in digits. -/
theorem isDigit_of_mem_toDigits {n : Nat} {c : Char} (h : c ∈ Nat.toDigits 10 n) :
    c.isDigit = true :=
  Nat.isDigit_of_mem_toDigits (by decide) (by decide) h

/-- Only zero is written with a zero in front. -/
theorem head_toDigits {n : Nat} (h : (Nat.toDigits 10 n).head? = some '0') : n = 0 := by
  induction n using Nat.strongRecOn with
  | _ n ih =>
      rw [Nat.toDigits_eq_if (by decide)] at h
      split_ifs at h with hlt
      · rw [List.head?_cons, Option.some_inj, Nat.digitChar_eq_zero] at h
        exact h
      · rw [List.head?_append_of_ne_nil _ Nat.toDigits_ne_nil] at h
        have := ih (n / 10) (by omega) h
        omega

/-- The hexadecimal digits are read back. -/
theorem hexDigit?_digitChar : ∀ n < 16, hexDigit? (Nat.digitChar n) = some n := by
  decide

/-- A character is written with a letter behind a backslash, by its number, or as itself. -/
theorem escape_cases (c : Char) :
    (∃ letter, (letter, c) ∈ shortEscapes ∧ escape c = ['\x5c', letter]) ∨
      (c.toNat < 0x20 ∧ escape c = unicodeEscape c.toNat) ∨
      (0x20 ≤ c.toNat ∧ c ≠ '\x22' ∧ c ≠ '\x5c' ∧ escape c = [c]) := by
  rw [escape]
  split_ifs with hquote hslash hb hf hn hr ht hcontrol
  · exact .inl ⟨_, by simp [shortEscapes, hquote], rfl⟩
  · exact .inl ⟨_, by simp [shortEscapes, hslash], rfl⟩
  · exact .inl ⟨_, by simp [shortEscapes, hb], rfl⟩
  · exact .inl ⟨_, by simp [shortEscapes, hf], rfl⟩
  · exact .inl ⟨_, by simp [shortEscapes, hn], rfl⟩
  · exact .inl ⟨_, by simp [shortEscapes, hr], rfl⟩
  · exact .inl ⟨_, by simp [shortEscapes, ht], rfl⟩
  · exact .inr (.inl ⟨hcontrol, rfl⟩)
  · exact .inr (.inr ⟨Nat.not_lt.mp hcontrol, hquote, hslash, rfl⟩)

/-- The writer spells every character in one of the ways that there are. -/
theorem spellsChar_escape (c : Char) : SpellsChar c (escape c) := by
  obtain ⟨letter, hletter, h⟩ | ⟨hcontrol, h⟩ | ⟨hle, hquote, hslash, h⟩ := escape_cases c
  · rw [h]
    exact .short hletter
  · -- below 0x20 the first two of the four digits are zeros
    rw [h]
    exact .code rfl rfl (hexDigit?_digitChar _ (by omega)) (hexDigit?_digitChar _ (by omega))
      (by omega)
  · rw [h]
    exact .plain hle hquote hslash

/-- The escapes of all characters spell them all. -/
theorem spellsChars_flatMap_escape (cs : List Char) : SpellsChars cs (cs.flatMap escape) := by
  induction cs with
  | nil => exact .nil
  | cons c cs ih => exact .cons (spellsChar_escape c) ih

/-- The writer spells every token as the grammar allows. -/
theorem Token.isSpelled_text (token : Token) : token.IsSpelled token.text := by
  cases token with
  | beginArray => exact .beginArray
  | endArray => exact .endArray
  | beginObject => exact .beginObject
  | endObject => exact .endObject
  | comma => exact .comma
  | colon => exact .colon
  | bool value =>
      cases value with
      | true => exact .boolTrue
      | false => exact .boolFalse
  | number value =>
      have hdigits : ∀ c ∈ Nat.toDigits 10 value, c.isDigit = true := fun c hc =>
        isDigit_of_mem_toDigits hc
      have hspelled := IsSpelled.number Nat.toDigits_ne_nil hdigits fun hhead => by
        rw [head_toDigits hhead]
        rfl
      rwa [Nat.ofDigitChars_ten_toDigits] at hspelled
  | string value => exact .string (spellsChars_flatMap_escape value.toList)

/-! ### The layout of the writer -/

/-- Whether a layout puts only blanks between tokens, of which none is a digit. -/
structure Layout.Within (blank : Char → Bool) (layout : Layout) : Prop where
  isDigit : ∀ c, blank c = true → c.isDigit = false
  lineBreak : ∀ depth, ∀ c ∈ layout.lineBreak depth, blank c = true
  colon : ∃ blanks, layout.colon = ':' :: blanks ∧ ∀ c ∈ blanks, blank c = true

/-- The compact layout has no blanks at all. -/
theorem within_compact {blank : Char → Bool} (h : ∀ c, blank c = true → c.isDigit = false) :
    Layout.compact.Within blank where
  isDigit := h
  lineBreak _ := List.forall_mem_nil _
  colon := ⟨[], rfl, List.forall_mem_nil _⟩

/-- The indented layout has only blanks between its tokens. -/
theorem within_indented : Layout.indented.Within isBlank where
  isDigit := isDigit_of_isBlank
  lineBreak depth := List.forall_mem_cons.mpr
    ⟨rfl, fun c hc => by rw [List.eq_of_mem_replicate hc]; rfl⟩
  colon := ⟨[' '], rfl, List.forall_mem_singleton.mpr rfl⟩

section Writer

variable {blank : Char → Bool} {layout : Layout} (hlayout : layout.Within blank)

/-- The row of tokens that the writer lays. -/
abbrev IsLaid (blank : Char → Bool) (row : List Token) (text : List Char) : Prop :=
  Lays blank (fun token text => text = token.text) row text

/-- A text that begins with no digit ends a number. -/
theorem noDigit_cons (c : Char) (cs : List Char) (h : c.isDigit = false) :
    NoDigit (c :: cs) := by
  intro d hd
  rwa [← Option.some_inj.mp hd]

include hlayout in
/-- A line break in front of a text that begins with no digit ends a number. -/
theorem noDigit_lineBreak {rest : List Char} (depth : Nat) (h : NoDigit rest) :
    NoDigit (layout.lineBreak depth ++ rest) := by
  cases hbreak : layout.lineBreak depth with
  | nil => exact h
  | cons c cs =>
      have hc := hlayout.lineBreak depth c (by rw [hbreak]; exact List.mem_cons_self)
      exact noDigit_cons c _ (hlayout.isDigit c hc)

/-- The other items of an array end a number in front of them, whatever is behind. -/
theorem noDigit_writeItems (depth : Nat) (items : List Json) {rest : List Char}
    (h : NoDigit rest) :
    NoDigit (writeItems layout depth items ++ rest) := by
  cases items with
  | nil => simpa [writeItems] using h
  | cons item items =>
      rw [writeItems]
      exact noDigit_cons ',' _ rfl

/-- The other fields of an object end a number in front of them, whatever is behind. -/
theorem noDigit_writeFields (depth : Nat) (fields : List (String × Json)) {rest : List Char}
    (h : NoDigit rest) : NoDigit (writeFields layout depth fields ++ rest) := by
  cases fields with
  | nil => simpa [writeFields] using h
  | cons field fields =>
      rw [writeFields]
      exact noDigit_cons ',' _ rfl

/-- A token that is written with one character may stand in front of anything. -/
theorem isLaid_cons (token : Token) {row : List Token} {rest : List Char} {c : Char}
    (htext : token.text = [c]) (hc : c.isDigit = false) (h : IsLaid blank row rest) :
    IsLaid blank (token :: row) (c :: rest) := by
  have hnumber : ∀ n, token ≠ .number n := by
    rintro n rfl
    have hdigit : c.isDigit = true :=
      isDigit_of_mem_toDigits (htext ▸ List.mem_singleton_self c)
    rw [hc] at hdigit
    cases hdigit
  exact h.token_append htext.symm hnumber

include hlayout in
/-- A key and its colon are laid in front of a value. -/
theorem isLaid_key {row : List Token} {rest : List Char} (key : String)
    (h : IsLaid blank row rest) :
    IsLaid blank (.string key :: .colon :: row) (quote key ++ (layout.colon ++ rest)) := by
  obtain ⟨blanks, hcolon, hblanks⟩ := hlayout.colon
  have hvalue := isLaid_cons .colon rfl rfl (h.blanks_append hblanks)
  rw [hcolon]
  exact .token_append rfl (by simp) hvalue

include hlayout

mutual

/-- A value is written as its tokens. -/
theorem lays_write (depth : Nat) {row : List Token} {rest : List Char} (hrest : NoDigit rest)
    (h : IsLaid blank row rest) :
    (value : Json) → IsLaid blank (tokens value ++ row) (write layout depth value ++ rest)
  | .bool true => by
      rw [tokens, write]
      exact .token_append rfl (by simp) h
  | .bool false => by
      rw [tokens, write]
      exact .token_append rfl (by simp) h
  | .number n => by
      rw [tokens, write]
      have hlays : IsLaid blank (.number n :: row) ([] ++ (Nat.toDigits 10 n ++ rest)) :=
        .cons (List.forall_mem_nil _) rfl (fun _ _ => hrest) h
      exact hlays
  | .string s => by
      rw [tokens, write]
      exact .token_append rfl (by simp) h
  | .array [] => by
      rw [tokens, write]
      exact isLaid_cons .beginArray rfl rfl (isLaid_cons .endArray rfl rfl h)
  | .array (item :: items) => by
      -- from the closing bracket to the opening one, as a part is laid in front of a text
      have hend := (isLaid_cons .endArray rfl rfl h).blanks_append (hlayout.lineBreak depth)
      have hdigit := noDigit_lineBreak hlayout depth (noDigit_cons ']' rest rfl)
      have hitems := lays_writeItems (depth + 1) hdigit hend items
      have hitem := lays_write (depth + 1) (noDigit_writeItems _ items hdigit) hitems item
      have hfirst := isLaid_cons .beginArray rfl rfl
        (hitem.blanks_append (hlayout.lineBreak (depth + 1)))
      simpa [tokens, write] using hfirst
  | .object [] => by
      rw [tokens, write]
      exact isLaid_cons .beginObject rfl rfl (isLaid_cons .endObject rfl rfl h)
  | .object ((key, value) :: fields) => by
      have hend := (isLaid_cons .endObject rfl rfl h).blanks_append (hlayout.lineBreak depth)
      have hdigit := noDigit_lineBreak hlayout depth (noDigit_cons '\x7d' rest rfl)
      have hfields := lays_writeFields (depth + 1) hdigit hend fields
      have hvalue := lays_write (depth + 1) (noDigit_writeFields _ fields hdigit) hfields value
      have hfirst := isLaid_cons .beginObject rfl rfl
        ((isLaid_key hlayout key hvalue).blanks_append (hlayout.lineBreak (depth + 1)))
      simpa [tokens, write] using hfirst

/-- The items behind the first one are laid out. -/
theorem lays_writeItems (depth : Nat) {row : List Token} {rest : List Char}
    (hrest : NoDigit rest) (h : IsLaid blank row rest) :
    (items : List Json) →
      IsLaid blank (itemTokens items ++ row) (writeItems layout depth items ++ rest)
  | [] => by
      rw [itemTokens, writeItems]
      exact h
  | item :: items => by
      have hitems := lays_writeItems depth hrest h items
      have hitem := lays_write depth (noDigit_writeItems _ items hrest) hitems item
      have hfirst := isLaid_cons .comma rfl rfl (hitem.blanks_append (hlayout.lineBreak depth))
      simpa [itemTokens, writeItems] using hfirst

/-- The fields behind the first one are laid out. -/
theorem lays_writeFields (depth : Nat) {row : List Token} {rest : List Char}
    (hrest : NoDigit rest) (h : IsLaid blank row rest) :
    (fields : List (String × Json)) →
      IsLaid blank (fieldTokens fields ++ row) (writeFields layout depth fields ++ rest)
  | [] => by
      rw [fieldTokens, writeFields]
      exact h
  | (key, value) :: fields => by
      have hfields := lays_writeFields depth hrest h fields
      have hvalue := lays_write depth (noDigit_writeFields _ fields hrest) hfields value
      have hfirst := isLaid_cons .comma rfl rfl
        ((isLaid_key hlayout key hvalue).blanks_append (hlayout.lineBreak depth))
      simpa [fieldTokens, writeFields] using hfirst

end

/-- What is written is a row of tokens. -/
theorem isLaid_write (value : Json) : IsLaid blank (tokens value) (write layout 0 value) := by
  have hend : IsLaid blank [] [] := .nil (List.forall_mem_nil _)
  have hnone : NoDigit [] := fun c hc => absurd hc (by simp)
  have hwrite := lays_write hlayout 0 hnone hend value
  rwa [List.append_nil, List.append_nil] at hwrite

end Writer

/-- What is written is a JSON text of the value. -/
theorem isText_write {layout : Layout} (hlayout : layout.Within isBlank) (value : Json) :
    IsText value (write layout 0 value) :=
  (isLaid_write hlayout value).mono (fun _ h => h) fun token _ h => by
    rw [h]
    exact token.isSpelled_text

/-! ### Texts without their blanks -/

/-- Where in a text a character stands: between strings, in one, or behind a
backslash in one. -/
inductive Place where
  | outside
  | inside
  | escaped

/-- A text from a place on without the blanks between strings. -/
def withoutBlanksFrom : Place → List Char → List Char
  | _, [] => []
  | .outside, c :: cs =>
    if isBlank c then withoutBlanksFrom .outside cs
    else c :: withoutBlanksFrom (if c = '\x22' then .inside else .outside) cs
  | .inside, c :: cs =>
    c :: withoutBlanksFrom
      (if c = '\x22' then .outside else if c = '\x5c' then .escaped else .inside) cs
  | .escaped, c :: cs => c :: withoutBlanksFrom .inside cs

/-- A text without the blanks between its strings. -/
def withoutBlanks (text : List Char) : List Char := withoutBlanksFrom .outside text

/-- Blanks outside of strings are left out. -/
theorem withoutBlanksFrom_blanks {blanks : List Char} (h : ∀ c ∈ blanks, isBlank c = true)
    (rest : List Char) :
    withoutBlanksFrom .outside (blanks ++ rest) = withoutBlanksFrom .outside rest := by
  induction blanks with
  | nil => rfl
  | cons c blanks ih =>
      obtain ⟨hc, hblanks⟩ := List.forall_mem_cons.mp h
      rw [List.cons_append, withoutBlanksFrom, if_pos hc, ih hblanks]

/-- All else outside of strings is kept. -/
theorem withoutBlanksFrom_plain {text : List Char}
    (h : ∀ c ∈ text, isBlank c = false ∧ c ≠ '\x22') (rest : List Char) :
    withoutBlanksFrom .outside (text ++ rest) = text ++ withoutBlanksFrom .outside rest := by
  induction text with
  | nil => rfl
  | cons c text ih =>
      obtain ⟨⟨hblank, hquote⟩, htext⟩ := List.forall_mem_cons.mp h
      rw [List.cons_append, withoutBlanksFrom, hblank, if_neg hquote, ih htext]
      rfl

/-- A hexadecimal digit is no mark and no backslash. -/
theorem digitChar_ne : ∀ n < 16, Nat.digitChar n ≠ '\x22' ∧ Nat.digitChar n ≠ '\x5c' := by
  decide

/-- Within a string every escape is kept. -/
theorem withoutBlanksFrom_escape (c : Char) (rest : List Char) :
    withoutBlanksFrom .inside (escape c ++ rest) =
      escape c ++ withoutBlanksFrom .inside rest := by
  obtain ⟨letter, -, h⟩ | ⟨hcontrol, h⟩ | ⟨-, hquote, hslash, h⟩ := escape_cases c
  · rw [h]
    rfl
  · have hhigh := digitChar_ne (c.toNat / 16) (by omega)
    have hlow := digitChar_ne (c.toNat % 16) (by omega)
    rw [h]
    simp [unicodeEscape, withoutBlanksFrom, hhigh, hlow]
  · rw [h]
    simp [withoutBlanksFrom, hquote, hslash]

/-- Within a string all escapes are kept. -/
theorem withoutBlanksFrom_flatMap_escape (cs rest : List Char) :
    withoutBlanksFrom .inside (cs.flatMap escape ++ rest) =
      cs.flatMap escape ++ withoutBlanksFrom .inside rest := by
  induction cs with
  | nil => rfl
  | cons c cs ih =>
      rw [List.flatMap_cons, List.append_assoc, withoutBlanksFrom_escape, ih,
        List.append_assoc]

/-- In a token there is nothing to leave out. -/
theorem withoutBlanksFrom_text (token : Token) (rest : List Char) :
    withoutBlanksFrom .outside (token.text ++ rest) =
      token.text ++ withoutBlanksFrom .outside rest := by
  cases token with
  | number value =>
      refine withoutBlanksFrom_plain (fun c hc => ?_) rest
      have hdigit := isDigit_of_mem_toDigits hc
      refine ⟨not_isBlank_of_isDigit hdigit, ?_⟩
      rintro rfl
      cases hdigit
  | string value =>
      have hstring := withoutBlanksFrom_flatMap_escape value.toList ('\x22' :: rest)
      simp [Token.text, quote, withoutBlanksFrom, isBlank, hstring]
  | bool value => cases value <;> rfl
  | beginArray | endArray | beginObject | endObject | comma | colon => rfl

/-- Without its blanks a text is its tokens. -/
theorem withoutBlanks_of_isLaid {row : List Token} {text : List Char}
    (h : IsLaid isBlank row text) : withoutBlanks text = row.flatMap Token.text := by
  induction h with
  | nil hblanks =>
      have hnone := withoutBlanksFrom_blanks hblanks []
      rwa [List.append_nil] at hnone
  | cons hblanks htext _ _ ih =>
      rw [withoutBlanks, withoutBlanksFrom_blanks hblanks, htext, withoutBlanksFrom_text,
        List.flatMap_cons, ← ih, withoutBlanks]

/-- A text in which nothing is a blank is its tokens. -/
theorem eq_of_isLaid {row : List Token} {text : List Char}
    (h : IsLaid (fun _ => false) row text) : text = row.flatMap Token.text := by
  induction h with
  | nil hblanks => exact List.eq_nil_iff_forall_not_mem.mpr fun c hc => by cases hblanks c hc
  | @cons blanks text rest token later hblanks htext _ _ ih =>
      have hnone : blanks = [] :=
        List.eq_nil_iff_forall_not_mem.mpr fun c hc => by cases hblanks c hc
      rw [hnone, htext, ih, List.flatMap_cons, List.nil_append]

/-- Compact text is the tokens one behind the other. -/
theorem write_compact (value : Json) :
    write .compact 0 value = (tokens value).flatMap Token.text :=
  eq_of_isLaid (isLaid_write (within_compact fun _ h => by cases h) value)

/-- Without its blanks what is written is what is written on one line. -/
theorem withoutBlanks_write {layout : Layout} (hlayout : layout.Within isBlank)
    (value : Json) :
    withoutBlanks (write layout 0 value) = write .compact 0 value := by
  rw [withoutBlanks_of_isLaid (isLaid_write hlayout value), write_compact]

/-! ### Control characters -/

/-- Whether no control character is in a text. -/
def IsPrintable (text : List Char) : Prop := ∀ c ∈ text, 0x20 ≤ c.toNat

/-- A hexadecimal digit can be printed. -/
theorem le_digitChar : ∀ n < 16, 0x20 ≤ (Nat.digitChar n).toNat := by
  decide

/-- Every escape can be printed. -/
theorem isPrintable_escape (c : Char) : IsPrintable (escape c) := by
  obtain ⟨letter, hletter, h⟩ | ⟨hcontrol, h⟩ | ⟨hle, -, -, h⟩ := escape_cases c
  · have hshort : ∀ pair ∈ shortEscapes, 0x20 ≤ pair.1.toNat := by decide
    simpa [IsPrintable, h] using hshort _ hletter
  · have hhigh := le_digitChar (c.toNat / 16) (by omega)
    have hlow := le_digitChar (c.toNat % 16) (by omega)
    simpa [IsPrintable, h, unicodeEscape] using ⟨hhigh, hlow⟩
  · simpa [IsPrintable, h] using hle

/-- Every token can be printed. -/
theorem isPrintable_text (token : Token) : IsPrintable token.text := by
  cases token with
  | number value =>
      intro c hc
      have hdigit := isDigit_of_mem_toDigits hc
      simp only [Char.isDigit, Bool.and_eq_true, decide_eq_true_eq] at hdigit
      have hle : '0'.toNat ≤ c.toNat := hdigit.1
      exact Nat.le_trans (by decide) hle
  | string value =>
      have hinside : IsPrintable (value.toList.flatMap escape) := fun c hc => by
        obtain ⟨d, -, hd⟩ := List.mem_flatMap.mp hc
        exact isPrintable_escape d c hd
      have hend : IsPrintable ['\x22'] := List.forall_mem_singleton.mpr (by decide)
      exact List.forall_mem_cons.mpr ⟨by decide, List.forall_mem_append.mpr ⟨hinside, hend⟩⟩
  | bool value => cases value <;> simp [IsPrintable, Token.text]
  | beginArray | endArray | beginObject | endObject | comma | colon =>
      simp [IsPrintable, Token.text]

/-- On one line no control character is written. -/
theorem isPrintable_write_compact (value : Json) : IsPrintable (write .compact 0 value) := by
  intro c hc
  rw [write_compact, List.mem_flatMap] at hc
  obtain ⟨token, -, htoken⟩ := hc
  exact isPrintable_text token c htoken

end SqlOutline.Json
