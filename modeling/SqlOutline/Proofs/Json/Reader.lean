import SqlOutline.Proofs.Json.Tokens

/-!
# Reading JSON texts

A text is read in two steps. The scanner takes its characters one by one and gives the tokens.
The parser takes the tokens one by one and keeps the arrays and objects that are still open,
the innermost one first. Every JSON text of a value is read as that value, so a text stands for
one value at most.

## Main results

* `scan_of_lays`: the tokens that are laid in a text are scanned from it.
* `parse_tokens`: the tokens of a value are parsed as the value.
* `read_of_isText`: a JSON text of a value is read as the value.
-/

namespace SqlOutline.Json

/-! ### The scanner -/

/-- Where the scanner stands. The characters of a string are kept with the last one first. -/
inductive ScanState where
  | between
  | name (rest : List Char) (value : Bool)
  | number (value : Nat)
  | string (chars : List Char)
  | escape (chars : List Char)
  | code (chars : List Char) (left value : Nat)

namespace ScanState

/-- What the characters begin that are neither blanks nor digits. -/
def marks : List (Char × ScanState × List Token) :=
  [('[', .between, [.beginArray]), (']', .between, [.endArray]),
   ('\x7b', .between, [.beginObject]), ('\x7d', .between, [.endObject]),
   (',', .between, [.comma]), (':', .between, [.colon]),
   ('t', .name ['r', 'u', 'e'] true, []), ('f', .name ['a', 'l', 's', 'e'] false, []),
   ('\x22', .string [], [])]

/-- The step from between the tokens. -/
def start (c : Char) : Option (ScanState × List Token) :=
  if isBlank c then some (.between, [])
  else if c.isDigit then some (.number (c.toNat - '0'.toNat), [])
  else marks.lookup c

/-- The step over a character, with the tokens that end at it. -/
def step : ScanState → Char → Option (ScanState × List Token)
  | .between, c => start c
  | .name [] _, _ => none
  | .name [d] value, c => if c = d then some (.between, [.bool value]) else none
  | .name (d :: ds) value, c => if c = d then some (.name ds value, []) else none
  | .number value, c =>
    if c.isDigit then some (.number (10 * value + (c.toNat - '0'.toNat)), [])
    else (start c).map fun next => (next.1, .number value :: next.2)
  | .string chars, c =>
    if c = '\x22' then some (.between, [.string (String.ofList chars.reverse)])
    else if c = '\x5c' then some (.escape chars, [])
    else if 0x20 ≤ c.toNat then some (.string (c :: chars), [])
    else none
  | .escape chars, c =>
    if c = 'u' then some (.code chars 3 0, [])
    else (shortEscapes.lookup c).map fun d => (.string (d :: chars), [])
  | .code chars left value, c => (hexDigit? c).map fun n =>
    match left with
    | 0 => (.string (Char.ofNat (value * 16 + n) :: chars), [])
    | left + 1 => (.code chars left (value * 16 + n), [])

/-- The tokens that end with the text. -/
def finish : ScanState → Option (List Token)
  | .between => some []
  | .number value => some [.number value]
  | _ => none

end ScanState

open ScanState

/-- The tokens of a text from a place on. -/
def scan (state : ScanState) : List Char → Option (List Token)
  | [] => state.finish
  | c :: cs => (state.step c).bind fun next => (scan next.1 cs).map (next.2 ++ ·)

section Scan

variable {state next : ScanState} {c : Char} {row : List Token}

/-- A text is scanned character by character. -/
theorem scan_cons (h : state.step c = some (next, row)) (cs : List Char) :
    scan state (c :: cs) = (scan next cs).map (row ++ ·) := by
  rw [scan, h, Option.bind_some]

/-- A character at which no token ends only changes the place. -/
theorem scan_cons_silent (h : state.step c = some (next, [])) (cs : List Char) :
    scan state (c :: cs) = scan next cs := by
  rw [scan_cons h]
  exact Option.map_id_apply

end Scan

/-- A blank between tokens is passed over. -/
theorem step_blank {c : Char} (h : isBlank c = true) :
    ScanState.between.step c = some (.between, []) := by
  rw [step, start, if_pos h]

/-- Several blanks between tokens are passed over. -/
theorem scan_blanks {blanks : List Char} (h : ∀ c ∈ blanks, isBlank c = true)
    (rest : List Char) :
    scan .between (blanks ++ rest) = scan .between rest := by
  induction blanks with
  | nil => rfl
  | cons c blanks ih =>
      obtain ⟨hc, hblanks⟩ := List.forall_mem_cons.mp h
      rw [List.cons_append, scan_cons_silent (step_blank hc), ih hblanks]

/-- The rest of a name is scanned letter by letter. -/
theorem scan_name (value : Bool) (rest : List Char) (d : Char) (ds : List Char) :
    scan (.name (d :: ds) value) (d :: (ds ++ rest)) =
      (scan .between rest).map (.bool value :: ·) := by
  induction ds generalizing d with
  | nil =>
      have hstep : (ScanState.name [d] value).step d = some (.between, [.bool value]) := by
        rw [step, if_pos rfl]
      exact scan_cons hstep rest
  | cons e ds ih =>
      have hstep : (ScanState.name (d :: e :: ds) value).step d =
          some (.name (e :: ds) value, []) := by
        rw [step, if_pos rfl]
        exact List.cons_ne_nil e ds
      rw [scan_cons_silent hstep, List.cons_append, ih]

/-- A digit adds to a number. -/
theorem step_digit {c : Char} (value : Nat) (h : c.isDigit = true) :
    (ScanState.number value).step c =
      some (.number (10 * value + (c.toNat - '0'.toNat)), []) := by
  rw [step, if_pos h]

/-- A number goes on as long as there are digits. -/
theorem scan_number {digits rest : List Char} (value : Nat)
    (h : ∀ c ∈ digits, c.isDigit = true) (hrest : NoDigit rest) :
    scan (.number value) (digits ++ rest) =
      (scan .between rest).map (.number (Nat.ofDigitChars 10 digits value) :: ·) := by
  induction digits generalizing value with
  | nil =>
      cases rest with
      | nil => rfl
      | cons c rest =>
          -- the character behind the digits is read as it is between tokens
          have hc : c.isDigit = false := hrest c rfl
          cases hnext : start c with
          | none => simp [scan, step, hc, hnext]
          | some next => simp [scan, step, hc, hnext, Option.map_map, Function.comp_def]
  | cons c digits ih =>
      obtain ⟨hc, hdigits⟩ := List.forall_mem_cons.mp h
      rw [List.cons_append, scan_cons_silent (step_digit value hc), ih _ hdigits,
        Nat.ofDigitChars_cons]

/-- A digit adds to the code of a character. -/
theorem step_code (chars : List Char) (left value : Nat) {d : Char} {n : Nat}
    (h : hexDigit? d = some n) :
    (ScanState.code chars (left + 1) value).step d =
      some (.code chars left (value * 16 + n), []) := by
  rw [step, h, Option.map_some]

/-- A character is read however it is spelled. -/
theorem scan_of_spellsChar {c : Char} {text : List Char} (h : SpellsChar c text)
    (chars rest : List Char) :
    scan (.string chars) (text ++ rest) = scan (.string (c :: chars)) rest := by
  cases h with
  | plain hle hquote hslash =>
      have hstep : (ScanState.string chars).step c = some (.string (c :: chars), []) := by
        rw [step, if_neg hquote, if_neg hslash, if_pos hle]
      exact scan_cons_silent hstep rest
  | @short letter hletter =>
      have hstep : (ScanState.escape chars).step letter = some (.string (c :: chars), []) := by
        simp only [shortEscapes, List.mem_cons, Prod.mk.injEq, List.not_mem_nil, or_false]
          at hletter
        rcases hletter with ⟨rfl, rfl⟩ | ⟨rfl, rfl⟩ | ⟨rfl, rfl⟩ | ⟨rfl, rfl⟩ | ⟨rfl, rfl⟩ |
          ⟨rfl, rfl⟩ | ⟨rfl, rfl⟩ | ⟨rfl, rfl⟩ <;> rfl
      exact (scan_cons_silent rfl _).trans (scan_cons_silent hstep rest)
  | @code d₃ d₂ d₁ d₀ n₃ n₂ n₁ n₀ h₃ h₂ h₁ h₀ hcode =>
      have hlast : (ScanState.code chars 0 ((n₃ * 16 + n₂) * 16 + n₁)).step d₀ =
          some (.string (c :: chars), []) := by
        rw [step, h₀, Option.map_some]
        dsimp only
        rw [← hcode, Char.ofNat_toNat]
      have hfirst := step_code chars 2 0 h₃
      rw [Nat.zero_mul, Nat.zero_add] at hfirst
      calc scan (.string chars) ('\x5c' :: 'u' :: d₃ :: d₂ :: d₁ :: d₀ :: rest)
        _ = scan (.escape chars) ('u' :: d₃ :: d₂ :: d₁ :: d₀ :: rest) :=
          scan_cons_silent rfl _
        _ = scan (.code chars 3 0) (d₃ :: d₂ :: d₁ :: d₀ :: rest) := scan_cons_silent rfl _
        _ = scan (.code chars 2 n₃) (d₂ :: d₁ :: d₀ :: rest) := scan_cons_silent hfirst _
        _ = scan (.code chars 1 (n₃ * 16 + n₂)) (d₁ :: d₀ :: rest) :=
          scan_cons_silent (step_code chars 1 n₃ h₂) _
        _ = scan (.code chars 0 ((n₃ * 16 + n₂) * 16 + n₁)) (d₀ :: rest) :=
          scan_cons_silent (step_code chars 0 (n₃ * 16 + n₂) h₁) _
        _ = scan (.string (c :: chars)) rest := scan_cons_silent hlast rest

/-- The characters of a string are gathered from their spellings. -/
theorem scan_of_spellsChars {cs text : List Char} (h : SpellsChars cs text)
    (chars rest : List Char) :
    scan (.string chars) (text ++ rest) = scan (.string (cs.reverse ++ chars)) rest := by
  induction h generalizing chars with
  | nil => rfl
  | cons hc _ ih =>
      rw [List.append_assoc, scan_of_spellsChar hc, ih]
      simp

/-- A token is scanned from its spelling. -/
theorem scan_of_isSpelled {token : Token} {text : List Char} (h : token.IsSpelled text)
    {rest : List Char} (hrest : ∀ n, token = .number n → NoDigit rest) :
    scan .between (text ++ rest) = (scan .between rest).map (token :: ·) := by
  cases h with
  | beginArray | endArray | beginObject | endObject | comma | colon => rfl
  | boolTrue | boolFalse => exact (scan_cons_silent rfl _).trans (scan_name _ rest _ _)
  | @number digits hne hdigits hzero =>
      obtain ⟨c, digits, rfl⟩ := List.exists_cons_of_ne_nil hne
      obtain ⟨hc, hmore⟩ := List.forall_mem_cons.mp hdigits
      have hstep : ScanState.between.step c = some (.number (c.toNat - '0'.toNat), []) := by
        rw [step, start, not_isBlank_of_isDigit hc, if_pos hc]
        rfl
      rw [List.cons_append, scan_cons_silent hstep, scan_number _ hmore (hrest _ rfl),
        Nat.ofDigitChars_cons, Nat.mul_zero, Nat.zero_add]
  | @string value text hchars =>
      have hend : (ScanState.string value.toList.reverse).step '\x22' =
          some (.between, [.string (String.ofList value.toList.reverse.reverse)]) := by
        rw [step, if_pos rfl]
      rw [List.cons_append, scan_cons_silent rfl, List.append_assoc,
        scan_of_spellsChars hchars, List.append_nil, List.singleton_append, scan_cons hend,
        List.reverse_reverse, String.ofList_toList]
      rfl

/-- The tokens that are laid in a text are scanned from it. -/
theorem scan_of_lays {row : List Token} {text : List Char}
    (h : Lays isBlank Token.IsSpelled row text) : scan .between text = some row := by
  induction h with
  | nil hblanks =>
      have hscan := scan_blanks hblanks []
      rwa [List.append_nil] at hscan
  | cons hblanks htext hend _ ih =>
      rw [scan_blanks hblanks, scan_of_isSpelled htext hend, ih]
      rfl

/-! ### The parser -/

/-- An array or an object of which the items in front of the next value have been read. -/
inductive Frame where
  | array (items : List Json)
  | object (fields : List (String × Json)) (key : String)

/-- What the parser waits for, with the frames around it. -/
inductive ParseState where
  | anyValue (frames : List Frame)
  | firstItem (frames : List Frame)
  | firstKey (frames : List Frame)
  | nextKey (fields : List (String × Json)) (frames : List Frame)
  | colon (fields : List (String × Json)) (key : String) (frames : List Frame)
  | behind (value : Json) (frames : List Frame)

namespace ParseState

/-- The step over the first token of a value. -/
def enter (frames : List Frame) : Token → Option ParseState
  | .bool value => some (.behind (.bool value) frames)
  | .number value => some (.behind (.number value) frames)
  | .string value => some (.behind (.string value) frames)
  | .beginArray => some (.firstItem frames)
  | .beginObject => some (.firstKey frames)
  | _ => none

/-- The step over the token behind a value. -/
def leave (value : Json) : List Frame → Token → Option ParseState
  | .array items :: frames, .comma => some (.anyValue (.array (items ++ [value]) :: frames))
  | .array items :: frames, .endArray => some (.behind (.array (items ++ [value])) frames)
  | .object fields key :: frames, .comma => some (.nextKey (fields ++ [(key, value)]) frames)
  | .object fields key :: frames, .endObject =>
    some (.behind (.object (fields ++ [(key, value)])) frames)
  | _, _ => none

/-- The step over a token. -/
def step : ParseState → Token → Option ParseState
  | .anyValue frames, token => enter frames token
  | .firstItem frames, .endArray => some (.behind (.array []) frames)
  | .firstItem frames, token => enter (.array [] :: frames) token
  | .firstKey frames, .endObject => some (.behind (.object []) frames)
  | .firstKey frames, .string key => some (.colon [] key frames)
  | .nextKey fields frames, .string key => some (.colon fields key frames)
  | .colon fields key frames, .colon => some (.anyValue (.object fields key :: frames))
  | .behind value frames, token => leave value frames token
  | _, _ => none

/-- The value that has been read when nothing is open. -/
def result? : ParseState → Option Json
  | .behind value [] => some value
  | _ => none

end ParseState

/-- The value that a row of tokens completes. -/
def parse (state : ParseState) : List Token → Option Json
  | [] => state.result?
  | token :: row => (state.step token).bind (parse · row)

/-- The first item of an array is parsed as any value is. -/
theorem parse_firstItem (frames : List Frame) (value : Json) (row : List Token) :
    parse (.firstItem frames) (tokens value ++ row) =
      parse (.anyValue (.array [] :: frames)) (tokens value ++ row) := by
  cases value with
  | bool | number | string => rfl
  | array items => cases items <;> rfl
  | object fields => cases fields <;> rfl

mutual

/-- The tokens of a value are parsed as the value. -/
theorem parse_tokens (frames : List Frame) (row : List Token) :
    (value : Json) →
      parse (.anyValue frames) (tokens value ++ row) = parse (.behind value frames) row
  | .bool value => rfl
  | .number value => rfl
  | .string value => rfl
  | .array [] => rfl
  | .array (item :: items) => by
      -- the array is open around its first item, and is closed behind the last one
      have hitem :=
        parse_tokens (.array [] :: frames) (itemTokens items ++ .endArray :: row) item
      have hitems := parse_itemTokens frames row [] item items
      rw [← parse_firstItem, hitems] at hitem
      simp only [tokens, List.cons_append, List.append_assoc]
      exact hitem
  | .object [] => rfl
  | .object ((key, value) :: fields) => by
      have hvalue := parse_tokens (.object [] key :: frames)
        (fieldTokens fields ++ .endObject :: row) value
      have hfields := parse_fieldTokens frames row [] key value fields
      rw [hfields] at hvalue
      simp only [tokens, List.cons_append, List.append_assoc]
      exact hvalue

/-- The items behind the first one are read one by one. -/
theorem parse_itemTokens (frames : List Frame) (row : List Token) (before : List Json)
    (item : Json) :
    (items : List Json) →
      parse (.behind item (.array before :: frames)) (itemTokens items ++ .endArray :: row) =
        parse (.behind (.array (before ++ item :: items)) frames) row
  | [] => rfl
  | next :: items => by
      have hnext := parse_tokens (.array (before ++ [item]) :: frames)
        (itemTokens items ++ .endArray :: row) next
      have hitems := parse_itemTokens frames row (before ++ [item]) next items
      rw [hitems, List.append_assoc, List.singleton_append] at hnext
      simp only [itemTokens, List.cons_append, List.append_assoc]
      exact hnext

/-- The fields behind the first one are read one by one. -/
theorem parse_fieldTokens (frames : List Frame) (row : List Token)
    (before : List (String × Json)) (key : String) (value : Json) :
    (fields : List (String × Json)) →
      parse (.behind value (.object before key :: frames))
          (fieldTokens fields ++ .endObject :: row) =
        parse (.behind (.object (before ++ (key, value) :: fields)) frames) row
  | [] => rfl
  | (nextKey, next) :: fields => by
      have hnext := parse_tokens (.object (before ++ [(key, value)]) nextKey :: frames)
        (fieldTokens fields ++ .endObject :: row) next
      have hfields :=
        parse_fieldTokens frames row (before ++ [(key, value)]) nextKey next fields
      rw [hfields, List.append_assoc, List.singleton_append] at hnext
      simp only [fieldTokens, List.cons_append, List.append_assoc]
      exact hnext

end

/-- The value that a text stands for. -/
def read (text : List Char) : Option Json := (scan .between text).bind (parse (.anyValue []))

/-- A JSON text of a value is read as the value. -/
theorem read_of_isText {value : Json} {text : List Char} (h : IsText value text) :
    read text = some value := by
  have hparse := parse_tokens [] [] value
  rw [List.append_nil] at hparse
  rw [read, scan_of_lays h, Option.bind_some, hparse]
  rfl

end SqlOutline.Json
