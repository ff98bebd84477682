import Mathlib.Data.List.Basic
import Mathlib.Data.Nat.Notation
import SqlOutline.Json

/-!
# The tokens of JSON texts

A JSON text is a row of tokens with blanks between them: brackets, commas and colons, the two
truth values, numbers and strings. The tokens of a value are the same however it is written.
Only the blanks and the spelling of the characters in strings are free.

A number here is a whole number that is not negative, as every number of a report is. Of the
ways to spell a character, pairs of code units are left out.

## Main definitions

* `tokens`: the tokens of a value.
* `Lays`: the texts in which tokens stand one behind the other.
* `IsText`: the JSON texts of a value.
-/

namespace SqlOutline.Json

/-! ### Tokens -/

/-- A part of a JSON text. -/
inductive Token where
  | beginArray
  | endArray
  | beginObject
  | endObject
  | comma
  | colon
  | bool (value : Bool)
  | number (value : Nat)
  | string (value : String)
  deriving DecidableEq, Repr

mutual

/-- The tokens of a value. -/
def tokens : Json → List Token
  | .bool value => [.bool value]
  | .number value => [.number value]
  | .string value => [.string value]
  | .array [] => [.beginArray, .endArray]
  | .array (item :: items) => .beginArray :: (tokens item ++ (itemTokens items ++ [.endArray]))
  | .object [] => [.beginObject, .endObject]
  | .object ((key, value) :: fields) =>
    .beginObject :: .string key :: .colon ::
    (tokens value ++ (fieldTokens fields ++ [.endObject]))

/-- The tokens of the items after the first one. -/
def itemTokens : List Json → List Token
  | [] => []
  | item :: items => .comma :: (tokens item ++ itemTokens items)

/-- The tokens of the fields after the first one. -/
def fieldTokens : List (String × Json) → List Token
  | [] => []
  | (key, value) :: fields =>
    .comma :: .string key :: .colon :: (tokens value ++ fieldTokens fields)

end

/-! ### The spelling of tokens -/

/-- Whether a character may stand between tokens. -/
def isBlank (c : Char) : Bool := c == ' ' || c == '\t' || c == '\n' || c == '\r'

/-- No blank is a digit. -/
theorem isDigit_of_isBlank (c : Char) (h : isBlank c = true) : c.isDigit = false := by
  simp only [isBlank, Bool.or_eq_true, beq_iff_eq] at h
  obtain ((rfl | rfl) | rfl) | rfl := h <;> rfl

/-- No digit is a blank. -/
theorem not_isBlank_of_isDigit {c : Char} (h : c.isDigit = true) : isBlank c = false := by
  rw [Bool.eq_false_iff]
  intro hblank
  rw [isDigit_of_isBlank c hblank] at h
  cases h

/-- The letters that stand for a character behind a backslash. -/
def shortEscapes : List (Char × Char) :=
  [('\x22', '\x22'), ('\x5c', '\x5c'), ('/', '/'), ('b', '\x08'), ('f', '\x0c'), ('n', '\n'),
   ('r', '\r'), ('t', '\t')]

/-- The value of a hexadecimal digit in either case. -/
def hexDigit? (c : Char) : Option Nat :=
  if '0' ≤ c ∧ c ≤ '9' then some (c.toNat - '0'.toNat)
  else if 'a' ≤ c ∧ c ≤ 'f' then some (c.toNat - 'a'.toNat + 10)
  else if 'A' ≤ c ∧ c ≤ 'F' then some (c.toNat - 'A'.toNat + 10)
  else none

/-- The ways to spell a character in a string. -/
inductive SpellsChar (c : Char) : List Char → Prop
  | plain : 0x20 ≤ c.toNat → c ≠ '\x22' → c ≠ '\x5c' → SpellsChar c [c]
  | short {letter : Char} : (letter, c) ∈ shortEscapes → SpellsChar c ['\x5c', letter]
  | code {d₃ d₂ d₁ d₀ : Char} {n₃ n₂ n₁ n₀ : Nat} :
      hexDigit? d₃ = some n₃ → hexDigit? d₂ = some n₂ → hexDigit? d₁ = some n₁ →
      hexDigit? d₀ = some n₀ → c.toNat = ((n₃ * 16 + n₂) * 16 + n₁) * 16 + n₀ →
      SpellsChar c ['\x5c', 'u', d₃, d₂, d₁, d₀]

/-- The ways to spell the characters of a string. -/
inductive SpellsChars : List Char → List Char → Prop
  | nil : SpellsChars [] []
  | cons {c : Char} {cs text rest : List Char} :
      SpellsChar c text → SpellsChars cs rest → SpellsChars (c :: cs) (text ++ rest)

/-- The ways to spell a token. -/
inductive Token.IsSpelled : Token → List Char → Prop
  | beginArray : IsSpelled .beginArray ['[']
  | endArray : IsSpelled .endArray [']']
  | beginObject : IsSpelled .beginObject ['\x7b']
  | endObject : IsSpelled .endObject ['\x7d']
  | comma : IsSpelled .comma [',']
  | colon : IsSpelled .colon [':']
  | boolTrue : IsSpelled (.bool true) ['t', 'r', 'u', 'e']
  | boolFalse : IsSpelled (.bool false) ['f', 'a', 'l', 's', 'e']
  | number {digits : List Char} :
      digits ≠ [] → (∀ c ∈ digits, c.isDigit = true) →
      (digits.head? = some '0' → digits = ['0']) →
      IsSpelled (.number (Nat.ofDigitChars 10 digits 0)) digits
  | string {value : String} {text : List Char} :
      SpellsChars value.toList text → IsSpelled (.string value) ('\x22' :: (text ++ ['\x22']))

/-- Whether no digit comes first. -/
def NoDigit (cs : List Char) : Prop := ∀ c ∈ cs.head?, c.isDigit = false

/-- The texts in which tokens are spelled one behind the other with blanks between them. A
number ends where no digit goes on. -/
inductive Lays (blank : Char → Bool) (spelled : Token → List Char → Prop) :
    List Token → List Char → Prop
  | nil {blanks : List Char} : (∀ c ∈ blanks, blank c = true) → Lays blank spelled [] blanks
  | cons {blanks text rest : List Char} {token : Token} {later : List Token} :
      (∀ c ∈ blanks, blank c = true) → spelled token text →
      (∀ n, token = .number n → NoDigit rest) → Lays blank spelled later rest →
      Lays blank spelled (token :: later) (blanks ++ (text ++ rest))

/-- The texts that stand for a value. -/
def IsText (value : Json) (text : List Char) : Prop :=
  Lays isBlank Token.IsSpelled (tokens value) text

namespace Lays

variable {blank blank' : Char → Bool} {spelled spelled' : Token → List Char → Prop}
  {row : List Token} {text : List Char}

/-- What is laid out with few blanks and spellings is so with more. -/
theorem mono (hblank : ∀ c, blank c = true → blank' c = true)
    (hspelled : ∀ token text, spelled token text → spelled' token text)
    (h : Lays blank spelled row text) : Lays blank' spelled' row text := by
  induction h with
  | nil hblanks => exact .nil fun c hc => hblank c (hblanks c hc)
  | cons hblanks htext hend _ ih =>
      exact .cons (fun c hc => hblank c (hblanks c hc)) (hspelled _ _ htext) hend ih

/-- There may be more blanks in front of the tokens. -/
theorem blanks_append {blanks : List Char} (hblanks : ∀ c ∈ blanks, blank c = true)
    (h : Lays blank spelled row text) : Lays blank spelled row (blanks ++ text) := by
  cases h with
  | nil hmore => exact .nil (List.forall_mem_append.mpr ⟨hblanks, hmore⟩)
  | cons hmore htext hend hlater =>
      rw [← List.append_assoc]
      exact .cons (List.forall_mem_append.mpr ⟨hblanks, hmore⟩) htext hend hlater

/-- A token that is no number may stand in front of anything. -/
theorem token_append {token : Token} {first : List Char} (hfirst : spelled token first)
    (hnumber : ∀ n, token ≠ .number n) (h : Lays blank spelled row text) :
    Lays blank spelled (token :: row) (first ++ text) := by
  have hlays : Lays blank spelled (token :: row) ([] ++ (first ++ text)) :=
    .cons (List.forall_mem_nil _) hfirst (fun n hn => absurd hn (hnumber n)) h
  exact hlays

end Lays

end SqlOutline.Json
