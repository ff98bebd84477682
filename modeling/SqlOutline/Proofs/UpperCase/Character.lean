import SqlOutline.Located
import SqlOutline.Proofs.LastCharacter

/-!
# Characters in upper case

Only the small letters of ASCII have another case. So whatever does not tell the letters of
ASCII from each other does not tell a character from its upper case form either.

## Main results

* `apply_toUpper`: what is the same for all letters is the same in upper case.
* `toUpper_eq_iff`: no other character becomes one that is no letter.
* `byteCount_map_toUpper`: a text takes as many bytes in upper case.
-/

namespace SqlOutline

/-- Only letters have another case, and it is a letter. -/
theorem toUpper_eq_or_isAlpha (c : Char) :
    c.toUpper = c ∨ c.isAlpha = true ∧ c.toUpper.isAlpha = true := by
  unfold Char.toUpper
  split
  · next h =>
    right
    unfold Char.isAlpha Char.isUpper Char.isLower
    simp only [Bool.or_eq_true, Bool.and_eq_true, decide_eq_true_eq]
    grind
  · exact .inl rfl

/-- What is the same for all letters is the same in upper case. -/
theorem apply_toUpper {β : Type} {f : Char → β} {b : β} (h : ∀ c, c.isAlpha = true → f c = b)
    (c : Char) : f c.toUpper = f c := by
  rcases toUpper_eq_or_isAlpha c with hc | ⟨hc, hupper⟩
  · rw [hc]
  · rw [h c hc, h c.toUpper hupper]

/-- Only a character that is no letter is its own upper case alone. -/
theorem toUpper_eq_iff {c d : Char} (hd : d.isAlpha = false) : c.toUpper = d ↔ c = d := by
  have h := apply_toUpper (f := fun c => decide (c = d)) (b := false) (fun c hc => by
    rw [decide_eq_false_iff_not]
    rintro rfl
    simp [hc] at hd) c
  simpa using h

/-- A second time nothing changes. -/
theorem toUpper_toUpper (c : Char) : c.toUpper.toUpper = c.toUpper := by
  generalize hd : c.toUpper = d
  have hlower : ¬ (97 ≤ d.val ∧ d.val ≤ 122) := by
    subst hd
    unfold Char.toUpper
    split <;> grind
  unfold Char.toUpper
  rw [dif_neg (by simpa using hlower)]

/-- Two letters become the one of an exponent. -/
theorem toUpper_eq_E_iff {c : Char} : c.toUpper = 'E' ↔ c = 'e' ∨ c = 'E' := by
  unfold Char.toUpper
  split
  · next h =>
    rw [Char.ext_iff, Char.ext_iff, Char.ext_iff]
    simp only [← UInt32.toNat_inj, UInt32.toNat_add, UInt32.le_iff_toNat_le] at h ⊢
    simp at h ⊢
    omega
  · next h =>
    refine ⟨.inr, fun hc => hc.resolve_left ?_⟩
    rintro rfl
    exact h (by decide)

/-! ### Classes of characters -/

/-- A letter has one byte. -/
theorem utf8Size_of_isAlpha {c : Char} (h : c.isAlpha = true) : c.utf8Size = 1 := by
  unfold Char.isAlpha Char.isUpper Char.isLower at h
  simp only [Bool.or_eq_true, Bool.and_eq_true, decide_eq_true_eq] at h
  rw [Char.utf8Size_eq_one_iff]
  grind

/-- A letter may be part of a name. -/
theorem isNameCharacter_of_isAlpha {c : Char} (h : c.isAlpha = true) :
    isNameCharacter c = true := by
  simp [isNameCharacter, isAlphanumeric, isAlphabetic_of_isAlpha h]

/-- A letter is no digit. -/
theorem isDigit_of_isAlpha {c : Char} (h : c.isAlpha = true) : c.isDigit = false := by
  unfold Char.isAlpha Char.isUpper Char.isLower at h
  simp only [Bool.or_eq_true, Bool.and_eq_true, decide_eq_true_eq] at h
  unfold Char.isDigit
  grind

/-- A letter may begin a word. -/
theorem isWordStart_of_isAlpha {c : Char} (h : c.isAlpha = true) : isWordStart c = true := by
  rw [isWordStart, isAlphabetic_of_isAlpha h, Bool.true_or]

/-- A letter may be part of a word. -/
theorem isWordPart_of_isAlpha {c : Char} (h : c.isAlpha = true) : isWordPart c = true := by
  rw [isWordPart, isAlphanumeric, isAlphabetic_of_isAlpha h, Bool.true_or, Bool.true_or,
    Bool.true_or]

/-- A letter is no blank. -/
theorem isBlank_of_isAlpha {c : Char} (h : c.isAlpha = true) : isBlank c = false :=
  Lexeme.not_isBlank_of_not_isBreak
    (Lexeme.not_isBreak_of_isWordPart (isWordPart_of_isAlpha h))

/-- A character has as many bytes in upper case. -/
theorem utf8Size_toUpper (c : Char) : c.toUpper.utf8Size = c.utf8Size :=
  apply_toUpper (fun _ => utf8Size_of_isAlpha) c

/-- Upper case keeps what may be part of a name. -/
theorem isNameCharacter_toUpper (c : Char) : isNameCharacter c.toUpper = isNameCharacter c :=
  apply_toUpper (fun _ => isNameCharacter_of_isAlpha) c

/-- Upper case keeps digits. -/
theorem isDigit_toUpper (c : Char) : c.toUpper.isDigit = c.isDigit :=
  apply_toUpper (fun _ => isDigit_of_isAlpha) c

/-- Upper case keeps blanks. -/
theorem isBlank_toUpper (c : Char) : isBlank c.toUpper = isBlank c :=
  apply_toUpper (fun _ => isBlank_of_isAlpha) c

/-- Upper case keeps what may begin a word. -/
theorem isWordStart_toUpper (c : Char) : isWordStart c.toUpper = isWordStart c :=
  apply_toUpper (fun _ => isWordStart_of_isAlpha) c

/-- Upper case keeps what may be part of a word. -/
theorem isWordPart_toUpper (c : Char) : isWordPart c.toUpper = isWordPart c :=
  apply_toUpper (fun _ => isWordPart_of_isAlpha) c

/-! ### Texts -/

/-- Upper case is taken character by character. -/
theorem toList_toUpper (s : String) : s.toUpper.toList = s.toList.map Char.toUpper :=
  String.toList_map

/-- A text given by its characters has these in upper case. -/
theorem toUpper_ofList (cs : List Char) :
    (String.ofList cs).toUpper = String.ofList (cs.map Char.toUpper) := by
  rw [← String.toList_inj, toList_toUpper, String.toList_ofList, String.toList_ofList]

/-- A text takes as many bytes in upper case. -/
theorem Lexeme.byteCount_map_toUpper (cs : List Char) :
    byteCount (cs.map Char.toUpper) = byteCount cs := by
  induction cs with
  | nil => rfl
  | cons c cs ih => rw [List.map_cons, byteCount, byteCount, utf8Size_toUpper, ih]

end SqlOutline
