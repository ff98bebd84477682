import Mathlib.Computability.Language
import SqlOutline.Character.Ranges

/-!
# Well-formed bytes

Which bytes are text in UTF-8, said by the ranges of the bytes alone. A character takes one to
four bytes. The first of them tells how many, and after some first bytes the range of the
second one is narrower: it leaves out the longer forms of what has a shorter one, the
surrogates, and what is beyond the last character. A byte that goes on with a character is in
no range of a first one, so bytes that break off inside of a character are not well-formed.

## Main results

* `Utf8.mem_characters_iff`: the table has the bytes of all characters, and no others.
* `Utf8.mem_texts_iff`: well-formed bytes are those of a text.
* `Utf8.fromUTF8?_eq_some_iff`, `Utf8.fromUTF8?_eq_none_iff`: well-formed bytes read as the
  text that they are of, and no others read as text.
-/

namespace SqlOutline.Utf8

/-- The ranges of the bytes of a character. -/
def rows : List Ranges :=
  [[(0x00, 0x7F)],
   [(0xC2, 0xDF), (0x80, 0xBF)],
   [(0xE0, 0xE0), (0xA0, 0xBF), (0x80, 0xBF)],
   [(0xE1, 0xEC), (0x80, 0xBF), (0x80, 0xBF)],
   [(0xED, 0xED), (0x80, 0x9F), (0x80, 0xBF)],
   [(0xEE, 0xEF), (0x80, 0xBF), (0x80, 0xBF)],
   [(0xF0, 0xF0), (0x90, 0xBF), (0x80, 0xBF), (0x80, 0xBF)],
   [(0xF1, 0xF3), (0x80, 0xBF), (0x80, 0xBF), (0x80, 0xBF)],
   [(0xF4, 0xF4), (0x80, 0x8F), (0x80, 0xBF), (0x80, 0xBF)]]

/-- Whether a byte is in a range. -/
def IsIn (byte : UInt8) (range : Nat × Nat) : Prop :=
  range.1 ≤ byte.toNat ∧ byte.toNat ≤ range.2

/-- The bytes of one character. -/
def characters : Language UInt8 := {bytes | ∃ row ∈ rows, List.Forall₂ IsIn bytes row}

/-- Well-formed bytes: those of characters behind one another. -/
def texts : Language UInt8 := KStar.kstar characters

variable {bytes : List UInt8} {n p q r s : Nat}

/-! ### One character -/

/-- A byte is in a range if its number is. -/
theorem isIn_ofNat_iff (hn : n < 256) {range : Nat × Nat} :
    IsIn (UInt8.ofNat n) range ↔ range.1 ≤ n ∧ n ≤ range.2 := by
  rw [IsIn, UInt8.toNat_ofNat_of_lt' hn]

/-- A byte that goes on with a character has six bits of its number. -/
theorem isIn_tail (n : Nat) : IsIn (UInt8.ofNat (n % 0x40 + 0x80)) (0x80, 0xBF) := by
  rw [isIn_ofNat_iff (by omega)]
  omega

/-- Three bytes are a character if the first two fit a row of the table. -/
theorem three_mem_of_row (hrow : [(p, q), (r, s), (0x80, 0xBF)] ∈ rows)
    (hfirst : p ≤ n / 4096 % 0x10 + 0xE0 ∧ n / 4096 % 0x10 + 0xE0 ≤ q)
    (hsecond : r ≤ n / 64 % 0x40 + 0x80 ∧ n / 64 % 0x40 + 0x80 ≤ s) :
    [UInt8.ofNat (n / 4096 % 0x10 + 0xE0), UInt8.ofNat (n / 64 % 0x40 + 0x80),
      UInt8.ofNat (n % 0x40 + 0x80)] ∈ characters := by
  refine ⟨_, hrow, .cons ?_ (.cons ?_ (.cons (isIn_tail n) .nil))⟩
  · exact (isIn_ofNat_iff (by omega)).mpr hfirst
  · exact (isIn_ofNat_iff (by omega)).mpr hsecond

/-- Three bytes are in the row for the first four bits of their number. -/
theorem three_mem (hlow : 0x7FF < n) (hhigh : n ≤ 0xFFFF) (hvalid : n < 0xD800 ∨ 0xDFFF < n) :
    [UInt8.ofNat (n / 4096 % 0x10 + 0xE0), UInt8.ofNat (n / 64 % 0x40 + 0x80),
      UInt8.ofNat (n % 0x40 + 0x80)] ∈ characters := by
  -- at `0xE0` the range of the second byte is cut from below, at `0xED` from above
  rcases Nat.lt_or_ge n 0x1000 with h | h
  · have hrow : [(0xE0, 0xE0), (0xA0, 0xBF), (0x80, 0xBF)] ∈ rows := by simp [rows]
    exact three_mem_of_row hrow (by omega) (by omega)
  rcases Nat.lt_or_ge n 0xD000 with h | h
  · have hrow : [(0xE1, 0xEC), (0x80, 0xBF), (0x80, 0xBF)] ∈ rows := by simp [rows]
    exact three_mem_of_row hrow (by omega) (by omega)
  rcases Nat.lt_or_ge n 0xE000 with h | h
  · have hrow : [(0xED, 0xED), (0x80, 0x9F), (0x80, 0xBF)] ∈ rows := by simp [rows]
    exact three_mem_of_row hrow (by omega) (by omega)
  · have hrow : [(0xEE, 0xEF), (0x80, 0xBF), (0x80, 0xBF)] ∈ rows := by simp [rows]
    exact three_mem_of_row hrow (by omega) (by omega)

/-- Four bytes are a character if the first two fit a row of the table. -/
theorem four_mem_of_row (hrow : [(p, q), (r, s), (0x80, 0xBF), (0x80, 0xBF)] ∈ rows)
    (hfirst : p ≤ n / 262144 % 0x08 + 0xF0 ∧ n / 262144 % 0x08 + 0xF0 ≤ q)
    (hsecond : r ≤ n / 4096 % 0x40 + 0x80 ∧ n / 4096 % 0x40 + 0x80 ≤ s) :
    [UInt8.ofNat (n / 262144 % 0x08 + 0xF0), UInt8.ofNat (n / 4096 % 0x40 + 0x80),
      UInt8.ofNat (n / 64 % 0x40 + 0x80), UInt8.ofNat (n % 0x40 + 0x80)] ∈ characters := by
  refine ⟨_, hrow, .cons ?_ (.cons ?_ (.cons (isIn_tail (n / 64)) (.cons (isIn_tail n) .nil)))⟩
  · exact (isIn_ofNat_iff (by omega)).mpr hfirst
  · exact (isIn_ofNat_iff (by omega)).mpr hsecond

/-- Four bytes are in the row for the first three bits of their number. -/
theorem four_mem (hlow : 0xFFFF < n) (hhigh : n < 0x110000) :
    [UInt8.ofNat (n / 262144 % 0x08 + 0xF0), UInt8.ofNat (n / 4096 % 0x40 + 0x80),
      UInt8.ofNat (n / 64 % 0x40 + 0x80), UInt8.ofNat (n % 0x40 + 0x80)] ∈ characters := by
  rcases Nat.lt_or_ge n 0x40000 with h | h
  · have hrow : [(0xF0, 0xF0), (0x90, 0xBF), (0x80, 0xBF), (0x80, 0xBF)] ∈ rows := by
      simp [rows]
    exact four_mem_of_row hrow (by omega) (by omega)
  rcases Nat.lt_or_ge n 0x100000 with h | h
  · have hrow : [(0xF1, 0xF3), (0x80, 0xBF), (0x80, 0xBF), (0x80, 0xBF)] ∈ rows := by
      simp [rows]
    exact four_mem_of_row hrow (by omega) (by omega)
  · have hrow : [(0xF4, 0xF4), (0x80, 0x8F), (0x80, 0xBF), (0x80, 0xBF)] ∈ rows := by
      simp [rows]
    exact four_mem_of_row hrow (by omega) (by omega)

/-- The bytes of every character are in a row of the table. -/
theorem utf8EncodeChar_mem (c : Char) : String.utf8EncodeChar c ∈ characters := by
  have hvalid : c.val.toNat < 0xD800 ∨ 0xDFFF < c.val.toNat ∧ c.val.toNat < 0x110000 := c.valid
  rw [String.utf8EncodeChar]
  generalize c.val.toNat = n at hvalid
  split_ifs with hone htwo hthree
  · have hfirst : IsIn (UInt8.ofNat n) (0x00, 0x7F) :=
      (isIn_ofNat_iff (by omega)).mpr ⟨Nat.zero_le n, hone⟩
    exact ⟨_, by simp [rows], .cons hfirst .nil⟩
  · have hfirst : IsIn (UInt8.ofNat (n / 64 % 0x20 + 0xC0)) (0xC2, 0xDF) :=
      (isIn_ofNat_iff (by omega)).mpr (by simp only; omega)
    exact ⟨_, by simp [rows], .cons hfirst (.cons (isIn_tail n) .nil)⟩
  · exact three_mem (by omega) hthree (by omega)
  · exact four_mem (by omega) (by omega)

/-- Every valid number is that of a character. -/
theorem exists_char (h : n.isValidChar) : ∃ c : Char, c.val.toNat = n :=
  ⟨Char.ofNatAux n h, rfl⟩

/-- A byte up to the end of ASCII is a character. -/
theorem exists_char_one (h : List.Forall₂ IsIn bytes [(0x00, 0x7F)]) :
    ∃ c, String.utf8EncodeChar c = bytes := by
  rcases h with _ | @⟨a, _, _, _, ⟨-, ha⟩, _ | _⟩
  have hvalid : a.toNat.isValidChar := .inl (by omega)
  obtain ⟨c, hn⟩ := exists_char hvalid
  refine ⟨c, ?_⟩
  rw [String.utf8EncodeChar, hn, if_pos ha, UInt8.ofNat_toNat]

/-- Two bytes of a row are a character. -/
theorem exists_char_two (h : List.Forall₂ IsIn bytes [(0xC2, 0xDF), (0x80, 0xBF)]) :
    ∃ c, String.utf8EncodeChar c = bytes := by
  rcases h with _ | @⟨a, _, _, _, ha, _ | @⟨b, _, _, _, hb, _ | _⟩⟩
  simp only [IsIn] at ha hb
  have hvalid : ((a.toNat - 0xC0) * 64 + (b.toNat - 0x80)).isValidChar := .inl (by omega)
  obtain ⟨c, hn⟩ := exists_char hvalid
  have hfirst : c.val.toNat / 64 % 0x20 + 0xC0 = a.toNat := by omega
  have hsecond : c.val.toNat % 0x40 + 0x80 = b.toNat := by omega
  refine ⟨c, ?_⟩
  rw [String.utf8EncodeChar, if_neg (by omega), if_pos (by omega), hfirst, hsecond]
  simp only [UInt8.ofNat_toNat]

/-- Three bytes of a row are a character if the row has no shorter forms and no surrogates. -/
theorem exists_char_three (h : List.Forall₂ IsIn bytes [(p, q), (r, s), (0x80, 0xBF)])
    (hrow : 0xE0 ≤ p ∧ q ≤ 0xEF ∧ 0x80 ≤ r ∧ s ≤ 0xBF) (hlong : 0xE0 < p ∨ 0xA0 ≤ r)
    (hvalid : q < 0xED ∨ q = 0xED ∧ s ≤ 0x9F ∨ 0xED < p) :
    ∃ d, String.utf8EncodeChar d = bytes := by
  rcases h with _ | @⟨a, _, _, _, ha, _ | @⟨b, _, _, _, hb, _ | @⟨c, _, _, _, hc, _ | _⟩⟩⟩
  simp only [IsIn] at ha hb hc
  obtain ⟨n, hn⟩ : ∃ n, n = (a.toNat - 0xE0) * 4096 + (b.toNat - 0x80) * 64 + (c.toNat - 0x80) :=
    ⟨_, rfl⟩
  have hfirst : n / 4096 % 0x10 + 0xE0 = a.toNat := by omega
  have hsecond : n / 64 % 0x40 + 0x80 = b.toNat := by omega
  have hthird : n % 0x40 + 0x80 = c.toNat := by omega
  have hscalar : n < 0xD800 ∨ 0xDFFF < n ∧ n < 0x110000 := by omega
  obtain ⟨d, hd⟩ := exists_char hscalar
  refine ⟨d, ?_⟩
  rw [String.utf8EncodeChar, hd, if_neg (by omega), if_neg (by omega),
    if_pos (by omega), hfirst, hsecond, hthird]
  simp only [UInt8.ofNat_toNat]

/-- Four bytes of a row are a character if the row has no shorter forms and ends with
the last character. -/
theorem exists_char_four
    (h : List.Forall₂ IsIn bytes [(p, q), (r, s), (0x80, 0xBF), (0x80, 0xBF)])
    (hrow : 0xF0 ≤ p ∧ q ≤ 0xF4 ∧ 0x80 ≤ r ∧ s ≤ 0xBF) (hlong : 0xF0 < p ∨ 0x90 ≤ r)
    (hlast : q < 0xF4 ∨ s ≤ 0x8F) : ∃ e, String.utf8EncodeChar e = bytes := by
  rcases h with _ | @⟨a, _, _, _, ha, _ | @⟨b, _, _, _, hb, _ | @⟨c, _, _, _, hc, _ |
    @⟨d, _, _, _, hd, _ | _⟩⟩⟩⟩
  simp only [IsIn] at ha hb hc hd
  obtain ⟨n, hn⟩ : ∃ n, n = (a.toNat - 0xF0) * 262144 + (b.toNat - 0x80) * 4096 +
      (c.toNat - 0x80) * 64 + (d.toNat - 0x80) := ⟨_, rfl⟩
  have hfirst : n / 262144 % 0x08 + 0xF0 = a.toNat := by omega
  have hsecond : n / 4096 % 0x40 + 0x80 = b.toNat := by omega
  have hthird : n / 64 % 0x40 + 0x80 = c.toNat := by omega
  have hfourth : n % 0x40 + 0x80 = d.toNat := by omega
  have hscalar : n < 0xD800 ∨ 0xDFFF < n ∧ n < 0x110000 := by omega
  obtain ⟨e, he⟩ := exists_char hscalar
  refine ⟨e, ?_⟩
  rw [String.utf8EncodeChar, he, if_neg (by omega), if_neg (by omega),
    if_neg (by omega), hfirst, hsecond, hthird, hfourth]
  simp only [UInt8.ofNat_toNat]

/-- The table has the bytes of all characters, and no others. -/
theorem mem_characters_iff : bytes ∈ characters ↔ ∃ c, String.utf8EncodeChar c = bytes := by
  constructor
  · rintro ⟨row, hrow, h⟩
    simp only [rows, List.mem_cons, List.not_mem_nil, or_false] at hrow
    rcases hrow with rfl | rfl | rfl | rfl | rfl | rfl | rfl | rfl | rfl
    · exact exists_char_one h
    · exact exists_char_two h
    · exact exists_char_three h (by omega) (by omega) (by omega)
    · exact exists_char_three h (by omega) (by omega) (by omega)
    · exact exists_char_three h (by omega) (by omega) (by omega)
    · exact exists_char_three h (by omega) (by omega) (by omega)
    · exact exists_char_four h (by omega) (by omega) (by omega)
    · exact exists_char_four h (by omega) (by omega) (by omega)
    · exact exists_char_four h (by omega) (by omega) (by omega)
  · rintro ⟨c, rfl⟩
    exact utf8EncodeChar_mem c

/-! ### A text -/

/-- Well-formed bytes are those of a list of characters. -/
theorem mem_texts_iff_exists_list :
    bytes ∈ texts ↔ ∃ cs : List Char, cs.flatMap String.utf8EncodeChar = bytes := by
  rw [texts, Language.mem_kstar]
  constructor
  · rintro ⟨parts, rfl, hparts⟩
    induction parts with
    | nil => exact ⟨[], rfl⟩
    | cons part parts ih =>
        obtain ⟨hfirst, hrest⟩ := List.forall_mem_cons.mp hparts
        obtain ⟨c, rfl⟩ := mem_characters_iff.mp hfirst
        obtain ⟨cs, hcs⟩ := ih hrest
        exact ⟨c :: cs, by rw [List.flatMap_cons, hcs, List.flatten_cons]⟩
  · rintro ⟨cs, rfl⟩
    refine ⟨cs.map String.utf8EncodeChar, List.flatMap_def, ?_⟩
    rw [List.forall_mem_map]
    exact fun c _ => utf8EncodeChar_mem c

/-- The bytes of a text are those of its characters. -/
theorem toList_data_toByteArray (text : String) :
    text.toByteArray.data.toList = text.toList.flatMap String.utf8EncodeChar := by
  rw [← String.utf8Encode_toList, List.utf8Encode, List.toList_data_toByteArray]

/-- A text is told by its bytes. -/
theorem flatMap_utf8EncodeChar_inj {cs ds : List Char} :
    cs.flatMap String.utf8EncodeChar = ds.flatMap String.utf8EncodeChar ↔ cs = ds := by
  constructor
  · intro h
    rw [← String.toList_ofList (l := cs), ← String.toList_ofList (l := ds),
      ← toList_data_toByteArray, ← toList_data_toByteArray] at h
    have hbytes := ByteArray.ext (Array.toList_inj.mp h)
    exact String.ofList_inj.mp (String.toByteArray_inj.mp hbytes)
  · rintro rfl
    rfl

/-- Well-formed bytes are those of a text. -/
theorem mem_texts_iff {array : ByteArray} :
    array.data.toList ∈ texts ↔ ∃ text : String, array = text.toByteArray := by
  rw [mem_texts_iff_exists_list]
  constructor
  · rintro ⟨cs, hcs⟩
    refine ⟨String.ofList cs, ByteArray.ext (Array.toList_inj.mp ?_)⟩
    rw [toList_data_toByteArray, String.toList_ofList, hcs]
  · rintro ⟨text, rfl⟩
    exact ⟨text.toList, (toList_data_toByteArray text).symm⟩

/-- What reads as text is the bytes of the text. -/
theorem fromUTF8?_eq_some_iff {array : ByteArray} {text : String} :
    String.fromUTF8? array = some text ↔ array = text.toByteArray := by
  constructor
  · intro h
    rw [String.fromUTF8?] at h
    split_ifs at h
    cases h
    rfl
  · rintro rfl
    exact dif_pos text.isValidUTF8

/-- What is not well-formed does not read as text. -/
theorem fromUTF8?_eq_none_iff {array : ByteArray} :
    String.fromUTF8? array = none ↔ array.data.toList ∉ texts := by
  rw [mem_texts_iff, Option.eq_none_iff_forall_not_mem, not_exists]
  exact forall_congr' fun text => not_congr fromUTF8?_eq_some_iff

end SqlOutline.Utf8
