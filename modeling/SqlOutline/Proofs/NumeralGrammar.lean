import Mathlib.Computability.Language
import SqlOutline.Proofs.Extent

/-!
# The grammar of numerals

A numeral is written here as a product of languages, without saying how it is read. A reader
munches a language when it takes one of its texts off the front of any text, and no shorter one
than any that stands there. Readers that munch can be put behind one another as long as no text
of the second language begins with something that the first reader would go on with.

## Main results

* `Munches.seq`: two readers behind one another munch the product of their languages.
* `Numeral.munches_leading`: the numeral at the front of a text is the longest one there.
* `Numeral.IsFormed.isFloat_eq_false_iff`: the whole numbers are the rows of digits.
-/

namespace SqlOutline

/-- A reader that takes a text of a language off the front of any text, and no shorter one than
any that stands there. -/
structure Munches (language : Language Char) (read : List Char → List Char) : Prop where
  reads : ∀ cs, read cs ∈ language
  longest : ∀ {text after}, text ∈ language → text <+: read (text ++ after)

/-- Two readers behind one another munch the product of their languages if the first one stops
where a text of the second language begins. -/
theorem Munches.seq {first second : List Char → List Char} {l m : Language Char}
    (hfirst : Munches l first) (hsecond : Munches m second)
    (hstop : ∀ {a b after}, a ∈ l → b ∈ m → b ≠ [] → first (a ++ (b ++ after)) = a) :
    Munches (l * m) fun cs => first cs ++ second (cs.drop (first cs).length) where
  reads cs := Language.mem_mul.mpr ⟨_, hfirst.reads cs, _, hsecond.reads _, rfl⟩
  longest := by
    intro text after h
    obtain ⟨a, ha, b, hb, rfl⟩ := Language.mem_mul.mp h
    rw [List.append_assoc]
    by_cases hne : b = []
    · rw [hne, List.append_nil, List.nil_append]
      exact (hfirst.longest ha).trans (List.prefix_append _ _)
    · rw [hstop ha hb hne, List.drop_left, List.prefix_append_right_inj]
      exact hsecond.longest hb

namespace Numeral

/-- The rows of digits, also the one without any. -/
def digitRows : Language Char := {cs | ∀ c ∈ cs, c.isDigit = true}

/-- A point with digits behind it, or nothing. -/
def fractions : Language Char := {cs | cs = [] ∨ ∃ digits ∈ digitRows, cs = '.' :: digits}

/-- A sign, or nothing. -/
def signs : Language Char := {cs | cs = [] ∨ cs = ['+'] ∨ cs = ['-']}

/-- The letter of an exponent with a sign and digits behind it, or nothing. -/
def exponents : Language Char :=
  {cs | cs = [] ∨ ∃ e, (e = 'e' ∨ e = 'E') ∧ ∃ power ∈ signs * digitRows, cs = e :: power}

/-- Whether each part of a numeral has the form that its place asks for. -/
structure IsFormed (n : Numeral) : Prop where
  whole : n.whole ∈ digitRows
  fraction : n.fraction ∈ fractions
  exponent : n.exponent ∈ exponents

/-- The text of a numeral is in the grammar. -/
theorem IsFormed.text_mem {n : Numeral} (h : n.IsFormed) :
    n.text ∈ digitRows * (fractions * exponents) := by
  rw [text, List.append_assoc]
  exact Language.append_mem_mul h.whole (Language.append_mem_mul h.fraction h.exponent)

/-- A digit in front makes no difference to a numeral. -/
theorem isFormed_cons_iff {c : Char} {whole fraction exponent : List Char} :
    IsFormed ⟨c :: whole, fraction, exponent⟩ ↔
      c.isDigit = true ∧ IsFormed ⟨whole, fraction, exponent⟩ := by
  constructor
  · rintro ⟨hwhole, hfraction, hexponent⟩
    obtain ⟨hc, hwhole⟩ := List.forall_mem_cons.mp hwhole
    exact ⟨hc, hwhole, hfraction, hexponent⟩
  · rintro ⟨hc, hwhole, hfraction, hexponent⟩
    exact ⟨List.forall_mem_cons.mpr ⟨hc, hwhole⟩, hfraction, hexponent⟩

/-! ### Reading the parts of a numeral -/

/-- What digits do not go on with is not among them. -/
theorem digits_append_of_head {digits behind : List Char} (h : digits ∈ digitRows)
    (hbehind : ∀ c ∈ behind.head?, c.isDigit = false) :
    Numeral.digits (digits ++ behind) = digits :=
  Lexeme.takeWhile_append_eq_left_iff.mpr ⟨h, hbehind⟩

/-- As many digits are read as there are. -/
theorem munches_digits : Munches digitRows digits where
  reads _ _ hc := List.mem_takeWhile_imp hc
  longest := by
    intro text after h
    rw [digits, List.takeWhile_append_of_pos h]
    exact List.prefix_append _ _

/-- As much of a fraction is read as there is. -/
theorem munches_fractionOf : Munches fractions fractionOf where
  reads cs := by
    unfold fractionOf
    split
    · exact .inr ⟨_, munches_digits.reads _, rfl⟩
    · exact .inl rfl
  longest := by
    rintro text after (rfl | ⟨row, hrow, rfl⟩)
    · exact List.nil_prefix
    · rw [List.cons_append, fractionOf, List.cons_prefix_cons]
      exact ⟨rfl, munches_digits.longest hrow⟩

/-- A sign is read if there is one. -/
theorem munches_signOf : Munches signs signOf where
  reads cs := by
    unfold signOf
    split
    · exact .inr (.inl rfl)
    · exact .inr (.inr rfl)
    · exact .inl rfl
  longest := by
    rintro text after (rfl | rfl | rfl)
    · exact List.nil_prefix
    · exact List.prefix_rfl
    · exact List.prefix_rfl

/-- A sign is read as it is in front of digits. -/
theorem signOf_append {sign row after : List Char} (hsign : sign ∈ signs)
    (hrow : row ∈ digitRows)
    (hne : row ≠ []) : signOf (sign ++ (row ++ after)) = sign := by
  rcases hsign with rfl | rfl | rfl
  · rw [List.nil_append, Lexeme.signOf_eq_nil_iff]
    cases row with
    | nil => exact absurd rfl hne
    | cons c row =>
        have hc : c.isDigit = true := hrow c List.mem_cons_self
        simp only [List.cons_append, List.head?_cons, Option.mem_some_iff, forall_eq',
          Bool.or_eq_false_iff, beq_eq_false_iff_ne]
        constructor <;> rintro rfl <;> exact absurd hc (by decide)
  · rfl
  · rfl

/-- As much of an exponent is read as there is. -/
theorem munches_exponentOf : Munches exponents exponentOf where
  reads cs := by
    cases cs with
    | nil => exact .inl rfl
    | cons c rest =>
        rw [exponentOf]
        split_ifs with hc
        · exact .inr
            ⟨c, hc, _, (munches_signOf.seq munches_digits signOf_append).reads rest, rfl⟩
        · exact .inl rfl
  longest := by
    rintro text after (rfl | ⟨e, he, power, hpower, rfl⟩)
    · exact List.nil_prefix
    · rw [List.cons_append, exponentOf, if_pos he, List.cons_prefix_cons]
      exact ⟨rfl, (munches_signOf.seq munches_digits signOf_append).longest hpower⟩

/-- A fraction ends in front of an exponent. -/
theorem fractionOf_append {fraction exponent after : List Char} (h : fraction ∈ fractions)
    (hexponent : exponent ∈ exponents) (hne : exponent ≠ []) :
    fractionOf (fraction ++ (exponent ++ after)) = fraction := by
  obtain ⟨e, he, power, -, rfl⟩ := hexponent.resolve_left hne
  rcases h with rfl | ⟨row, hrow, rfl⟩
  · rw [List.nil_append, Lexeme.fractionOf_eq_nil_iff]
    rcases he with rfl | rfl <;> simp
  · rw [List.cons_append, fractionOf, digits_append_of_head hrow]
    rcases he with rfl | rfl <;> simp

/-- Digits end in front of a fraction or an exponent. -/
theorem digits_append {row behind after : List Char} (hrow : row ∈ digitRows)
    (hbehind : behind ∈ fractions * exponents) (hne : behind ≠ []) :
    digits (row ++ (behind ++ after)) = row := by
  refine digits_append_of_head hrow ?_
  obtain ⟨fraction, hfraction, exponent, hexponent, rfl⟩ := Language.mem_mul.mp hbehind
  rcases hfraction with rfl | ⟨_, -, rfl⟩
  · obtain ⟨e, he, power, -, rfl⟩ := hexponent.resolve_left (by simpa using hne)
    rcases he with rfl | rfl <;> simp
  · simp

/-- The numeral at the front of a text is the longest one there. -/
theorem munches_leading :
    Munches (digitRows * (fractions * exponents)) fun cs => (leading cs).text := by
  have hseq := munches_digits.seq (munches_fractionOf.seq munches_exponentOf fractionOf_append)
    digits_append
  have hread : (fun cs => (leading cs).text) = fun cs =>
      digits cs ++ (fractionOf (cs.drop (digits cs).length) ++
        exponentOf ((cs.drop (digits cs).length).drop
          (fractionOf (cs.drop (digits cs).length)).length)) := by
    funext cs
    rw [leading, text, List.append_assoc]
  rwa [hread]

/-- The numeral that is read is formed by the grammar. -/
theorem isFormed_leading (cs : List Char) : (leading cs).IsFormed where
  whole := munches_digits.reads _
  fraction := munches_fractionOf.reads _
  exponent := munches_exponentOf.reads _

/-- A numeral without a point and an exponent is a row of digits, and no other one is. -/
theorem IsFormed.isFloat_eq_false_iff {n : Numeral} (h : n.IsFormed) :
    n.isFloat = false ↔ ∀ c ∈ n.text, c.isDigit = true := by
  obtain ⟨hwhole, hfraction, hexponent⟩ := h
  rw [isFloat, text]
  constructor
  · intro hempty
    simp only [Bool.or_eq_false_iff, Bool.not_eq_false', List.isEmpty_iff] at hempty
    rw [hempty.1, hempty.2, List.append_nil, List.append_nil]
    exact hwhole
  · intro hdigits
    have hnofraction : n.fraction = [] := by
      refine hfraction.resolve_right ?_
      rintro ⟨row, -, hrow⟩
      exact absurd (hdigits '.' (by simp [hrow])) (by decide)
    have hnoexponent : n.exponent = [] := by
      refine hexponent.resolve_right ?_
      rintro ⟨e, he, power, -, hpower⟩
      have hdigit := hdigits e (by simp [hpower])
      rcases he with rfl | rfl <;> exact absurd hdigit (by decide)
    rw [hnofraction, hnoexponent]
    rfl

end Numeral

end SqlOutline
