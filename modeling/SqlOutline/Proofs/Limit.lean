import Mathlib.Data.Nat.Digits.Defs
import SqlOutline.Proofs.ClauseBounds
import SqlOutline.Proofs.NumeralGrammar
import SqlOutline.Proofs.Reading

/-!
# The limit of a statement

A limit is found in two ways: as a clause of its own behind the tables, or among the columns
of a statement that has no tables. Both follow one rule, which is stated here by places: the
first active `LIMIT` behind the `FROM`, or behind the leading word if there is no `FROM`,
counts when one row of digits is all that stands between it and the end of the statement, and
when these digits are those of a number of 64 bits.

## Main results

* `Lexeme.token_eq_number_iff`: the whole numbers of a text are its rows of digits.
* `Clauses.limit_declared`: the two ways to a limit are one.
* `Query.limit_ofText_eq_some_iff`: the limit that is read from a text.
-/

namespace SqlOutline

open Lexeme (isAt ending stretch)

/-! ### Whole numbers -/

namespace Lexeme

/-- A symbol is no number. -/
theorem symbol_fst_ne_number {c : Char} {rest : List Char} {isFloat : Bool} :
    (symbol c rest).1 ≠ .number isFloat := by
  have hchar : Token.ofChar c ≠ .number isFloat := by
    unfold Token.ofChar
    split <;> simp
  have hpair : ∀ d, Token.ofPair? c d ≠ some (.number isFloat) := by
    intro d
    unfold Token.ofPair?
    split <;> simp
  unfold symbol
  split
  · exact hchar
  · next d _ =>
    split
    · next token htoken => exact fun h => hpair d (by rw [htoken, ← h])
    · exact hchar

/-- A word is no number. -/
theorem word_fst_ne_number {c : Char} {rest : List Char} {isFloat : Bool} :
    (word c rest).1 ≠ .number isFloat := by
  unfold word
  dsimp only
  split <;> simp

/-- A token is a whole number exactly when all its characters are digits. -/
theorem next_eq_number_iff {c : Char} {tail after : List Char} {token : Token}
    (h : next c (tail ++ after) = (token, tail)) :
    token = .number false ↔ ∀ d ∈ c :: tail, d.isDigit = true := by
  by_cases hc : c.isDigit = true
  · rw [next_of_isDigit hc, number, Prod.mk.injEq] at h
    rw [← h.1, Token.number.injEq, (Numeral.isFormed_leading _).isFloat_eq_false_iff, h.2]
    simp [hc]
  · have hnot : ¬ ∀ d ∈ c :: tail, d.isDigit = true :=
      fun hall => hc (hall c List.mem_cons_self)
    refine iff_of_false ?_ hnot
    rintro rfl
    rw [next] at h
    split_ifs at h
    · simp at h
    · simp at h
    · simp at h
    · exact word_fst_ne_number (congrArg Prod.fst h)
    · exact symbol_fst_ne_number (congrArg Prod.fst h)

/-- The whole numbers of a text are its rows of digits. -/
theorem token_eq_number_iff {cs : List Char} {l : Lexeme} (h : l ∈ ofText cs) :
    l.token = .number false ↔ ∀ c ∈ l.text, c.isDigit = true := by
  obtain ⟨_, hreads, -⟩ := exists_reads_ofText cs
  obtain ⟨c, tail, after, htext, hnext⟩ := hreads.exists_next l h
  rw [htext]
  exact next_eq_number_iff hnext

end Lexeme

namespace Query

/-- The number of a digit. -/
def digitValue (c : Char) : Nat := c.toNat - '0'.toNat

/-- A row of digits is read as the number that it stands for in the decimal system, with any
number of zeros in front. -/
theorem decimalValue_eq_ofDigits (digits : List Char) :
    decimalValue digits = Nat.ofDigits 10 (digits.reverse.map digitValue) := by
  induction digits using List.reverseRecOn with
  | nil => rfl
  | append_singleton digits c ih =>
      rw [decimalValue, List.foldl_append, ← decimalValue, ih, List.reverse_append]
      simp [Nat.ofDigits_cons, digitValue, Nat.add_comm]

example : decimalValue "000120".toList = 120 := by decide

/-- A limit is one whole number below the bound. -/
theorem limitOf?_eq_some_iff {run : List Lexeme} {v : Nat} :
    limitOf? run = some v ↔
      ∃ l, run = [l] ∧ l.token = .number false ∧ decimalValue l.text = v ∧ v < limitBound := by
  unfold limitOf?
  split
  · next l =>
    simp only [Option.ite_none_right_eq_some, Option.some_inj, List.cons.injEq, and_true,
      exists_eq_left']
    constructor
    · rintro ⟨htoken, hlt, rfl⟩
      exact ⟨htoken, rfl, hlt⟩
    · rintro ⟨htoken, rfl, hlt⟩
      exact ⟨htoken, hlt, rfl⟩
  · next hsingle =>
    simp only [reduceCtorEq, false_iff, not_exists]
    rintro l ⟨rfl, -⟩
    exact hsingle l rfl

end Query

/-! ### Where a limit stands -/

namespace Lexeme

/-- The index of the first active `FROM` of a statement, or that of its leading word if
it has none. -/
def tablesAt (run : List Lexeme) : Nat :=
  let fromAt := firstIndex (isAt run [.keyword .from]) 1 (ending run)
  if fromAt < ending run then fromAt else 0

/-- The index of the first active `LIMIT` behind the `FROM`, or the end of the statement. -/
def limitAt (run : List Lexeme) : Nat :=
  firstIndex (isAt run [.keyword .limit]) (tablesAt run + 1) (ending run)

/-- A stretch is one lexeme exactly when its ends are next to each other. -/
theorem stretch_eq_singleton_iff {run : List Lexeme} {low high : Nat} {l : Lexeme}
    (hhigh : high ≤ run.length) :
    stretch run low high = [l] ↔ high = low + 1 ∧ run[low]? = some l := by
  constructor
  · intro h
    have hlength := congrArg List.length h
    rw [stretch, List.length_drop, List.length_take, List.length_singleton] at hlength
    have hget := congrArg (·[0]?) h
    simp only [stretch, List.getElem?_drop, Nat.add_zero, List.getElem?_cons_zero] at hget
    rw [List.getElem?_take_of_lt (by omega)] at hget
    exact ⟨by omega, hget⟩
  · rintro ⟨rfl, hl⟩
    obtain ⟨hlt, rfl⟩ := List.getElem?_eq_some_iff.mp hl
    rw [stretch, List.take_add_one, hl,
      List.drop_append_of_le_length (by rw [List.length_take]; omega), List.drop_take]
    simp

end Lexeme

open Lexeme (limitAt tablesAt)

namespace Clauses

/-- With or without tables, the limit is what stands between the first `LIMIT` behind the
`FROM` and the end of the statement. -/
theorem limit_declared (run : List Lexeme) :
    (declared run).limit =
      if limitAt run < ending run then some (stretch run (limitAt run + 1) (ending run))
      else none := by
  rw [declared, limitAt, tablesAt]
  split <;> rfl

end Clauses

namespace Query

/-- The limit that is read from a text is the number behind the first active `LIMIT`, if
a row of digits with a number below `2 ^ 64` is all that stands between it and the end
of the statement. -/
theorem limit_ofText_eq_some_iff (sql : String) (v : Nat) :
    let run := Lexeme.ofText (trimBlanks sql.toList)
    (Query.ofText sql).limit = some v ↔
      run.head?.map (·.token) = some (.keyword .select) ∧
      limitAt run < ending run ∧ ending run = limitAt run + 2 ∧
      ∃ l, run[limitAt run + 1]? = some l ∧ (∀ c ∈ l.text, c.isDigit = true) ∧
        Nat.ofDigits 10 (l.text.reverse.map digitValue) = v ∧ v < 2 ^ 64 := by
  intro run
  have hquery : Query.ofText sql = ofLexemes run (String.ofList (trimBlanks sql.toList)) := rfl
  have hnumber : ∀ {l}, run[limitAt run + 1]? = some l →
      (l.token = .number false ↔ ∀ c ∈ l.text, c.isDigit = true) := fun hl =>
    Lexeme.token_eq_number_iff (List.mem_of_getElem? hl)
  by_cases hselect : run.head?.map (·.token) = some (.keyword .select)
  · have hne : run ≠ [] := by
      rintro hnil
      simp [hnil] at hselect
    obtain ⟨hending, -⟩ := Lexeme.ending_spec run (Lexeme.one_le_ending hne)
    rw [hquery, ofLexemes_of_select _ hselect, ofClauses, Clauses.limit_declared]
    simp only [hselect, true_and]
    split
    · next hlt =>
      simp only [Option.bind_some, limitOf?_eq_some_iff,
        Lexeme.stretch_eq_singleton_iff hending, hlt, true_and, and_assoc, exists_and_left,
        decimalValue_eq_ofDigits]
      refine and_congr_right fun _ => exists_congr fun l => and_congr_right fun hl => ?_
      rw [hnumber hl]
      rfl
    · next hlt => simp [hlt]
  · rw [hquery, ofLexemes_of_not_select _ hselect]
    simp [hselect, bare]

end Query

end SqlOutline
