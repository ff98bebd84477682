import SqlOutline.Proofs.LongestMatch
import SqlOutline.Proofs.UpperCase.Character

/-!
# The first word of a statement

The kind of a statement is decided by the first word of its text, behind blanks and comments
that are closed. What follows this word only has to end it. So a text in which no such word
comes first is of no known kind: its first token is something else, a longer word, or a quoted
one, or all of the text is in a comment that is never closed.

## Main results

* `Trivia.row_iff_isClosed`: the trivia in front of a token is closed.
* `Keyword.leads_iff`: the first token of a text is a keyword if this is its first word.
* `Keyword.leads_trimBlanks_iff`: blanks around a text have no bearing on its first word.
* `StatementKind.isDecided_ofText`: the kind of a statement is that of its first word.
-/

namespace SqlOutline

/-! ### Closed trivia -/

namespace Trivia

/-- A row of blanks and comments, each line comment with the newline behind it and each block
comment with the first mark that closes it. -/
inductive IsClosed : List Char → Prop
  | nil : IsClosed []
  | blank {c : Char} {row : List Char} : isBlank c = true → IsClosed row → IsClosed (c :: row)
  | lineComment {body row : List Char} :
      '\n' ∉ body → IsClosed row → IsClosed ('-' :: '-' :: (body ++ '\n' :: row))
  | blockComment {body row : List Char} :
      ¬ closing <:+: body ++ ['*'] → IsClosed row →
      IsClosed ('/' :: '*' :: (body ++ closing ++ row))

/-- Closed trivia is trivia in front of any text. -/
theorem IsClosed.row {row : List Char} (h : IsClosed row) (after : List Char) :
    Row row after := by
  induction h with
  | nil => exact .nil
  | @blank c row hblank _ ih =>
      have hpiece : Row ([c] ++ row) after := .cons (.blank hblank) ih
      exact hpiece
  | @lineComment body row hbody _ ih =>
      have hnewline : Row (['\n'] ++ row) after := .cons (.blank (by decide)) ih
      have hpiece : Row (('-' :: '-' :: body) ++ (['\n'] ++ row)) after :=
        .cons (.lineComment hbody (.inr rfl)) hnewline
      simpa using hpiece
  | @blockComment body row hbody _ ih =>
      have hpiece : Row (('/' :: '*' :: (body ++ closing)) ++ row) after :=
        .cons (.blockComment hbody) ih
      simpa using hpiece

/-- Closed trivia stay so without a blank in front. -/
theorem IsClosed.of_blank_cons {c : Char} {row : List Char} (hblank : isBlank c = true)
    (h : IsClosed (c :: row)) : IsClosed row := by
  cases h with
  | blank _ hrow => exact hrow
  | lineComment => exact absurd hblank (by decide)
  | blockComment => exact absurd hblank (by decide)

/-- Closed trivia stay so without all blanks in front. -/
theorem IsClosed.dropWhile {row : List Char} (h : IsClosed row) :
    IsClosed (row.dropWhile isBlank) := by
  induction row with
  | nil => exact h
  | cons c row ih =>
      by_cases hblank : isBlank c = true
      · rw [List.dropWhile_cons_of_pos hblank]
        exact ih (h.of_blank_cons hblank)
      · rwa [List.dropWhile_cons_of_neg hblank]

/-- Closed trivia stay so with more blanks in front. -/
theorem IsClosed.append_left {row : List Char} (h : IsClosed row) {blanks : List Char}
    (hblanks : ∀ c ∈ blanks, isBlank c = true) : IsClosed (blanks ++ row) := by
  induction blanks with
  | nil => exact h
  | cons c blanks ih =>
      rw [List.forall_mem_cons] at hblanks
      exact .blank hblanks.1 (ih hblanks.2)

/-- In front of a character that is no blank trivia is closed. -/
theorem row_iff_isClosed {row after : List Char} {c : Char} (hc : isBlank c = false) :
    Row row (c :: after) ↔ IsClosed row := by
  refine ⟨fun h => ?_, fun h => h.row _⟩
  generalize hbehind : c :: after = behind at h
  induction h with
  | nil => exact .nil
  | @cons piece row behind hpiece _ ih =>
      subst hbehind
      have hrow := ih rfl
      generalize htext : row ++ c :: after = text at hpiece
      have hne : text ≠ [] := by simp [← htext]
      cases hpiece with
      | blank hblank => exact .blank hblank hrow
      | @lineComment body _ hbody hend =>
          have hhead := hend.resolve_left hne
          cases row with
          | nil =>
              obtain rfl : c = '\n' := by simpa [← htext] using hhead
              exact absurd hc (by decide)
          | cons d row =>
              obtain rfl : d = '\n' := by simpa [← htext] using hhead
              exact .lineComment hbody (hrow.of_blank_cons (by decide))
      | blockComment hbody =>
          have hclosed := IsClosed.blockComment hbody hrow
          simpa using hclosed
      | openComment => exact absurd rfl hne

end Trivia

/-! ### The first word of a text -/

/-- No word begins with a blank. -/
theorem isBlank_of_isWordStart {c : Char} (h : isWordStart c = true) : isBlank c = false :=
  Lexeme.not_isBlank_of_not_isBreak
    (Lexeme.not_isBreak_of_isWordPart (isWordPart_of_isWordStart h))

namespace Lexeme

/-- No trivia begin with a word. -/
theorem not_begins_of_isWordStart {c : Char} (h : isWordStart c = true) (rest : List Char) :
    Trivia.begins (c :: rest) = false := by
  refine begins_of_ne (isBlank_of_isWordStart h) ?_ ?_ rest
  · rintro rfl
    exact absurd h (by decide)
  · rintro rfl
    exact absurd h (by decide)

/-- The token that is read is a keyword if its text spells this, and no longer word. -/
theorem next_eq_keyword_iff {keyword : Keyword} {c : Char} {tail rest : List Char}
    (hc : isWordStart c = true) :
    next c (tail ++ rest) = (.keyword keyword, tail) ↔
      (∀ d ∈ tail, isWordPart d = true) ∧ (c :: tail).map Char.toUpper = keyword.name.toList ∧
        ∀ d ∈ rest.head?, isWordPart d = false := by
  rw [next_of_isWordStart hc, Prod.ext_iff, word_snd, word_fst, ← Keyword.ofText?_eq_some_iff]
  constructor
  · rintro ⟨htoken, htail⟩
    obtain ⟨hparts, hrest⟩ := takeWhile_append_eq_left_iff.mp htail
    refine ⟨hparts, ?_, hrest⟩
    rw [htail] at htoken
    cases hname : Keyword.ofText? (c :: tail) with
    | none =>
        rw [hname] at htoken
        cases htoken
    | some found =>
        rw [hname] at htoken
        obtain rfl : found = keyword := Token.keyword.inj htoken
        rfl
  · rintro ⟨hparts, hname, hrest⟩
    rw [takeWhile_append_eq_left_iff.mpr ⟨hparts, hrest⟩, hname]
    exact ⟨rfl, rfl⟩

end Lexeme

namespace Keyword

/-- Whether a keyword is the first word of a text, behind closed trivia. -/
def Leads (keyword : Keyword) (cs : List Char) : Prop :=
  ∃ trivia word rest, cs = trivia ++ (word ++ rest) ∧ Trivia.IsClosed trivia ∧
    word.map Char.toUpper = keyword.name.toList ∧ ∀ c ∈ rest.head?, isWordPart c = false

/-- The name of a keyword is not empty and consists of letters. -/
theorem name_spec (keyword : Keyword) :
    keyword.name.toList ≠ [] ∧ ∀ c ∈ keyword.name.toList, isWordStart c = true := by
  obtain ⟨first, rest, hname⟩ : ∃ first rest, keyword.name.toList = first :: rest := by
    cases keyword <;> exact ⟨_, _, rfl⟩
  have hletters : keyword.name.toList.all Char.isAlpha = true := by
    cases keyword <;> rfl
  refine ⟨by simp [hname], fun c hc => ?_⟩
  rw [isWordStart, isAlphabetic_of_isAlpha (List.all_eq_true.mp hletters c hc), Bool.true_or]

/-- A text that spells a keyword consists of letters. -/
theorem exists_cons_of_map_toUpper {keyword : Keyword} {word : List Char}
    (h : word.map Char.toUpper = keyword.name.toList) :
    ∃ c tail, word = c :: tail ∧ ∀ d ∈ c :: tail, isWordStart d = true := by
  obtain ⟨hne, hletters⟩ := keyword.name_spec
  rw [← h] at hne hletters
  cases word with
  | nil => exact absurd rfl hne
  | cons c tail =>
      refine ⟨c, tail, rfl, fun d hd => ?_⟩
      rw [← isWordStart_toUpper]
      exact hletters _ (List.mem_map_of_mem hd)

/-- The first token of a text is a keyword if this is the first word of the text. -/
theorem leads_iff {keyword : Keyword} {cs : List Char} :
    Leads keyword cs ↔
      (Lexeme.ofText cs).head?.map (·.token) = some (.keyword keyword) := by
  constructor
  · rintro ⟨trivia, word, rest, rfl, htrivia, hname, hrest⟩
    obtain ⟨c, tail, rfl, hletters⟩ := exists_cons_of_map_toUpper hname
    obtain ⟨hc, htail⟩ := List.forall_mem_cons.mp hletters
    have hnext := (Lexeme.next_eq_keyword_iff hc).mpr
      ⟨fun d hd => isWordPart_of_isWordStart (htail d hd), hname, hrest⟩
    have hbegins := Lexeme.not_begins_of_isWordStart hc (tail ++ rest)
    have hreads := Lexeme.Reads.cons (htrivia.row _) hbegins hnext .nil
    rw [List.cons_append, hreads.ofText_eq]
    rfl
  · intro h
    cases hls : Lexeme.ofText cs with
    | nil => simp [hls] at h
    | cons l ls =>
        rw [hls, List.head?_cons, Option.map_some, Option.some_inj] at h
        have hfirst : Lexeme.ofText cs = [] ++ l :: ls := hls
        obtain ⟨c, tail, behind, rfl, -, hseam, hnext⟩ := Lexeme.seam_of_ofText hfirst
        rw [h] at hnext
        have hc := (Lexeme.matches_of_next hnext).isWordStart rfl
        obtain ⟨-, hname, hbehind⟩ := (Lexeme.next_eq_keyword_iff hc).mp hnext
        have hclosed := (Trivia.row_iff_isClosed (isBlank_of_isWordStart hc)).mp hseam.row
        exact ⟨l.gap, c :: tail, behind, rfl, hclosed, hname, hbehind⟩

/-- Blanks around a text have no bearing on its first word. -/
theorem leads_trimBlanks_iff {keyword : Keyword} {cs : List Char} :
    Leads keyword (trimBlanks cs) ↔ Leads keyword cs := by
  constructor
  · rintro ⟨trivia, word, rest, htrimmed, htrivia, hname, hrest⟩
    obtain ⟨front, back, hcs, hfront, hback, -⟩ := Lexeme.exists_trimBlanks cs
    refine ⟨front ++ trivia, word, rest ++ back, ?_, htrivia.append_left hfront, hname, ?_⟩
    · rw [hcs, htrimmed]
      simp only [List.append_assoc]
    · cases rest with
      | nil =>
          intro c hc
          have hblank := hback c (List.mem_of_mem_head? hc)
          exact Lexeme.isWordPart_of_isBreak (Lexeme.isBreak_of_isBlank hblank)
      | cons d rest => exact hrest
  · rintro ⟨trivia, word, rest, rfl, htrivia, hname, hrest⟩
    obtain ⟨c, tail, rfl, hletters⟩ := exists_cons_of_map_toUpper hname
    obtain ⟨hc, htail⟩ := List.forall_mem_cons.mp hletters
    refine ⟨trivia.dropWhile isBlank, c :: tail, trimBlanksRight rest, ?_,
      htrivia.dropWhile, hname, fun d hd => hrest d (Lexeme.mem_head?_of_trimBlanksRight hd)⟩
    have hlast : ∀ d ∈ tail.getLast?, isBlank d = false := fun d hd =>
      isBlank_of_isWordStart (htail d (List.mem_of_getLast? hd))
    rw [List.cons_append, Lexeme.trimBlanks_append_cons (isBlank_of_isWordStart hc),
      Lexeme.trimBlanksRight_append hlast, List.cons_append]

end Keyword

/-! ### The kind of a statement -/

/-- The kind in the outline is the kind of the text. -/
theorem Query.kind_ofText (sql : String) : (ofText sql).kind = StatementKind.ofText sql := by
  rw [StatementKind.ofText, ofText, ofLexemes]
  split_ifs with hselect
  · exact hselect.symm
  · rfl

namespace StatementKind

/-- Whether a text is of the kind of its first word, and of no known kind without
such a word. -/
structure IsDecided (sql : String) (kind : StatementKind) : Prop where
  word : ∀ row ∈ words, kind = row.2 ↔ row.1.Leads sql.toList
  unknown : kind = unknown ↔ ∀ row ∈ words, ¬ row.1.Leads sql.toList

/-- A kind is unknown if it is none of those with a keyword. -/
theorem eq_unknown_iff {kind : StatementKind} :
    kind = unknown ↔ ∀ row ∈ words, kind ≠ row.2 := by
  cases kind <;> decide

/-- The kind of a statement is that of the first word of its text. -/
theorem isDecided_ofText (sql : String) :
    IsDecided sql (ofText sql) ∧ IsDecided sql (Query.ofText sql).kind := by
  have hword : ∀ row ∈ words, ofText sql = row.2 ↔ row.1.Leads sql.toList := by
    intro row hrow
    rw [ofText, ofLexemes_eq_iff row hrow, ← Keyword.leads_iff, Keyword.leads_trimBlanks_iff]
  have hdecided : IsDecided sql (ofText sql) := by
    refine ⟨hword, eq_unknown_iff.trans ?_⟩
    exact forall₂_congr fun row hrow => not_congr (hword row hrow)
  rw [Query.kind_ofText]
  exact ⟨hdecided, hdecided⟩

/-- A comment is not closed by the star that opens it. -/
example : ofText "/*/ SELECT 1" = unknown := by decide +kernel

end StatementKind

end SqlOutline
