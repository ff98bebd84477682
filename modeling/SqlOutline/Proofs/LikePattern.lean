import SqlOutline.Explanation
import SqlOutline.Proofs.Insides
import SqlOutline.Query.OfText

/-!
# Where the advice on leading wildcards comes from

The search for a pattern with a leading wildcard goes over the text of a condition and does not
ask what is a token there. What it finds is `LIKE` or `ILIKE` as a token with a quoted text as
the next one, or it begins inside of a comment, of a literal or a quoted name, or in a word
behind a dollar sign. So a condition without any of these is not advised on.

## Main results

* `LeadingWildcard.exists_occurs_of_occursAfter`: the text that the search finds.
* `LeadingWildcard.Occurs.isWritten`: at a token it is two tokens.
* `LeadingWildcard.Occurs.isCovered`: inside of a token it is in a literal, in a quoted name or
  behind a dollar sign.
* `Query.isFounded_ofText`: the advice on a statement has its reason in the condition.
-/

namespace SqlOutline

open Lexeme (InComment InToken)

namespace LeadingWildcard

/-! ### The text that the search finds -/

/-- Whether a word is `LIKE` or `ILIKE` up to ASCII case. -/
def IsLike (word : List Char) : Prop :=
  word.map Char.toUpper = ['L', 'I', 'K', 'E'] ∨
    word.map Char.toUpper = ['I', 'L', 'I', 'K', 'E']

/-- Whether a character is a wildcard. -/
def IsWildcard (c : Char) : Prop := c = '%' ∨ c = '_'

/-- Whether `LIKE` or `ILIKE` stands free behind a text, with a quoted text behind it that
begins with a wildcard. -/
structure Occurs (before word blanks : List Char) (mark wildcard : Char) : Prop where
  isLike : IsLike word
  free : ∀ c ∈ before.getLast?, isNameCharacter c = false
  isBlank : ∀ c ∈ blanks, isBlank c = true
  mark : mark = Quoted.single ∨ mark = Quoted.double
  wildcard : IsWildcard wildcard

/-- A pattern is opened by a quotation mark. -/
theorem Occurs.mark_mem {before word blanks : List Char} {mark wildcard : Char}
    (h : Occurs before word blanks mark wildcard) : mark ∈ Quoted.marks := by
  rcases h.mark with rfl | rfl <;> decide

/-- Where a pattern opens there are blanks, a mark and a wildcard. -/
theorem exists_of_opensPattern {after : List Char} (h : opensPattern after = true) :
    ∃ blanks mark wildcard rest, after = blanks ++ mark :: wildcard :: rest ∧
      (∀ c ∈ blanks, isBlank c = true) ∧ (mark = Quoted.single ∨ mark = Quoted.double) ∧
      IsWildcard wildcard := by
  have hsplit := List.takeWhile_append_dropWhile (p := isBlank) (l := after)
  rw [opensPattern] at h
  split at h
  · next mark wildcard rest hdrop =>
    simp only [Bool.and_eq_true, Bool.or_eq_true, beq_iff_eq] at h
    rw [hdrop] at hsplit
    exact ⟨_, mark, wildcard, rest, hsplit.symm, fun c hc => List.mem_takeWhile_imp hc, h⟩
  · cases h

/-- A text that is given from its end, and the last character of it. -/
theorem any_head?_eq_false_iff {before : List Char} :
    before.head?.any isNameCharacter = false ↔
      ∀ c ∈ before.reverse.getLast?, isNameCharacter c = false := by
  rw [List.getLast?_reverse]
  exact Option.any_eq_false isNameCharacter before.head?

/-- The word that a free `LIKE` belongs to. -/
theorem exists_of_standsFree {before like : List Char} (h : standsFree before = true)
    (hlike : like.map Char.toUpper = ['L', 'I', 'K', 'E']) :
    ∃ front word, before.reverse ++ like = front ++ word ∧ IsLike word ∧
      ∀ c ∈ front.getLast?, isNameCharacter c = false := by
  rw [standsFree, Bool.not_eq_true'] at h
  cases before with
  | nil => exact ⟨[], like, rfl, .inl hlike, by simp⟩
  | cons c before =>
      -- an `I` in front of `LIKE` belongs to the word, and the search has passed it already
      rw [withoutI] at h
      split_ifs at h with hc
      · exact ⟨before.reverse, c :: like, by simp, .inr (by simp [hc, hlike]),
          any_head?_eq_false_iff.mp h⟩
      · exact ⟨(c :: before).reverse, like, rfl, .inl hlike, any_head?_eq_false_iff.mp h⟩

/-- What the search finds behind a text, which is given from its end. -/
theorem exists_occurs_of_occursAfter {before cs : List Char}
    (h : occursAfter before cs = true) :
    ∃ front word blanks mark wildcard after,
      before.reverse ++ cs = front ++ (word ++ (blanks ++ mark :: wildcard :: after)) ∧
      Occurs front word blanks mark wildcard := by
  induction cs generalizing before with
  | nil => cases h
  | cons c cs ih =>
      rw [occursAfter, Bool.or_eq_true, Bool.and_eq_true, Bool.and_eq_true] at h
      rcases h with ⟨⟨hlike, hfree⟩, hopens⟩ | hlater
      · rw [beginsWithLike, beq_iff_eq] at hlike
        obtain ⟨front, word, hsplit, hword, hfront⟩ := exists_of_standsFree hfree hlike
        obtain ⟨blanks, mark, wildcard, after, hafter, hblanks, hmark, hwildcard⟩ :=
          exists_of_opensPattern hopens
        refine ⟨front, word, blanks, mark, wildcard, after, ?_,
          ⟨hword, hfront, hblanks, hmark, hwildcard⟩⟩
        have hcs : c :: cs = (c :: cs).take 4 ++ cs.drop 3 :=
          (List.take_append_drop 4 (c :: cs)).symm
        rw [← hafter, ← List.append_assoc, ← hsplit, List.append_assoc, ← hcs]
      · obtain ⟨front, word, blanks, mark, wildcard, after, hsplit, hoccurs⟩ := ih hlater
        refine ⟨front, word, blanks, mark, wildcard, after, ?_, hoccurs⟩
        rw [← hsplit, List.reverse_cons, List.append_assoc, List.singleton_append]

/-! ### At a token -/

/-- Whether `LIKE` or `ILIKE` is a token, and the next one is a quoted text that begins
with a wildcard. -/
def IsWritten (ls : List Lexeme) : Prop :=
  ∃ earlier l m later,
    ls = earlier ++ l :: m :: later ∧ l.token = .identifier ∧ IsLike l.text ∧
    (m.token = .string ∨ m.token = .quotedIdentifier ∧ m.text.head? = some Quoted.double) ∧
    ∃ c ∈ m.text[1]?, IsWildcard c

/-- `LIKE` and `ILIKE` consist of letters. -/
theorem IsLike.exists_cons {word : List Char} (h : IsLike word) :
    ∃ c tail, word = c :: tail ∧ ∀ d ∈ c :: tail, isWordStart d = true := by
  have hletters : (word.map Char.toUpper).all Char.isAlpha = true := by
    rcases h with h | h <;> rw [h] <;> rfl
  cases word with
  | nil => rcases h with h | h <;> cases h
  | cons c tail =>
      refine ⟨c, tail, rfl, fun d hd => ?_⟩
      rw [← isWordStart_toUpper]
      exact isWordStart_of_isAlpha (List.all_eq_true.mp hletters _ (List.mem_map_of_mem hd))

/-- Neither `LIKE` nor `ILIKE` is a keyword. -/
theorem IsLike.ofText?_eq_none {word : List Char} (h : IsLike word) :
    Keyword.ofText? word = none := by
  rw [Keyword.ofText?_eq_none_iff]
  intro k
  rcases h with h | h <;> rw [h] <;> cases k <;> decide

variable {before word blanks after : List Char} {mark wildcard : Char}

/-- The quoted text is the first token behind blanks. -/
theorem Occurs.exists_ofText (h : Occurs before word blanks mark wildcard)
    (after : List Char) :
    ∃ tail later, Lexeme.ofText (blanks ++ mark :: wildcard :: after) =
      ⟨blanks, Quoted.token mark, mark :: wildcard :: tail⟩ :: later := by
  have hmark := h.mark_mem
  have hwildcard : wildcard ≠ mark := by
    rcases h.wildcard with rfl | rfl <;> rcases h.mark with rfl | rfl <;> decide
  have hblanks := Trivia.IsClosed.append_left .nil h.isBlank
  rw [List.append_nil] at hblanks
  have hbegins := Quoted.not_begins_of_mem_marks hmark (wildcard :: after)
  rw [Lexeme.ofText_of_behind_cons
      (Lexeme.behind_append_of_row (hblanks.row _) hbegins),
    Trivia.leading_append_of_row (hblanks.row _) hbegins, Quoted.next_of_mem_marks hmark,
    Lexeme.tail_cons_of_ne hwildcard]
  exact ⟨_, _, rfl⟩

/-- What stands behind the word does not go on with it. -/
theorem Occurs.next_eq {c : Char} {tail : List Char}
    (h : Occurs before (c :: tail) blanks mark wildcard)
    (hletters : ∀ d ∈ c :: tail, isWordStart d = true) (after : List Char) :
    Lexeme.next c (tail ++ (blanks ++ mark :: after)) = (.identifier, tail) := by
  obtain ⟨hc, htail⟩ := List.forall_mem_cons.mp hletters
  have hend : ∀ d ∈ (blanks ++ mark :: after).head?, isWordPart d = false := by
    cases blanks with
    | nil =>
        intro d hd
        obtain rfl : mark = d := Option.some_inj.mp hd
        rcases h.mark with rfl | rfl <;> decide
    | cons b blanks =>
        intro d hd
        obtain rfl : b = d := Option.some_inj.mp hd
        exact Lexeme.isWordPart_of_isBreak (Lexeme.isBreak_of_isBlank
          (h.isBlank b List.mem_cons_self))
  have hword := Lexeme.takeWhile_append_eq_left_iff.mpr
    ⟨fun d hd => isWordPart_of_isWordStart (htail d hd), hend⟩
  rw [Lexeme.next_of_isWordStart hc, Prod.ext_iff, Lexeme.word_fst, Lexeme.word_snd, hword,
    h.isLike.ofText?_eq_none]
  exact ⟨rfl, rfl⟩

/-- At a token the search has found two tokens. -/
theorem Occurs.isWritten (h : Occurs before word blanks mark wildcard)
    {earlier later : List Lexeme} {l : Lexeme}
    (hls : Lexeme.ofText (before ++ (word ++ (blanks ++ mark :: wildcard :: after))) =
      earlier ++ l :: later)
    (hbefore : before = earlier.flatMap Lexeme.source ++ l.gap) :
    IsWritten (Lexeme.ofText (before ++ (word ++ (blanks ++ mark :: wildcard :: after)))) := by
  obtain ⟨c, tail, rfl, hletters⟩ := h.isLike.exists_cons
  obtain ⟨d, tail', behind, hcs, -, hseam, hnext⟩ := Lexeme.seam_of_ofText hls
  have hword := h.next_eq hletters (wildcard :: after)
  rw [← hbefore, List.append_cancel_left_eq, List.cons_append, List.cons.injEq] at hcs
  obtain ⟨rfl, hrest⟩ := hcs
  rw [← hrest, hword, Prod.mk.injEq] at hnext
  obtain ⟨-, rfl⟩ := hnext
  rw [← hbefore, ← hrest] at hseam
  obtain ⟨text, more, hquoted⟩ := h.exists_ofText after
  have hbegins := Lexeme.not_begins_of_isWordStart (hletters c List.mem_cons_self)
    (tail ++ (blanks ++ mark :: wildcard :: after))
  -- the token is the word alone, and the text behind it is cut on its own
  have hcut := hseam.ofText_eq hbegins hword
  rw [hquoted] at hcut
  refine ⟨earlier, _, _, more, hcut, rfl, h.isLike, ?_, wildcard, rfl, h.wildcard⟩
  rcases h.mark with rfl | rfl
  · exact .inl rfl
  · exact .inr ⟨rfl, rfl⟩

/-! ### Inside of a token -/

/-- A numeral has digits, points, signs and the letter of an exponent in it. -/
theorem mem_numeral {n : Numeral} (hn : n.IsFormed) {c : Char} (hc : c ∈ n.text) :
    c.isDigit = true ∨ c ∈ ['.', '+', '-', 'e', 'E'] := by
  rw [Numeral.text, List.mem_append, List.mem_append] at hc
  rcases hc with (hwhole | hfraction) | hexponent
  · exact .inl (hn.whole c hwhole)
  · rcases hn.fraction with hnone | ⟨digits, hdigits, hsome⟩
    · rw [hnone] at hfraction
      cases hfraction
    · rw [hsome, List.mem_cons] at hfraction
      rcases hfraction with rfl | hfraction
      · exact .inr (by decide)
      · exact .inl (hdigits c hfraction)
  · rcases hn.exponent with hnone | ⟨e, he, power, hpower, hsome⟩
    · rw [hnone] at hexponent
      cases hexponent
    · rw [hsome, List.mem_cons] at hexponent
      rcases hexponent with rfl | hexponent
      · exact .inr (by rcases he with rfl | rfl <;> decide)
      · obtain ⟨sign, hsign, digits, hdigits, rfl⟩ := Language.mem_mul.mp hpower
        rcases List.mem_append.mp hexponent with hc | hc
        · rcases hsign with rfl | rfl | rfl
          · cases hc
          · exact .inr (by rw [List.mem_singleton.mp hc]; decide)
          · exact .inr (by rw [List.mem_singleton.mp hc]; decide)
        · exact .inl (hdigits c hc)

/-- No letter of `LIKE` is in a numeral. -/
theorem toUpper_of_mem_numeral {n : Numeral} (hn : n.IsFormed) {c : Char} (hc : c ∈ n.text) :
    c.toUpper ≠ 'L' ∧ c.toUpper ≠ 'I' := by
  rcases mem_numeral hn hc with hdigit | hmem
  · rw [← isDigit_toUpper] at hdigit
    constructor <;> intro h <;> rw [h] at hdigit <;> cases hdigit
  · simp only [List.mem_cons, List.not_mem_nil, or_false] at hmem
    rcases hmem with rfl | rfl | rfl | rfl | rfl <;> decide

/-- Whether a token hides what begins in it: a literal, a quoted name, or a word behind a
dollar sign. -/
def IsCovered (token : Token) (inner : List Char) : Prop :=
  token = .string ∨ token = .quotedIdentifier ∨ inner.getLast? = some '$'

/-- The character in front of the last part of a word is a dollar sign if it is
not in names. -/
theorem getLast?_eq_dollar {inner : List Char} (hne : inner ≠ [])
    (hparts : ∀ d ∈ inner, isWordPart d = true)
    (hfree : ∀ d ∈ inner.getLast?, isNameCharacter d = false) : inner.getLast? = some '$' := by
  have hlast := List.getLast?_eq_some_getLast hne
  have hpart := hparts _ (List.getLast_mem hne)
  have hname := hfree _ hlast
  rw [isNameCharacter] at hname
  rw [isWordPart, hname, Bool.false_or, beq_iff_eq] at hpart
  rw [hlast, hpart]

/-- A token that begins with a quotation mark is a quoted text. -/
theorem isCovered_token (mark : Char) (inner : List Char) :
    IsCovered (Quoted.token mark) inner := by
  unfold Quoted.token
  split_ifs
  · exact .inl rfl
  · exact .inr (.inl rfl)

/-- A token in which a free `LIKE` begins behind its first character hides it. -/
theorem isCovered_of_matches {token : Token} {inner rest after : List Char} {c : Char}
    (h : Token.Matches token (inner ++ c :: rest) after) (hinner : inner ≠ [])
    (hc : c.toUpper = 'L' ∨ c.toUpper = 'I')
    (hfree : ∀ d ∈ inner.getLast?, isNameCharacter d = false) : IsCovered token inner := by
  have hword : ∀ {d tail}, inner ++ c :: rest = d :: tail → isWordStart d = true →
      (∀ e ∈ tail, isWordPart e = true) → inner.getLast? = some '$' := by
    intro d tail htext hd htail
    have hall : ∀ e ∈ inner ++ c :: rest, isWordPart e = true := by
      rw [htext]
      exact List.forall_mem_cons.mpr ⟨isWordPart_of_isWordStart hd, htail⟩
    exact getLast?_eq_dollar hinner (fun e he => hall e (List.mem_append_left _ he)) hfree
  have hshort : ∀ d, inner ++ c :: rest ≠ [d] := by
    intro d hd
    have hlength := congrArg List.length hd
    have hpos := List.length_pos_iff.mpr hinner
    simp at hlength
    omega
  -- a numeral has no such letter, and in an operator it would be the second character
  generalize htext : inner ++ c :: rest = text at h
  cases h with
  | keyword hd htail => exact .inr (.inr (hword htext hd htail))
  | identifier hd htail => exact .inr (.inr (hword htext hd htail))
  | number hn =>
      have hmem : c ∈ inner ++ c :: rest := by simp
      rw [htext] at hmem
      obtain ⟨hl, hi⟩ := toUpper_of_mem_numeral hn hmem
      exact absurd hc (not_or.mpr ⟨hl, hi⟩)
  | quoted => exact isCovered_token _ inner
  | openQuoted => exact isCovered_token _ inner
  | bracketed => exact .inr (.inl rfl)
  | openBracketed => exact .inr (.inl rfl)
  | @operator a b token after hoperator =>
      have hletters : ∀ row ∈ Token.operators, row.2.1.toUpper ≠ 'L' ∧
          row.2.1.toUpper ≠ 'I' := by
        decide
      obtain ⟨hl, hi⟩ := hletters _ hoperator
      have hsecond : c = b := by
        cases inner with
        | nil => exact absurd rfl hinner
        | cons e inner =>
            cases inner with
            | nil =>
                simp only [List.singleton_append, List.cons.injEq] at htext
                exact htext.2.1
            | cons f inner => simp at htext
      rw [hsecond] at hc
      exact absurd hc (not_or.mpr ⟨hl, hi⟩)
  | symbol => exact absurd htext (hshort _)
  | other => exact absurd htext (hshort _)

/-- Inside of a token the search has found what is no token. -/
theorem Occurs.isCovered {c : Char} {tail : List Char}
    (h : Occurs before (c :: tail) blanks mark wildcard) {l : Lexeme} {inner rest : List Char}
    (hinside : InToken before after l inner (c :: rest)) : IsCovered l.token inner := by
  obtain ⟨earlier, later, hls, hbefore⟩ := hinside.place
  obtain ⟨d, text, behind, -, htext, -, hnext⟩ := Lexeme.seam_of_ofText hls
  have hmatches := Lexeme.matches_of_next hnext
  rw [← htext, hinside.text] at hmatches
  refine isCovered_of_matches hmatches hinside.begun ?_ fun d hd => h.free d ?_
  · rcases h.isLike with hlike | hlike
    · exact .inl (List.cons.inj hlike).1
    · exact .inr (List.cons.inj hlike).1
  · rwa [hbefore, List.getLast?_append_of_ne_nil _ hinside.begun]

/-! ### The advice -/

/-- Whether a free `LIKE` with a wildcard behind it begins inside of a comment, of a literal or
a quoted name, or in a word behind a dollar sign. -/
def IsHidden (cs : List Char) : Prop :=
  ∃ before word blanks mark wildcard after,
    cs = before ++ (word ++ (blanks ++ mark :: wildcard :: after)) ∧
      Occurs before word blanks mark wildcard ∧
      (InComment before (word ++ (blanks ++ mark :: wildcard :: after)) ∨
        ∃ l inner rest,
          InToken before (word ++ (blanks ++ mark :: wildcard :: after)) l inner rest ∧
          IsCovered l.token inner)

/-- The search finds two tokens, or what is hidden from the reader of tokens. -/
theorem isWritten_or_isHidden {condition : String} (h : occursIn condition = true) :
    IsWritten (Lexeme.ofText condition.toList) ∨ IsHidden condition.toList := by
  obtain ⟨before, word, blanks, mark, wildcard, after, hcs, hoccurs⟩ :=
    exists_occurs_of_occursAfter h
  rw [List.reverse_nil, List.nil_append] at hcs
  rw [hcs]
  obtain ⟨c, tail, rfl, hletters⟩ := hoccurs.isLike.exists_cons
  have hc := hletters c List.mem_cons_self
  have hplace := Lexeme.exists_place before (tail ++ (blanks ++ mark :: wildcard :: after)) hc
  rcases hplace with hcomment | ⟨earlier, l, later, hls, hbefore⟩ | ⟨l, inner, rest, hinside⟩
  · exact .inr ⟨before, c :: tail, blanks, mark, wildcard, after, rfl, hoccurs, .inl hcomment⟩
  · exact .inl (hoccurs.isWritten hls hbefore)
  · exact .inr ⟨before, c :: tail, blanks, mark, wildcard, after, rfl, hoccurs,
      .inr ⟨l, inner, c :: rest, hinside, hoccurs.isCovered hinside⟩⟩

end LeadingWildcard

open LeadingWildcard (IsWritten IsHidden)

namespace Query

/-- Whether the advice on a statement has its reason in the condition: a leading wildcard is
there, among the tokens or hidden from them, and without one a statement that names its columns
and has a condition is not advised on. -/
structure IsFounded (q : Query) : Prop where
  wildcard : Advisory.leadingWildcard ∈ q.advisories →
    ∃ condition ∈ q.filter,
      IsWritten (Lexeme.ofText condition.toList) ∨ IsHidden condition.toList
  silent : ∀ condition ∈ q.filter, q.isSelectAll = false →
    ¬ IsWritten (Lexeme.ofText condition.toList) → ¬ IsHidden condition.toList →
      q.advisories = []

/-- A statement gets an advisory if it is a `SELECT` to which that applies. -/
theorem mem_advisories_iff {q : Query} {advisory : Advisory} :
    advisory ∈ q.advisories ↔ q.isSelect = true ∧ advisory.applies q = true := by
  rw [advisories]
  split_ifs with hselect
  · cases advisory <;> simp [hselect, Advisory.all]
  · simp [hselect]

/-- The advice on every statement has its reason in the condition. -/
theorem isFounded_ofText (sql : String) : (ofText sql).IsFounded := by
  generalize ofText sql = q
  have hwildcard : Advisory.leadingWildcard ∈ q.advisories → ∃ condition ∈ q.filter,
      IsWritten (Lexeme.ofText condition.toList) ∨ IsHidden condition.toList := by
    intro h
    have happlies := (mem_advisories_iff.mp h).2
    rw [Advisory.applies, Option.any_eq_true] at happlies
    obtain ⟨condition, hfilter, hoccurs⟩ := happlies
    exact ⟨condition, hfilter, LeadingWildcard.isWritten_or_isHidden hoccurs⟩
  refine ⟨hwildcard, fun condition hfilter hall hwritten hhidden => ?_⟩
  rw [List.eq_nil_iff_forall_not_mem]
  intro advisory h
  have happlies := (mem_advisories_iff.mp h).2
  cases advisory with
  | selectAll =>
      rw [Advisory.applies, hall] at happlies
      cases happlies
  | leadingWildcard =>
      obtain ⟨other, hother, hreason⟩ := hwildcard h
      obtain rfl : condition = other := Option.some_inj.mp (hfilter.symm.trans hother)
      exact hreason.elim hwritten hhidden
  | missingFilter =>
      rw [Advisory.applies, hfilter] at happlies
      simp at happlies

/-- The text of a literal may be advised on. -/
theorem not_isWritten_of_leadingWildcard :
    ¬ ∀ sql, Advisory.leadingWildcard ∈ (ofText sql).advisories →
      ∃ condition ∈ (ofText sql).filter, IsWritten (Lexeme.ofText condition.toList) := by
  intro h
  have hfilter : (ofText "SELECT a FROM t WHERE note = 'try LIKE \x22%x\x22'").filter =
      some "note = 'try LIKE \x22%x\x22'" := by
    decide +kernel
  obtain ⟨condition, hcondition, earlier, l, m, later, hls, htoken, hlike, -⟩ :=
    h "SELECT a FROM t WHERE note = 'try LIKE \x22%x\x22'" (by decide +kernel)
  obtain rfl := Option.some_inj.mp (hfilter.symm.trans hcondition)
  have hnames : ∀ l ∈ Lexeme.ofText "note = 'try LIKE \x22%x\x22'".toList,
      l.token = .identifier → l.text.map Char.toUpper = ['N', 'O', 'T', 'E'] := by
    decide +kernel
  have hname := hnames l (by rw [hls]; simp) htoken
  rcases hlike with hlike | hlike
  · rw [hname] at hlike
    cases hlike
  · rw [hname] at hlike
    cases hlike

end Query

end SqlOutline
