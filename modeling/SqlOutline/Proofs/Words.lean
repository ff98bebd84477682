import SqlOutline.Proofs.Layout
import SqlOutline.Proofs.Neighbours
import SqlOutline.Proofs.SortKeys

/-!
# Words and blanks

A word is a longest stretch of tokens of which each begins at the byte behind the one before
it. The blanks in the text of a run tell its words if it has no comment in it and no blank in a
token. Otherwise they need not: a comment ends a word without any blank, and a blank in a
quoted name ends none. From the words of the text the table can be told that the run names.
Whether the second one is the keyword `AS`, and not a part of the alias, shows in its text,
since that is read alike alone.

## Main results

* `Lexeme.splitBlanks_spelling`: the texts of words are the parts of a text between its blanks.
* `Lexeme.isKeywordWord_iff`: a word is a keyword if its text is.
* `TableReference.exists_isNamedBy`: a table is read from the texts of words.
* `hasWords_splitBy_touches`: what holds of the words of each run of the tokens of a source.
-/

namespace SqlOutline

open Located (BlankBetween CommentBetween textOf)
open Lexeme (spelled)

/-! ### Texts between blanks -/

/-- The parts of a text between its blanks, without the empty ones. -/
def splitBlanks (cs : List Char) : List (List Char) := (cs.splitOnP isBlank).filter (· ≠ [])

/-- The words of a text between its blanks. -/
def blankWords (text : String) : List String := (splitBlanks text.toList).map String.ofList

section Blanks

variable {cs xs ys blanks : List Char}

/-- The words on the two sides of a blank are found each by themselves. -/
theorem splitBlanks_append_cons {c : Char} (hc : isBlank c = true) (xs ys : List Char) :
    splitBlanks (xs ++ c :: ys) = splitBlanks xs ++ splitBlanks ys := by
  rw [splitBlanks, List.splitOnP_append_cons xs ys hc, List.filter_append]
  rfl

/-- A text without blanks is one word. -/
theorem splitBlanks_of_not_isBlank (hne : cs ≠ []) (h : ∀ c ∈ cs, isBlank c = false) :
    splitBlanks cs = [cs] := by
  rw [splitBlanks, List.splitOnP_eq_singleton h, List.filter_cons_of_pos (by simpa using hne)]
  rfl

/-- Several blanks part a text as one does. -/
theorem splitBlanks_append (hne : blanks ≠ []) (hblanks : ∀ c ∈ blanks, isBlank c = true) :
    splitBlanks (xs ++ (blanks ++ ys)) = splitBlanks xs ++ splitBlanks ys := by
  have hfront : ∀ blanks : List Char, (∀ c ∈ blanks, isBlank c = true) →
      splitBlanks (blanks ++ ys) = splitBlanks ys := by
    intro blanks h
    induction blanks with
    | nil => rfl
    | cons c blanks ih =>
        rw [List.forall_mem_cons] at h
        exact (splitBlanks_append_cons h.1 [] (blanks ++ ys)).trans (ih h.2)
  obtain ⟨c, blanks, rfl⟩ := List.exists_cons_of_ne_nil hne
  rw [List.forall_mem_cons] at hblanks
  rw [List.cons_append, splitBlanks_append_cons hblanks.1, hfront blanks hblanks.2]

end Blanks

namespace Lexeme

variable {run word : List Lexeme}

/-- The first word of a run ends where something does not touch it. -/
theorem exists_words_eq (hne : run ≠ []) :
    ∃ word rest, run = word ++ rest ∧ word ≠ [] ∧ (∀ l ∈ word.tail, l.touchesPrevious = true) ∧
      (∀ l ∈ rest.head?, l.touchesPrevious = false) ∧ words run = word :: words rest := by
  obtain ⟨l, run, rfl⟩ := List.exists_cons_of_ne_nil hne
  refine ⟨l :: run.takeWhile touchesPrevious, run.dropWhile touchesPrevious, ?_, by simp,
    fun _ hm => List.mem_takeWhile_imp hm, fun _ hm => not_of_mem_head?_dropWhile hm,
    words_cons l run⟩
  rw [List.cons_append, List.takeWhile_append_dropWhile]

/-- A run spells its first word and the source of the others. -/
theorem spelling_append (hne : word ≠ []) (rest : List Lexeme) :
    spelling (word ++ rest) = spelling word ++ rest.flatMap source := by
  obtain ⟨l, word, rfl⟩ := List.exists_cons_of_ne_nil hne
  rw [List.cons_append, spelling, spelling, List.flatMap_append, List.append_assoc]

/-- The texts of words are the parts of a text between its blanks. -/
theorem splitBlanks_spelling (hne : ∀ l ∈ run, l.text ≠ [])
    (htexts : ∀ l ∈ run, ∀ c ∈ l.text, isBlank c = false)
    (hgaps : ∀ l ∈ run.tail, ∀ c ∈ l.gap, isBlank c = true) :
    splitBlanks (spelling run) = (words run).map spelling := by
  induction hn : run.length using Nat.strongRecOn generalizing run with
  | _ n ih =>
      rcases eq_or_ne run [] with rfl | hrun
      · rfl
      obtain ⟨word, rest, rfl, hword, htouch, hstop, hwords⟩ := exists_words_eq hrun
      have hpos := List.length_pos_of_ne_nil hword
      rw [List.length_append] at hn
      rw [List.forall_mem_append] at hne htexts
      rw [List.tail_append_of_ne_nil hword, List.forall_mem_append] at hgaps
      have hspelled : splitBlanks (spelling word) = [spelling word] := by
        rw [spelling_eq_flatMap htouch]
        refine splitBlanks_of_not_isBlank ?_ ?_
        · obtain ⟨l, word, rfl⟩ := List.exists_cons_of_ne_nil hword
          simp [hne.1 l]
        · simpa [List.mem_flatMap] using fun c l hl hc => htexts.1 l hl c hc
      have hrest := ih rest.length (by omega) hne.2 htexts.2
        (fun l hl => hgaps.2 l (List.mem_of_mem_tail hl)) rfl
      rw [hwords, List.map_cons, ← hrest, spelling_append hword]
      cases rest with
      | nil =>
          rw [List.flatMap_nil, List.append_nil, hspelled]
          rfl
      | cons m rest =>
          -- the trivia in front of the next word is neither empty nor a comment
          have hgap : m.gap ≠ [] := by simpa [touchesPrevious] using hstop m rfl
          rw [List.flatMap_cons, source, List.append_assoc,
            splitBlanks_append hgap (hgaps.2 m List.mem_cons_self), hspelled]
          rfl

/-- A comment ends a word without a blank, and a blank in a quoted name ends none. -/
example : (words (ofText "a/**/b [c d]".toList)).map spelling =
      ["a".toList, "b".toList, "[c d]".toList] ∧
    splitBlanks "a/**/b [c d]".toList = ["a/**/b".toList, "[c".toList, "d]".toList] := by
  decide +kernel

end Lexeme

/-! ### The keyword between a name and its alias -/

/-- A text that spells a keyword has this keyword as its only token. -/
theorem Keyword.ofText_eq_of_map_toUpper {keyword : Keyword} {word : List Char}
    (h : word.map Char.toUpper = keyword.name.toList) :
    Lexeme.ofText word = [⟨[], .keyword keyword, word⟩] := by
  obtain ⟨c, tail, rfl, hletters⟩ := exists_cons_of_map_toUpper h
  obtain ⟨hc, htail⟩ := List.forall_mem_cons.mp hletters
  have hnext : Lexeme.next c (tail ++ []) = (.keyword keyword, tail) :=
    (Lexeme.next_eq_keyword_iff hc).mpr
      ⟨fun d hd => isWordPart_of_isWordStart (htail d hd), h, by simp⟩
  have hbegins := Lexeme.not_begins_of_isWordStart hc (tail ++ [])
  have hreads : Lexeme.Reads ([] ++ c :: (tail ++ [])) [⟨[], .keyword keyword, c :: tail⟩] [] :=
    .cons .nil hbegins hnext .nil
  rw [List.nil_append, List.append_nil] at hreads
  rw [hreads.ofText_eq, Lexeme.ofText_of_row .nil, List.append_nil]

/-- Tokens of a source are a keyword alone if their text spells this. -/
theorem Lexeme.isKeywordWord_iff {cs : List Char} {part : List Lexeme} {keyword : Keyword}
    (hpart : part <:+: ofText cs) (hne : part ≠ []) :
    isKeywordWord keyword part = true ↔
      (spelling part).map Char.toUpper = keyword.name.toList := by
  constructor
  · intro hkeyword
    rcases part with _ | ⟨l, _ | ⟨m, rest⟩⟩
    · exact absurd rfl hne
    · obtain ⟨_, hreads, -⟩ := exists_reads_ofText cs
      obtain ⟨c, tail, after, htext, hnext⟩ :=
        hreads.exists_next l (hpart.subset List.mem_cons_self)
      rw [of_decide_eq_true hkeyword] at hnext
      have hc := (matches_of_next hnext).isWordStart rfl
      have hname := ((next_eq_keyword_iff hc).mp hnext).2.1
      rwa [spelling, List.flatMap_nil, List.append_nil, htext]
    · cases hkeyword
  · intro hname
    have hwording := wording_ofText_spelling hpart hne
    rw [Keyword.ofText_eq_of_map_toUpper hname] at hwording
    obtain ⟨l, rfl, hl⟩ := List.map_eq_singleton_iff.mp hwording.symm
    exact decide_eq_true (Prod.mk.inj hl).1

/-! ### Tables -/

namespace TableReference

/-- Whether a word is `AS` up to ASCII case. -/
def spellsAs (word : String) : Bool := word.toList.map Char.toUpper = ['A', 'S']

/-- Whether the name of a table is the first one of some words, and the name given to it the
second one, or the third one behind an `AS`. -/
structure IsNamedBy (table : TableReference) (words : List String) : Prop where
  name : words[0]? = some table.name
  aliasName : table.aliasName = if words[1]?.any spellsAs then words[2]? else words[1]?

/-- A table is read from the texts of the words of a run. -/
theorem exists_isNamedBy {cs : List Char} {run : List Lexeme}
    (hrun : run <:+: Lexeme.ofText cs) (hne : run ≠ []) :
    ∃ table, ofLexemes? run = some table ∧
      table.IsNamedBy ((Lexeme.words run).map spelled) := by
  have htext : ∀ word ∈ Lexeme.words run, Lexeme.text? word = some (spelled word) :=
    fun _ hword =>
    Lexeme.text?_of_ne_nil (List.ne_nil_of_mem_splitBy hword)
  have has : ∀ word ∈ Lexeme.words run,
      Lexeme.isKeywordWord .as word = spellsAs (spelled word) := by
    intro word hword
    have hwithin := List.infix_of_mem_flatten hword
    rw [Lexeme.flatten_words] at hwithin
    rw [Bool.eq_iff_iff, spellsAs, decide_eq_true_eq, spelled, String.toList_ofList]
    exact Lexeme.isKeywordWord_iff (hwithin.trans hrun) (List.ne_nil_of_mem_splitBy hword)
  obtain ⟨first, rest, hwords⟩ : ∃ first rest, Lexeme.words run = first :: rest :=
    List.exists_cons_of_ne_nil (List.splitBy_ne_nil.mpr hne)
  rw [hwords, List.forall_mem_cons] at htext has
  rw [ofLexemes?, hwords]
  dsimp only
  rw [htext.1]
  refine ⟨_, rfl, rfl, ?_⟩
  dsimp only
  rcases rest with _ | ⟨second, rest⟩
  · rfl
  · rw [List.forall_mem_cons] at htext has
    rw [aliasOf, has.2.1, htext.2.1]
    cases hspells : spellsAs (spelled second)
    · simp [hspells]
    · cases rest with
      | nil => simp [hspells]
      | cons third rest => simp [hspells, htext.2.2 third List.mem_cons_self]

end TableReference

/-! ### Runs of a source -/

/-- Whether no comment stands between the tokens of a run, and no blank in one of them. -/
structure IsPlain (source : String) (run : List (Located Lexeme)) : Prop where
  noComment : ∀ a b, [a, b] <:+: run → ¬ CommentBetween source a b
  noBlank : ∀ t ∈ run, ∀ c ∈ (textOf source [t]).toList, isBlank c = false

/-- What holds of the words of a run. -/
structure HasWords (source : String) (run : List (Located Lexeme))
    (words : List (List (Located Lexeme))) : Prop where
  /-- They are the words of its lexemes. -/
  values : words.map (List.map (·.value)) = Lexeme.words (run.map (·.value))
  /-- The text of each one is what lies in the source between its ends. -/
  texts : ∀ word ∈ words, Lexeme.text? (word.map (·.value)) = some (textOf source word)
  /-- Behind one another they are the run. -/
  flatten : words.flatten = run
  nonempty : ∀ word ∈ words, word ≠ []
  /-- Neighbours are in one word if neither a blank nor a comment stands between them. -/
  together : ∀ front a b back, run = front ++ a :: b :: back →
    (Together words front a b ↔ ¬ BlankBetween source a b ∧ ¬ CommentBetween source a b)
  /-- If the run is plain, their texts are what its text has between blanks. -/
  split : IsPlain source run → words.map (textOf source) = blankWords (textOf source run)
  /-- And a table is named by these. -/
  table : IsPlain source run → ∃ table,
    TableReference.ofLexemes? (run.map (·.value)) = some table ∧
      table.IsNamedBy (blankWords (textOf source run))

section Run

variable {source : String} {run : List (Located Lexeme)}

/-- Whether a run is plain can be told from its lexemes. -/
theorem isPlain_iff (hrun : run <:+: Lexeme.locate 0 (Lexeme.ofText source.toList)) :
    IsPlain source run ↔ (∀ t ∈ run.tail, ∀ c ∈ t.value.gap, isBlank c = true) ∧
      ∀ t ∈ run, ∀ c ∈ t.value.text, isBlank c = false := by
  have htext : ∀ t ∈ run, (textOf source [t]).toList = t.value.text := by
    intro t ht
    have hone : [t] <:+: run := (List.singleton_infix_iff t run).mpr ht
    rw [Lexeme.textOf_eq_spelled (hone.trans hrun) (by simp)]
    simp [spelled, Lexeme.spelling]
  have hgap : ∀ a b, [a, b] <:+: run →
      (¬ CommentBetween source a b ↔ ∀ c ∈ b.value.gap, isBlank c = true) := by
    intro a b hab
    obtain ⟨hbetween, hrow⟩ := Lexeme.between_eq_gap (hab.trans hrun)
    rw [CommentBetween, hbetween]
    exact ⟨hrow.isBlank_of_not_holdsComment, Trivia.not_holdsComment_of_isBlank⟩
  constructor
  · rintro ⟨hcomment, hblank⟩
    refine ⟨fun t ht => ?_, fun t ht => htext t ht ▸ hblank t ht⟩
    obtain ⟨a, hab⟩ := mem_tail_iff.mp ht
    exact (hgap a t hab).mp (hcomment a t hab)
  · rintro ⟨hgaps, htexts⟩
    refine ⟨fun a b hab => (hgap a b hab).mpr (hgaps b (mem_tail_iff.mpr ⟨a, hab⟩)),
      fun t ht => ?_⟩
    rw [htext t ht]
    exact htexts t ht

/-- The words of a plain run are those of its text between blanks. -/
theorem map_spelled_words (hrun : run <:+: Lexeme.locate 0 (Lexeme.ofText source.toList))
    (hne : run ≠ []) (hplain : IsPlain source run) :
    (Lexeme.words (run.map (·.value))).map spelled = blankWords (textOf source run) := by
  obtain ⟨hgaps, htexts⟩ := (isPlain_iff hrun).mp hplain
  obtain ⟨_, hreads, -⟩ := Lexeme.exists_reads_ofText source.toList
  have hwithin := Lexeme.infix_ofText hrun
  rw [Lexeme.textOf_eq_spelled hrun hne, blankWords, spelled, String.toList_ofList,
    Lexeme.splitBlanks_spelling fun l hl => hreads.text_ne_nil l (hwithin.subset hl),
    List.map_map]
  · rfl
  · simpa using htexts
  · simpa [← List.map_tail] using hgaps

/-- The words of each run of the tokens of a source, cut where two tokens do not touch. -/
theorem hasWords_splitBy_touches
    (hrun : run <:+: Lexeme.locate 0 (Lexeme.ofText source.toList))
    (hne : run ≠ []) : HasWords source run (run.splitBy Located.touches) := by
  have hvalues : (run.splitBy Located.touches).map (List.map (·.value)) =
      Lexeme.words (run.map (·.value)) :=
    map_splitBy fun a b hab => Lexeme.touches_eq (hab.trans hrun)
  have htexts : ∀ word ∈ run.splitBy Located.touches,
      textOf source word = spelled (word.map (·.value)) := by
    intro word hword
    have hwithin := List.infix_of_mem_flatten hword
    rw [List.flatten_splitBy] at hwithin
    exact Lexeme.textOf_eq_spelled (hwithin.trans hrun) (List.ne_nil_of_mem_splitBy hword)
  constructor
  case values => exact hvalues
  case texts =>
      intro word hword
      rw [htexts word hword]
      exact Lexeme.text?_of_ne_nil (by simpa using List.ne_nil_of_mem_splitBy hword)
  case flatten => exact List.flatten_splitBy _ run
  case nonempty => exact fun word hword => List.ne_nil_of_mem_splitBy hword
  case together =>
      intro front a b back heq
      have hab : [a, b] <:+: run := ⟨front, back, by rw [heq]; simp⟩
      exact (together_splitBy_iff heq).trans (Lexeme.touches_iff (hab.trans hrun))
  case split =>
      intro hplain
      rw [List.map_congr_left htexts, ← map_spelled_words hrun hne hplain,
        ← hvalues, List.map_map]
      rfl
  case table =>
      intro hplain
      rw [← map_spelled_words hrun hne hplain]
      exact TableReference.exists_isNamedBy (Lexeme.infix_ofText hrun) (by simpa using hne)

/-- A dotted name over a line break from its alias, with a comment in front. -/
theorem hasWords_splitBy_touches_alias :
    let source := "SELECT é FROM /* all */ main.users\n AS ü -- none"
    let run := (Lexeme.locate 0 (Lexeme.ofText source.toList)).drop 3
    run <:+: Lexeme.locate 0 (Lexeme.ofText source.toList) ∧ run ≠ [] ∧ IsPlain source run ∧
      blankWords (textOf source run) = ["main.users", "AS", "ü"] ∧
      HasWords source run (run.splitBy Located.touches) := by
  intro source run
  have hrun : run <:+: Lexeme.locate 0 (Lexeme.ofText source.toList) :=
    (List.drop_suffix 3 _).isInfix
  have hne : run ≠ [] := by decide +kernel
  have hgaps : (run.tail.all fun t => t.value.gap.all isBlank) = true := by decide +kernel
  have htexts : (run.all fun t => t.value.text.all (!isBlank ·)) = true := by decide +kernel
  simp only [List.all_eq_true, Bool.not_eq_true'] at hgaps htexts
  have hplain : IsPlain source run := (isPlain_iff hrun).mpr ⟨hgaps, htexts⟩
  have hwords : blankWords (textOf source run) = ["main.users", "AS", "ü"] := by decide +kernel
  exact ⟨hrun, hne, hplain, hwords, hasWords_splitBy_touches hrun hne⟩

end Run

end SqlOutline
