import Mathlib.Data.List.SplitBy
import SqlOutline.Lexeme.Words
import SqlOutline.Proofs.Nesting
import SqlOutline.Proofs.Spelling

/-!
# Fragments

A fragment is a text that may stand in a statement for a column, a name or a condition: it
has no trivia at its ends, its quoted texts are closed, its parentheses are in pairs, and
outside of them there is nothing at which a statement is cut. A word is a fragment whose
tokens touch.

## Main results

* `Fragment.spells`: a fragment spells its own lexemes, wherever it is printed.
* `Fragment.text?_run`: and these have the fragment as their text.
* `Word.words_run_append`: a word is the first one of a run that begins with it.
-/

namespace SqlOutline

/-- Whether a statement is cut at a token outside of parentheses. -/
def Token.isStop : Token → Bool
  | .comma | .semicolon => true
  | .keyword .from | .keyword .where | .keyword .group | .keyword .having => true
  | .keyword .order | .keyword .limit | .keyword .join | .keyword .on => true
  | _ => false

/-- A text that a statement may have in place of a column, a name or a condition. -/
structure Fragment where
  text : String
  /-- The first token begins the text and the last one ends it. -/
  spelled : Lexeme.text? (Lexeme.ofText text.toList) = some text
  /-- No quoted text is open at the end. -/
  terminated : Lexeme.ofText (text.toList ++ [' ']) = Lexeme.ofText text.toList
  /-- Parentheses are in pairs, and no stop stands outside of them. -/
  plain : Lexeme.isFree Token.isStop 0 (Lexeme.ofText text.toList) = true

namespace Fragment

/-- A text that is found to be a fragment. -/
def ofText (text : String)
    (h : Lexeme.text? (Lexeme.ofText text.toList) = some text ∧
      Lexeme.ofText (text.toList ++ [' ']) = Lexeme.ofText text.toList ∧
      Lexeme.isFree Token.isStop 0 (Lexeme.ofText text.toList) = true := by decide +kernel) :
    Fragment :=
  ⟨text, h.1, h.2.1, h.2.2⟩

/-- Stops in parentheses, in quoted texts and in comments do not count. -/
example : ∃ f : Fragment, f.text = "o.id IN (SELECT a, b FROM 'x, y') /* ; */ AND c" :=
  ⟨.ofText _, rfl⟩

/-- The lexemes of a fragment. -/
def lexemes (f : Fragment) : List Lexeme := Lexeme.ofText f.text.toList

/-- The lexemes of a fragment are those of its text. -/
theorem ofText_eq_lexemes (f : Fragment) : Lexeme.ofText f.text.toList = f.lexemes := rfl

/-- The lexemes of a fragment behind a blank. -/
def run (f : Fragment) : List Lexeme := Lexeme.spaced f.lexemes

/-- The lexemes of a fragment cover it, and the first one has no trivia before it. -/
theorem exists_lexemes_eq (f : Fragment) : ∃ l ls, f.lexemes = l :: ls ∧ l.gap = [] ∧
    f.lexemes.flatMap Lexeme.source = f.text.toList := by
  obtain ⟨trailing, hreads, -⟩ := Lexeme.exists_reads_ofText f.text.toList
  have hsource := hreads.source_append
  have hspelled := f.spelled
  rw [lexemes]
  cases hls : Lexeme.ofText f.text.toList with
  | nil => simp [hls, Lexeme.text?] at hspelled
  | cons l ls =>
      rw [hls] at hsource hspelled
      rw [Lexeme.text?, Option.some_inj] at hspelled
      have htext : Lexeme.spelling (l :: ls) = f.text.toList := by
        rw [← hspelled, String.toList_ofList]
      have hlength := congrArg List.length (htext.trans hsource.symm)
      simp only [Lexeme.spelling, List.flatMap_cons, Lexeme.source,
        List.length_append] at hlength
      have hgap : l.gap = [] := List.eq_nil_of_length_eq_zero (by omega)
      have htrailing : trailing = [] := List.eq_nil_of_length_eq_zero (by omega)
      rw [htrailing, List.append_nil] at hsource
      exact ⟨l, ls, rfl, hgap, hsource⟩

/-- A fragment spells its own lexemes, wherever it is printed. -/
theorem spells (f : Fragment) : Lexeme.Spells f.text.toList f.lexemes := by
  obtain ⟨l, ls, -, -, hcover⟩ := f.exists_lexemes_eq
  obtain ⟨trailing, hreads, -⟩ := Lexeme.exists_reads_ofText (f.text.toList ++ [' '])
  rw [f.terminated] at hreads
  have hsource := hreads.source_append
  rw [f.ofText_eq_lexemes] at hreads hsource
  rw [hcover, List.append_cancel_left_eq] at hsource
  rw [hsource] at hreads
  exact Lexeme.spells_of_reads hreads

/-- A fragment behind a blank has lexemes, and a blank stands before the first one. -/
theorem exists_run_eq (f : Fragment) : ∃ l ls, f.run = l :: ls ∧ l.gap = [' '] ∧
    f.lexemes = { l with gap := [] } :: ls := by
  obtain ⟨l, ls, hls, hgap, -⟩ := f.exists_lexemes_eq
  refine ⟨{ l with gap := [' '] }, ls, ?_, rfl, ?_⟩
  · rw [run, hls, Lexeme.spaced, hgap]
  · rw [hls, ← hgap]

/-- In the run of a fragment a blank stands before the first lexeme. -/
theorem gap_of_head?_run (f : Fragment) : ∀ l ∈ f.run.head?, l.gap = [' '] := by
  intro l hl
  obtain ⟨first, ls, hrun, hgap, -⟩ := f.exists_run_eq
  obtain rfl : first = l := by simpa [hrun] using hl
  exact hgap

/-- The first lexeme of the run of a fragment does not touch the one before. -/
theorem not_touchesPrevious_of_head?_run (f : Fragment) :
    ∀ l ∈ f.run.head?, l.touchesPrevious = false := by
  intro l hl
  rw [Lexeme.touchesPrevious, f.gap_of_head?_run l hl]
  rfl

/-- The lexemes of a fragment have the fragment as their text. -/
theorem text?_run (f : Fragment) : Lexeme.text? f.run = some f.text := by
  obtain ⟨l, ls, hrun, -, hls⟩ := f.exists_run_eq
  have hspelled := f.spelled
  rw [f.ofText_eq_lexemes, hls] at hspelled
  rw [hrun]
  exact hspelled

/-- No stop stands outside of the parentheses of a fragment. -/
theorem isFree_run (f : Fragment) : Lexeme.isFree Token.isStop 0 f.run = true := by
  obtain ⟨l, ls, hrun, -, hls⟩ := f.exists_run_eq
  have hplain := f.plain
  rw [f.ofText_eq_lexemes, hls] at hplain
  rw [hrun]
  exact hplain

/-- A fragment whose only token is an asterisk is an asterisk. -/
theorem map_token_run_eq_asterisk_iff (f : Fragment) :
    f.run.map (·.token) = [.asterisk] ↔ f.text = "*" := by
  obtain ⟨l, ls, hrun, -, hls⟩ := f.exists_run_eq
  constructor
  · intro htokens
    simp only [hrun, List.map_cons, List.cons.injEq, List.map_eq_nil_iff] at htokens
    obtain ⟨htoken, rfl⟩ := htokens
    have hspells := f.spells
    rw [hls] at hspells
    rw [← String.toList_inj]
    exact hspells.eq_asterisk htoken rfl
  · intro htext
    have hlexemes : f.lexemes = [⟨[], .asterisk, ['*']⟩] := by
      rw [lexemes, htext]
      exact Lexeme.spells_asterisk.ofText_eq
    rw [hls, List.cons.injEq] at hlexemes
    obtain ⟨hl, rfl⟩ := hlexemes
    have htoken : l.token = .asterisk := congrArg Lexeme.token hl
    rw [hrun, List.map_singleton, htoken]

end Fragment

/-- A fragment whose tokens touch. -/
structure Word extends Fragment where
  touching : ∀ l ∈ (Lexeme.ofText text.toList).tail, l.touchesPrevious = true

namespace Lexeme

/-- A word ends where something does not touch it. -/
theorem words_append {word rest : List Lexeme} (hne : word ≠ [])
    (hword : ∀ l ∈ word.tail, l.touchesPrevious = true)
    (hrest : ∀ l ∈ rest.head?, l.touchesPrevious = false) :
    words (word ++ rest) = word :: words rest := by
  have hchain : word.IsChain fun _ l => l.touchesPrevious := by
    cases word with
    | nil => exact absurd rfl hne
    | cons first others =>
        have hothers : others.Pairwise fun _ l => l.touchesPrevious = true :=
          List.pairwise_of_forall_mem_list fun _ _ l hl => hword l hl
        exact (List.pairwise_cons.mpr ⟨hword, hothers⟩).isChain
  rw [words, List.splitBy_append, List.splitBy_of_isChain hne hchain]
  · rfl
  · exact fun _ _ l hl => hrest l hl

end Lexeme

namespace Word

/-- A text that is found to be a word. -/
def ofText (text : String)
    (h : (Lexeme.text? (Lexeme.ofText text.toList) = some text ∧
      Lexeme.ofText (text.toList ++ [' ']) = Lexeme.ofText text.toList ∧
      Lexeme.isFree Token.isStop 0 (Lexeme.ofText text.toList) = true) ∧
      ∀ l ∈ (Lexeme.ofText text.toList).tail, l.touchesPrevious = true := by decide +kernel) :
    Word :=
  ⟨.ofText text h.1, h.2⟩

/-- A word is the first one of a run that begins with it. -/
theorem words_run_append (w : Word) {rest : List Lexeme}
    (hrest : ∀ l ∈ rest.head?, l.touchesPrevious = false) :
    Lexeme.words (w.run ++ rest) = w.run :: Lexeme.words rest := by
  obtain ⟨l, ls, hrun, -, hls⟩ := w.toFragment.exists_run_eq
  have htouching := w.touching
  rw [w.ofText_eq_lexemes, hls] at htouching
  rw [hrun]
  exact Lexeme.words_append (by simp) htouching hrest

/-- A word alone is the only word of its run. -/
theorem words_run (w : Word) : Lexeme.words w.run = [w.run] := by
  have happend : Lexeme.words (w.run ++ []) = w.run :: Lexeme.words [] :=
    w.words_run_append (by simp)
  rwa [List.append_nil] at happend

end Word

end SqlOutline
