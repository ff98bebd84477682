import Mathlib.Data.List.Infix
import SqlOutline.Trivia

/-!
# The grammar of trivia

`Trivia.leading` reads trivia with one scan that changes its place. This module says what
trivia is without a scan: a row of pieces, where a piece is a blank, a comment to the end of
its line, or a comment between `/*` and the first `*/` after that. Whether a piece is whole
depends on the text behind it, so both `Piece` and `Row` carry that text.

## Main results

* `leading_row`: what the scan reads is a row of pieces.
* `not_begins_behind`: no further piece begins where the scan stops.
* `leading_append_of_row`: conversely, a row of pieces is read as a whole when no further
  piece begins behind it.
* `Row.congr`: what stands behind the first character of a token does not matter to the
  trivia in front of it.
-/

namespace SqlOutline.Trivia

/-- The two characters that close a block comment. -/
def closing : List Char := ['*', '/']

/-- One piece of trivia in front of a text. -/
inductive Piece : List Char → List Char → Prop
  | blank {c : Char} {after : List Char} : isBlank c = true → Piece [c] after
  | lineComment {body after : List Char} :
      '\n' ∉ body → (after = [] ∨ after.head? = some '\n') → Piece ('-' :: '-' :: body) after
  | blockComment {body after : List Char} :
      ¬ closing <:+: body ++ ['*'] → Piece ('/' :: '*' :: (body ++ closing)) after
  | openComment {body : List Char} : ¬ closing <:+: body → Piece ('/' :: '*' :: body) []

/-- A possibly empty concatenation of pieces in front of a text. -/
inductive Row : List Char → List Char → Prop
  | nil {after : List Char} : Row [] after
  | cons {piece row after : List Char} :
      Piece piece (row ++ after) → Row row after → Row (piece ++ row) after

/-- Whether a piece of trivia begins at the front of a text. -/
def begins : List Char → Bool
  | '-' :: '-' :: _ => true
  | '/' :: '*' :: _ => true
  | c :: _ => isBlank c
  | [] => false

/-- What the scan at `place` reads in front of `after`: a row of pieces, if it stands in a
comment behind the rest of that comment. -/
def ReadFrom : Place → List Char → List Char → Prop
  | .between, cs, after => Row cs after
  | .lineComment, cs, after => ∃ body row, cs = body ++ row ∧ '\n' ∉ body ∧
      (row ++ after = [] ∨ (row ++ after).head? = some '\n') ∧ Row row after
  | .blockComment, cs, after =>
      (∃ body row, cs = body ++ closing ++ row ∧ ¬ closing <:+: body ++ ['*'] ∧ Row row after) ∨
        (after = [] ∧ ¬ closing <:+: cs)

/-- The text behind the trivia that the scan reads from `place` on. -/
def behind (place : Place) (cs : List Char) : List Char := cs.drop (leading place cs).length

/-- No trivia begins with a character that is neither a blank nor the first one of a mark. -/
theorem begins_cons_eq_false_iff {c : Char} {cs : List Char} :
    begins (c :: cs) = false ↔ isBlank c = false ∧
      ∀ d ∈ cs.head?, (c == '-' && d == '-' || c == '/' && d == '*') = false := by
  cases cs with
  | nil => unfold begins; split <;> simp_all
  | cons d cs =>
      by_cases hline : c = '-' ∧ d = '-'
      · simp [hline, begins]
      by_cases hblock : c = '/' ∧ d = '*'
      · simp [hblock, begins]
      rw [begins.eq_3 _ _ (by grind) (by grind)]
      grind

/-! ### What the scan reads -/

/-- The scan takes a part off the front of the text. -/
theorem leading_append_behind (place : Place) (cs : List Char) :
    leading place cs ++ behind place cs = cs := by
  rw [behind]
  fun_induction leading place cs with
  | case1 => rfl
  | case5 => rfl
  | case2 _ ih | case3 _ ih | case7 _ ih => simpa using ih
  | case4 _ _ _ _ _ ih | case6 _ _ ih | case8 _ _ _ ih => simpa using ih

/-- A closing mark in a longer text either begins at its front or lies further behind. -/
theorem closing_infix_cons {c : Char} {cs : List Char} :
    closing <:+: c :: cs ↔ (c = '*' ∧ cs.head? = some '/') ∨ closing <:+: cs := by
  rw [List.infix_cons_iff]
  have hfront : closing <+: c :: cs ↔ c = '*' ∧ cs.head? = some '/' := by
    cases cs <;> simp [closing, List.cons_prefix_cons, eq_comm]
  rw [hfront]

/-- What the scan reads is trivia in front of what it leaves, whatever its place. -/
theorem reads_leading (place : Place) (cs : List Char) :
    ReadFrom place (leading place cs) (behind place cs) := by
  rw [behind]
  fun_induction leading place cs with
  | case1 place =>
      cases place with
      | between => exact .nil
      | lineComment => exact ⟨[], [], rfl, by simp, .inl rfl, .nil⟩
      | blockComment => exact .inr ⟨rfl, by simp [closing]⟩
  | case2 rest ih =>
      obtain ⟨body, row, hcs, hbody, hafter, hrow⟩ := ih
      have hpiece := Row.cons (.lineComment hbody hafter) hrow
      simpa [ReadFrom, hcs] using hpiece
  | case3 rest ih =>
      rcases ih with ⟨body, row, hcs, hbody, hrow⟩ | ⟨hafter, hbody⟩
      · have hpiece := Row.cons (.blockComment hbody) hrow
        simpa [ReadFrom, hcs] using hpiece
      · have hpiece : Row (_ ++ []) [] := .cons (.openComment hbody) .nil
        simpa [ReadFrom, hafter] using hpiece
  | case4 c rest _ _ hblank ih => exact Row.cons (.blank hblank) ih
  | case5 => exact .nil
  | case6 c rest ih =>
      by_cases hc : c = '\n'
      · subst hc
        exact ⟨[], _, rfl, by simp, .inr rfl, Row.cons (.blank (by decide)) ih⟩
      · rw [if_neg hc] at ih
        obtain ⟨body, row, hcs, hbody, hafter, hrow⟩ := ih
        refine ⟨c :: body, row, ?_, ?_, ?_, ?_⟩
        · simp [hc, hcs]
        · simp [hbody, Ne.symm hc]
        · simpa [hc] using hafter
        · simpa [hc] using hrow
  | case7 rest ih =>
      exact .inl ⟨[], _, rfl, by simp [closing, List.infix_cons_iff], ih⟩
  | case8 c rest hopen ih =>
      -- `*` and `/` cannot meet here, or the scan would have closed the comment
      have hmeet : ∀ front more : List Char, front ++ more = rest →
          ¬ (c = '*' ∧ front.head? = some '/') := by
        rintro front more hfront ⟨hc, hhead⟩
        obtain ⟨tail, rfl⟩ := List.head?_eq_some_iff.mp hhead
        exact hopen (tail ++ more) hc (by simp [← hfront])
      have hrest := leading_append_behind .blockComment rest
      rcases ih with ⟨body, row, hcs, hbody, hrow⟩ | ⟨hafter, hbody⟩
      · refine .inl ⟨c :: body, row, by simp [hcs], ?_, hrow⟩
        rw [List.cons_append, closing_infix_cons]
        rintro (hfront | hlater)
        · rw [hcs] at hrest
          exact hmeet (body ++ ['*']) ('/' :: row ++ behind .blockComment rest)
            (by simpa [closing] using hrest) hfront
        · exact hbody hlater
      · refine .inr ⟨hafter, ?_⟩
        rw [closing_infix_cons]
        rintro (hfront | hlater)
        · exact hmeet _ _ hrest hfront
        · exact hbody hlater

/-- What the scan reads between tokens is a row of pieces. -/
theorem leading_row (cs : List Char) : Row (leading .between cs) (behind .between cs) :=
  reads_leading .between cs

/-- No piece begins where the scan stops, whatever its place was. -/
theorem not_begins_behind (place : Place) (cs : List Char) :
    begins (behind place cs) = false := by
  rw [behind]
  fun_induction leading place cs with
  | case1 => rfl
  | case2 _ ih | case3 _ ih | case7 _ ih => simpa using ih
  | case4 _ _ _ _ _ ih | case6 _ _ ih | case8 _ _ _ ih => simpa using ih
  | case5 c rest hline hblock hblank =>
      rw [List.length_nil, List.drop_zero]
      unfold begins
      split <;> simp_all

/-! ### Rows of pieces are read as a whole -/

/-- Where no trivia begin there are none. -/
theorem leading_of_not_begins {cs : List Char} (h : begins cs = false) :
    leading .between cs = [] := by
  unfold leading
  split <;> simp_all [begins]

/-- A comment of one line goes on up to the end of the line. -/
theorem leading_lineComment {body after : List Char} (hbody : '\n' ∉ body)
    (hafter : after = [] ∨ after.head? = some '\n') :
    leading .lineComment (body ++ after) = body ++ leading .between after := by
  induction body with
  | nil =>
      rcases hafter with rfl | hhead
      · rfl
      · obtain ⟨rest, rfl⟩ := List.head?_eq_some_iff.mp hhead
        have hblank : isBlank '\n' = true := by decide
        simp [leading, hblank]
  | cons c body ih =>
      simp only [List.mem_cons, not_or] at hbody
      simp [leading, Ne.symm hbody.1, ih hbody.2]

/-- A comment that is never closed goes on up to the end of the text. -/
theorem leading_openComment {body : List Char} (hbody : ¬ closing <:+: body) :
    leading .blockComment body = body := by
  induction body with
  | nil => rfl
  | cons c body ih =>
      rw [closing_infix_cons, not_or] at hbody
      rw [leading.eq_def]
      split <;> simp_all

/-- Any other comment goes on up to its closing. -/
theorem leading_blockComment {body after : List Char} (hbody : ¬ closing <:+: body ++ ['*']) :
    leading .blockComment (body ++ closing ++ after) =
      body ++ closing ++ leading .between after := by
  induction body with
  | nil => simp [closing, leading]
  | cons c body ih =>
      rw [List.cons_append, closing_infix_cons, not_or] at hbody
      have hih := ih hbody.2
      have hmeet : ∀ rest, c = '*' → body ++ closing ++ after = '/' :: rest → False := by
        intro rest hc hrest
        apply hbody.1
        cases body with
        | nil => simp [closing] at hrest
        | cons d body => simp_all
      simp only [List.cons_append]
      rw [← hih]
      exact leading.eq_7 _ _ hmeet

/-- The scan reads a piece and goes on behind it. -/
theorem leading_append_of_piece {piece after : List Char} (h : Piece piece after) :
    leading .between (piece ++ after) = piece ++ leading .between after := by
  cases h with
  | @blank c _ hblank =>
      have hline : c ≠ '-' := by rintro rfl; exact absurd hblank (by decide)
      have hblock : c ≠ '/' := by rintro rfl; exact absurd hblank (by decide)
      rw [List.singleton_append, leading.eq_4 _ _ (fun _ hc => absurd hc hline)
        (fun _ hc => absurd hc hblock), if_pos hblank, List.singleton_append]
  | lineComment hbody hafter => simp [leading, leading_lineComment hbody hafter]
  | blockComment hbody =>
      simpa only [leading, List.cons_append, List.cons.injEq, true_and]
        using leading_blockComment hbody
  | openComment hbody => simp [leading, leading_openComment hbody]

/-- A row of pieces is read as a whole when no further piece begins behind it. -/
theorem leading_append_of_row {row after : List Char} (h : Row row after)
    (hafter : begins after = false) : leading .between (row ++ after) = row := by
  induction h with
  | nil => exact leading_of_not_begins hafter
  | cons hpiece _ ih => rw [List.append_assoc, leading_append_of_piece hpiece, ih hafter]

/-! ### Other texts behind -/

/-- Trivia in front of a token is trivia whatever else stands behind that
token's first character. -/
theorem Row.congr {row after later : List Char} (h : Row row after) (hafter : after ≠ [])
    (hhead : later.head? = after.head?) : Row row later := by
  induction h with
  | nil => exact .nil
  | @cons piece row after hpiece _ ih =>
      refine .cons ?_ (ih hafter hhead)
      have hsame : (row ++ later).head? = (row ++ after).head? := by
        simp [List.head?_append, hhead]
      generalize row ++ later = text at hsame ⊢
      generalize hbehind : row ++ after = behind at hpiece hsame
      have hne : behind ≠ [] := by simp [← hbehind, hafter]
      cases hpiece with
      | blank hblank => exact .blank hblank
      | lineComment hbody hend =>
          exact .lineComment hbody (.inr (hsame.trans (hend.resolve_left hne)))
      | blockComment hbody => exact .blockComment hbody
      | openComment => exact absurd rfl hne

/-- A piece stays whole when less text stands behind it. -/
theorem Piece.of_shorter {piece after front : List Char} (h : Piece piece after)
    (hfront : front <+: after) : Piece piece front := by
  cases h with
  | blank hblank => exact .blank hblank
  | lineComment hbody hend =>
      refine .lineComment hbody ?_
      cases front with
      | nil => exact .inl rfl
      | cons c front =>
          obtain ⟨rest, rfl⟩ := hfront
          exact .inr (hend.resolve_left (by simp))
  | blockComment hbody => exact .blockComment hbody
  | openComment hbody =>
      obtain rfl := List.prefix_nil.mp hfront
      exact .openComment hbody

/-- Trivia is trivia when less text stands behind it. -/
theorem Row.of_shorter {row after front : List Char} (h : Row row after)
    (hfront : front <+: after) : Row row front := by
  induction h with
  | nil => exact .nil
  | cons hpiece _ ih =>
      exact .cons (hpiece.of_shorter ((List.prefix_append_right_inj _).mpr hfront)) (ih hfront)

/-- A blank in front of trivia can be taken off. -/
theorem Row.of_blank_cons {c : Char} {row after : List Char} (hblank : isBlank c = true)
    (h : Row (c :: row) after) : Row row after := by
  generalize hrow : c :: row = whole at h
  cases h with
  | nil => cases hrow
  | @cons piece more _ hpiece hbehind =>
      generalize more ++ after = text at hpiece
      cases hpiece with
      | blank =>
          obtain ⟨-, rfl⟩ := List.cons.inj hrow
          exact hbehind
      | _ =>
          obtain ⟨rfl, -⟩ := List.cons.inj hrow
          exact absurd hblank (by decide)

/-- A blank that ends a piece can be taken off. -/
theorem Piece.of_append_blank {c : Char} {text : List Char} (hblank : isBlank c = true)
    (h : Piece (text ++ [c]) []) : Row text [] := by
  have hends : ∀ front last, text ++ [c] = front ++ [last] → text = front ∧ c = last := by
    intro front last heq
    simpa using List.append_inj' heq rfl
  have hne : ∀ d, isBlank d = false → c ≠ d := by
    rintro d hd rfl
    simp [hblank] at hd
  generalize hwhole : text ++ [c] = whole at h
  generalize hafter : ([] : List Char) = after at h
  cases h with
  | blank =>
      obtain rfl := (hends [] _ hwhole).1
      exact .nil
  | @lineComment body _ hbody _ =>
      rcases List.eq_nil_or_concat' body with rfl | ⟨front, last, rfl⟩
      · exact absurd (hends ['-'] '-' hwhole).2 (hne '-' (by decide))
      · obtain rfl := (hends ('-' :: '-' :: front) last hwhole).1
        have hpiece : Piece ('-' :: '-' :: front) ([] ++ []) :=
          .lineComment (fun hmem => hbody (List.mem_append_left _ hmem)) (.inl rfl)
        simpa [← hafter] using Row.cons hpiece .nil
  | @blockComment body _ _ =>
      have hslash := hends ('/' :: '*' :: (body ++ ['*'])) '/' (by simp [hwhole, closing])
      exact absurd hslash.2 (hne '/' (by decide))
  | @openComment body hbody =>
      rcases List.eq_nil_or_concat' body with rfl | ⟨front, last, rfl⟩
      · exact absurd (hends ['/'] '*' hwhole).2 (hne '*' (by decide))
      · obtain rfl := (hends ('/' :: '*' :: front) last hwhole).1
        have hpiece : Piece ('/' :: '*' :: front) ([] ++ []) :=
          .openComment fun hclosing => hbody (hclosing.trans (List.prefix_append _ _).isInfix)
        simpa using Row.cons hpiece .nil

/-- A blank at the end of a text of trivia can be left out. -/
theorem Row.of_append_blank {c : Char} {row : List Char} (hblank : isBlank c = true)
    (h : Row (row ++ [c]) []) : Row row [] := by
  generalize hwhole : row ++ [c] = whole at h
  generalize hafter : ([] : List Char) = after at h
  induction h generalizing row with
  | nil => simp at hwhole
  | @cons piece more after hpiece _ ih =>
      subst hafter
      rcases List.eq_nil_or_concat' more with rfl | ⟨front, last, rfl⟩
      · rw [List.append_nil] at hwhole hpiece
        rw [← hwhole] at hpiece
        exact hpiece.of_append_blank hblank
      · rw [← List.append_assoc] at hwhole
        obtain ⟨rfl, hlast⟩ := List.append_inj' hwhole rfl
        refine .cons (hpiece.of_shorter ?_) (ih (hlast ▸ rfl) rfl)
        rw [List.append_nil, List.append_nil]
        exact List.prefix_append _ _

/-- A text of trivia stays one when it is trimmed. -/
theorem Row.trimBlanksRight {row : List Char} (h : Row row []) :
    Row (trimBlanksRight row) [] := by
  induction row using List.reverseRecOn with
  | nil => exact h
  | append_singleton row c ih =>
      by_cases hblank : isBlank c = true
      · have htrim : SqlOutline.trimBlanksRight (row ++ [c]) =
            SqlOutline.trimBlanksRight row := by
          simp [SqlOutline.trimBlanksRight, hblank]
        rw [htrim]
        exact ih (h.of_append_blank hblank)
      · have htrim : SqlOutline.trimBlanksRight (row ++ [c]) = row ++ [c] := by
          simp [SqlOutline.trimBlanksRight, hblank]
        rwa [htrim]

end SqlOutline.Trivia
