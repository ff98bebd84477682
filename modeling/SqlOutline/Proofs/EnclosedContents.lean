import SqlOutline.Proofs.Counterparts
import SqlOutline.Proofs.Seam

/-!
# What stands in parentheses

A group in parentheses can hold anything as long as parentheses open and close in pairs in it:
keywords, commas and semicolons inside of it begin or end nothing outside. So another content
of the same group leaves the form of the outline as it was, whatever stands around the group.

## Main results

* `Encloses.exists_seams`: the tokens of a group are those of its contents alone.
* `Query.related_of_encloses`: the contents of a group have no bearing on the form of the
  outline.
-/

namespace SqlOutline

open Lexeme (Seam IsEnclosed byteCount tokensFrom tokensOf)

/-! ### What is read of any run -/

/-- Two readers that find something in every run but the empty one agree in this. -/
theorem rel_true_of_eq_none_iff {α β : Type} {a : Option α} {b : Option β}
    (h : a = none ↔ b = none) : Option.Rel (fun _ _ => True) a b := by
  cases a <;> cases b
  · exact .none
  · simp at h
  · simp at h
  · exact .some trivial

namespace Lexeme

/-- Two runs in parentheses, whatever stands in them. -/
def BothEnclosed (xs ys : List Lexeme) : Prop := IsEnclosed xs ∧ IsEnclosed ys

/-- Enclosed runs are never cut, so whatever they hold the outside is cut alike. -/
theorem cutAlike_bothEnclosed : CutAlike Eq BothEnclosed where
  token h := congrArg token h
  touches h := congrArg touchesPrevious h
  enclosed h := h

/-- Whether a table, a key or a text is read does not depend on what is enclosed. -/
theorem readAlike_bothEnclosed {run run' : List Lexeme} :
    ReadAlike (Counterparts Eq BothEnclosed run run') (fun _ _ => True) (fun _ _ => True)
      fun _ _ => True where
  table h := rel_true_of_eq_none_iff <| by
    rw [TableReference.ofLexemes?_eq_none_iff, TableReference.ofLexemes?_eq_none_iff]
    exact h.corresponds.eq_nil_iff cutAlike_bothEnclosed
  key h := rel_true_of_eq_none_iff <| by
    rw [SortKey.ofLexemes?_eq_none_iff, SortKey.ofLexemes?_eq_none_iff]
    exact h.corresponds.eq_nil_iff cutAlike_bothEnclosed
  text h := rel_true_of_eq_none_iff <| by
    rw [text?_eq_none_iff, text?_eq_none_iff]
    exact h.corresponds.eq_nil_iff cutAlike_bothEnclosed
  asterisk := trivial
  limit h :=
    Query.limitOf?_eq_of_corresponds cutAlike_bothEnclosed (fun hlm _ => congrArg text hlm)
    h.corresponds

/-! ### Groups -/

/-- A left parenthesis is a token by itself. -/
theorem next_leftParen (rest : List Char) : next '(' rest = (.leftParen, []) := by
  cases rest <;> rfl

/-- A right parenthesis is a token by itself. -/
theorem next_rightParen (rest : List Char) : next ')' rest = (.rightParen, []) := by
  cases rest <;> rfl

/-- No trivia begin with a left parenthesis. -/
theorem not_begins_leftParen (rest : List Char) : Trivia.begins ('(' :: rest) = false := by
  cases rest <;> rfl

/-- No trivia begin with a right parenthesis. -/
theorem not_begins_rightParen (rest : List Char) : Trivia.begins (')' :: rest) = false := by
  cases rest <;> rfl

/-- A text in which the parentheses around some contents are tokens, with contents in which
parentheses open and close in pairs. -/
structure Encloses (before contents behind : String) : Prop where
  opening : ⟨.leftParen, before.utf8ByteSize, before.utf8ByteSize⟩ ∈
    tokensOf (before ++ "(" ++ contents ++ ")" ++ behind)
  closing : ⟨.rightParen, (before ++ "(" ++ contents).utf8ByteSize,
    (before ++ "(" ++ contents).utf8ByteSize⟩ ∈
      tokensOf (before ++ "(" ++ contents ++ ")" ++ behind)
  balanced : isBalanced (ofText contents.toList) = true

section Groups

variable {before contents behind : List Char} {earlier : List Lexeme} {gap : List Char}

/-- An opening parenthesis at a seam is a token by itself. -/
theorem Seam.ofText_leftParen {rest : List Char} (h : Seam before earlier gap ('(' :: rest)) :
    ofText (before ++ '(' :: rest) = earlier ++ ⟨gap, .leftParen, ['(']⟩ :: ofText rest := by
  have hseam : Seam before earlier gap ('(' :: ([] ++ rest)) := h
  exact hseam.ofText_eq (not_begins_leftParen rest) (next_leftParen rest)

/-- A closing parenthesis at a seam is a token by itself. -/
theorem Seam.ofText_rightParen {rest : List Char} (h : Seam before earlier gap (')' :: rest)) :
    ofText (before ++ ')' :: rest) = earlier ++ ⟨gap, .rightParen, [')']⟩ :: ofText rest := by
  have hseam : Seam before earlier gap (')' :: ([] ++ rest)) := h
  exact hseam.ofText_eq (not_begins_rightParen rest) (next_rightParen rest)

/-- A token that begins behind a run is one of the tokens behind it. -/
theorem mem_tokensFrom_of_le {offset : Nat} {xs ys : List Lexeme} {t : Located Token}
    (h : t ∈ tokensFrom offset (xs ++ ys)) (htext : ∀ l ∈ xs, l.text ≠ [])
    (hle : offset + byteCount (xs.flatMap source) ≤ t.first) :
    t ∈ tokensFrom (offset + byteCount (xs.flatMap source)) ys := by
  rw [tokensFrom_append, List.mem_append] at h
  refine h.resolve_left fun hmem => ?_
  obtain ⟨front, l, back, rfl, rfl⟩ := exists_append_of_mem_tokensFrom hmem
  have hpos : 0 < byteCount l.text := byteCount_pos (htext l (by simp))
  simp only [List.flatMap_append, List.flatMap_cons, byteCount_append, source] at hle
  omega

/-- The tokens behind a token at a seam are those of the text behind it, which is as long as
the text up to there farther behind. -/
theorem Seam.countedFrom_mem {c : Char} {tail : List Char} {token : Token} {t : Located Token}
    (h : Seam before earlier gap (c :: (tail ++ behind)))
    (hbegins : Trivia.begins (c :: (tail ++ behind)) = false)
    (hnext : next c (tail ++ behind) = (token, tail))
    (ht : t ∈ tokensFrom 0 (ofText (before ++ c :: (tail ++ behind))))
    (hle : byteCount (before ++ c :: tail) ≤ t.first) :
    t.countedFrom (byteCount (before ++ c :: tail)) ∈ tokensFrom 0 (ofText behind) := by
  have hreads := h.reads.append (.cons h.row hbegins hnext .nil)
  have hsource : (earlier ++ [(⟨gap, token, c :: tail⟩ : Lexeme)]).flatMap source =
      before ++ c :: tail := by
    rw [h.eq_append]
    simp [source]
  rw [h.ofText_eq hbegins hnext, ← List.singleton_append, ← List.append_assoc] at ht
  have hbehind := mem_tokensFrom_of_le ht hreads.text_ne_nil (by rw [hsource]; omega)
  rw [hsource, Nat.zero_add] at hbehind
  rw [← tokensFrom_add 0 (byteCount (before ++ c :: tail))]
  exact List.mem_map_of_mem hbehind

/-- Where both parentheses of a group are tokens, there are seams in front of them, and the
lexemes in between are those of the contents alone. -/
theorem exists_seams
    (hopening : ⟨.leftParen, byteCount before, byteCount before⟩ ∈
      tokensFrom 0 (ofText (before ++ '(' :: (contents ++ ')' :: behind))))
    (hclosing : ⟨.rightParen, byteCount (before ++ '(' :: contents),
      byteCount (before ++ '(' :: contents)⟩ ∈
        tokensFrom 0 (ofText (before ++ '(' :: (contents ++ ')' :: behind)))) :
    (∃ earlier gap, Seam before earlier gap ('(' :: (contents ++ ')' :: behind))) ∧
      ∃ gap, Seam contents (ofText contents) gap (')' :: behind) := by
  obtain ⟨earlier, gap, _, _, _, hseam, -⟩ := exists_seam hopening
  refine ⟨⟨earlier, gap, hseam⟩, ?_⟩
  have hopen : Seam before earlier gap ('(' :: ([] ++ (contents ++ ')' :: behind))) := hseam
  have hbytes : byteCount (before ++ '(' :: contents) =
      byteCount (before ++ ['(']) + byteCount contents := by
    rw [← byteCount_append, List.append_assoc, List.singleton_append]
  -- the closing parenthesis is a token of the text behind the opening one, too, and the
  -- lexemes in front of it there are all those of the contents
  have hbehind := hopen.countedFrom_mem (not_begins_leftParen _) (next_leftParen _) hclosing
    (by rw [hbytes]; exact Nat.le_add_right _ _)
  rw [Located.countedFrom, hbytes, Nat.add_sub_cancel_left] at hbehind
  obtain ⟨inner, gap', _, _, _, hinner, -⟩ := exists_seam hbehind
  have hcontents := hinner.ofText_before
  exact ⟨gap', hcontents ▸ hinner⟩

/-- The lexemes of a text with a group in it, when the blanks around it are taken off. -/
theorem Seam.exists_ofText_group {after : List Char}
    (h : Seam before earlier gap ('(' :: after)) :
    ∃ earlier' gap', ∀ {contents behind gap₂},
      Seam contents (ofText contents) gap₂ (')' :: behind) →
        ofText (trimBlanks (before ++ '(' :: (contents ++ ')' :: behind))) =
          earlier' ++ ⟨gap', .leftParen, ['(']⟩ ::
            (ofText contents ++
              ⟨gap₂, .rightParen, [')']⟩ :: ofText (trimBlanksRight behind)) := by
  obtain ⟨earlier', gap', hseam, -⟩ := h.exists_dropWhile
  refine ⟨earlier', gap', fun {contents behind gap₂} hcontents => ?_⟩
  have hopening : Seam (before.dropWhile isBlank) earlier' gap'
      ('(' :: (contents ++ ')' :: trimBlanksRight behind)) :=
    hseam.exchange (by simp) rfl
  have hclosing : Seam contents (ofText contents) gap₂ (')' :: trimBlanksRight behind) :=
    hcontents.exchange (by simp) rfl
  rw [trimBlanks_append rfl rfl, hopening.ofText_leftParen, hclosing.ofText_rightParen]

/-- Balanced contents between parentheses are enclosed. -/
theorem isEnclosed_group {contents : List Lexeme} (h : isBalanced contents = true)
    (gap gap₂ : List Char) : IsEnclosed
      (⟨gap, .leftParen, ['(']⟩ :: (contents ++ [⟨gap₂, .rightParen, [')']⟩])) :=
  .intro rfl h rfl

end Groups

end Lexeme

/-- The characters of a text with a group in it. -/
theorem toList_group (before contents behind : String) :
    (before ++ "(" ++ contents ++ ")" ++ behind).toList =
      before.toList ++ '(' :: (contents.toList ++ ')' :: behind.toList) := by
  simp only [String.toList_append, List.append_assoc]
  rfl

/-- The text in front ends at a token in front of the parenthesis, and so do the contents. -/
theorem Lexeme.Encloses.exists_seams {before contents behind : String}
    (h : Encloses before contents behind) :
    (∃ earlier gap, Seam before.toList earlier gap
        ('(' :: (contents.toList ++ ')' :: behind.toList))) ∧
      ∃ gap, Seam contents.toList (ofText contents.toList) gap (')' :: behind.toList) := by
  obtain ⟨hopening, hclosing, -⟩ := h
  rw [tokensOf, toList_group, utf8ByteSize_eq_byteCount] at hopening hclosing
  have hfront : (before ++ "(" ++ contents).toList =
      before.toList ++ '(' :: contents.toList := by
    simp only [String.toList_append, List.append_assoc]
    rfl
  rw [hfront] at hclosing
  exact Lexeme.exists_seams hopening hclosing

/-- Only texts in an outline depend on what stands in parentheses, as long as these are tokens
and parentheses between them open and close in pairs. -/
theorem Query.related_of_encloses {before behind x y : String}
    (hx : Lexeme.Encloses before x behind) (hy : Lexeme.Encloses before y behind) :
    Related (fun _ _ => True) (fun _ _ => True) (fun _ _ => True)
      (ofText (before ++ "(" ++ x ++ ")" ++ behind))
      (ofText (before ++ "(" ++ y ++ ")" ++ behind)) := by
  obtain ⟨⟨_, _, hseam⟩, gap₂, hcontents⟩ := hx.exists_seams
  obtain ⟨-, gap₂', hcontents'⟩ := hy.exists_seams
  obtain ⟨earlier, gap, hofText⟩ := hseam.exists_ofText_group
  rw [ofText, ofText, toList_group, toList_group, hofText hcontents, hofText hcontents']
  refine related_ofLexemes Lexeme.cutAlike_bothEnclosed Lexeme.readAlike_bothEnclosed ?_ ?_ _ _
  · cases earlier <;> rfl
  · intro hselect
    cases earlier with
    | nil =>
        -- a statement that begins with the group has no leading `SELECT`
        simp at hselect
    | cons lead more =>
        have hrefl : ∀ run, Corresponds Eq Lexeme.BothEnclosed run run := .refl fun _ => rfl
        have hboth : Lexeme.BothEnclosed _ _ :=
          ⟨Lexeme.isEnclosed_group hx.balanced gap gap₂,
            Lexeme.isEnclosed_group hy.balanced gap gap₂'⟩
        have hgroup := (hrefl more).trans_append
          (.append hboth (hrefl (Lexeme.ofText (trimBlanksRight behind.toList))))
        simpa using hgroup

/-- A query in parentheses, and a single word. -/
theorem Query.related_of_encloses_subquery :
    let before := "SELECT a FROM t WHERE b IN "
    let behind := " ORDER BY c"
    let x := "SELECT d, e FROM u JOIN v ON (f = g); LIMIT 1"
    let y := "d"
    Lexeme.Encloses before x behind ∧ Lexeme.Encloses before y behind ∧
      Related (fun _ _ => True) (fun _ _ => True) (fun _ _ => True)
        (ofText (before ++ "(" ++ x ++ ")" ++ behind))
        (ofText (before ++ "(" ++ y ++ ")" ++ behind)) := by
  intro before behind x y
  obtain ⟨hx, hy⟩ : Lexeme.Encloses before x behind ∧ Lexeme.Encloses before y behind := by
    refine ⟨⟨List.mem_of_getElem? (i := 7) ?_, List.mem_of_getElem? (i := 25) ?_, ?_⟩,
      List.mem_of_getElem? (i := 7) ?_, List.mem_of_getElem? (i := 9) ?_, ?_⟩ <;>
    decide +kernel +revert
  exact ⟨hx, hy, related_of_encloses hx hy⟩

end SqlOutline
