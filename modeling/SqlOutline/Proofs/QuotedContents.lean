import SqlOutline.Proofs.Counterparts
import SqlOutline.Proofs.Seam

/-!
# What stands between quotation marks

A quoted text is one token whatever it holds, as long as its mark is doubled inside of it:
keywords, semicolons, parentheses and comment marks among its contents are not looked at. So
another content changes no other token but for its place, and leaves the form of the outline as
it was.

## Main results

* `Quoted.tail_enclosed`: a quoted text ends at its closing mark.
* `Seam.ofText_enclosed`: it is one lexeme in front of those of the text behind it.
* `Query.related_enclose`: its contents have no bearing on the outline beyond its texts.
-/

namespace SqlOutline

open Lexeme (Seam byteCount tokensFrom tokensOf)

namespace Quoted

/-- The marks that are doubled between themselves. -/
def marks : List Char := [single, double, back]

/-- A character as it stands between two marks. -/
def doubled (mark c : Char) : List Char := if c = mark then [mark, mark] else [c]

/-- Characters between two marks. -/
def enclosed (mark : Char) (contents : List Char) : List Char :=
  mark :: (contents.flatMap (doubled mark) ++ [mark])

/-- A text between two marks. -/
def enclose (mark : Char) (contents : String) : String :=
  String.ofList (enclosed mark contents.toList)

example : enclose single "it's" = "'it''s'" := by decide

/-- The token of a text between two marks. -/
def token (mark : Char) : Token := if mark = single then .string else .quotedIdentifier

/-- A quoted text is no number. -/
theorem token_ne_number (mark : Char) : token mark ≠ .number false := by
  unfold token
  split <;> simp

/-- An enclosed text is its mark, its contents and its mark again. -/
theorem enclosed_append (mark : Char) (contents behind : List Char) :
    enclosed mark contents ++ behind =
      mark :: (contents.flatMap (doubled mark) ++ mark :: behind) := by
  simp [enclosed]

/-- The contents of a quoted text are passed over. -/
theorem tail_flatMap_doubled (mark : Char) (contents behind : List Char) :
    tail mark (contents.flatMap (doubled mark) ++ behind) =
      contents.flatMap (doubled mark) ++ tail mark behind := by
  induction contents with
  | nil => rfl
  | cons c contents ih =>
      rw [List.flatMap_cons, List.append_assoc, List.append_assoc, doubled]
      split
      · simp [tail, ih]
      · next hc =>
          rw [List.singleton_append, Lexeme.tail_cons_of_ne hc, ih, List.singleton_append]

/-- A quoted text ends at its closing mark. -/
theorem tail_enclosed {mark : Char} {behind : List Char}
    (h : ∀ c ∈ behind.head?, (c == mark) = false) (contents : List Char) :
    tail mark (contents.flatMap (doubled mark) ++ (mark :: behind)) =
      contents.flatMap (doubled mark) ++ [mark] := by
  rw [tail_flatMap_doubled, Lexeme.tail_mark_eq_iff.mpr h]

/-- There are three quotation marks. -/
theorem mem_marks_iff {mark : Char} :
    mark ∈ marks ↔ mark = single ∨ mark = double ∨ mark = back := by
  simp [marks]

/-- A quotation mark begins a quoted text. -/
theorem next_of_mem_marks {mark : Char} (h : mark ∈ marks) (rest : List Char) :
    Lexeme.next mark rest = (token mark, tail mark rest) := by
  rcases mem_marks_iff.mp h with rfl | rfl | rfl <;> rfl

/-- No quotation mark is a blank. -/
theorem isBlank_of_mem_marks {mark : Char} (h : mark ∈ marks) : isBlank mark = false := by
  rcases mem_marks_iff.mp h with rfl | rfl | rfl <;> rfl

/-- No trivia begin with a quotation mark. -/
theorem not_begins_of_mem_marks {mark : Char} (h : mark ∈ marks) (rest : List Char) :
    Trivia.begins (mark :: rest) = false := by
  rcases mem_marks_iff.mp h with rfl | rfl | rfl <;> cases rest <;> rfl

/-- A quotation mark has one byte. -/
theorem utf8Size_of_mem_marks {mark : Char} (h : mark ∈ marks) : mark.utf8Size = 1 := by
  rcases mem_marks_iff.mp h with rfl | rfl | rfl <;> rfl

/-- The two marks alone have two bytes. -/
theorem byteCount_enclosed_nil {mark : Char} (h : mark ∈ marks) :
    byteCount (enclosed mark []) = 2 := by
  simp [enclosed, byteCount, utf8Size_of_mem_marks h]

/-- Contents only add to the bytes of the two marks. -/
theorem two_le_byteCount_enclosed {mark : Char} (h : mark ∈ marks) (contents : List Char) :
    2 ≤ byteCount (enclosed mark contents) := by
  rw [enclosed, byteCount, Lexeme.byteCount_append, byteCount, byteCount,
    utf8Size_of_mem_marks h]
  omega

end Quoted

open Quoted (enclose enclosed enclosed_append)

/-- A located value farther behind. -/
def Located.movedBy {α : Type} (growth : Nat) (t : Located α) : Located α :=
  ⟨t.value, t.first + growth, t.last + growth⟩

namespace Lexeme

variable {mark : Char} {before behind : List Char}

/-- A quoted text at a seam is one lexeme. -/
theorem Seam.ofText_enclosed {earlier : List Lexeme} {gap after : List Char}
    (hmark : mark ∈ Quoted.marks) (h : Seam before earlier gap (mark :: after))
    (hbehind : ∀ c ∈ behind.head?, (c == mark) = false) (contents : List Char) :
    ofText (before ++ (enclosed mark contents ++ behind)) =
      earlier ++ ⟨gap, Quoted.token mark, enclosed mark contents⟩ :: ofText behind := by
  have hnext := Quoted.next_of_mem_marks hmark
    (contents.flatMap (Quoted.doubled mark) ++ (mark :: behind))
  rw [Quoted.tail_enclosed hbehind, ← List.singleton_append, ← List.append_assoc] at hnext
  have hseam : Seam before earlier gap (enclosed mark contents ++ behind) :=
    h.exchange (by simp) rfl
  exact hseam.ofText_eq (Quoted.not_begins_of_mem_marks hmark _) hnext

/-- Behind a quoted text at a seam come the tokens of the text that stands there. -/
theorem Seam.tokensFrom_enclosed {earlier : List Lexeme} {gap after : List Char}
    (hmark : mark ∈ Quoted.marks) (h : Seam before earlier gap (mark :: after))
    (hbehind : ∀ c ∈ behind.head?, (c == mark) = false) (contents : List Char) :
    tokensFrom 0 (ofText (before ++ (enclosed mark contents ++ behind))) =
      tokensFrom 0 earlier ++
        ⟨Quoted.token mark, byteCount before,
          byteCount before + byteCount (enclosed mark contents) - 1⟩ ::
        tokensFrom (byteCount before + byteCount (enclosed mark contents)) (ofText behind) := by
  have hbefore : byteCount (earlier.flatMap source) + byteCount gap = byteCount before := by
    rw [h.eq_append, byteCount_append]
  rw [h.ofText_enclosed hmark hbehind, tokensFrom_append, tokensFrom_cons, source,
    byteCount_append, Nat.zero_add, ← Nat.add_assoc, hbefore]

/-- Neither depends on blanks around the whole text. -/
theorem Seam.exists_ofText_enclosed {earlier : List Lexeme} {gap after : List Char}
    (hmark : mark ∈ Quoted.marks) (h : Seam before earlier gap (mark :: after))
    (hbehind : ∀ c ∈ behind.head?, (c == mark) = false) :
    ∃ earlier' gap', ∀ contents,
      ofText (trimBlanks (before ++ (enclosed mark contents ++ behind))) =
        earlier' ++ ⟨gap', Quoted.token mark, enclosed mark contents⟩ ::
          ofText (trimBlanksRight behind) := by
  obtain ⟨earlier', gap', hseam, -⟩ := h.exists_dropWhile
  refine ⟨earlier', gap', fun contents => ?_⟩
  have hblank := Quoted.isBlank_of_mem_marks hmark
  have htrimmed :=
    trimBlanks_append hblank hblank before (contents.flatMap (Quoted.doubled mark))
    behind
  rw [← enclosed_append, ← enclosed_append] at htrimmed
  have hhead : ∀ c ∈ (trimBlanksRight behind).head?, (c == mark) = false := fun c hc =>
    hbehind c (mem_head?_of_trimBlanksRight hc)
  rw [htrimmed, hseam.ofText_enclosed hmark hhead]

/-- Where two marks are a token, there is a seam in front of them and no third mark behind. -/
theorem exists_seam_of_marks {token : Token} (hmark : mark ∈ Quoted.marks)
    (h : ⟨token, byteCount before, byteCount before + 1⟩ ∈
      tokensFrom 0 (ofText (before ++ (enclosed mark [] ++ behind)))) :
    token = Quoted.token mark ∧ (∀ c ∈ behind.head?, (c == mark) = false) ∧
      ∃ earlier gap after, Seam before earlier gap (mark :: after) := by
  obtain ⟨earlier, gap, c, tail, rest, hseam, hafter, hnext, hbytes⟩ := exists_seam h
  obtain ⟨rfl, htail⟩ := List.cons.inj hafter
  rw [← htail, Quoted.next_of_mem_marks hmark, Prod.mk.injEq] at hnext
  obtain ⟨rfl, hnext⟩ := hnext
  refine ⟨rfl, ?_, earlier, gap, _, hseam⟩
  obtain ⟨more, hmore⟩ : tail <+: mark :: behind := hnext ▸ prefix_tail mark (mark :: behind)
  have hsize : byteCount tail = byteCount [mark] := by
    simp only [byteCount, Quoted.utf8Size_of_mem_marks hmark] at hbytes ⊢
    omega
  rw [← tail_mark_eq_iff]
  exact hnext.trans (append_inj_of_byteCount_eq (hmore.trans rfl) hsize).1

/-- Lexemes that differ in the characters of their texts at most. -/
structure SameForm (l m : Lexeme) : Prop where
  token : l.token = m.token
  touches : l.touchesPrevious = m.touchesPrevious
  number : l.token = .number false → l.text = m.text

/-- Statements are cut at tokens, which other contents leave as they are. -/
theorem cutAlike_sameForm : CutAlike SameForm fun _ _ => False where
  token := SameForm.token
  touches := SameForm.touches
  enclosed := False.elim

/-- Another text of one quoted lexeme leaves the form of a run as it was. -/
theorem forall₂_sameForm (earlier later : List Lexeme) (gap text text' : List Char)
    (mark : Char) :
    List.Forall₂ SameForm (earlier ++ ⟨gap, Quoted.token mark, text⟩ :: later)
      (earlier ++ ⟨gap, Quoted.token mark, text'⟩ :: later) := by
  have hsame : ∀ ls, List.Forall₂ SameForm ls ls := fun ls =>
    List.forall₂_same.mpr fun _ _ => ⟨rfl, rfl, fun _ => rfl⟩
  refine List.rel_append (hsame earlier) (.cons ⟨rfl, rfl, fun hnumber => ?_⟩ (hsame later))
  exact absurd hnumber (Quoted.token_ne_number mark)

/-- Runs of the same form both have a text or none. -/
theorem rel_text?_of_sameForm {xs ys : List Lexeme} (h : List.Forall₂ SameForm xs ys) :
    Option.Rel (fun _ _ => True) (text? xs) (text? ys) := by
  cases h with
  | nil => exact .none
  | cons _ _ => exact .some trivial

/-- What is read has the same form, whatever its texts are. -/
theorem readAlike_sameForm {run run' : List Lexeme} :
    ReadAlike (Counterparts SameForm (fun _ _ => False) run run')
      (TableReference.Related fun _ _ => True) (SortKey.Related fun _ _ => True)
      fun _ _ => True :=
  readAlike_of_text? cutAlike_sameForm rel_text?_of_sameForm trivial SameForm.number

/-- Later lexemes have their places farther behind. -/
theorem tokensFrom_movedBy {offset : Nat} (hoffset : 0 < offset) (growth : Nat)
    (ls : List Lexeme) :
    tokensFrom (offset + growth) ls = (tokensFrom offset ls).map (·.movedBy growth) := by
  induction ls generalizing offset with
  | nil => rfl
  | cons l ls ih =>
      have hrest := ih (show 0 < offset + byteCount l.source by omega)
      have hnext : offset + growth + byteCount l.source =
          offset + byteCount l.source + growth := by
        omega
      have hfirst : offset + growth + byteCount l.gap = offset + byteCount l.gap + growth := by
        omega
      have hlast : offset + growth + byteCount l.source - 1 =
          offset + byteCount l.source - 1 + growth := by
        omega
      rw [tokensFrom_cons, tokensFrom_cons, List.map_cons, Located.movedBy, hnext,
        hrest, hfirst, ← hnext, hlast]

end Lexeme

/-- Only the characters of texts in an outline depend on what stands between two marks,
and only the places of tokens: those of tokens behind the marks move as far as the
quoted text grows. -/
theorem Query.related_enclose {mark : Char} (hmark : mark ∈ Quoted.marks) {token : Token}
    {before behind : String}
    (h : ⟨token, before.utf8ByteSize, before.utf8ByteSize + 1⟩ ∈
      tokensOf (before ++ enclose mark "" ++ behind)) (contents : String) :
    (∃ earlier later,
      tokensOf (before ++ enclose mark "" ++ behind) =
        earlier ++ ⟨token, before.utf8ByteSize, before.utf8ByteSize + 1⟩ :: later ∧
      tokensOf (before ++ enclose mark contents ++ behind) =
        earlier ++ ⟨token, before.utf8ByteSize,
            before.utf8ByteSize + (enclose mark contents).utf8ByteSize - 1⟩ ::
          later.map (·.movedBy ((enclose mark contents).utf8ByteSize - 2))) ∧
      Related (TableReference.Related fun _ _ => True) (SortKey.Related fun _ _ => True)
        (fun _ _ => True) (ofText (before ++ enclose mark "" ++ behind))
        (ofText (before ++ enclose mark contents ++ behind)) := by
  have hsource : ∀ text, (before ++ enclose mark text ++ behind).toList =
      before.toList ++ (enclosed mark text.toList ++ behind.toList) := by
    intro text
    rw [String.toList_append, String.toList_append, enclose, String.toList_ofList,
      List.append_assoc]
  rw [tokensOf, hsource, Lexeme.utf8ByteSize_eq_byteCount] at h
  obtain ⟨rfl, hbehind, earlier, gap, after, hseam⟩ := Lexeme.exists_seam_of_marks hmark h
  refine ⟨⟨tokensFrom 0 earlier, tokensFrom (byteCount before.toList + 2)
    (Lexeme.ofText behind.toList), ?_, ?_⟩, ?_⟩
  · rw [tokensOf, hsource, hseam.tokensFrom_enclosed hmark hbehind,
      Lexeme.utf8ByteSize_eq_byteCount, String.toList_empty,
      Quoted.byteCount_enclosed_nil hmark]
    rfl
  · have hgrowth : byteCount before.toList + byteCount (enclosed mark contents.toList) =
        byteCount before.toList + 2 + (byteCount (enclosed mark contents.toList) - 2) := by
      have := Quoted.two_le_byteCount_enclosed hmark contents.toList
      omega
    rw [tokensOf, hsource, hseam.tokensFrom_enclosed hmark hbehind,
      Lexeme.utf8ByteSize_eq_byteCount, Lexeme.utf8ByteSize_eq_byteCount, enclose,
      String.toList_ofList, hgrowth, Lexeme.tokensFrom_movedBy (Nat.succ_pos _)]
  · obtain ⟨earlier', gap', htrimmed⟩ := hseam.exists_ofText_enclosed hmark hbehind
    rw [ofText, ofText, hsource, hsource, htrimmed, htrimmed]
    exact related_of_forall₂ Lexeme.cutAlike_sameForm Lexeme.readAlike_sameForm
      (Lexeme.forall₂_sameForm earlier' _ gap' _ _ mark) _ _

/-- A string with keywords, marks and an open comment in it. -/
theorem Query.related_enclose_keywords :
    let before := "SELECT a FROM t WHERE b = "
    let behind := " LIMIT 1"
    Quoted.single ∈ Quoted.marks ∧
      ⟨.string, before.utf8ByteSize, before.utf8ByteSize + 1⟩ ∈
        tokensOf (before ++ enclose Quoted.single "" ++ behind) ∧
      Related (TableReference.Related fun _ _ => True) (SortKey.Related fun _ _ => True)
        (fun _ _ => True) (ofText (before ++ enclose Quoted.single "" ++ behind))
        (ofText (before ++ enclose Quoted.single "it's; FROM u (/*" ++ behind)) := by
  intro before behind
  have hmark : Quoted.single ∈ Quoted.marks := by decide
  have htoken : ⟨.string, before.utf8ByteSize, before.utf8ByteSize + 1⟩ ∈
      tokensOf (before ++ enclose Quoted.single "" ++ behind) :=
    List.mem_of_getElem? (i := 7) (by decide +kernel +revert)
  exact ⟨hmark, htoken, (related_enclose hmark htoken "it's; FROM u (/*").2⟩

end SqlOutline
