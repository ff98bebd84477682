import SqlOutline.Proofs.Counterparts
import SqlOutline.Proofs.Relexing

/-!
# Layout

Two texts differ in their layout when they have the same tokens with the same texts, and the
same neighbours among these touch each other. Which blanks and comments stand where there are
any has no bearing on the outline of a statement: names and sort keys are the same, and the
columns and the conditions, which keep the trivia between their tokens, read the same.

## Main results

* `Lexeme.text?_word`: words of the same tokens have the same text.
* `Lexeme.readsAlike_text?`: stretches of the same tokens have texts that read alike.
* `Query.related_of_sameButLayout`: the outline does not depend on the layout.
-/

namespace SqlOutline

namespace Lexeme

/-- The tokens of a run with their texts. -/
def wording (run : List Lexeme) : List (Token × List Char) :=
  run.map fun l => (l.token, l.text)

/-- Whether two texts have the same tokens with the same texts. -/
def ReadsAlike (s t : String) : Prop := wording (ofText s.toList) = wording (ofText t.toList)

/-- Runs of the same tokens with the same texts, in which the same neighbours touch. What
stands before the first token does not matter. -/
structure SameButLayout (xs ys : List Lexeme) : Prop where
  wording : wording xs = wording ys
  touching : xs.tail.map (·.touchesPrevious) = ys.tail.map (·.touchesPrevious)

instance (xs ys : List Lexeme) : Decidable (SameButLayout xs ys) :=
  decidable_of_iff
    (Lexeme.wording xs = Lexeme.wording ys ∧
      xs.tail.map (·.touchesPrevious) = ys.tail.map (·.touchesPrevious))
    ⟨fun h => ⟨h.1, h.2⟩, fun h => ⟨h.wording, h.touching⟩⟩

/-- Lexemes that differ in their layout at most. -/
structure LaidOut (l m : Lexeme) : Prop where
  token : l.token = m.token
  text : l.text = m.text
  touches : l.touchesPrevious = m.touchesPrevious

/-- Statements are cut at tokens, which are the same in another layout. -/
theorem cutAlike_laidOut : CutAlike LaidOut fun _ _ => False where
  token := LaidOut.token
  touches := LaidOut.touches
  enclosed := False.elim

variable {xs ys : List Lexeme}

/-- Runs with the same wording whose lexemes touch at the same places are layouts
of each other. -/
theorem forall₂_laidOut (hwording : wording xs = wording ys)
    (htouching : xs.map (·.touchesPrevious) = ys.map (·.touchesPrevious)) :
    List.Forall₂ LaidOut xs ys := by
  induction xs generalizing ys with
  | nil =>
      obtain rfl : ys = [] := by simpa [wording] using hwording.symm
      exact .nil
  | cons l xs ih =>
      cases ys with
      | nil => simp [wording] at hwording
      | cons m ys =>
          obtain ⟨hlm, hwording⟩ := List.cons.inj hwording
          obtain ⟨htoken, htext⟩ := Prod.mk.inj hlm
          obtain ⟨htouch, htouching⟩ := List.cons.inj htouching
          exact .cons ⟨htoken, htext, htouch⟩ (ih hwording htouching)

/-- Layouts of each other have the same wording. -/
theorem wording_eq_of_forall₂ (h : List.Forall₂ LaidOut xs ys) : wording xs = wording ys := by
  induction h with
  | nil => rfl
  | cons hlm _ ih => rw [wording, wording, List.map_cons, List.map_cons, hlm.token, hlm.text,
      ← wording, ih, ← wording]

/-- The first tokens are the same. -/
theorem SameButLayout.token_head? (h : SameButLayout xs ys) :
    xs.head?.map (·.token) = ys.head?.map (·.token) := by
  have hhead := congrArg (fun row => row.head?.map Prod.fst) h.wording
  simpa [Lexeme.wording, Function.comp_def] using hhead

/-- What is behind the first tokens corresponds. -/
theorem SameButLayout.corresponds_tail (h : SameButLayout xs ys) :
    Corresponds LaidOut (fun _ _ => False) xs.tail ys.tail := by
  have htail := congrArg List.tail h.wording
  rw [Lexeme.wording, Lexeme.wording, ← List.map_tail, ← List.map_tail] at htail
  exact .of_forall₂ (forall₂_laidOut htail h.touching)

/-! ### Texts -/

/-- Tokens that touch each other are spelled without anything between them. -/
theorem spelling_eq_flatMap {word : List Lexeme}
    (h : ∀ l ∈ word.tail, l.touchesPrevious = true) :
    spelling word = word.flatMap (·.text) := by
  cases word with
  | nil => rfl
  | cons l rest =>
      have hrest : rest.flatMap source = rest.flatMap (·.text) := by
        refine List.flatMap_congr fun m hm => ?_
        have hgap : m.gap = [] := List.isEmpty_iff.mp (h m hm)
        rw [source, hgap, List.nil_append]
      rw [spelling, hrest, List.flatMap_cons]

/-- In a word every lexeme but the first one touches the previous one. -/
theorem touchesPrevious_of_mem_words {run word : List Lexeme} (h : word ∈ words run) :
    ∀ l ∈ word.tail, l.touchesPrevious = true := by
  have htrans : Trans (fun _ l : Lexeme => l.touchesPrevious = true)
      (fun _ l : Lexeme => l.touchesPrevious = true) fun _ l => l.touchesPrevious = true :=
    ⟨fun _ hl => hl⟩
  have hpairwise := List.isChain_iff_pairwise.mp (List.isChain_of_mem_splitBy h)
  cases word with
  | nil => simp
  | cons m rest => exact (List.pairwise_cons.mp hpairwise).1

/-- Words of the same tokens have the same text. -/
theorem text?_word {word word' : List Lexeme} (hword : word ∈ words xs)
    (hword' : word' ∈ words ys)
    (h : List.Forall₂ LaidOut word word') : text? word = text? word' := by
  have hspelling : spelling word = spelling word' := by
    rw [spelling_eq_flatMap (touchesPrevious_of_mem_words hword),
      spelling_eq_flatMap (touchesPrevious_of_mem_words hword')]
    clear hword hword'
    induction h with
    | nil => rfl
    | cons hlm _ ih => rw [List.flatMap_cons, List.flatMap_cons, hlm.text, ih]
  cases h with
  | nil => rfl
  | cons _ _ => rw [text?, text?, hspelling]

/-- The text of tokens of a source has these tokens. -/
theorem wording_ofText_spelling {cs : List Char} {part : List Lexeme}
    (hpart : part <:+: ofText cs) (hne : part ≠ []) :
    wording (ofText (spelling part)) = wording part := by
  obtain ⟨before, after, hrun⟩ := hpart
  obtain ⟨_, hreads, -⟩ := exists_reads_ofText cs
  rw [← hrun] at hreads
  obtain ⟨_, hfront, -⟩ := hreads.split
  obtain ⟨_, -, hread⟩ := hfront.split
  cases part with
  | nil => exact absurd rfl hne
  | cons l rest =>
      rw [hread.ofText_spelling]
      rfl

/-- Stretches of two sources with the same tokens have texts that read alike. -/
theorem readsAlike_text? {cs ds : List Char}
    (h : Counterparts LaidOut (fun _ _ => False) (ofText cs) (ofText ds) xs ys) :
    Option.Rel ReadsAlike (text? xs) (text? ys) := by
  have hwording := wording_eq_of_forall₂ h.corresponds.forall₂
  obtain ⟨hcorresponds, hleft, hright⟩ := h
  cases hcorresponds.forall₂ with
  | nil => exact .none
  | cons _ _ =>
      rw [text?, text?]
      refine .some ?_
      rw [ReadsAlike, String.toList_ofList, String.toList_ofList,
        wording_ofText_spelling hleft (by simp), wording_ofText_spelling hright (by simp),
        hwording]

/-! ### Outlines -/

/-- What stretches of two sources with the same tokens are read as. -/
theorem readAlike_laidOut (cs ds : List Char) :
    ReadAlike (Counterparts LaidOut (fun _ _ => False) (ofText cs) (ofText ds)) Eq Eq
      ReadsAlike where
  table h :=
    rel_imp_of_mem (TableReference.related_ofLexemes? cutAlike_laidOut h.corresponds.forall₂
      fun _ hword _ hword' hpair => rel_eq_iff.mpr (text?_word hword hword' hpair))
      fun _ _ _ _ => TableReference.eq_of_related
  key h :=
    rel_imp_of_mem (SortKey.related_ofLexemes? cutAlike_laidOut h.corresponds.forall₂
      fun _ hword _ hword' hpair => rel_eq_iff.mpr (text?_word hword hword' hpair))
      fun _ _ _ _ => SortKey.eq_of_related
  text h := readsAlike_text? h
  asterisk := rfl
  limit h :=
    Query.limitOf?_eq_of_corresponds cutAlike_laidOut (fun hlm _ => hlm.text) h.corresponds

end Lexeme

/-- The outline of a statement does not depend on its layout. -/
theorem Query.related_of_sameButLayout {a b : String}
    (h : Lexeme.SameButLayout (Lexeme.ofText (trimBlanks a.toList))
      (Lexeme.ofText (trimBlanks b.toList))) :
    Related Eq Eq Lexeme.ReadsAlike (ofText a) (ofText b) :=
  related_ofLexemes Lexeme.cutAlike_laidOut (Lexeme.readAlike_laidOut _ _) h.token_head?
    (fun _ => h.corresponds_tail) _ _

/-- A statement on one line, and with comments and line breaks. -/
theorem Query.related_of_sameButLayout_comments :
    let a := "SELECT a.b, f(c) FROM t x JOIN u ON x.a = u.b WHERE c > 1 ORDER BY d DESC LIMIT 2"
    let b := "\n/* , */SELECT\ta.b,--(\nf(c) FROM t\n x JOIN u ON x.a /**/= u.b WHERE c >\n1 " ++
      "ORDER/* */BY d\nDESC LIMIT 2 "
    Lexeme.SameButLayout (Lexeme.ofText (trimBlanks a.toList))
        (Lexeme.ofText (trimBlanks b.toList)) ∧
      Related Eq Eq Lexeme.ReadsAlike (ofText a) (ofText b) := by
  intro a b
  have hlayout : Lexeme.SameButLayout (Lexeme.ofText (trimBlanks a.toList))
      (Lexeme.ofText (trimBlanks b.toList)) := by
    decide +kernel +revert
  exact ⟨hlayout, related_of_sameButLayout hlayout⟩

end SqlOutline
