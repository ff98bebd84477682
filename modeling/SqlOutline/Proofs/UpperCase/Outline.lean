import SqlOutline.Explanation
import SqlOutline.Proofs.Counterparts
import SqlOutline.Proofs.UpperCase.Lexeme

/-!
# Outlines in upper case

The outline of a statement in upper case is its outline with every text in upper case, and the
same advice is given on it. The lexemes of the two statements stand opposite each other with
the same tokens, so they are cut alike; the texts of runs are those of the same lexemes in
upper case; and the search for patterns with a leading wildcard compares letters in upper case.

## Main results

* `Query.eq_mapTexts_of_related`: outlines related text by text differ in their texts only.
* `LeadingWildcard.occursIn_toUpper`: a pattern is found in upper case where there is one.
* `Query.ofText_toUpper`: reading a statement and its advice goes along with upper case.
-/

namespace SqlOutline

/-! ### Outlines with other texts -/

section MapTexts

variable (f : String → String)

/-- A table with other names. -/
def TableReference.mapTexts (t : TableReference) :
    TableReference := ⟨f t.name, t.aliasName.map f⟩

/-- A join with other texts. -/
def Join.mapTexts (j : Join) : Join := ⟨j.type, j.table.mapTexts f, j.condition.map f⟩

/-- A sort key with another column. -/
def SortKey.mapTexts (k : SortKey) : SortKey := ⟨f k.column, k.direction⟩

/-- A column list with other columns. -/
def Selection.mapTexts (s : Selection) : Selection := ⟨s.columns.map f, s.isSelectAll⟩

/-- An outline with other texts, the source included. -/
def Query.mapTexts (q : Query) : Query where
  kind := q.kind
  selection := q.selection.map (Selection.mapTexts f)
  tables := q.tables.map (·.map (TableReference.mapTexts f))
  joins := q.joins.map (·.map (Join.mapTexts f))
  filter := q.filter.map f
  sortKeys := q.sortKeys.map (·.map (SortKey.mapTexts f))
  limit := q.limit
  source := f q.source

variable {f}

/-- Options are related by a function if the second is the image of the first. -/
theorem rel_eq_map_iff {α β : Type} {g : α → β} {a : Option α} {b : Option β} :
    Option.Rel (fun x y => y = g x) a b ↔ b = a.map g := by
  constructor
  · rintro (rfl | _) <;> rfl
  · rintro rfl
    cases a with
    | none => exact .none
    | some a => exact .some rfl

/-- Lists are related by a function if the second is the image of the first. -/
theorem eq_map_of_forall₂ {α β : Type} {g : α → β} {as : List α} {bs : List β}
    (h : List.Forall₂ (fun x y => y = g x) as bs) : bs = as.map g := by
  have heq : List.Forall₂ Eq (as.map g) bs :=
    List.forall₂_map_left_iff.mpr (h.imp fun _ _ hab => hab.symm)
  rw [List.forall₂_eq_eq_eq] at heq
  exact heq.symm

/-- A table whose texts are images is the image. -/
theorem TableReference.eq_mapTexts_of_related {t u : TableReference}
    (h : Related (fun s r => r = f s) t u) : u = t.mapTexts f := by
  obtain ⟨hname, halias⟩ := h
  cases u
  rw [mapTexts, mk.injEq]
  exact ⟨hname, rel_eq_map_iff.mp halias⟩

/-- A sort key whose text is the image is the image. -/
theorem SortKey.eq_mapTexts_of_related {k l : SortKey} (h : Related (fun s r => r = f s) k l) :
    l = k.mapTexts f := by
  obtain ⟨hcolumn, hdirection⟩ := h
  cases l
  rw [mapTexts, mk.injEq]
  exact ⟨hcolumn, hdirection.symm⟩

/-- Columns whose texts are images are the image. -/
theorem Selection.eq_mapTexts_of_related {s t : Selection}
    (h : Related (fun s r => r = f s) s t) :
    t = s.mapTexts f := by
  obtain ⟨hcolumns, hall⟩ := h
  cases t
  rw [mapTexts, mk.injEq]
  exact ⟨eq_map_of_forall₂ hcolumns, hall.symm⟩

/-- A join whose texts are images is the image. -/
theorem Join.eq_mapTexts_of_related {j k : Join}
    (h : Related (TableReference.Related fun s r => r = f s) (fun s r => r = f s) j k) :
    k = j.mapTexts f := by
  obtain ⟨htype, htable, hcondition⟩ := h
  cases k
  rw [mapTexts, mk.injEq]
  exact ⟨htype.symm, TableReference.eq_mapTexts_of_related htable,
    rel_eq_map_iff.mp hcondition⟩

/-- Outlines that are related text by text differ in their texts only. -/
theorem Query.eq_mapTexts_of_related {q r : Query}
    (h : Related (TableReference.Related fun s r => r = f s) (SortKey.Related fun s r => r = f s)
      (fun s r => r = f s) q r) (hsource : r.source = f q.source) : r = q.mapTexts f := by
  have hlist : ∀ {α : Type} {rel : α → α → Prop} {g : α → α} {as bs : Option (List α)},
      (∀ a b, rel a b → b = g a) → Option.Rel (List.Forall₂ rel) as bs →
        bs = as.map (·.map g) := by
    intro α rel g as bs hg hlists
    exact rel_eq_map_iff.mp (rel_imp_of_mem hlists fun _ _ _ _ hlist =>
      eq_map_of_forall₂ (hlist.imp hg))
  cases r
  rw [mapTexts, mk.injEq]
  exact ⟨h.kind.symm,
    rel_eq_map_iff.mp (rel_imp_of_mem h.selection fun _ _ _ _ =>
      Selection.eq_mapTexts_of_related),
    hlist (fun _ _ => TableReference.eq_mapTexts_of_related) h.tables,
    hlist (fun _ _ => Join.eq_mapTexts_of_related) h.joins,
    rel_eq_map_iff.mp h.filter,
    hlist (fun _ _ => SortKey.eq_mapTexts_of_related) h.sortKeys,
    h.limit.symm, hsource⟩

/-- The advice on a statement depends on no text but its condition. -/
theorem Query.advisories_mapTexts
    (h : ∀ text, LeadingWildcard.occursIn (f text) = LeadingWildcard.occursIn text)
    (q : Query) :
    (q.mapTexts f).advisories = q.advisories := by
  have hsame : ∀ advisory : Advisory, advisory.applies (q.mapTexts f) =
      advisory.applies q := by
    rintro (_ | _ | _)
    · rw [Advisory.applies, Advisory.applies, isSelectAll, isSelectAll, mapTexts,
        Option.any_map]
      rfl
    · rw [Advisory.applies, Advisory.applies, mapTexts, Option.any_map]
      exact congrArg (Option.any · q.filter) (funext h)
    · have htable : (q.mapTexts f).sourceTable?.isSome = q.sourceTable?.isSome := by
        rcases htables : q.tables with _ | _ | ⟨_, _⟩ <;>
          simp [sourceTable?, mapTexts, htables]
      rw [Advisory.applies, Advisory.applies, htable, mapTexts, Option.isNone_map]
  rw [advisories, advisories, funext hsame]
  rfl

end MapTexts

/-! ### Patterns with a leading wildcard -/

namespace LeadingWildcard

/-- The word is found in upper case where it is found. -/
theorem beginsWithLike_map_toUpper (cs : List Char) :
    beginsWithLike (cs.map Char.toUpper) = beginsWithLike cs := by
  have htwice : Char.toUpper ∘ Char.toUpper = Char.toUpper := funext toUpper_toUpper
  rw [beginsWithLike, beginsWithLike, ← List.map_take, List.map_map, htwice]

/-- A word stands free in upper case where it stands free. -/
theorem standsFree_map_toUpper (before : List Char) :
    standsFree (before.map Char.toUpper) = standsFree before := by
  have hwithout : withoutI (before.map Char.toUpper) = (withoutI before).map Char.toUpper := by
    cases before with
    | nil => rfl
    | cons c rest =>
        rw [List.map_cons, withoutI, withoutI, toUpper_toUpper]
        split <;> rfl
  rw [standsFree, standsFree, hwithout, List.head?_map, Option.any_map]
  simp only [isNameCharacter_toUpper]

/-- A pattern opens in upper case where it opens. -/
theorem opensPattern_map_toUpper (after : List Char) :
    opensPattern (after.map Char.toUpper) = opensPattern after := by
  have hblank : isBlank ∘ Char.toUpper = isBlank := funext isBlank_toUpper
  rw [opensPattern, opensPattern, List.dropWhile_map, hblank]
  rcases after.dropWhile isBlank with _ | ⟨mark, _ | ⟨wildcard, rest⟩⟩
  · rfl
  · rfl
  · have hsame : ∀ c d : Char, d.isAlpha = false → (c.toUpper == d) = (c == d) := by
      intro c d hd
      rw [Bool.eq_iff_iff, beq_iff_eq, beq_iff_eq, toUpper_eq_iff hd]
    rw [List.map_cons, List.map_cons]
    dsimp only
    rw [hsame mark Quoted.single rfl, hsame mark Quoted.double rfl, hsame wildcard '%' rfl,
      hsame wildcard '_' rfl]

/-- The search from a place in the condition ends the same in upper case. -/
theorem occursAfter_map_toUpper (before cs : List Char) :
    occursAfter (before.map Char.toUpper) (cs.map Char.toUpper) = occursAfter before cs := by
  induction cs generalizing before with
  | nil => rfl
  | cons c rest ih =>
      have hrest := ih (c :: before)
      rw [List.map_cons] at hrest
      rw [List.map_cons, occursAfter, occursAfter, hrest, ← List.map_cons,
        beginsWithLike_map_toUpper, standsFree_map_toUpper, ← List.map_drop,
        opensPattern_map_toUpper]

/-- A pattern is found in upper case where there is one. -/
theorem occursIn_toUpper (condition : String) :
    occursIn condition.toUpper = occursIn condition := by
  rw [occursIn, occursIn, toList_toUpper]
  exact occursAfter_map_toUpper [] condition.toList

end LeadingWildcard

/-! ### Statements -/

namespace Lexeme

/-- A lexeme and the same one in upper case; a whole number is the same. -/
structure HasUpper (l m : Lexeme) : Prop where
  eq : m = l.upper
  number : l.token = .number false → l.text = m.text

/-- Statements are cut at tokens, which are the same in upper case. -/
theorem cutAlike_hasUpper : CutAlike HasUpper fun _ _ => False where
  token h := by rw [h.eq, upper]
  touches h := by rw [h.eq, touchesPrevious_upper]
  enclosed := False.elim

variable {run run' xs ys : List Lexeme}

/-- Each lexeme of a text has its upper case. -/
theorem forall₂_hasUpper (cs : List Char) :
    List.Forall₂ HasUpper (ofText cs) ((ofText cs).map upper) := by
  rw [List.forall₂_map_right_iff]
  refine forall₂_imp_of_mem (List.forall₂_same.mpr fun _ _ => rfl) ?_
  rintro l hl _ - rfl
  exact ⟨rfl, fun hnumber => (text_upper_of_number hl hnumber).symm⟩

/-- The text of a run in upper case is its text in upper case. -/
theorem rel_text?_of_hasUpper (h : List.Forall₂ HasUpper xs ys) :
    Option.Rel (fun s t => t = s.toUpper) (text? xs) (text? ys) := by
  obtain rfl : ys = xs.map upper := eq_map_of_forall₂ (h.imp fun _ _ hlm => hlm.eq)
  cases xs with
  | nil => exact .none
  | cons l rest =>
      refine .some ?_
      rw [toUpper_ofList, ← spelling_map_upper, List.map_cons]

/-- What is read in upper case is the upper case of what is read. -/
theorem readAlike_hasUpper : ReadAlike (Counterparts HasUpper (fun _ _ => False) run run')
    (TableReference.Related fun s t => t = s.toUpper) (SortKey.Related fun s t => t = s.toUpper)
    (fun s t => t = s.toUpper) :=
  readAlike_of_text? cutAlike_hasUpper rel_text?_of_hasUpper (toUpper_ofList ['*']).symm
    HasUpper.number

end Lexeme

/-- Reading a statement goes along with upper case: its tokens have the same places, its
outline has the same form with all texts in upper case, and the advice on it is the same. -/
theorem Query.ofText_toUpper (sql : String) :
    Lexeme.tokensOf sql.toUpper = Lexeme.tokensOf sql ∧
      ofText sql.toUpper = (ofText sql).mapTexts String.toUpper ∧
      (ofText sql.toUpper).advisories = (ofText sql).advisories := by
  have hsource : trimBlanks sql.toUpper.toList = (trimBlanks sql.toList).map Char.toUpper := by
    rw [toList_toUpper, trimBlanks_map_toUpper]
  have hlexemes := Lexeme.forall₂_hasUpper (trimBlanks sql.toList)
  rw [← Lexeme.ofText_map_toUpper, ← hsource] at hlexemes
  have htexts : ofText sql.toUpper = (ofText sql).mapTexts String.toUpper := by
    refine eq_mapTexts_of_related (related_of_forall₂ Lexeme.cutAlike_hasUpper
      Lexeme.readAlike_hasUpper hlexemes _ _) ?_
    rw [source_ofText, source_ofText, hsource, toUpper_ofList]
  refine ⟨Lexeme.tokensOf_toUpper sql, htexts, ?_⟩
  rw [htexts, advisories_mapTexts LeadingWildcard.occursIn_toUpper]

end SqlOutline
