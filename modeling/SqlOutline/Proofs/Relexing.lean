import SqlOutline.Proofs.Placement

/-!
# Reading the text of a stretch alone

The text of any stretch of tokens, taken out of its source and read alone, has the same tokens
again: what stood before and behind it has no bearing on them. Their places are the old ones,
counted from the first byte of the stretch. Since the texts of an outline are those of
stretches, each of them reads as the part of the statement that it was taken from.

## Main results

* `Reads.split`: a reading of two runs behind one another is a reading of each.
* `Reads.ofText_spelling`: the text of what has been read has the same lexemes.
* `readAlone_texts`: stretches of a source and the texts of its outline are read alike alone.
-/

namespace SqlOutline

namespace Located

variable {α : Type}

/-- The value with its place counted from a later byte on. -/
def countedFrom (start : Nat) (t : Located α) : Located α :=
  ⟨t.value, t.first - start, t.last - start⟩

/-- What lies in a source between the first and the last byte of a row. -/
def textOf (source : String) (row : List (Located α)) : String :=
  String.ofList (slice source (range row).1 (range row).2)

end Located

namespace Lexeme

/-- The text of a row of tokens, when it is read alone, has the tokens of the row, with their
places counted from its first byte. -/
def ReadAlone (text : String) (row : List (Located Token)) : Prop :=
  tokensOf (Located.textOf text row) = row.map (·.countedFrom (Located.range row).1)

/-- A reading of two runs behind one another is a reading of each. -/
theorem Reads.split {cs rest : List Char} {xs ys : List Lexeme}
    (h : Reads cs (xs ++ ys) rest) :
    ∃ middle, Reads cs xs middle ∧ Reads middle ys rest := by
  induction xs generalizing cs with
  | nil => exact ⟨cs, .nil, h⟩
  | cons l xs ih =>
      cases h with
      | cons hgap hbegins hnext hrest =>
          obtain ⟨middle, hfirst, hsecond⟩ := ih hrest
          exact ⟨middle, .cons hgap hbegins hnext hfirst, hsecond⟩

/-- The text of what has been read has the same lexemes, without what stood before
the first one. -/
theorem Reads.ofText_spelling {cs rest : List Char} {l : Lexeme} {ls : List Lexeme}
    (h : Reads cs (l :: ls) rest) :
    ofText (spelling (l :: ls)) = { l with gap := [] } :: ls := by
  -- nothing behind the last token ends it as what stood there did
  have halone := h.exchange (.inl rfl)
  rw [List.append_nil, List.flatMap_cons] at halone
  generalize hcs : l.source ++ ls.flatMap source = text at halone
  cases halone with
  | @cons gap tail behind _ c token _ hgap hbegins hnext hrest =>
      have hspelling : spelling (⟨gap, token, c :: tail⟩ :: ls) = c :: (tail ++ behind) := by
        have htail := hrest.source_append
        rw [List.append_nil] at htail
        rw [spelling, htail]
        rfl
      have hreads : Reads ([] ++ c :: (tail ++ behind)) (⟨[], token, c :: tail⟩ :: ls) [] :=
        .cons .nil hbegins hnext hrest
      rw [List.nil_append] at hreads
      rw [hspelling, hreads.ofText_eq, ofText_of_row .nil, List.append_nil]

/-- Places are counted from the offset at which the first lexeme begins. -/
theorem tokensFrom_add (offset start : Nat) (ls : List Lexeme) :
    (tokensFrom (start + offset) ls).map (·.countedFrom start) = tokensFrom offset ls := by
  induction ls generalizing offset with
  | nil => rfl
  | cons l ls ih =>
      have hrest := ih (offset + byteCount l.source)
      rw [← Nat.add_assoc] at hrest
      have hfirst : start + offset + byteCount l.gap - start = offset + byteCount l.gap := by
        omega
      have hlast : start + offset + byteCount l.source - 1 - start =
          offset + byteCount l.source - 1 := by
        omega
      rw [tokensFrom_cons, tokensFrom_cons, List.map_cons, hrest]
      simp only [Located.countedFrom, hfirst, hlast]

/-- The trivia before the first token can as well be counted to what stands in front. -/
theorem tokensFrom_gap (offset : Nat) (l : Lexeme) (ls : List Lexeme) :
    tokensFrom (offset + byteCount l.gap) ({ l with gap := [] } :: ls) =
      tokensFrom offset (l :: ls) := by
  rw [tokensFrom_cons, tokensFrom_cons, source, source, List.nil_append, byteCount_append,
    byteCount_nil, Nat.add_zero, Nat.add_assoc]

/-- A stretch that stands in a source is read alike alone. -/
theorem StandsAt.readAlone {text : String} {offset : Nat} {part : List Lexeme}
    (h : StandsAt text offset part) {cs rest : List Char} (hreads : Reads cs part rest) :
    ReadAlone text (tokensFrom offset part) := by
  cases part with
  | nil =>
      have hsplit : text.toList = [] ++ ([] ++ text.toList) := rfl
      have hnone : Located.textOf text (tokensFrom offset []) = String.ofList [] :=
        congrArg String.ofList (slice_of_split hsplit)
      rw [ReadAlone, hnone, tokensOf, String.toList_ofList, ofText_of_behind_nil rfl]
      rfl
  | cons l ls =>
      have hslice := h.slice_range (by simp)
      have hstart : (Located.range (tokensFrom offset (l :: ls))).1 =
          offset + byteCount l.gap := by
        rw [Located.range, tokensFrom_cons]
        rfl
      rw [ReadAlone, Located.textOf, hslice, tokensOf, String.toList_ofList,
        hreads.ofText_spelling, hstart, ← tokensFrom_gap]
      exact (tokensFrom_add 0 (offset + byteCount l.gap) _).symm

/-- Each excerpt of what has been read is a reading of its own. -/
theorem Reads.of_excerpts {cs rest : List Char} {ls : List Lexeme} {parts : List (List Lexeme)}
    (h : Reads cs ls rest) (hparts : Excerpts ls parts) :
    ∀ part ∈ parts, ∃ cs rest, Reads cs part rest := by
  induction hparts generalizing cs with
  | nil => simp
  | cons _ _ ih =>
      obtain ⟨_, -, hbehind⟩ := h.split
      obtain ⟨_, hpart, hlater⟩ := hbehind.split
      exact List.forall_mem_cons.mpr ⟨⟨_, _, hpart⟩, ih hlater⟩

/-- Any stretch of the tokens of a source is read alike alone. -/
theorem readAlone_stretch (text : String) (start count : Nat) :
    ReadAlone text (((tokensOf text).drop start).take count) := by
  obtain ⟨_, hreads, -⟩ := exists_reads_ofText text.toList
  have hstands := standsAt_ofText text
  rw [tokensOf, drop_tokensFrom, take_tokensFrom]
  generalize ofText text.toList = ls at hreads hstands
  rw [← List.take_append_drop start ls] at hreads hstands
  obtain ⟨_, -, hbehind⟩ := hreads.split
  have hright := hstands.right
  rw [← List.take_append_drop count (ls.drop start)] at hbehind hright
  obtain ⟨_, hpart, -⟩ := hbehind.split
  exact hright.left.readAlone hpart

/-- Every stretch of the tokens of a source is read alike alone, and so are the texts of its
outline: each one is the text of a stretch of tokens, which stand one behind the other. -/
theorem readAlone_texts (sql : String) :
    (∀ start count, ReadAlone sql (((tokensOf sql).drop start).take count)) ∧
      ∃ rows, Excerpts (tokensOf (Query.ofText sql).source) rows ∧
        (Query.ofText sql).texts = rows.map (Located.textOf (Query.ofText sql).source) ∧
        ∀ row ∈ rows, ReadAlone (Query.ofText sql).source row := by
  refine ⟨readAlone_stretch sql, ?_⟩
  obtain ⟨parts, hparts, htexts⟩ := Query.yields_ofText sql
  have hsource : (Query.ofText sql).source.toList = trimBlanks sql.toList := by
    rw [Query.source_ofText, String.toList_ofList]
  obtain ⟨_, hreads, -⟩ := exists_reads_ofText (trimBlanks sql.toList)
  have hread := hreads.of_excerpts hparts
  have hne := hparts.ne_nil_of_mem
  rw [← hsource] at hparts
  obtain ⟨placed, rfl, hstands, hrows⟩ :=
    (standsAt_ofText (Query.ofText sql).source).exists_tokens hparts
  refine ⟨_, hrows, ?_, ?_⟩
  · rw [← htexts, List.map_map, List.map_map]
    refine List.map_congr_left fun p hp => ?_
    rw [Function.comp_apply, Function.comp_apply, Located.textOf,
      (hstands p hp).slice_range (hne p.2 (List.mem_map_of_mem hp))]
    rfl
  · intro row hrow
    obtain ⟨p, hp, rfl⟩ := List.mem_map.mp hrow
    obtain ⟨_, _, hpart⟩ := hread p.2 (List.mem_map_of_mem hp)
    exact (hstands p hp).readAlone hpart

end Lexeme

end SqlOutline
