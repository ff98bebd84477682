import SqlOutline.Proofs.Checked.Runs
import SqlOutline.Proofs.JoinPlaces

/-!
# Joins by markers

A pass over a table list that leaves a marker for every join: the index of its first word and
that of the first token behind its words. The leading table lies in front of the first marker,
and a join goes from the words of its marker to the next marker. The words of a join are taken
from the cursor at once, and more than there are left are never taken.

## Main results

* `matchIntroduction_eq`: the words of a join are recognized as `JoinType.introducedBy?` does.
* `joinMarkers_eq`: the markers are those of the parts of the join chain.
* `joinsBetween_eq`: what lies between the markers can be cut out.
* `tableList_eq`: the tables and joins of a table list are read.
-/

namespace SqlOutline.Checked

/-! ### Words of a join -/

/-- Whether the elements of a cursor from place `i` on are the words of a row from there on,
for a number of them. -/
def spellsFrom (keywords : List Keyword) (cursor : Cursor (Located Token)) (i : Nat) :
    Nat → Checked Bool
  | 0 => return true
  | n + 1 =>
    match cursor[i]? with
    | none => return false
    | some (t, _) => do
      let keyword ← item keywords i
      if t.value = .keyword keyword then spellsFrom keywords cursor (i + 1) n else return false

/-- Takes a row of words from a cursor if it begins with them. -/
def takeWords (keywords : List Keyword) (cursor : Cursor (Located Token)) :
    Checked (Option (Cursor (Located Token))) := do
  if keywords.isEmpty then return none
  if ← spellsFrom keywords cursor 0 keywords.length then
    return some (← sliceList cursor keywords.length cursor.length)
  return none

/-- The first of some rows of words that a cursor begins with, and the cursor behind it. -/
def matchIntroduction (cursor : Cursor (Located Token)) :
    List (List Keyword × JoinType) → Checked (Option (JoinType × Cursor (Located Token)))
  | [] => return none
  | (keywords, type) :: rows => do
    match ← takeWords keywords cursor with
    | some behind => return some (type, behind)
    | none => matchIntroduction cursor rows

section Words

variable {keywords : List Keyword} {cursor : Cursor (Located Token)} {run : List Lexeme}

/-- The remaining keywords are compared one by one with those of the run. -/
theorem spellsFrom_eq (hvalues : cursor.map (·.1.value) = run.map (·.token)) {i n : Nat}
    (hcount : i + n = keywords.length) :
    spellsFrom keywords cursor i n =
      .ok (JoinType.beginsWith (keywords.drop i) (run.drop i)) := by
  have hplace : ∀ j : Nat, (cursor[j]?).map (·.1.value) = (run[j]?).map (·.token) := by
    intro j
    rw [← List.getElem?_map, hvalues, List.getElem?_map]
  induction n generalizing i with
  | zero =>
      rw [List.drop_of_length_le (by omega)]
      rfl
  | succ n ih =>
      have hi : i < keywords.length := by omega
      have hhere := hplace i
      rw [spellsFrom, List.drop_eq_getElem_cons hi]
      cases hcursor : cursor[i]? with
      | none =>
          rw [hcursor, Option.map_none, eq_comm, Option.map_eq_none_iff,
            List.getElem?_eq_none_iff] at hhere
          rw [List.drop_of_length_le hhere]
          rfl
      | some entry =>
          rw [hcursor, Option.map_some, eq_comm, Option.map_eq_some_iff] at hhere
          obtain ⟨l, hl, htoken⟩ := hhere
          obtain ⟨hrun, rfl⟩ := List.getElem?_eq_some_iff.mp hl
          rw [List.drop_eq_getElem_cons hrun, JoinType.beginsWith, htoken]
          dsimp only
          rw [item_of_lt hi, ok_bind]
          split_ifs with hkeyword
          · rw [ih (by omega), decide_eq_true hkeyword, Bool.true_and]
          · rw [decide_eq_false hkeyword, Bool.false_and]
            rfl

/-- A run is no shorter than the row of words that it begins with. -/
theorem length_le_of_beginsWith (h : JoinType.beginsWith keywords run = true) :
    keywords.length ≤ run.length := by
  by_contra hlong
  obtain ⟨l, hl, -⟩ := JoinType.getElem?_of_beginsWith h (m := run.length) (by omega)
  simp at hl

/-- The cursor passes the keywords if the run begins with them, and stays where it is if not.
-/
theorem takeWords_eq (hvalues : cursor.map (·.1.value) = run.map (·.token))
    (hne : keywords ≠ []) :
    takeWords keywords cursor = .ok
      (if JoinType.beginsWith keywords run then some (cursor.drop keywords.length) else none) := by
  have hspells := spellsFrom_eq hvalues (Nat.zero_add keywords.length)
  rw [List.drop_zero, List.drop_zero] at hspells
  rw [takeWords, if_neg (by simpa using hne), hspells]
  cases hbegins : JoinType.beginsWith keywords run with
  | false => rfl
  | true =>
      have hlength : cursor.length = run.length := by simpa using congrArg List.length hvalues
      have hfits := length_le_of_beginsWith hbegins
      simp only [ok_bind, if_true, sliceList_to_end (hlength ▸ hfits)]
      rfl

/-- The words of a join are recognized in a cursor as in its lexemes. -/
theorem matchIntroduction_eq (hvalues : cursor.map (·.1.value) = run.map (·.token))
    {rows : List (List Keyword × JoinType)} (hne : ∀ row ∈ rows, row.1 ≠ []) :
    matchIntroduction cursor rows = .ok
      ((rows.find? fun (keywords, _) => JoinType.beginsWith keywords run).map
        fun (keywords, type) => (type, cursor.drop keywords.length)) := by
  induction rows with
  | nil => rfl
  | cons row rows ih =>
      rcases row with ⟨keywords, type⟩
      rw [List.forall_mem_cons] at hne
      rw [matchIntroduction, takeWords_eq hvalues hne.1, List.find?_cons, ok_bind]
      dsimp only
      cases JoinType.beginsWith keywords run with
      | false => exact ih hne.2
      | true => rfl

/-- No row of words that introduces a join is empty. -/
theorem introductions_ne_nil : ∀ row ∈ JoinType.introductions, row.1 ≠ [] := by
  intro row hrow hnil
  have hlast := (JoinType.introductions_spec row hrow).1
  rw [hnil] at hlast
  cases hlast

/-- The cursor passes the words that introduce a join, if the run begins with some. -/
theorem matchIntroduction_introductions
    (hvalues : cursor.map (·.1.value) = run.map (·.token)) :
    matchIntroduction cursor JoinType.introductions = .ok
      ((JoinType.introducedBy? run).map fun (type, count) => (type, cursor.drop count)) := by
  rw [matchIntroduction_eq hvalues introductions_ne_nil, JoinType.introducedBy?,
    Option.map_map]
  rfl

end Words

/-! ### Markers -/

/-- Where a join begins, and where its table does. -/
structure JoinMarker where
  type : JoinType
  start : Nat
  body : Nat
  deriving DecidableEq, Repr

/-- The words of a join at the front of a cursor, which count outside of parentheses only. -/
def introductionAt (depth : Nat) (cursor : Cursor (Located Token)) :
    Checked (Option (JoinType × Cursor (Located Token))) :=
  if depth = 0 then matchIntroduction cursor JoinType.introductions else return none

/-- The markers of the joins in the tokens that are left of a row of some size. -/
def joinMarkers (size depth : Nat) : Cursor (Located Token) → Checked (List JoinMarker)
  | [] => return []
  | (t, start) :: rest => do
    match ← introductionAt depth ((t, start) :: rest) with
    | some (type, behind) =>
      if behind.length < rest.length + 1 then
        return ⟨type, start, nextIndex size behind⟩ :: (← joinMarkers size 0 behind)
      else .error .endless
    | none => joinMarkers size (t.value.depthAfter depth) rest
termination_by cursor => cursor.length

/-- The markers of parts that stand one behind the other from an index on. -/
def markersFrom (start : Nat) : List JoinPart → List JoinMarker
  | [] => []
  | part :: more =>
    ⟨part.type, start, start + part.introduction.length⟩ ::
      markersFrom (start + part.run.length) more

section Markers

variable {source : String} {tokens : List (Located Token)} {run : List Lexeme}

/-- Numbering leaves the tokens as they are. -/
theorem map_value_zipIdx (h : Locates source tokens run) (i : Nat) :
    (tokens.zipIdx i).map (·.1.value) = run.map (·.token) := by
  have hvalues := congrArg (List.map (·.value)) (List.zipIdx_map_fst i tokens)
  rw [List.map_map, h.map_value] at hvalues
  exact hvalues

/-- A join is introduced outside of parentheses only. -/
theorem introductionAt_eq (h : Locates source tokens run) (depth i : Nat) :
    introductionAt depth (tokens.zipIdx i) = .ok
      ((if depth = 0 then JoinType.introducedBy? run else none).map fun (type, count) =>
        (type, (tokens.drop count).zipIdx (i + count))) := by
  rw [introductionAt, matchIntroduction_introductions (map_value_zipIdx h i)]
  simp only [drop_zipIdx]
  split_ifs <;> rfl

/-- The words of a join leave a marker, and the pass goes on behind them. -/
theorem joinMarkers_of_some {size depth start : Nat} {t : Located Token}
    {rest behind : Cursor (Located Token)} {type : JoinType} {more : List JoinMarker}
    (hat : introductionAt depth ((t, start) :: rest) = .ok (some (type, behind)))
    (hshort : behind.length < rest.length + 1) (hmore : joinMarkers size 0 behind = .ok more) :
    joinMarkers size depth ((t, start) :: rest) =
      .ok (⟨type, start, nextIndex size behind⟩ :: more) := by
  rw [joinMarkers, hat, ok_bind]
  dsimp only
  rw [if_pos hshort, hmore]
  rfl

/-- Other tokens leave none. -/
theorem joinMarkers_of_none {size depth start : Nat} {t : Located Token}
    {rest : Cursor (Located Token)}
    (hat : introductionAt depth ((t, start) :: rest) = .ok none) :
    joinMarkers size depth ((t, start) :: rest) =
      joinMarkers size (t.value.depthAfter depth) rest := by
  rw [joinMarkers, hat, ok_bind]

/-- The words of a join are its first word and those behind it. -/
theorem introducedBy?_le {l : Lexeme} {ls : List Lexeme} {type : JoinType} {count : Nat}
    (h : JoinType.introducedBy? (l :: ls) = some (type, count)) :
    ∃ n, count = n + 1 ∧ n ≤ ls.length := by
  obtain ⟨keywords, hlisted, rfl, hbegins⟩ := JoinType.exists_of_introducedBy? h
  have hlong := length_le_of_beginsWith hbegins
  have hpos : 0 < keywords.length :=
    List.length_pos_iff.mpr (introductions_ne_nil (keywords, type) hlisted)
  rw [List.length_cons] at hlong
  exact ⟨keywords.length - 1, by omega, by omega⟩

/-- The markers are those of the parts of the join chain. -/
theorem joinMarkers_eq (size depth : Nat) (run : List Lexeme) :
    ∀ (tokens : List (Located Token))
    (i : Nat), Locates source tokens run → size = i + run.length →
      joinMarkers size depth (tokens.zipIdx i) = .ok
        (markersFrom (i + (JoinChain.ofLexemes depth run).lead.length)
          (JoinChain.ofLexemes depth run).parts) := by
  fun_induction JoinChain.ofLexemes depth run with
  | case1 depth =>
      intro tokens i h hsize
      rw [h.eq_nil, List.zipIdx_nil, joinMarkers]
      rfl
  | case2 depth l ls type count hfound chain ih =>
      intro tokens i h hsize
      obtain ⟨t, rest, rfl, -, hrest⟩ := h.exists_cons
      rw [dite_eq_ite] at hfound
      have hat := introductionAt_eq h depth i
      rw [hfound, List.zipIdx_cons, Option.map_some] at hat
      split_ifs at hfound
      obtain ⟨n, rfl, hn⟩ := introducedBy?_le hfound
      rw [List.length_cons] at hsize
      rw [Nat.add_sub_cancel] at ih
      have hlength : (rest.drop n).length + (n + 1) = rest.length + 1 := by
        rw [List.length_drop, hrest.length_eq]
        omega
      have hnext : nextIndex size ((rest.drop n).zipIdx (i + (n + 1))) = i + (n + 1) :=
        nextIndex_zipIdx (by rw [hrest.length_eq] at hlength; omega)
      have hmore : joinMarkers size 0 ((rest.drop n).zipIdx (i + (n + 1))) = _ :=
        ih _ _ (hrest.drop n) (by rw [List.length_drop]; omega)
      rw [List.zipIdx_cons, joinMarkers_of_some hat ?_ hmore]
      · dsimp only
        rw [List.drop_succ_cons, hnext]
        simp only [markersFrom, JoinPart.run, List.length_nil, Nat.add_zero, List.length_cons,
          List.length_take, List.length_append, Nat.add_sub_cancel, Nat.min_eq_left hn,
          Nat.add_assoc]
        rfl
      · rw [List.length_zipIdx, List.length_zipIdx, List.drop_succ_cons]
        omega
  | case3 depth l ls hnone chain ih =>
      intro tokens i h hsize
      obtain ⟨t, rest, rfl, ht, hrest⟩ := h.exists_cons
      rw [dite_eq_ite] at hnone
      have hat := introductionAt_eq h depth i
      rw [hnone, List.zipIdx_cons, Option.map_none] at hat
      rw [List.length_cons] at hsize
      have hmore : joinMarkers size (l.token.depthAfter depth) (rest.zipIdx (i + 1)) = _ :=
        ih _ _ hrest (by omega)
      have hstart : i + (l :: chain.lead).length = i + 1 + chain.lead.length := by
        rw [List.length_cons]
        omega
      rw [List.zipIdx_cons, joinMarkers_of_none hat, ht, hmore, hstart]

end Markers

/-! ### Joins between markers -/

/-- One join, from what follows its words: a table and, behind `ON`, a condition. -/
def joinClause (source : String) (type : JoinType) (tokens : List (Located Token)) :
    Checked (Option Join) :=
  match topLevelPosition .on 0 tokens with
  | some i => do
    let (front, back) ← cutAt tokens i
    let condition ← text source back
    return (← tableReference source front).map fun table => ⟨type, table, condition⟩
  | none => do return (← tableReference source tokens).map fun table => ⟨type, table, none⟩

/-- The index at which the first of some joins begins, or the size of the row they are in. -/
def nextStart (size : Nat) (markers : List JoinMarker) : Nat :=
  markers.head?.elim size (·.start)

/-- The joins of some markers, each from the tokens up to the next one. -/
def joinsBetween (source : String) (tokens : List (Located Token)) :
    List JoinMarker → Checked (List Join)
  | [] => return []
  | marker :: more => do
    let body ← sliceList tokens marker.body (nextStart tokens.length more)
    let join ← joinClause source marker.type body
    return join.toList ++ (← joinsBetween source tokens more)

/-- The table of the first part between commas. -/
def firstTable (source : String) (tokens : List (Located Token)) :
    Checked (Option TableReference) := do
  match ← splitTopLevel .comma tokens with
  | [] => return none
  | part :: _ => tableReference source part

/-- The tables and the joins of a table list. -/
def tableList (source : String) (tokens : List (Located Token)) :
    Checked (Option (List TableReference) × Option (List Join)) := do
  if (topLevelPosition .join 0 tokens).isSome then
    let markers ← joinMarkers tokens.length 0 tokens.zipIdx
    let front ← sliceList tokens 0 (nextStart tokens.length markers)
    let lead ← firstTable source front
    let joins ← joinsBetween source tokens markers
    return (lead.map fun table => [table], nonempty? joins)
  else return (nonempty? (← readParts .comma (tableReference source) tokens), none)

section Joins

variable {source : String} {tokens : List (Located Token)} {run : List Lexeme}

/-- The checked reading of a join is the reading of its lexemes. -/
theorem joinClause_eq (part : JoinPart) (h : Locates source tokens part.body) :
    joinClause source part.type tokens = .ok part.toJoin? := by
  rw [joinClause, JoinPart.toJoin?, topLevelPosition_eq h]
  rcases hcut : Lexeme.cutTopLevel? .on 0 part.body with - | ⟨before, after⟩
  · rw [Option.map_none]
    dsimp only
    rw [tableReference_eq h]
    rfl
  · obtain ⟨front, back, hcutAt, hfront, hback⟩ := exists_cutAt h hcut
    rw [Option.map_some]
    dsimp only
    rw [hcutAt, ok_bind]
    dsimp only
    rw [text_eq hback, ok_bind, tableReference_eq hfront]
    rfl

/-- Behind a part the next one begins, or the row ends. -/
theorem nextStart_markersFrom {size start : Nat} {parts : List JoinPart}
    (hsize : size = start + (parts.flatMap JoinPart.run).length) :
    nextStart size (markersFrom start parts) = start := by
  cases parts with
  | nil => exact hsize
  | cons part more => rfl

/-- What lies between the markers of parts can be cut out. -/
theorem joinsBetween_eq (front : List Lexeme) {parts : List JoinPart}
    (h : Locates source tokens (front ++ parts.flatMap JoinPart.run)) :
    joinsBetween source tokens (markersFrom front.length parts) =
      .ok (parts.filterMap JoinPart.toJoin?) := by
  induction parts generalizing front with
  | nil => rfl
  | cons part more ih =>
      rw [List.flatMap_cons] at h
      have hlength := h.length_eq
      have hnext : nextStart tokens.length
          (markersFrom (front.length + part.run.length) more) =
            (front ++ part.introduction).length + part.body.length := by
        rw [nextStart_markersFrom
            (by rw [hlength]; simp only [List.length_append, Nat.add_assoc]),
          JoinPart.run]
        simp only [List.length_append, Nat.add_assoc]
      have hbody : front ++ (part.run ++ more.flatMap JoinPart.run) =
          front ++ part.introduction ++ (part.body ++ more.flatMap JoinPart.run) := by
        rw [JoinPart.run, List.append_assoc, List.append_assoc]
      have hrest := ih (front ++ part.run) (by rwa [List.append_assoc])
      rw [hbody] at h
      obtain ⟨body, hslice, hlocated⟩ := h.sliceList
      rw [List.length_append] at hrest
      rw [← hnext, List.length_append] at hslice
      rw [markersFrom, joinsBetween]
      dsimp only
      rw [hslice, ok_bind, joinClause_eq part hlocated, ok_bind, hrest, ok_bind,
        List.filterMap_cons]
      cases part.toJoin? <;> rfl

/-- The table in front of the joins is the first item there. -/
theorem firstTable_eq (h : Locates source tokens run) :
    firstTable source tokens = .ok
      ((Lexeme.splitTopLevel .comma 0 run).head?.bind TableReference.ofLexemes?) := by
  obtain ⟨parts, hparts, hrel⟩ : ∃ parts, splitTopLevel .comma tokens = .ok parts ∧ _ :=
    exists_splitTopLevel h rfl
  rw [firstTable, hparts, ok_bind]
  generalize Lexeme.splitTopLevel .comma 0 run = runs at hrel ⊢
  cases hrel with
  | nil => rfl
  | cons hpart _ => exact tableReference_eq hpart

/-- The tables and joins of a table list are read. -/
theorem tableList_eq (h : Locates source tokens run) :
    tableList source tokens = .ok (readTableList run) := by
  rw [tableList, readTableList, topLevelPosition_eq h, Option.isSome_map]
  split_ifs
  · have hmarkers := joinMarkers_eq tokens.length 0 run tokens 0 h
      (h.length_eq.trans (Nat.zero_add _).symm)
    have hchain := JoinChain.append_ofLexemes 0 run
    rw [← hchain] at h
    have hlength := h.length_eq
    rw [List.length_append] at hlength
    have hjoins := joinsBetween_eq _ h
    have hfront := h.take (JoinChain.ofLexemes 0 run).lead.length
    rw [List.take_left] at hfront
    rw [hmarkers, ok_bind, Nat.zero_add, nextStart_markersFrom hlength,
      sliceList_of_le (Nat.zero_le _) (by omega), ok_bind, List.drop_zero, firstTable_eq hfront,
      ok_bind, hjoins]
    rfl
  · rw [readParts_eq rfl (fun _ _ => tableReference_eq) h]
    rfl

end Joins

end SqlOutline.Checked
