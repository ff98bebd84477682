import Mathlib.Data.List.SplitBy
import SqlOutline.Proofs.ClauseBounds
import SqlOutline.Proofs.Spelling

/-!
# The texts of an outline are excerpts of the statement

Every text in an outline is that of a stretch of lexemes. These stretches stand one behind the
other in the statement, in the order in which the outline lists their texts, and no lexeme is
used twice. `Lexeme.Yields` says this of any run and any list of texts, so that each part of a
statement can be looked at by itself.

## Main results

* `Excerpts.append`: excerpts of two runs are excerpts of the runs behind one another.
* `yields_splitTopLevel`: what the items between separators yield, the run yields.
* `yields_readTableList`, `Query.yields_ofText`: tables with their joins, and whole statements.
-/

namespace SqlOutline

/-- Stretches of a list, one behind the other and none of them empty. -/
inductive Excerpts {α : Type} : List α → List (List α) → Prop
  | nil {run : List α} : Excerpts run []
  | cons {before part rest : List α} {parts : List (List α)} :
      part ≠ [] → Excerpts rest parts → Excerpts (before ++ (part ++ rest)) (part :: parts)

namespace Excerpts

variable {α : Type} {xs ys : List α} {ps qs : List (List α)}

/-- Excerpts of a list are excerpts of it behind another one. -/
theorem append_left (before : List α) (h : Excerpts xs ps) : Excerpts (before ++ xs) ps := by
  cases h with
  | nil => exact .nil
  | cons hpart hrest =>
      rw [← List.append_assoc]
      exact .cons hpart hrest

/-- Excerpts of two lists are excerpts of the lists behind one another. -/
theorem append (h : Excerpts xs ps) (hmore : Excerpts ys qs) :
    Excerpts (xs ++ ys) (ps ++ qs) := by
  induction h with
  | nil => exact hmore.append_left _
  | cons hpart _ ih =>
      rw [List.append_assoc, List.append_assoc]
      exact .cons hpart ih

/-- A list is an excerpt of itself. -/
theorem self (h : xs ≠ []) : Excerpts xs [xs] := by
  have hself : Excerpts ([] ++ (xs ++ [])) [xs] := .cons h .nil
  rwa [List.append_nil] at hself

end Excerpts

/-! ### The texts of an outline -/

/-- The name of a table and the name that is given to it. -/
def TableReference.texts (t : TableReference) : List String := t.name :: t.aliasName.toList

/-- The texts of a joined table, and its condition. -/
def Join.texts (j : Join) : List String := j.table.texts ++ j.condition.toList

/-- The texts of an outline in the order of the statement. -/
def Query.texts (q : Query) : List String :=
  (q.selection.elim [] (·.columns)) ++ ((q.tables.getD []).flatMap TableReference.texts ++
    ((q.joins.getD []).flatMap Join.texts ++
      (q.filter.toList ++ (q.sortKeys.getD []).map (·.column))))

/-- A list is cut behind its first element unless that belongs with the next one. -/
theorem splitBy_cons_cons {α : Type} (r : α → α → Bool) (a b : α) (xs : List α) :
    (a :: b :: xs).splitBy r =
      if r a b then ((b :: xs).splitBy r).modifyHead (a :: ·)
      else [a] :: (b :: xs).splitBy r := by
  split_ifs with hr
  · obtain ⟨hflatten, hne, hchain, hseams⟩ :=
      List.splitBy_eq_iff.mp (rfl : (b :: xs).splitBy r = _)
    cases hsplit : (b :: xs).splitBy r with
    | nil => simp at hsplit
    | cons word words =>
        rw [hsplit] at hflatten hne hchain hseams
        cases word with
        | nil => simp at hne
        | cons c word =>
            obtain ⟨rfl, -⟩ := List.cons.inj hflatten
            refine List.splitBy_eq_iff.mpr ⟨congrArg (a :: ·) hflatten, ?_, ?_, ?_⟩
            · simpa using hne
            · rw [List.modifyHead_cons, List.forall_mem_cons]
              rw [List.forall_mem_cons] at hchain
              exact ⟨hchain.1.cons_cons hr, hchain.2⟩
            · rw [List.modifyHead_cons, List.isChain_cons]
              rw [List.isChain_cons] at hseams
              exact ⟨fun next hnext => by simpa using hseams.1 next hnext, hseams.2⟩
  · rw [← List.singleton_append, List.splitBy_append_cons xs (by simpa using hr)]
    rfl

namespace Lexeme

/-- The text of a stretch. -/
def spelled (part : List Lexeme) : String := String.ofList (spelling part)

/-- The texts are those of excerpts of the run. -/
def Yields (run : List Lexeme) (texts : List String) : Prop :=
  ∃ parts, Excerpts run parts ∧ parts.map spelled = texts

section

variable {run xs ys : List Lexeme} {texts more : List String}

/-- Every run yields no texts. -/
theorem yields_nil : Yields run [] := ⟨[], .nil, rfl⟩

/-- What two runs yield, they yield behind one another. -/
theorem Yields.append (h : Yields xs texts) (hmore : Yields ys more) :
    Yields (xs ++ ys) (texts ++ more) := by
  obtain ⟨ps, hps, rfl⟩ := h
  obtain ⟨qs, hqs, rfl⟩ := hmore
  exact ⟨ps ++ qs, hps.append hqs, by simp⟩

/-- What a run yields, it yields behind another one. -/
theorem Yields.append_left (before : List Lexeme) (h : Yields run texts) :
    Yields (before ++ run) texts := by
  have hbefore : Yields before [] := yields_nil
  exact hbefore.append h

/-- What a run yields, it yields in front of another one. -/
theorem Yields.append_right (h : Yields run texts) (after : List Lexeme) :
    Yields (run ++ after) texts := by
  have hboth : Yields (run ++ after) (texts ++ []) := h.append yields_nil
  rwa [List.append_nil] at hboth

/-- A lexeme in front takes nothing away. -/
theorem Yields.cons (l : Lexeme) (h : Yields run texts) : Yields (l :: run) texts :=
  h.append_left [l]

/-- A run yields its own text. -/
theorem yields_text? (run : List Lexeme) : Yields run (text? run).toList := by
  cases run with
  | nil => exact yields_nil
  | cons l rest => exact ⟨[l :: rest], .self (by simp), rfl⟩

/-- A run is one item, or the first item goes up to a separator and the others are those of
what stands behind it. -/
theorem splitTopLevel_cases (separator : Token) (depth : Nat) (run : List Lexeme) :
    splitTopLevel separator depth run = [run] ∨
      ∃ item l rest, run = item ++ l :: rest ∧
        splitTopLevel separator depth run = item :: splitTopLevel separator 0 rest := by
  induction run generalizing depth with
  | nil => exact .inl rfl
  | cons l run ih =>
      rw [splitTopLevel]
      split
      · next hcut =>
        rw [hcut.1]
        exact .inr ⟨[], l, run, rfl, rfl⟩
      · rcases ih (l.token.depthAfter depth) with hone | ⟨item, m, rest, hrun, hsplit⟩
        · exact .inl (by rw [hone]; rfl)
        · exact .inr ⟨l :: item, m, rest, by rw [hrun]; rfl, by rw [hsplit]; rfl⟩

/-- What the items between separators yield, the run yields. -/
theorem yields_splitTopLevel {f : List Lexeme → List String}
    (hf : ∀ item, Yields item (f item)) (separator : Token) (depth : Nat) (run : List Lexeme) :
    Yields run ((splitTopLevel separator depth run).flatMap f) := by
  induction hn : run.length using Nat.strongRecOn generalizing depth run with
  | _ n ih =>
      rcases splitTopLevel_cases separator depth run with hone | ⟨item, l, rest, hrun, hsplit⟩
      · rw [hone]
        simpa using hf run
      · have hrest := ih rest.length (by simp [← hn, hrun]; omega) 0 rest rfl
        rw [hsplit, hrun]
        exact (hf item).append (hrest.cons l)

/-- A run is cut at one of its lexemes. -/
theorem append_of_cutTopLevel? {keyword : Keyword} {depth : Nat}
    {run before after : List Lexeme}
    (h : cutTopLevel? keyword depth run = some (before, after)) :
    ∃ l, run = before ++ l :: after := by
  induction run generalizing depth before with
  | nil => simp [cutTopLevel?] at h
  | cons l run ih =>
      rw [cutTopLevel?] at h
      split at h
      · obtain ⟨rfl, rfl⟩ := Prod.mk.inj (Option.some_inj.mp h)
        exact ⟨l, rfl⟩
      · obtain ⟨⟨front, back⟩, hcut, heq⟩ := Option.map_eq_some_iff.mp h
        obtain ⟨rfl, rfl⟩ := Prod.mk.inj heq
        obtain ⟨m, rfl⟩ := ih hcut
        exact ⟨m, rfl⟩

/-- The words of a run stand behind one another in it. -/
theorem flatten_words (run : List Lexeme) : (words run).flatten = run :=
  List.flatten_splitBy _ _

end

end Lexeme

open Lexeme (Yields yields_nil yields_text?)

/-! ### Tables and sort keys -/

/-- The name given to a table is one of the words behind it. -/
theorem TableReference.yields_aliasOf (words : List (List Lexeme)) :
    Yields words.flatten (aliasOf words).toList := by
  cases words with
  | nil => exact yields_nil
  | cons word rest =>
      rw [aliasOf]
      split
      · cases rest with
        | nil => exact yields_nil
        | cons second rest => exact ((yields_text? second).append_right _).append_left word
      · exact (yields_text? word).append_right _

/-- A table yields its name and the name that is given to it. -/
theorem TableReference.yields_ofLexemes? (run : List Lexeme) :
    Yields run ((ofLexemes? run).elim [] texts) := by
  rw [ofLexemes?]
  have hflatten := Lexeme.flatten_words run
  cases hwords : Lexeme.words run with
  | nil => exact yields_nil
  | cons word rest =>
      rw [hwords] at hflatten
      have hyields := (yields_text? word).append (yields_aliasOf rest)
      rw [← List.flatten_cons, hflatten] at hyields
      dsimp only
      cases htext : Lexeme.text? word with
      | none => exact yields_nil
      | some name =>
          rw [htext] at hyields
          exact hyields

/-- A sort key yields its column. -/
theorem SortKey.yields_ofLexemes? (run : List Lexeme) :
    Yields run ((ofLexemes? run).elim [] fun key => [key.column]) := by
  rw [ofLexemes?]
  have hflatten := Lexeme.flatten_words run
  cases hwords : Lexeme.words run with
  | nil => exact yields_nil
  | cons word rest =>
      rw [hwords] at hflatten
      have hyields := (yields_text? word).append_right rest.flatten
      rw [← List.flatten_cons, hflatten] at hyields
      dsimp only
      cases htext : Lexeme.text? word with
      | none => exact yields_nil
      | some column =>
          rw [htext] at hyields
          exact hyields

/-! ### Joins -/

/-- A join yields the texts of its table and its condition. -/
theorem JoinPart.yields_toJoin? (part : JoinPart) :
    Yields part.body (part.toJoin?.elim [] Join.texts) := by
  rw [toJoin?]
  cases hcut : Lexeme.cutTopLevel? .on 0 part.body with
  | none =>
      have hyields := TableReference.yields_ofLexemes? part.body
      dsimp only
      cases htable : TableReference.ofLexemes? part.body with
      | none => exact yields_nil
      | some table =>
          rw [htable] at hyields
          simpa [Join.texts] using hyields
  | some sides =>
      obtain ⟨before, after⟩ := sides
      obtain ⟨l, hbody⟩ := Lexeme.append_of_cutTopLevel? hcut
      have hyields := (TableReference.yields_ofLexemes? before).append
        ((yields_text? after).cons l)
      rw [← hbody] at hyields
      dsimp only
      cases htable : TableReference.ofLexemes? before with
      | none => exact yields_nil
      | some table =>
          rw [htable] at hyields
          simpa [Join.texts] using hyields

/-- The lexemes of a part. -/
def JoinPart.run (part : JoinPart) : List Lexeme := part.introduction ++ part.body

/-- A chain has all the lexemes that it was cut from. -/
theorem JoinChain.append_ofLexemes (depth : Nat) (run : List Lexeme) :
    (ofLexemes depth run).lead ++ (ofLexemes depth run).parts.flatMap JoinPart.run = run := by
  fun_induction ofLexemes depth run with
  | case1 => rfl
  | case2 depth l rest type count _ chain ih =>
      have hbehind : chain.lead ++ chain.parts.flatMap JoinPart.run = rest.drop (count - 1) :=
        ih
      simp [JoinPart.run, List.append_assoc, hbehind]
  | case3 depth l rest _ chain ih =>
      have hbehind : chain.lead ++ chain.parts.flatMap JoinPart.run = rest := ih
      simp [hbehind]

/-- The joins of a chain yield their texts. -/
theorem JoinChain.yields_parts (parts : List JoinPart) :
    Yields (parts.flatMap JoinPart.run)
      ((parts.filterMap JoinPart.toJoin?).flatMap Join.texts) := by
  induction parts with
  | nil => exact yields_nil
  | cons part parts ih =>
      have hpart := (part.yields_toJoin?.append_left part.introduction).append ih
      cases hjoin : part.toJoin? with
      | none => simpa [JoinPart.run, hjoin] using hpart
      | some join => simpa [JoinPart.run, hjoin] using hpart

/-! ### What is read of a run that is not empty -/

/-- Only an empty run has no text. -/
theorem Lexeme.text?_eq_none_iff {run : List Lexeme} : text? run = none ↔ run = [] := by
  cases run <;> simp [text?]

/-- The text of any other run is what it spells. -/
theorem Lexeme.text?_of_ne_nil {run : List Lexeme} (hne : run ≠ []) :
    text? run = some (spelled run) := by
  obtain ⟨l, run, rfl⟩ := List.exists_cons_of_ne_nil hne
  rfl

/-- A run that is not empty has a first word with a text. -/
theorem Lexeme.exists_words_eq_cons (l : Lexeme) (run : List Lexeme) :
    ∃ word rest name, words (l :: run) = word :: rest ∧ text? word = some name := by
  cases hwords : words (l :: run) with
  | nil => cases List.splitBy_eq_nil.mp hwords
  | cons word rest =>
      have hword : word ≠ [] := List.ne_nil_of_mem_splitBy (hwords ▸ List.mem_cons_self)
      obtain ⟨name, hname⟩ := Option.ne_none_iff_exists'.mp (mt text?_eq_none_iff.mp hword)
      exact ⟨word, rest, name, rfl, hname⟩

/-- Every run but an empty one is read as a table. -/
theorem TableReference.ofLexemes?_eq_none_iff {run : List Lexeme} :
    ofLexemes? run = none ↔ run = [] := by
  cases run with
  | nil => exact iff_of_true rfl rfl
  | cons l run =>
      obtain ⟨word, rest, name, hwords, hname⟩ := Lexeme.exists_words_eq_cons l run
      simp [ofLexemes?, hwords, hname]

/-- Every run but an empty one is read as a sort key. -/
theorem SortKey.ofLexemes?_eq_none_iff {run : List Lexeme} :
    ofLexemes? run = none ↔ run = [] := by
  cases run with
  | nil => exact iff_of_true rfl rfl
  | cons l run =>
      obtain ⟨word, rest, name, hwords, hname⟩ := Lexeme.exists_words_eq_cons l run
      simp [ofLexemes?, hwords, hname]

/-! ### Lists of items -/

/-- A list that is left out because it is empty is empty. -/
theorem getD_nonempty? {α : Type} (items : List α) : (nonempty? items).getD [] = items := by
  cases items <;> rfl

/-- What is read from the items of a run yields its texts. -/
theorem yields_items {α : Type} {read : List Lexeme → Option α} {texts : α → List String}
    (h : ∀ item, Yields item ((read item).elim [] texts)) (run : List Lexeme) :
    Yields run (((nonempty? ((Lexeme.splitTopLevel .comma 0 run).filterMap read)).getD []).flatMap
      texts) := by
  have hitems : ∀ items : List (List Lexeme), (items.filterMap read).flatMap texts =
      items.flatMap fun item => (read item).elim [] texts := by
    intro items
    induction items with
    | nil => rfl
    | cons item items ih => cases hread : read item <;> simp [hread, ih]
  rw [getD_nonempty?, hitems]
  exact Lexeme.yields_splitTopLevel h .comma 0 run

/-- A table list yields the texts of its tables and then those of its joins. -/
theorem yields_readTableList (run : List Lexeme) :
    Yields run (((readTableList run).1.getD []).flatMap TableReference.texts ++
      ((readTableList run).2.getD []).flatMap Join.texts) := by
  rw [readTableList]
  split
  · dsimp only
    have hlead : ∀ lead : List Lexeme, Yields lead
        (((Lexeme.splitTopLevel .comma 0 lead).head?.bind TableReference.ofLexemes?).elim []
          TableReference.texts) := by
      intro lead
      rcases Lexeme.splitTopLevel_cases .comma 0 lead with hone | ⟨item, l, rest, hrun, hsplit⟩
      · rw [hone]
        exact TableReference.yields_ofLexemes? lead
      · rw [hsplit, hrun]
        exact (TableReference.yields_ofLexemes? item).append_right _
    have hyields := (hlead (JoinChain.ofLexemes 0 run).lead).append
      (JoinChain.yields_parts (JoinChain.ofLexemes 0 run).parts)
    rw [JoinChain.append_ofLexemes] at hyields
    rw [getD_nonempty?]
    cases hfirst : (Lexeme.splitTopLevel .comma 0 (JoinChain.ofLexemes 0 run).lead).head?.bind
        TableReference.ofLexemes? with
    | none => simpa [hfirst] using hyields
    | some table => simpa [hfirst] using hyields
  · simpa using yields_items TableReference.yields_ofLexemes? run

/-- Sort keys yield their columns. -/
theorem SortKey.yields_listOfLexemes? (run : List Lexeme) :
    Yields run (((listOfLexemes? run).getD []).map (·.column)) := by
  rw [List.map_eq_flatMap]
  exact yields_items SortKey.yields_ofLexemes? run

/-- The columns of a run are its texts, or an asterisk for all of them. -/
theorem Selection.yields_ofLexemes? {run : List Lexeme}
    (hasterisk : ∀ l ∈ run, l.token = .asterisk → l.text = ['*']) :
    Yields run ((ofLexemes? run).elim [] (·.columns)) := by
  rw [ofLexemes?]
  split
  · next hall =>
    obtain ⟨l, rfl, htoken⟩ := List.map_eq_singleton_iff.mp hall
    refine ⟨[[l]], .self (by simp), ?_⟩
    simp [Lexeme.spelled, Lexeme.spelling, hasterisk l (by simp) htoken, all]
  · have htext : ∀ item, Yields item ((Lexeme.text? item).elim [] fun text => [text]) := by
      intro item
      have hitem := yields_text? item
      cases htext : Lexeme.text? item <;> simpa [htext] using hitem
    have hyields := yields_items htext run
    generalize nonempty? ((Lexeme.splitTopLevel .comma 0 run).filterMap Lexeme.text?) = columns
      at hyields ⊢
    cases columns with
    | none => exact yields_nil
    | some columns => simpa using hyields

/-! ### Clauses -/

open Lexeme (isAt ending stretch)

namespace Lexeme

variable {run : List Lexeme} {low high : Nat} {texts more : List String}

/-- A stretch goes on to what stands behind it. -/
theorem stretch_append_drop (h : low ≤ high) :
    stretch run low high ++ run.drop high = run.drop low := by
  rcases Nat.le_total low run.length with hlow | hlow
  · have hlength : low ≤ (run.take high).length := by
      rw [List.length_take]
      omega
    rw [stretch, ← List.drop_append_of_le_length hlength, List.take_append_drop]
  · have hnil : (run.take high).drop low = [] :=
      List.drop_eq_nil_of_le (by rw [List.length_take]; omega)
    rw [stretch, hnil, List.drop_eq_nil_of_le (by omega), List.drop_eq_nil_of_le hlow]
    rfl

/-- What the later part of a run yields, a longer part yields. -/
theorem Yields.of_drop (h : low ≤ high) (hrest : Yields (run.drop high) texts) :
    Yields (run.drop low) texts := by
  rw [← stretch_append_drop h]
  exact hrest.append_left _

/-- What a stretch yields comes before what is yielded behind it. -/
theorem Yields.stretch (h : low ≤ high) (hfirst : Yields (stretch run low high) texts)
    (hrest : Yields (run.drop high) more) : Yields (run.drop low) (texts ++ more) := by
  rw [← stretch_append_drop h]
  exact hfirst.append hrest

/-- The condition ends before the word that opens the sort keys. -/
theorem endFrom_le_of_order {i : Nat} (hlow : low ≤ i) (hi : i < ending run)
    (horder : isAt run [.keyword .order] i = true) :
    Clause.tableList.endFrom run low ≤ i ∧
      (isAt run [.keyword .where] (Clause.tableList.endFrom run low) = true →
        Clause.filter.endFrom run (Clause.tableList.endFrom run low + 1) ≤ i) := by
  obtain ⟨hactive, l, hl, htoken⟩ := isAt_iff.mp horder
  have hstop : ∀ clause : Clause, .keyword .order ∈ clause.stops →
      isAt run clause.stops i = true :=
    fun clause hclause => isAt_iff.mpr ⟨hactive, l, hl, List.mem_singleton.mp htoken ▸ hclause⟩
  have htables : Clause.tableList.endFrom run low ≤ i :=
    firstIndex_le hlow hi (hstop .tableList (by simp [Clause.stops]))
  refine ⟨htables, fun hwhere => ?_⟩
  have hne : Clause.tableList.endFrom run low ≠ i := by
    intro heq
    obtain ⟨-, m, hm, hmtoken⟩ := isAt_iff.mp hwhere
    rw [heq, hl, Option.some_inj] at hm
    simp_all
  exact firstIndex_le (by omega) hi (hstop .filter (by simp [Clause.stops]))

end Lexeme

namespace Query

open Lexeme (Yields.of_drop)

/-- The sort keys of a statement stand behind its tables and behind its condition. -/
theorem yields_sortKeys {run : List Lexeme} {low i : Nat}
    (hi : ∀ j, low ≤ j → j < ending run → isAt run [.keyword .order] j = true → i ≤ j)
    (hlow : low ≤ ending run) :
    let limitAt := firstIndex (isAt run [.keyword .limit]) low (ending run)
    let orderAt := firstIndex (Lexeme.isOrderBy run) low limitAt
    let orderEnd := firstIndex (isAt run [.keyword .group, .keyword .having, .keyword .limit])
      (orderAt + 2) (ending run)
    Yields (run.drop i) ((((if orderAt < limitAt then
      some (stretch run (orderAt + 2) orderEnd) else none).bind SortKey.listOfLexemes?).getD
        []).map (·.column)) := by
  intro limitAt orderAt orderEnd
  obtain ⟨hlimitLow, hlimitHigh, -⟩ := firstIndex_spec (isAt run [.keyword .limit]) hlow
  obtain ⟨horderLow, -, horder, -⟩ := firstIndex_spec (Lexeme.isOrderBy run) hlimitLow
  split
  · next hlt =>
    have hat : isAt run [.keyword .order] orderAt = true := by
      have hboth := horder hlt
      rw [Lexeme.isOrderBy, Bool.and_eq_true] at hboth
      exact hboth.1
    have hbefore : i ≤ orderAt := hi orderAt horderLow (by omega) hat
    rcases Nat.le_total (orderAt + 2) orderEnd with hle | hle
    · have hkeys :=
        (SortKey.yields_listOfLexemes? (stretch run (orderAt + 2) orderEnd)).stretch
        hle yields_nil
      rw [List.append_nil] at hkeys
      exact hkeys.of_drop (by omega)
    · have hnil : stretch run (orderAt + 2) orderEnd = [] :=
        List.drop_eq_nil_of_le (by rw [List.length_take]; omega)
      rw [hnil]
      exact yields_nil
  · exact yields_nil

/-- A condition stands between the tables of a statement and its sort keys. -/
theorem yields_filter {run : List Lexeme} {low : Nat} {sorted : List String} (hpos : 1 ≤ low)
    (hlow : low ≤ ending run)
    (hsorted : ∀ i,
      (∀ j, low ≤ j → j < ending run → isAt run [.keyword .order] j = true → i ≤ j) →
      Yields (run.drop i) sorted) :
    let tablesEnd := Clause.tableList.endFrom run low
    Yields (run.drop tablesEnd) (((if isAt run [.keyword .where] tablesEnd then
      some (stretch run (tablesEnd + 1) (Clause.filter.endFrom run (tablesEnd + 1)))
        else none).bind Lexeme.text?).toList ++ sorted) := by
  intro tablesEnd
  obtain ⟨htablesLow, htablesHigh, -⟩ := Section.endFrom_spec .tableList hlow
  split
  · next hwhere =>
    have hlt : tablesEnd < ending run := by
      rcases Nat.eq_or_lt_of_le htablesHigh with heq | hlt
      · obtain ⟨-, l, hl, htoken⟩ := isAt_iff.mp hwhere
        have hend : run[ending run]? = some l := heq ▸ hl
        simp [Lexeme.token_of_getElem?_ending (by omega) hend] at htoken
      · exact hlt
    obtain ⟨hfilter, -⟩ :=
      Section.endFrom_spec .filter (show tablesEnd + 1 ≤ ending run from hlt)
    refine Yields.of_drop (Nat.le_succ tablesEnd) ((yields_text? _).stretch hfilter ?_)
    exact hsorted _ fun j hj hjlt horder =>
      (Lexeme.endFrom_le_of_order hj hjlt horder).2 hwhere
  · exact hsorted _ fun j hj hjlt horder => (Lexeme.endFrom_le_of_order hj hjlt horder).1

/-- The clauses of a statement yield the texts of its outline. -/
theorem yields_ofClauses_declared {run : List Lexeme} (source : String)
    (hasterisk : ∀ l ∈ run, l.token = .asterisk → l.text = ['*']) :
    Yields run (ofClauses (Clauses.declared run) source).texts := by
  rw [Clauses.declared]
  split
  · next hfrom =>
    generalize hfromAt : firstIndex (isAt run [.keyword .from]) 1 (ending run) = fromAt
      at hfrom
    have hlow : 1 ≤ fromAt := by
      rw [← hfromAt]
      exact (firstIndex_spec _ (by omega)).1
    have hcolumns : ∀ l ∈ stretch run 1 fromAt, l.token = .asterisk → l.text = ['*'] :=
      fun l hl => hasterisk l (List.mem_of_mem_take (List.mem_of_mem_drop hl))
    obtain ⟨htables, -⟩ :=
      Section.endFrom_spec .tableList (show fromAt + 1 ≤ ending run by omega)
    have hbehind := yields_filter (by omega) (show fromAt + 1 ≤ ending run by omega)
      fun i hi => yields_sortKeys hi (show fromAt + 1 ≤ ending run by omega)
    have hfromTables := (yields_readTableList _).stretch htables hbehind
    have hfromColumns := (Selection.yields_ofLexemes? hcolumns).stretch hlow
      (hfromTables.of_drop (Nat.le_succ fromAt))
    have hall := hfromColumns.of_drop (Nat.zero_le 1)
    rw [List.drop_zero, List.append_assoc] at hall
    exact hall
  · exact yields_nil

/-- The texts of an outline are those of excerpts of the statement. -/
theorem yields_ofText (sql : String) :
    Yields (Lexeme.ofText (trimBlanks sql.toList)) (ofText sql).texts := by
  rw [ofText]
  generalize String.ofList (trimBlanks sql.toList) = source
  generalize trimBlanks sql.toList = cs
  by_cases hselect : (Lexeme.ofText cs).head?.map (·.token) = some (.keyword .select)
  · rw [ofLexemes_of_select source hselect]
    refine yields_ofClauses_declared source fun l hl htoken => ?_
    obtain ⟨_, hreads, -⟩ := Lexeme.exists_reads_ofText cs
    obtain ⟨c, tail, after, htext, hnext⟩ := hreads.exists_next l hl
    rw [htoken] at hnext
    obtain ⟨rfl, rfl⟩ := Lexeme.eq_of_next_eq_ofChar (.inl rfl) hnext
    exact htext
  · rw [ofLexemes_of_not_select source hselect]
    exact yields_nil

end Query

end SqlOutline
