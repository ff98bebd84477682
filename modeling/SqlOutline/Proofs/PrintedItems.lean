import SqlOutline.Proofs.Printing

/-!
# Reading the items of a printed statement

The lexemes of a column, a table, a join or a sort key are free of everything that separates
one item from the next, so each of them is read as the item it was printed from.

## Main results

* `splitTopLevel_commaSeparated`: a list is cut at its commas.
* `Statement.Table.ofLexemes?_run`, `Statement.Key.ofLexemes?_run`: tables and sort keys.
* `Statement.readTableList_run`: the tables and the joins of a statement.
-/

namespace SqlOutline

open Lexeme (keywordAfterBlank commaSeparated isFree isFree_append isFree_mono splitTopLevel)

/-! ### Items between commas -/

/-- Commas separate the items of a list, and nothing inside of the items does. -/
theorem splitTopLevel_commaSeparated {runs : List (List Lexeme)}
    (h : ∀ run ∈ runs, isFree (· == .comma) 0 run = true) (hne : runs ≠ []) :
    splitTopLevel .comma 0 (commaSeparated runs) = runs := by
  induction runs with
  | nil => exact absurd rfl hne
  | cons run runs ih =>
      have hrun := h run List.mem_cons_self
      cases runs with
      | nil =>
          rw [commaSeparated, List.intercalate_singleton, Lexeme.splitTopLevel_of_isFree hrun]
      | cons next runs =>
          have hrest :=
            ih (fun other hother => h other (List.mem_cons_of_mem _ hother)) (by simp)
          rw [commaSeparated] at hrest
          rw [commaSeparated, List.intercalate_cons_cons, List.append_assoc,
            Lexeme.splitTopLevel_append hrun, List.singleton_append, splitTopLevel,
            if_pos ⟨rfl, rfl⟩, hrest]
          simp

/-- Items that are free of stops are so with commas between them. -/
theorem isFree_commaSeparated {stops : Token → Bool} (hcomma : stops .comma = false)
    {runs : List (List Lexeme)} (h : ∀ run ∈ runs, isFree stops 0 run = true) :
    isFree stops 0 (commaSeparated runs) = true := by
  induction runs with
  | nil => rfl
  | cons run runs ih =>
      have hrun := h run List.mem_cons_self
      cases runs with
      | nil => rwa [commaSeparated, List.intercalate_singleton]
      | cons next runs =>
          have hrest := ih fun other hother => h other (List.mem_cons_of_mem _ hother)
          rw [commaSeparated] at hrest
          rw [commaSeparated, List.intercalate_cons_cons, List.append_assoc]
          refine isFree_append hrun (Lexeme.isFree_cons.mpr ⟨fun _ => ?_, hrest⟩)
          exact ⟨by decide, hcomma⟩

/-- Items that are all read make up the list of what they are read as. -/
theorem nonempty?_filterMap {α β γ : Type} {run : α → γ} {value : α → β}
    {read : γ → Option β} (h : ∀ a, read (run a) = some (value a)) (items : List α) :
    nonempty? ((items.map run).filterMap read) = nonempty? (items.map value) := by
  simp [List.filterMap_map, h]

/-- A list that is not empty is not left out. -/
theorem nonempty?_map {α β : Type} (value : α → β) {items : List α} (hne : items ≠ []) :
    nonempty? (items.map value) = some (items.map value) := by
  cases items with
  | nil => exact absurd rfl hne
  | cons a items => rfl

/-! ### Free parts -/

namespace Statement

/-- No stop stands in the name that is given to a table. -/
theorem Naming.isFree_run (n : Naming) : isFree Token.isStop 0 n.run = true := by
  cases n with
  | withAs word => exact isFree_append (by decide) word.toFragment.isFree_run
  | bare word _ => exact word.toFragment.isFree_run

/-- No stop stands in a table. -/
theorem Table.isFree_run (t : Table) : isFree Token.isStop 0 t.run = true := by
  refine isFree_append t.name.toFragment.isFree_run ?_
  cases t.naming with
  | none => rfl
  | some naming => exact naming.isFree_run

/-- No stop stands in a sort key. -/
theorem Key.isFree_run (k : Key) : isFree Token.isStop 0 k.run = true := by
  refine isFree_append k.column.toFragment.isFree_run ?_
  cases k.direction <;> decide

/-- What is free of stops is free of any kind of them. -/
theorem isFree_of_isStop {run : List Lexeme} (h : isFree Token.isStop 0 run = true)
    {token : Token} (htoken : token.isStop = true) : isFree (· == token) 0 run = true := by
  refine isFree_mono h fun stop hstop => ?_
  rw [beq_iff_eq] at hstop
  rwa [hstop]

/-- Clauses begin and end at stops only. -/
theorem isStop_of_isBoundary {token : Token} (h : token.isBoundary = true) :
    token.isStop = true := by
  unfold Token.isBoundary at h
  split at h <;> simp_all [Token.isStop]

/-- What is free of stops is free of the boundaries of clauses. -/
theorem isFree_isBoundary {run : List Lexeme} (h : isFree Token.isStop 0 run = true) :
    isFree Token.isBoundary 0 run = true :=
  isFree_mono h fun _ => isStop_of_isBoundary

/-- A join has no clause and no further join in it. -/
theorem JoinedTable.isFree_body (j : JoinedTable) {stops : Token → Bool}
    (hstops : ∀ token, stops token = true → token.isStop = true)
    (hon : stops (.keyword .on) = false) : isFree stops 0 j.body = true := by
  refine isFree_append (isFree_mono j.table.isFree_run hstops) ?_
  cases j.condition with
  | none => rfl
  | some condition =>
      refine isFree_append ?_ (isFree_mono condition.isFree_run hstops)
      simp [isFree, keywordAfterBlank, hon, Token.depthAfter]

/-! ### Words -/

/-- The bare word `AS` is the only one that gives no name. -/
theorem Naming.aliasOf_words_run (n : Naming) :
    TableReference.aliasOf (Lexeme.words n.run) = some n.word.text := by
  cases n with
  | withAs word =>
      have hspace := word.toFragment.not_touchesPrevious_of_head?_run
      have hwords : Lexeme.words (Naming.withAs word).run =
          [[keywordAfterBlank .as], word.run] := by
        rw [run, Lexeme.words_append (by simp) (by simp) hspace, word.words_run]
      rw [hwords]
      exact word.toFragment.text?_run
  | bare word noAs =>
      obtain ⟨l, ls, hrun, -, hls⟩ := word.toFragment.exists_run_eq
      have hnoAs : Lexeme.isKeywordWord .as word.run = false := by
        rw [hls] at noAs
        rw [hrun]
        cases ls <;> exact noAs
      rw [run, word.words_run, TableReference.aliasOf, hnoAs]
      exact word.toFragment.text?_run

/-- The name that is given to a table does not touch the table. -/
theorem Naming.not_touchesPrevious_of_head?_run (n : Naming) :
    ∀ l ∈ n.run.head?, l.touchesPrevious = false := by
  cases n with
  | withAs word => simp [run, keywordAfterBlank, Lexeme.touchesPrevious]
  | bare word _ => exact word.toFragment.not_touchesPrevious_of_head?_run

/-- A table is read with the name given to it. -/
theorem Table.ofLexemes?_run (t : Table) :
    TableReference.ofLexemes? t.run = some t.reference := by
  have hname : Lexeme.text? t.name.run = some t.name.text := t.name.toFragment.text?_run
  obtain ⟨name, naming⟩ := t
  cases naming with
  | none =>
      have hwords : Lexeme.words (Table.run ⟨name, none⟩) = [name.run] := by
        simpa [run] using name.words_run
      rw [TableReference.ofLexemes?, hwords]
      simp [hname, TableReference.aliasOf, reference]
  | some naming =>
      have hwords : Lexeme.words (Table.run ⟨name, some naming⟩) =
          name.run :: Lexeme.words naming.run :=
        name.words_run_append naming.not_touchesPrevious_of_head?_run
      rw [TableReference.ofLexemes?, hwords]
      simp [hname, naming.aliasOf_words_run, reference]

/-- A sort key is read with its direction. -/
theorem Key.ofLexemes?_run (k : Key) : SortKey.ofLexemes? k.run = some k.sortKey := by
  have hcolumn : Lexeme.text? k.column.run = some k.column.text :=
    k.column.toFragment.text?_run
  have hspace : (directionAfterBlank k.direction).touchesPrevious = false := by
    cases k.direction <;> rfl
  have hwords : Lexeme.words k.run = [k.column.run, [directionAfterBlank k.direction]] := by
    rw [run, k.column.words_run_append (by simpa using hspace)]
    rfl
  rw [SortKey.ofLexemes?, hwords]
  simp only [hcolumn, Option.map_some, List.head?_cons, Option.any_some, sortKey]
  cases k.direction <;> rfl

/-! ### Tables and joins -/

/-- The introduction of a printed join, whatever comes behind it. -/
theorem introducedBy?_printed (kind : JoinKind) (rest : List Lexeme) :
    JoinType.introducedBy?
        (keywordAfterBlank kind.keyword :: keywordAfterBlank .join :: rest) =
      some (kind.type, 2) := by
  cases kind <;>
    simp [JoinType.introducedBy?, JoinType.introductions, JoinType.beginsWith,
      keywordAfterBlank, JoinKind.keyword, JoinKind.type, Keyword.name]

/-- No words of a join stand open in front of joins. -/
theorem endsIntroduction_joins (joins : List JoinedTable) :
    JoinType.endsIntroduction (joins.flatMap JoinedTable.run) = false := by
  cases joins with
  | nil => rfl
  | cons join joins =>
      rw [List.flatMap_cons, JoinedTable.run]
      cases join.kind <;>
        simp [JoinType.endsIntroduction, JoinType.beginsWith, keywordAfterBlank,
          JoinKind.keyword]

/-- What stands behind the introduction of a join, free of further ones. -/
theorem JoinedTable.isFree_body_join (j : JoinedTable) :
    isFree (· == .keyword .join) 0 j.body = true := by
  refine j.isFree_body (fun token htoken => ?_) (by decide)
  rw [beq_iff_eq] at htoken
  rw [htoken]
  rfl

/-- Printed joins are cut where each of them begins. -/
theorem ofLexemes_joins (joins : List JoinedTable) :
    JoinChain.ofLexemes 0 (joins.flatMap JoinedTable.run) =
      ⟨[], joins.map fun j =>
        ⟨j.kind.type, [keywordAfterBlank j.kind.keyword, keywordAfterBlank .join],
          j.body⟩⟩ := by
  induction joins with
  | nil => rw [List.flatMap_nil, JoinChain.ofLexemes, List.map_nil]
  | cons join joins ih =>
      have hbody := JoinChain.ofLexemes_append join.isFree_body_join
        (endsIntroduction_joins joins)
      rw [List.flatMap_cons, JoinedTable.run, List.append_assoc, List.cons_append,
        List.singleton_append, JoinChain.ofLexemes, if_pos rfl, introducedBy?_printed]
      simp only [Nat.add_one_sub_one, List.drop_succ_cons, List.drop_zero, hbody, ih]
      simp

/-- A join is read with its table and its condition. -/
theorem toJoin?_body (j : JoinedTable) (introduction : List Lexeme) :
    JoinPart.toJoin? ⟨j.kind.type, introduction, j.body⟩ = some j.join := by
  have htable : isFree (· == .keyword .on) 0 j.table.run = true :=
    isFree_of_isStop j.table.isFree_run rfl
  obtain ⟨kind, table, condition⟩ := j
  cases condition with
  | none =>
      have hbody : JoinedTable.body ⟨kind, table, none⟩ = table.run := List.append_nil _
      have hcut := Lexeme.cutTopLevel?_of_isFree htable
      rw [JoinPart.toJoin?, hbody, hcut]
      simp [table.ofLexemes?_run, JoinedTable.join]
  | some condition =>
      have hcut : Lexeme.cutTopLevel? .on 0
          (JoinedTable.body ⟨kind, table, some condition⟩) =
            some (table.run, condition.run) := by
        rw [JoinedTable.body, Lexeme.cutTopLevel?_append htable]
        simp [Lexeme.cutTopLevel?, keywordAfterBlank]
      rw [JoinPart.toJoin?, hcut]
      simp [table.ofLexemes?_run, condition.text?_run, JoinedTable.join]

/-- The tables and the joins of a statement are read as they were printed. -/
theorem readTableList_run (o : Origin) :
    readTableList o.run = (some o.references, o.joins) := by
  cases o with
  | tables list nonempty =>
      have hitems : ∀ run ∈ list.map Table.run, isFree Token.isStop 0 run = true := by
        simp only [List.mem_map]
        rintro run ⟨table, -, rfl⟩
        exact table.isFree_run
      have hjoin :
          Lexeme.cutTopLevel? .join 0 (commaSeparated (list.map Table.run)) = none := by
        refine Lexeme.cutTopLevel?_of_isFree
          (isFree_commaSeparated (by decide) fun run hrun => ?_)
        exact isFree_of_isStop (hitems run hrun) rfl
      have hsplit := splitTopLevel_commaSeparated
        (fun run hrun => isFree_of_isStop (hitems run hrun) rfl) (by simpa using nonempty)
      rw [readTableList, Origin.run, if_neg (by simp [hjoin])]
      simp only [hsplit, nonempty?_filterMap Table.ofLexemes?_run, nonempty?_map _ nonempty]
      rfl
  | joined lead list nonempty =>
      have hlead : isFree (· == .keyword .join) 0 lead.run = true :=
        isFree_of_isStop lead.isFree_run rfl
      have hjoin : (Lexeme.cutTopLevel? .join 0
          (lead.run ++ list.flatMap JoinedTable.run)).isSome = true := by
        rw [Lexeme.cutTopLevel?_append hlead]
        cases list with
        | nil => exact absurd rfl nonempty
        | cons join joins =>
            rw [List.flatMap_cons, JoinedTable.run]
            cases join.kind <;>
              simp [Lexeme.cutTopLevel?, keywordAfterBlank, JoinKind.keyword, Token.depthAfter]
      have hsplit : splitTopLevel .comma 0 lead.run = [lead.run] :=
        Lexeme.splitTopLevel_of_isFree (isFree_of_isStop lead.isFree_run rfl)
      rw [readTableList, Origin.run, if_pos hjoin, JoinChain.ofLexemes_append hlead
        (endsIntroduction_joins list), ofLexemes_joins]
      simp only [List.append_nil, hsplit, List.head?_cons, Option.bind_some,
        lead.ofLexemes?_run, Option.map_some]
      rw [nonempty?_filterMap fun j => toJoin?_body j _, nonempty?_map _ nonempty]
      rfl

end Statement

end SqlOutline
