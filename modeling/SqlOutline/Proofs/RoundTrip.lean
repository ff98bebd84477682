import SqlOutline.Proofs.PrintedItems

/-!
# Reading a printed statement

A printed statement is read as the outline it was printed from. Its clauses are free of
boundaries, so each of them is cut where the next one begins, and its items are read one by
one.

## Main results

* `Statement.ofLexemes_run`: the clauses of a printed statement.
* `Statement.ofText_text`: reading is a left inverse of printing.
-/

namespace SqlOutline

open Lexeme (keywordAfterBlank commaSeparated isFree isFree_append)

namespace Section

/-- A rest of a statement that ends a clause at once and holds further clauses. -/
def Ends (clause : Clause) (rest : List Lexeme) (more : List (Clause × List Lexeme)) : Prop :=
  (∀ l ∈ rest.head?, l.gap ≠ []) ∧
    ∀ previous, bodies clause previous 0 rest = (clause, []) :: more

variable {clause opened : Clause} {body rest : List Lexeme}
    {more : List (Clause × List Lexeme)}

/-- Nothing more may stand behind any clause. -/
theorem ends_nil (clause : Clause) : Ends clause [] [] :=
  ⟨by simp, fun previous => bodies_nil clause previous 0⟩

/-- A clause without boundaries in it goes on to where the rest ends it. -/
theorem Ends.bodies_append (h : Ends clause rest more)
    (hbody : isFree Token.isBoundary 0 body = true) (previous : Lexeme) :
    bodies clause previous 0 (body ++ rest) = (clause, body) :: more := by
  obtain ⟨last, hlast⟩ := Section.bodies_append clause previous rest hbody
  simp [hlast, h.2 last]

/-- A keyword ends one clause and opens another, which goes on to where the rest ends it. -/
theorem Ends.keyword (h : Ends opened rest more) {k : Keyword}
    (hnext : clause.next? (.keyword k) (body.head?.map (·.token)) = some opened)
    (hbody : isFree Token.isBoundary 0 body = true) (hne : body ≠ [])
    (hgap : ∀ l ∈ body.head?, l.gap ≠ []) :
    Ends clause (keywordAfterBlank k :: (body ++ rest)) ((opened, body) :: more) := by
  refine ⟨by simp [keywordAfterBlank], fun previous => ?_⟩
  rw [← List.head?_append_of_ne_nil _ hne] at hnext hgap
  rw [bodies_cons_of_opens previous rfl (by simp [keywordAfterBlank]) hgap hnext,
    h.bodies_append hbody]

/-- The body of a clause is the first one of that clause. -/
theorem bodyOf?_eq (clause : Clause) (sections : List Section) :
    bodyOf? clause sections =
      ((sections.map fun s => (s.clause, s.body.map (·.lexeme))).find?
        (·.1 = clause)).map (·.2) := by
  rw [bodyOf?, List.find?_map, Option.map_map]
  rfl

end Section

namespace Statement

variable (s : Statement) {clause : Clause}

/-! ### The clauses of a printed statement -/

/-- The clause of the limit. -/
def limitBodies : List (Clause × List Lexeme) :=
  s.limit.elim [] fun limit => [(.limit, [numberAfterBlank limit.toNat])]

/-- The clause of the sort keys, still with its `BY`. -/
def orderBodies : List (Clause × List Lexeme) :=
  match s.keys with
  | [] => []
  | keys => [(.sortKeys, keywordAfterBlank .by :: commaSeparated (keys.map Key.run))]

/-- The clause of the condition. -/
def conditionBodies : List (Clause × List Lexeme) :=
  s.condition.elim [] fun condition => [(.filter, condition.run)]

/-- A limit may stand behind a clause that goes over to it. -/
theorem ends_limit
    (hclause : ∀ following, clause.next? (.keyword .limit) following = some .limit) :
    Section.Ends clause s.limitRun s.limitBodies := by
  rw [limitRun, limitBodies]
  cases s.limit with
  | none => exact Section.ends_nil clause
  | some limit =>
      have hbody : isFree Token.isBoundary 0 [numberAfterBlank limit.toNat] = true := rfl
      exact (Section.ends_nil .limit).keyword (hclause _) hbody (by simp)
        (by simp [numberAfterBlank])

/-- A sort order, with or without a limit behind it, may stand behind a clause that goes over
to it. -/
theorem ends_order
    (hclause : ∀ following, clause.next? (.keyword .limit) following = some .limit)
    (hby : clause.next? (.keyword .order) (some (.keyword .by)) = some .sortKeys) :
    Section.Ends clause (s.orderRun ++ s.limitRun) (s.orderBodies ++ s.limitBodies) := by
  rw [orderRun, orderBodies]
  cases s.keys with
  | nil => exact s.ends_limit hclause
  | cons key keys =>
      have hkeys : isFree Token.isBoundary 0
          (commaSeparated ((key :: keys).map Key.run)) = true := by
        refine isFree_commaSeparated rfl fun run hrun => ?_
        obtain ⟨k, -, rfl⟩ := List.mem_map.mp hrun
        exact isFree_isBoundary k.isFree_run
      have hends : Section.Ends .sortKeys s.limitRun s.limitBodies := s.ends_limit fun _ => rfl
      have hbody : isFree Token.isBoundary 0
          ([keywordAfterBlank .by] ++ commaSeparated ((key :: keys).map Key.run)) = true :=
        isFree_append (by decide) hkeys
      exact hends.keyword hby hbody (by simp) (by simp [keywordAfterBlank])

/-- A condition, a sort order and a limit may stand behind the table list. -/
theorem ends_condition :
    Section.Ends .tableList (s.conditionRun ++ (s.orderRun ++ s.limitRun))
      (s.conditionBodies ++ (s.orderBodies ++ s.limitBodies)) := by
  rw [conditionRun, conditionBodies]
  cases s.condition with
  | none => exact s.ends_order (fun _ => rfl) rfl
  | some condition =>
      have hends : Section.Ends .filter (s.orderRun ++ s.limitRun)
          (s.orderBodies ++ s.limitBodies) := s.ends_order (fun _ => rfl) rfl
      obtain ⟨l, ls, hrun, hgap, -⟩ := condition.exists_run_eq
      exact hends.keyword rfl (isFree_isBoundary condition.isFree_run) (by simp [hrun])
        (by simp [hrun, hgap])

/-- Nothing that is read from begins or ends a clause. -/
theorem isFree_joins (joins : List JoinedTable) :
    isFree Token.isBoundary 0 (joins.flatMap JoinedTable.run) = true := by
  induction joins with
  | nil => rfl
  | cons join joins ih =>
      have hbody := join.isFree_body (fun _ => isStop_of_isBoundary) rfl
      rw [List.flatMap_cons]
      refine isFree_append (isFree_append ?_ hbody) ih
      cases join.kind <;> decide

/-- No clause begins in what a statement reads from. -/
theorem isFree_origin (o : Origin) : isFree Token.isBoundary 0 o.run = true := by
  cases o with
  | tables list _ =>
      refine isFree_commaSeparated rfl fun run hrun => ?_
      obtain ⟨table, -, rfl⟩ := List.mem_map.mp hrun
      exact isFree_isBoundary table.isFree_run
  | joined lead list _ =>
      exact isFree_append (isFree_isBoundary lead.isFree_run) (isFree_joins list)

/-- A statement reads from something, and a blank stands before it. -/
theorem exists_origin_run_eq (o : Origin) : ∃ l ls, o.run = l :: ls ∧ l.gap ≠ [] := by
  have htable : ∀ t : Table, ∃ l ls, t.run = l :: ls ∧ l.gap ≠ [] := by
    intro t
    obtain ⟨l, ls, hrun, hgap, -⟩ := t.name.toFragment.exists_run_eq
    exact ⟨l, ls ++ t.naming.elim [] Naming.run, by rw [Table.run, hrun, List.cons_append],
      by simp [hgap]⟩
  cases o with
  | tables list nonempty =>
      cases list with
      | nil => exact absurd rfl nonempty
      | cons table tables =>
          obtain ⟨l, ls, hrun, hgap⟩ := htable table
          cases tables <;>
            simp [Origin.run, commaSeparated, List.intercalate_cons_cons, hrun, hgap]
  | joined lead list _ =>
      obtain ⟨l, ls, hrun, hgap⟩ := htable lead
      simp [Origin.run, hrun, hgap]

/-- A printed statement has the clauses that were printed, in order. -/
theorem bodies_tailRun (previous : Lexeme) :
    Section.bodies .selectList previous 0 s.tailRun =
      (.selectList, s.columnsRun) :: (.tableList, s.origin.run) ::
        (s.conditionBodies ++ (s.orderBodies ++ s.limitBodies)) := by
  have hcolumns : isFree Token.isBoundary 0 s.columnsRun = true := by
    refine isFree_commaSeparated rfl fun run hrun => ?_
    obtain ⟨column, -, rfl⟩ := List.mem_map.mp hrun
    exact isFree_isBoundary column.isFree_run
  have hfrom : Section.Ends .selectList
      (keywordAfterBlank .from ::
        (s.origin.run ++ (s.conditionRun ++ (s.orderRun ++ s.limitRun))))
      ((.tableList, s.origin.run) ::
        (s.conditionBodies ++ (s.orderBodies ++ s.limitBodies))) := by
    obtain ⟨l, ls, hrun, hgap⟩ := exists_origin_run_eq s.origin
    exact s.ends_condition.keyword rfl (isFree_origin s.origin) (by simp [hrun])
      (by simp [hrun, hgap])
  exact hfrom.bodies_append hcolumns previous

/-- The clauses of a printed statement. -/
theorem ofLexemes_run : Clauses.ofLexemes s.run =
    { selectList := some s.columnsRun
      tableList := some s.origin.run
      filter := s.condition.map (·.run)
      sortKeys := (nonempty? s.keys).map fun keys => commaSeparated (keys.map Key.run)
      limit := s.limit.map fun limit => [numberAfterBlank limit.toNat] } := by
  have hbodies := s.bodies_tailRun ⟨[], .keyword .select, "SELECT".toList⟩
  rw [Section.bodies] at hbodies
  simp only [run, Clauses.ofLexemes, Clauses.ofSections, Section.bodyOf?_eq, hbodies]
  obtain ⟨columns, nonempty, origin, condition, keys, limit⟩ := s
  cases condition <;> cases keys <;> cases limit <;>
    simp [conditionBodies, orderBodies, limitBodies, nonempty?]

/-! ### Columns and limit -/

/-- The columns are read as they were printed, an asterisk alone as all of them. -/
theorem selection_columnsRun : Selection.ofLexemes? s.columnsRun =
    some ⟨s.columns.map (·.text), s.columns.map (·.text) = ["*"]⟩ := by
  have hsplit : Lexeme.splitTopLevel .comma 0 s.columnsRun = s.columns.map Fragment.run := by
    refine splitTopLevel_commaSeparated (fun run hrun => ?_) (by simpa using s.nonempty)
    obtain ⟨column, -, rfl⟩ := List.mem_map.mp hrun
    exact isFree_of_isStop column.isFree_run rfl
  have hall : s.columnsRun.map (·.token) = [.asterisk] ↔ s.columns.map (·.text) = ["*"] := by
    rw [columnsRun]
    cases s.columns with
    | nil => simp [commaSeparated]
    | cons column columns =>
        cases columns with
        | nil => simpa [commaSeparated] using column.map_token_run_eq_asterisk_iff
        | cons next columns =>
            obtain ⟨l, ls, hrun, -⟩ := column.exists_run_eq
            simp [commaSeparated, List.intercalate_cons_cons, hrun]
  rw [Selection.ofLexemes?, hsplit, nonempty?_filterMap Fragment.text?_run,
    nonempty?_map _ s.nonempty]
  by_cases hstar : s.columns.map (·.text) = ["*"]
  · rw [if_pos (hall.mpr hstar)]
    simp [hstar, Selection.all]
  · rw [if_neg (mt hall.mp hstar)]
    simp [hstar]

/-- The sort keys are read as they were printed. -/
theorem listOfLexemes?_keys {keys : List Key} (hne : keys ≠ []) :
    SortKey.listOfLexemes? (commaSeparated (keys.map Key.run)) =
      some (keys.map Key.sortKey) := by
  have hsplit : Lexeme.splitTopLevel .comma 0 (commaSeparated (keys.map Key.run)) =
      keys.map Key.run := by
    refine splitTopLevel_commaSeparated (fun run hrun => ?_) (by simpa using hne)
    obtain ⟨key, -, rfl⟩ := List.mem_map.mp hrun
    exact isFree_of_isStop key.isFree_run rfl
  rw [SortKey.listOfLexemes?, hsplit, nonempty?_filterMap Key.ofLexemes?_run,
    nonempty?_map _ hne]

/-- A printed limit fits in 64 bits and is read as it was printed. -/
theorem limitOf?_number (limit : UInt64) :
    Query.limitOf? [numberAfterBlank limit.toNat] = some limit.toNat := by
  have hvalue : Query.decimalValue limit.toNat.repr.toList = limit.toNat := by
    rw [Nat.toList_repr, Query.decimalValue, ← Nat.ofDigitChars_eq_foldl,
      Nat.ofDigitChars_ten_toDigits]
  have hbound : limit.toNat < Query.limitBound := limit.toNat_lt
  rw [Query.limitOf?, numberAfterBlank]
  simp only [hvalue, hbound, if_true]

/-- Reading is a left inverse of printing: the outline of the text of a statement is the
outline of the statement. -/
theorem ofText_text : Query.ofText s.text = s.outline := by
  have hrun : Lexeme.ofText s.text.toList = s.run := s.spells_text.ofText_eq
  have hkind : StatementKind.ofLexemes s.run = .select := rfl
  have hkeys : ((nonempty? s.keys).map fun keys => commaSeparated (keys.map Key.run)).bind
      SortKey.listOfLexemes? = nonempty? (s.keys.map Key.sortKey) := by
    cases s.keys with
    | nil => rfl
    | cons key keys => exact listOfLexemes?_keys (by simp)
  have hcondition : (s.condition.map (·.run)).bind Lexeme.text? =
      s.condition.map (·.text) := by
    cases s.condition with
    | none => rfl
    | some condition => exact condition.text?_run
  have hlimit : (s.limit.map fun limit => [numberAfterBlank limit.toNat]).bind Query.limitOf? =
      s.limit.map (·.toNat) := by
    cases s.limit with
    | none => rfl
    | some limit => exact limitOf?_number limit
  rw [Query.ofText, s.trimBlanks_text, hrun, String.ofList_toList, Query.ofLexemes, hkind,
    if_pos rfl, Query.ofClauses, s.ofLexemes_run]
  simp only [Option.map_some, Option.getD_some, readTableList_run, Option.bind_some,
    selection_columnsRun, hkeys, hcondition, hlimit]
  rfl

/-- A statement with a join, a name for each table, a sort key and a limit. -/
def latestOrders : Statement where
  columns := [.ofText "o.id", .ofText "max(o.day, c.day)"]
  nonempty := List.cons_ne_nil _ _
  origin := .joined ⟨.ofText "orders", some (.withAs (.ofText "o"))⟩
    [⟨.left, ⟨.ofText "clients", some (.bare (.ofText "c") (by decide +kernel))⟩,
      some (.ofText "o.client = c.id")⟩]
    (List.cons_ne_nil _ _)
  condition := some (.ofText "c.name <> 'x, y'")
  keys := [⟨.ofText "o.day", .descending⟩]
  limit := some 10

/-- The outline of that statement is read back from its text. -/
theorem ofText_text_latestOrders :
    latestOrders.text = "SELECT o.id, max(o.day, c.day) FROM orders AS o LEFT JOIN clients c" ++
      " ON o.client = c.id WHERE c.name <> 'x, y' ORDER BY o.day DESC LIMIT 10" ∧
    Query.ofText latestOrders.text =
      { kind := .select
        selection := some ⟨["o.id", "max(o.day, c.day)"], false⟩
        tables := some [⟨"orders", some "o"⟩]
        joins := some [⟨.left, ⟨"clients", some "c"⟩, some "o.client = c.id"⟩]
        filter := some "c.name <> 'x, y'"
        sortKeys := some [⟨"o.day", .descending⟩]
        limit := some 10
        source := latestOrders.text } :=
  ⟨by decide +kernel, (ofText_text latestOrders).trans rfl⟩

end Statement

end SqlOutline
