import SqlOutline.Proofs.Checked.ClauseRanges
import SqlOutline.Proofs.Checked.Joins
import SqlOutline.Proofs.Checked.Scanner

/-!
# Outlines by offsets and indices

The outline of a statement, read from its tokens and their places: the tokens are scanned, the
ranges of the clauses are recorded, and each clause is cut out by its range and read. All the
cuts on the way succeed, for every text, and the outcome is the one of `Query.ofText`.

## Main results

* `readClause_eq`: a clause is cut out and read.
* `outlineSelect_eq`: so are all clauses of a statement.
* `outline_eq`: every text has an outline.
-/

namespace SqlOutline.Checked

/-! ### Clauses -/

/-- The column list in a run: an asterisk alone, or items between commas. -/
def selection (source : String) (tokens : List (Located Token)) :
    Checked (Option Selection) := do
  if tokens.map (·.value) = [.asterisk] then return some .all
  let columns ← readParts .comma (text source) tokens
  return (nonempty? columns).map fun columns => ⟨columns, false⟩

/-- The sort keys between the commas of a run. -/
def sortKeys (source : String) (tokens : List (Located Token)) :
    Checked (Option (List SortKey)) :=
  return nonempty? (← readParts .comma (sortKey source) tokens)

/-- The limit in a run: a whole number below the bound, and nothing else. -/
def limit (source : String) : List (Located Token) → Checked (Option Nat)
  | [t] => do
    if t.value = .number false then
      let value := Query.decimalValue (← sliceText source t.first (t.last + 1))
      return if value < Query.limitBound then some value else none
    return none
  | _ => return none

section Clauses

variable {source : String} {tokens : List (Located Token)} {run : List Lexeme}

/-- The columns are read from their range as from their lexemes. -/
theorem selection_eq (h : Locates source tokens run) :
    selection source tokens = .ok (Selection.ofLexemes? run) := by
  rw [selection, Selection.ofLexemes?, h.map_value]
  split_ifs
  · rfl
  · rw [readParts_eq rfl (fun _ _ => text_eq) h]
    rfl

/-- The sort keys are read from their range as from their lexemes. -/
theorem sortKeys_eq (h : Locates source tokens run) :
    sortKeys source tokens = .ok (SortKey.listOfLexemes? run) := by
  rw [sortKeys, readParts_eq rfl (fun _ _ => sortKey_eq) h]
  rfl

/-- The limit is read from its range as from its lexemes. -/
theorem limit_eq (h : Locates source tokens run) :
    limit source tokens = .ok (Query.limitOf? run) := by
  rcases h.single_or with ⟨t, l, rfl, rfl, hvalue⟩ | ⟨htokens, hrun⟩
  · have hslice := h.sliceText (List.cons_ne_nil t [])
    rw [List.head_cons, List.getLast_singleton, Lexeme.spelling, List.flatMap_nil,
      List.append_nil] at hslice
    rw [limit, Query.limitOf?, hvalue, hslice]
    split_ifs <;> rfl
  · rw [limit, Query.limitOf?]
    · rfl
    · exact hrun
    · exact htokens

end Clauses

/-! ### Statements -/

/-- Cuts a clause out by its range and reads it, if the statement has it. -/
def readClause {β : Type} (tokens : List (Located Token)) (clause : Clause)
    (read : List (Located Token) → Checked (Option β)) : Checked (Option β) := do
  match ← sliceClause tokens (clauseRanges tokens clause) with
  | none => return none
  | some body => read body

/-- Reads the clauses of a `SELECT`. -/
def outlineSelect (source : String) (tokens : List (Located Token)) : Checked Query := do
  let selection ← readClause tokens .selectList (selection source)
  let tables ← readClause tokens .tableList fun body => return some (← tableList source body)
  let filter ← readClause tokens .filter (text source)
  let sortKeys ← readClause tokens .sortKeys (sortKeys source)
  let limit ← readClause tokens .limit (limit source)
  return {
    kind := .select
    selection
    tables := (tables.getD (none, none)).1
    joins := (tables.getD (none, none)).2
    filter
    sortKeys
    limit
    source }

/-- The kind of statement that tokens make up; without any it is unknown. -/
def kindOf : List (Located Token) → StatementKind
  | [] => .unknown
  | t :: _ => .ofToken t.value

/-- The outline of the statement in a text. -/
def outline (sql : String) : Checked Query := do
  let source := String.ofList (trimBlanks sql.toList)
  let tokens ← (Scanner.start source).tokens source
  if kindOf tokens = .select then outlineSelect source tokens
  else return .bare (kindOf tokens) source

section Statements

variable {source : String} {tokens : List (Located Token)} {run : List Lexeme}

/-- A clause is cut out and read, whatever tokens the statement has. -/
theorem readClause_eq {β : Type} {clause : Clause}
    {read : List (Located Token) → Checked (Option β)} {readRun : List Lexeme → Option β}
    (h : Locates source tokens run) (hne : run ≠ []) (hgrouping : clause ≠ .grouping)
    (hend : clause ≠ .finished)
    (hread : ∀ tokens run, Locates source tokens run → read tokens = .ok (readRun run)) :
    readClause tokens clause read =
      .ok ((bodyIn (Clauses.ofLexemes run) clause).bind readRun) := by
  obtain ⟨cut, hcut, hrel⟩ := exists_sliceClause h hne hgrouping hend
  rw [readClause, hcut, ok_bind]
  generalize bodyIn (Clauses.ofLexemes run) clause = body at hrel ⊢
  cases hrel with
  | none => rfl
  | some hbody => exact hread _ _ hbody

/-- All clauses of a statement are read. -/
theorem outlineSelect_eq (h : Locates source tokens run) (hne : run ≠ []) :
    outlineSelect source tokens = .ok (Query.ofClauses (Clauses.ofLexemes run) source) := by
  have htables : ∀ tokens run, Locates source tokens run →
      (do return some (← tableList source tokens) : Checked _) =
        .ok (some (readTableList run)) := by
    intro tokens run h
    rw [tableList_eq h]
    rfl
  rw [outlineSelect,
    readClause_eq h hne (by simp) (by simp) fun _ _ => selection_eq, ok_bind,
    readClause_eq h hne (by simp) (by simp) htables, ok_bind,
    readClause_eq h hne (by simp) (by simp) fun _ _ => text_eq, ok_bind,
    readClause_eq h hne (by simp) (by simp) fun _ _ => sortKeys_eq, ok_bind,
    readClause_eq h hne (by simp) (by simp) fun _ _ => limit_eq, ok_bind]
  rw [Query.ofClauses]
  simp only [bodyIn]
  cases (Clauses.ofLexemes run).tableList <;> rfl

/-- Tokens make up the kind of statement that their lexemes do. -/
theorem kindOf_eq (h : Locates source tokens run) :
    kindOf tokens = StatementKind.ofLexemes run := by
  cases run with
  | nil =>
      rw [h.eq_nil]
      rfl
  | cons l ls =>
      obtain ⟨t, more, rfl, ht, -⟩ := h.exists_cons
      rw [kindOf, StatementKind.ofLexemes, ht]

/-- The tokens of a source are those of its lexemes. -/
theorem locates_tokensOf (source : String) :
    Locates source (Lexeme.tokensOf source) (Lexeme.ofText source.toList) :=
  ⟨0, Lexeme.standsAt_ofText source, rfl⟩

/-- Every text has an outline. -/
theorem outline_eq (sql : String) : outline sql = .ok (Query.ofText sql) := by
  have h := locates_tokensOf (String.ofList (trimBlanks sql.toList))
  rw [outline, Scanner.tokens_start, ok_bind, kindOf_eq h, Query.ofText]
  rw [String.toList_ofList] at h ⊢
  rw [Query.ofLexemes]
  split_ifs with hselect
  · have hne : Lexeme.ofText (trimBlanks sql.toList) ≠ [] := by
      intro hnil
      rw [hnil] at hselect
      cases hselect
    exact outlineSelect_eq h hne
  · rfl

end Statements

end SqlOutline.Checked
