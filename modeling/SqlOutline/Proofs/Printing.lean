import SqlOutline.Proofs.Statement

/-!
# The lexemes of a printed statement

A printed statement is cut into the lexemes of its fragments, with keywords, commas and the
limit between them, each item behind one blank.

## Main results

* `Statement.spells_text`: the text of a statement spells the run `Statement.run`.
* `Statement.trimBlanks_text`: no blank stands at either end of a printed statement.
-/

namespace SqlOutline

namespace Fragment

/-- A fragment may be printed behind anything. -/
theorem continues (f : Fragment) : Lexeme.Continues (" " ++ f.text) f.run := by
  obtain ⟨l, ls, hls, -⟩ := f.exists_lexemes_eq
  exact f.spells.continues (by simp [hls])

end Fragment

namespace Statement

open Lexeme (keywordAfterBlank commaSeparated Continues continues_keyword continues_elim
  continues_join continues_intercalate)

/-- The lexemes of a name given to a table. -/
def Naming.run : Naming → List Lexeme
  | .withAs word => [keywordAfterBlank .as] ++ word.run
  | .bare word _ => word.run

/-- The lexemes of a table. -/
def Table.run (t : Table) : List Lexeme := t.name.run ++ t.naming.elim [] Naming.run

/-- The lexemes of a table and of its condition. -/
def JoinedTable.body (j : JoinedTable) : List Lexeme :=
  j.table.run ++ j.condition.elim [] fun condition => [keywordAfterBlank .on] ++ condition.run

/-- The lexemes of a join. -/
def JoinedTable.run (j : JoinedTable) : List Lexeme :=
  [keywordAfterBlank j.kind.keyword, keywordAfterBlank .join] ++ j.body

/-- The lexemes behind `FROM`. -/
def Origin.run : Origin → List Lexeme
  | .tables list _ => commaSeparated (list.map Table.run)
  | .joined lead list _ => lead.run ++ list.flatMap JoinedTable.run

/-- The word of a direction behind a blank. The ascending one is no keyword. -/
def directionAfterBlank : SortDirection → Lexeme
  | .ascending => ⟨[' '], .identifier, "ASC".toList⟩
  | .descending => keywordAfterBlank .desc

/-- The lexemes of a sort key. -/
def Key.run (k : Key) : List Lexeme := k.column.run ++ [directionAfterBlank k.direction]

/-- The lexemes of the columns. -/
def columnsRun (s : Statement) : List Lexeme := commaSeparated (s.columns.map Fragment.run)

/-- The lexemes of the condition. -/
def conditionRun (s : Statement) : List Lexeme :=
  s.condition.elim [] fun condition => [keywordAfterBlank .where] ++ condition.run

/-- The lexemes of the sort order. -/
def orderRun (s : Statement) : List Lexeme :=
  match s.keys with
  | [] => []
  | keys =>
    [keywordAfterBlank .order] ++ [keywordAfterBlank .by] ++ commaSeparated (keys.map Key.run)

/-- A number behind a blank. -/
def numberAfterBlank (n : Nat) : Lexeme := ⟨[' '], .number false, n.repr.toList⟩

/-- The lexemes of the limit. -/
def limitRun (s : Statement) : List Lexeme :=
  s.limit.elim [] fun limit => [keywordAfterBlank .limit] ++ [numberAfterBlank limit.toNat]

/-- The lexemes behind `SELECT`. -/
def tailRun (s : Statement) : List Lexeme :=
  s.columnsRun ++ ([keywordAfterBlank .from] ++
    (s.origin.run ++ (s.conditionRun ++ (s.orderRun ++ s.limitRun))))

/-- The lexemes of a statement. -/
def run (s : Statement) : List Lexeme := ⟨[], .keyword .select, "SELECT".toList⟩ :: s.tailRun

/-! ### What the texts of the parts spell -/

/-- A name for a table may be printed behind anything. -/
theorem Naming.continues (n : Naming) : Continues n.text n.run := by
  cases n with
  | withAs word =>
      have happend := (continues_keyword .as).append word.toFragment.continues
      rwa [← String.append_assoc] at happend
  | bare word _ => exact word.toFragment.continues

/-- A table may be printed behind anything. -/
theorem Table.continues (t : Table) : Continues t.text t.run :=
  t.name.toFragment.continues.append (continues_elim Naming.continues t.naming)

/-- A keyword with a fragment may be printed behind anything. -/
theorem continues_keyword_fragment (k : Keyword) (f : Fragment) :
    Continues (" " ++ k.name ++ " " ++ f.text) ([keywordAfterBlank k] ++ f.run) := by
  have happend := (continues_keyword k).append f.continues
  rwa [← String.append_assoc] at happend

/-- A join may be printed behind anything. -/
theorem JoinedTable.continues (j : JoinedTable) : Continues j.text j.run := by
  have hcondition := continues_elim (continues_keyword_fragment .on) j.condition
  have hintroduction := (continues_keyword j.kind.keyword).append (continues_keyword .join)
  have happend := (hintroduction.append j.table.continues).append hcondition
  rw [List.append_assoc] at happend
  exact happend

/-- What a statement reads from may be printed behind anything. -/
theorem Origin.continues (o : Origin) : Continues o.text o.run := by
  cases o with
  | tables list _ => exact continues_intercalate Table.continues list
  | joined lead list _ =>
      exact lead.continues.append (continues_join JoinedTable.continues list)

/-- A direction may be printed behind anything. -/
theorem continues_direction (direction : SortDirection) :
    Continues (" " ++ direction.name) [directionAfterBlank direction] := by
  cases direction with
  | ascending => exact Lexeme.spells_ascending.continues (by simp)
  | descending => exact continues_keyword .desc

/-- A sort key may be printed behind anything. -/
theorem Key.continues (k : Key) : Continues k.text k.run := by
  have happend := k.column.toFragment.continues.append (continues_direction k.direction)
  rwa [← String.append_assoc] at happend

variable (s : Statement)

/-- The columns may be printed behind anything. -/
theorem continues_columns :
    Continues (",".intercalate (s.columns.map fun column => " " ++ column.text))
      s.columnsRun :=
  continues_intercalate Fragment.continues s.columns

/-- The condition may be printed behind anything. -/
theorem continues_condition : Continues s.conditionText s.conditionRun :=
  continues_elim (continues_keyword_fragment .where) s.condition

/-- The sort order may be printed behind anything. -/
theorem continues_order : Continues s.orderText s.orderRun := by
  rw [orderText, orderRun]
  cases s.keys with
  | nil => exact Lexeme.continues_nil
  | cons key keys =>
      exact ((continues_keyword .order).append (continues_keyword .by)).append
        (continues_intercalate Key.continues (key :: keys))

/-- The limit may be printed behind anything. -/
theorem continues_limit : Continues s.limitText s.limitRun := by
  refine continues_elim (fun limit => ?_) s.limit
  have hnumber := (Lexeme.spells_number limit.toNat).continues (by simp)
  have happend := (continues_keyword .limit).append hnumber
  rwa [← String.append_assoc] at happend

/-- The text of a statement spells the lexemes of its parts. -/
theorem spells_text : Lexeme.Spells s.text.toList s.run := by
  have hselect := Lexeme.spells_keyword .select
  have htail := ((((s.continues_columns.append (continues_keyword .from)).append
    s.origin.continues).append s.continues_condition).append s.continues_order).append
    s.continues_limit
  have hspells := hselect.append htail.spells htail.clear
  rw [← String.toList_append] at hspells
  simp only [String.append_assoc, List.append_assoc] at hspells
  rw [text, run, tailRun]
  simp only [String.append_assoc]
  exact hspells

/-- No blank stands at either end of a printed statement. -/
theorem trimBlanks_text : trimBlanks s.text.toList = s.text.toList := by
  refine Lexeme.trimBlanks_eq_self (fun c hc => ?_) s.spells_text.not_isBlank_of_getLast?
  have hfirst : s.text.toList.head? = some 'S' := by
    rw [← s.spells_text.source_eq, run, List.flatMap_cons]
    rfl
  rw [hfirst, Option.mem_some_iff] at hc
  exact hc ▸ by decide

end Statement

end SqlOutline
