import SqlOutline.Proofs.Fragment
import SqlOutline.Query.OfText

/-!
# Statements as they are printed

The syntax of a `SELECT` statement over fragments, its text, and the outline that a reader
should find in that text. Every item of a statement is printed with a blank before it, so
the texts of its parts begin with a blank or are empty.
-/

namespace SqlOutline

namespace Statement

/-- A name given to a table, with or without `AS`. The bare word `AS` is no name. -/
inductive Naming where
  | withAs (word : Word)
  | bare (word : Word) (noAs : Lexeme.isKeywordWord .as word.lexemes = false)

namespace Naming

/-- The word given as a name. -/
def word : Naming → Word
  | withAs word => word
  | bare word _ => word

/-- The text of a name behind the table that it is given to. -/
def text : Naming → String
  | withAs word => " AS" ++ " " ++ word.text
  | bare word _ => " " ++ word.text

end Naming

/-- A table, optionally with a name given to it. -/
structure Table where
  name : Word
  naming : Option Naming

namespace Table

/-- The text of a table. -/
def text (t : Table) : String := " " ++ t.name.text ++ t.naming.elim "" Naming.text

/-- The table as it should be read. -/
def reference (t : Table) : TableReference := ⟨t.name.text, t.naming.map (·.word.text)⟩

end Table

/-- The kinds of join that are printed. -/
inductive JoinKind where
  | inner
  | left
  | right
  | full
  | cross
  | natural
  deriving DecidableEq, Repr

namespace JoinKind

/-- The word before `JOIN`. -/
def keyword : JoinKind → Keyword
  | inner => .inner
  | left => .left
  | right => .right
  | full => .full
  | cross => .cross
  | natural => .natural

/-- The kind of join as it should be read. -/
def type : JoinKind → JoinType
  | inner => .inner
  | left => .left
  | right => .right
  | full => .full
  | cross => .cross
  | natural => .other "NATURAL"

end JoinKind

/-- A joined table, optionally with a condition. -/
structure JoinedTable where
  kind : JoinKind
  table : Table
  condition : Option Fragment

namespace JoinedTable

/-- The text of a join. -/
def text (j : JoinedTable) : String :=
  " " ++ j.kind.keyword.name ++ " JOIN" ++ j.table.text ++
    j.condition.elim "" fun condition => " ON" ++ " " ++ condition.text

/-- The join as it should be read. -/
def join (j : JoinedTable) : Join :=
  ⟨j.kind.type, j.table.reference, j.condition.map (·.text)⟩

end JoinedTable

/-- What a statement reads from: tables, or one table and joins. -/
inductive Origin where
  | tables (list : List Table) (nonempty : list ≠ [])
  | joined (lead : Table) (list : List JoinedTable) (nonempty : list ≠ [])

namespace Origin

/-- The text behind `FROM`. -/
def text : Origin → String
  | .tables list _ => ",".intercalate (list.map Table.text)
  | .joined lead list _ => lead.text ++ String.join (list.map JoinedTable.text)

/-- The tables that should be read. -/
def references : Origin → List TableReference
  | .tables list _ => list.map Table.reference
  | .joined lead _ _ => [lead.reference]

/-- The joins that should be read. -/
def joins : Origin → Option (List Join)
  | .tables _ _ => none
  | .joined _ list _ => some (list.map JoinedTable.join)

end Origin

/-- A key of the sort order. -/
structure Key where
  column : Word
  direction : SortDirection

namespace Key

/-- The text of a key. -/
def text (k : Key) : String := " " ++ k.column.text ++ " " ++ k.direction.name

/-- The key as it should be read. -/
def sortKey (k : Key) : SortKey := ⟨k.column.text, k.direction⟩

end Key

end Statement

/-- A `SELECT` statement. Without sort keys it has no `ORDER BY`. -/
structure Statement where
  columns : List Fragment
  nonempty : columns ≠ []
  origin : Statement.Origin
  condition : Option Fragment
  keys : List Statement.Key
  limit : Option UInt64

namespace Statement

/-- The text of the condition. -/
def conditionText (s : Statement) : String :=
  s.condition.elim "" fun condition => " WHERE" ++ " " ++ condition.text

/-- The text of the sort order. -/
def orderText (s : Statement) : String :=
  match s.keys with
  | [] => ""
  | keys => " ORDER" ++ " BY" ++ ",".intercalate (keys.map Key.text)

/-- The text of the limit. -/
def limitText (s : Statement) : String :=
  s.limit.elim "" fun limit => " LIMIT" ++ " " ++ limit.toNat.repr

/-- The text of a statement. -/
def text (s : Statement) : String :=
  "SELECT" ++ ",".intercalate (s.columns.map fun column => " " ++ column.text) ++
    " FROM" ++ s.origin.text ++ s.conditionText ++ s.orderText ++ s.limitText

/-- The outline that a statement should be read as. -/
def outline (s : Statement) : Query :=
  let columns := s.columns.map (·.text)
  { kind := .select
    selection := some ⟨columns, columns = ["*"]⟩
    tables := some s.origin.references
    joins := s.origin.joins
    filter := s.condition.map (·.text)
    sortKeys := nonempty? (s.keys.map Key.sortKey)
    limit := s.limit.map (·.toNat)
    source := s.text }

end Statement

end SqlOutline
