/-!
# The outline of a statement

The parts of a `SELECT` statement as far as they are told apart: columns, tables, joins,
condition, sort keys and limit, each as it is spelled in the source. A part that a statement
does not have is absent, which is not the same as an empty list. Of the other kinds of
statement only the kind and the source are kept.
-/

namespace SqlOutline

/-- The coarse kind of a statement. -/
inductive StatementKind where
  | select
  | insert
  | update
  | delete
  | create
  | drop
  | alter
  | unknown
  deriving DecidableEq, Repr

/-- The name of a kind in reports. -/
def StatementKind.name : StatementKind → String
  | .select => "SELECT"
  | .insert => "INSERT"
  | .update => "UPDATE"
  | .delete => "DELETE"
  | .create => "CREATE"
  | .drop => "DROP"
  | .alter => "ALTER"
  | .unknown => "UNKNOWN"

/-- The five standard kinds of join, or another one by its name. -/
inductive JoinType where
  | inner
  | left
  | right
  | full
  | cross
  | other (name : String)
  deriving DecidableEq, Repr

/-- The name of a kind of join, without the word `JOIN`. -/
def JoinType.name : JoinType → String
  | .inner => "INNER"
  | .left => "LEFT"
  | .right => "RIGHT"
  | .full => "FULL"
  | .cross => "CROSS"
  | .other name => name

/-- The kind of join with a given name. -/
def JoinType.ofName : String → JoinType
  | "INNER" => .inner
  | "LEFT" => .left
  | "RIGHT" => .right
  | "FULL" => .full
  | "CROSS" => .cross
  | name => .other name

/-- The direction of a sort key. -/
inductive SortDirection where
  | ascending
  | descending
  deriving DecidableEq, Repr

/-- The name of a direction in reports. -/
def SortDirection.name : SortDirection → String
  | .ascending => "ASC"
  | .descending => "DESC"

/-- A table by its name in the source, with the name that the statement gives it. -/
structure TableReference where
  name : String
  aliasName : Option String
  deriving DecidableEq, Repr

/-- The column list of a `SELECT`. -/
structure Selection where
  columns : List String
  isSelectAll : Bool
  deriving DecidableEq, Repr

/-- The column list that asks for every column. -/
def Selection.all : Selection := ⟨["*"], true⟩

/-- One joined table, with the text of its condition. -/
structure Join where
  type : JoinType
  table : TableReference
  condition : Option String
  deriving DecidableEq, Repr

/-- One key of the sort order. -/
structure SortKey where
  column : String
  direction : SortDirection
  deriving DecidableEq, Repr

/-- The outline of one statement. -/
structure Query where
  kind : StatementKind
  selection : Option Selection
  tables : Option (List TableReference)
  joins : Option (List Join)
  filter : Option String
  sortKeys : Option (List SortKey)
  limit : Option Nat
  source : String
  deriving DecidableEq, Repr

namespace Query

/-- The outline with a kind and a source and nothing else. -/
def bare (kind : StatementKind) (source : String) : Query :=
  ⟨kind, none, none, none, none, none, none, source⟩

/-- Whether the statement is a `SELECT`. -/
def isSelect (q : Query) : Bool := q.kind = .select

/-- Whether the statement asks for every column. -/
def isSelectAll (q : Query) : Bool := q.selection.any (·.isSelectAll)

/-- The first table of the table list. -/
def sourceTable? (q : Query) : Option TableReference := q.tables.bind List.head?

/-- The first join. -/
def firstJoin? (q : Query) : Option Join := q.joins.bind List.head?

end Query

end SqlOutline
