import SqlOutline.Clause.Marked

/-!
# Clauses of a statement

The lexemes after the leading `SELECT` are cut into sections, one for each stretch that lies
in one clause. `Clause.next?` says which active tokens end a clause and which clause they
open; the keyword itself belongs to no section. A clause may come again, and then only its
first section counts.

The column list ends at `FROM` or at the end of the statement, so it is read only in a
statement that has a `FROM`. In a statement without one a `LIMIT` is looked for among the
columns.
-/

namespace SqlOutline

/-- The clause that a lexeme belongs to. `grouping` takes in `GROUP BY` and `HAVING`, which
are told apart from the other clauses and not looked at further. -/
inductive Clause where
  | selectList
  | tableList
  | filter
  | grouping
  | sortKeys
  | limit
  | finished
  deriving DecidableEq, Repr

/-- The clause that an active `token` opens, or `none` if it stays in the present clause.
`following` is the token right after it. -/
def Clause.next? (clause : Clause) (token : Token) (following : Option Token) :
    Option Clause :=
  match clause, token with
  | .finished, _ => none
  | _, .semicolon => some .finished
  | .selectList, .keyword .from => some .tableList
  | .selectList, _ => none
  | .limit, _ => none
  | .tableList, .keyword .where => some .filter
  | _, .keyword .group => some .grouping
  | _, .keyword .having => some .grouping
  | .sortKeys, .keyword .order => none
  | _, .keyword .order =>
    some (if following = some (.keyword .by) then .sortKeys else .grouping)
  | _, .keyword .limit => some .limit
  | _, _ => none

namespace Marked

/-- Whether a lexeme is the given keyword and active. -/
def isActiveKeyword (keyword : Keyword) (m : Marked) : Bool :=
  m.active && m.lexeme.token = .keyword keyword

/-- The clause that a lexeme opens when it is found in `clause` with `rest` behind it. -/
def opens? (clause : Clause) (m : Marked) (rest : List Marked) : Option Clause :=
  if m.active then clause.next? m.lexeme.token (rest.head?.map (·.lexeme.token)) else none

end Marked

/-- A stretch of lexemes in one clause. -/
structure Section where
  clause : Clause
  body : List Marked
  deriving DecidableEq, Repr

namespace Section

/-- The sections of a run that begins inside `clause`. There is always at least one. -/
def cut (clause : Clause) : List Marked → List Section
  | [] => [⟨clause, []⟩]
  | m :: rest =>
    match m.opens? clause rest with
    | some opened => ⟨clause, []⟩ :: cut opened rest
    | none => (cut clause rest).modifyHead fun s => ⟨s.clause, m :: s.body⟩

/-- The lexemes of the first section in `clause`. -/
def bodyOf? (clause : Clause) (sections : List Section) : Option (List Lexeme) :=
  (sections.find? (·.clause = clause)).map fun s => s.body.map (·.lexeme)

/-- What follows the first active `LIMIT` of a run. -/
def afterLimit? : List Marked → Option (List Lexeme)
  | [] => none
  | m :: rest =>
    if m.isActiveKeyword .limit then some (rest.map (·.lexeme)) else afterLimit? rest

end Section

/-- The bodies of the clauses of a statement, keywords excluded. -/
structure Clauses where
  selectList : Option (List Lexeme)
  tableList : Option (List Lexeme)
  filter : Option (List Lexeme)
  sortKeys : Option (List Lexeme)
  limit : Option (List Lexeme)
  deriving DecidableEq, Repr

namespace Clauses

/-- The clauses found in sections that begin with the column list. The section of the sort
keys still begins with the `BY` that goes with `ORDER`. -/
def ofSections (sections : List Section) : Clauses :=
  match Section.bodyOf? .tableList sections with
  | some tables =>
    { selectList := Section.bodyOf? .selectList sections
      tableList := some tables
      filter := Section.bodyOf? .filter sections
      sortKeys := (Section.bodyOf? .sortKeys sections).map (·.drop 1)
      limit := Section.bodyOf? .limit sections }
  | none =>
    { selectList := none
      tableList := none
      filter := none
      sortKeys := none
      limit := sections.head?.bind fun s => Section.afterLimit? s.body }

/-- The clauses of a statement that begins with `SELECT`. -/
def ofLexemes : List Lexeme → Clauses
  | [] => ofSections []
  | lead :: rest => ofSections (Section.cut .selectList (Lexeme.mark lead 0 rest))

end Clauses

end SqlOutline
