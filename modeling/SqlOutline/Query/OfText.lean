import SqlOutline.Clause
import SqlOutline.Lexeme.OfText
import SqlOutline.TableList

/-!
# Reading the outline of a statement

`Query.ofText` takes any text: its first token decides the kind of statement, and from a
`SELECT` the clauses are read one by one. Nothing is rejected. A clause that does not have
the expected form is left out of the outline.
-/

namespace SqlOutline

/-- The kind of statement that begins with a token. -/
def StatementKind.ofToken : Token → StatementKind
  | .keyword .select => .select
  | .keyword .insert => .insert
  | .keyword .update => .update
  | .keyword .delete => .delete
  | .keyword .create => .create
  | .keyword .drop => .drop
  | .keyword .alter => .alter
  | _ => .unknown

/-- The kind of statement that lexemes make up; without any it is unknown. -/
def StatementKind.ofLexemes : List Lexeme → StatementKind
  | [] => .unknown
  | l :: _ => ofToken l.token

/-- The kind of statement that a text holds. -/
def StatementKind.ofText (sql : String) : StatementKind :=
  ofLexemes (Lexeme.ofText (trimBlanks sql.toList))

/-- The column list in a run: an asterisk alone, or items between commas. -/
def Selection.ofLexemes? (run : List Lexeme) : Option Selection :=
  if run.map (·.token) = [.asterisk] then some .all
  else (nonempty? ((Lexeme.splitTopLevel .comma 0 run).filterMap Lexeme.text?)).map fun columns =>
    ⟨columns, false⟩

namespace SortKey

/-- The sort key in a run: its first word, descending if the second word is `DESC`. -/
def ofLexemes? (run : List Lexeme) : Option SortKey :=
  match Lexeme.words run with
  | [] => none
  | word :: rest =>
    let descending := rest.head?.any (Lexeme.isKeywordWord .desc)
    (Lexeme.text? word).map fun column =>
      ⟨column, if descending then .descending else .ascending⟩

/-- The sort keys between the commas of a run. -/
def listOfLexemes? (run : List Lexeme) : Option (List SortKey) :=
  nonempty? ((Lexeme.splitTopLevel .comma 0 run).filterMap ofLexemes?)

end SortKey

namespace Query

/-- The number that a row of ASCII digits stands for. -/
def decimalValue (digits : List Char) : Nat :=
  digits.foldl (fun value digit => 10 * value + (digit.toNat - '0'.toNat)) 0

/-- A limit fits in 64 bits. -/
def limitBound : Nat := UInt64.size

/-- The limit in a run: a whole number below the bound, and nothing else. -/
def limitOf? : List Lexeme → Option Nat
  | [l] =>
    if l.token = .number false then
      let value := decimalValue l.text
      if value < limitBound then some value else none
    else none
  | _ => none

/-- The outline of a `SELECT` with the given clauses. -/
def ofClauses (clauses : Clauses) (source : String) : Query :=
  let (tables, joins) := (clauses.tableList.map readTableList).getD (none, none)
  { kind := .select
    selection := clauses.selectList.bind Selection.ofLexemes?
    tables
    joins
    filter := clauses.filter.bind Lexeme.text?
    sortKeys := clauses.sortKeys.bind SortKey.listOfLexemes?
    limit := clauses.limit.bind limitOf?
    source }

/-- The outline of the statement that lexemes make up. -/
def ofLexemes (run : List Lexeme) (source : String) : Query :=
  let kind := StatementKind.ofLexemes run
  if kind = .select then ofClauses (Clauses.ofLexemes run) source else bare kind source

/-- The outline of the statement in a text. Blanks around it are no part of its source. -/
def ofText (sql : String) : Query :=
  let source := trimBlanks sql.toList
  ofLexemes (Lexeme.ofText source) (String.ofList source)

end Query

end SqlOutline
