import SqlOutline.Query.OfText
import SqlOutline.Report.Json

/-!
# Reports

The report on a statement: its outline and its explanation, as text for a reader or as JSON.
The text has one line for each part of the outline, then the explanation, then the advice if
there is any.
-/

namespace SqlOutline

/-- The outline of a statement and what is said about it. -/
structure Report where
  query : Query
  explanation : Explanation
  deriving DecidableEq, Repr

namespace Report

/-- The two forms of a report. -/
inductive Format where
  | text
  | json
  deriving DecidableEq, Repr

/-- The form with a given name. -/
def Format.ofName? : String → Option Format
  | "text" => some .text
  | "json" => some .json
  | _ => none

/-- The report on an outline. -/
def ofQuery (q : Query) : Report := ⟨q, q.explain⟩

/-- The report as a JSON value. -/
def toJson (r : Report) : Json :=
  .object [("query", r.query.toJson), ("explanation", r.explanation.toJson)]

/-- A table, with the name given to it in parentheses. -/
def tableText (table : TableReference) : String :=
  table.name ++ match table.aliasName with
    | some name => " (" ++ name ++ ")"
    | none => ""

/-- A sort key with its direction. -/
def sortKeyText (key : SortKey) : String := key.column ++ " " ++ key.direction.name

/-- The line on a join. -/
def joinLine (join : Join) : String :=
  "Join:      " ++ join.type.name ++ " JOIN " ++ tableText join.table ++
    (match join.condition with
      | some condition => " ON " ++ condition
      | none => "") ++ "\n"

/-- A line with a label, left out when there is nothing to say. -/
def labelled {α : Type} (label : String) (phrase : α → String) : Option α → String
  | some a => label ++ phrase a ++ "\n"
  | none => ""

/-- Parts of a list with commas between them. -/
def listText {α : Type} (item : α → String) (items : List α) : String :=
  String.intercalate ", " (items.map item)

/-- The lines on the parts of an outline. -/
def outlineText (q : Query) : String :=
  "Statement: " ++ q.kind.name ++ "\n" ++
    labelled "Columns:   " (fun s => listText id s.columns) q.selection ++
    labelled "Tables:    " (listText tableText) q.tables ++
    String.join ((q.joins.getD []).map joinLine) ++
    labelled "Filter:    " id q.filter ++
    labelled "Order:     " (listText sortKeyText) q.sortKeys ++
    labelled "Limit:     " toString q.limit

/-- The lines of an explanation, after an empty one. -/
def explanationText (e : Explanation) : String :=
  "\n" ++ e.description ++ "\n" ++ labelled "" id e.join ++
    if e.advisories.isEmpty then ""
    else "\nSuggestions:\n" ++
      String.join (e.advisories.map fun advisory => "  - " ++ advisory.message ++ "\n")

/-- The report as text. -/
def toText (r : Report) : String := outlineText r.query ++ explanationText r.explanation

/-- The report in a form. Only JSON has an indented layout. -/
def render (r : Report) (format : Format) (indented : Bool) : String :=
  match format with
  | .text => r.toText
  | .json => Json.render (if indented then .indented else .compact) r.toJson

/-- The rendered report on the statement in a text. -/
def onText (sql : String) (format : Format) (indented : Bool) : String :=
  (ofQuery (Query.ofText sql)).render format indented

end Report

end SqlOutline
