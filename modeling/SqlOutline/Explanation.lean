import SqlOutline.Explanation.LeadingWildcard
import SqlOutline.Query

/-!
# Explaining a statement

A sentence about what a statement selects, one about its first join, and advice on its form.
The sentence and the advice are about `SELECT` statements; of the others only the kind is
named. A join is explained wherever an outline has one.
-/

namespace SqlOutline

/-- A piece of advice on the form of a `SELECT`. -/
inductive Advisory where
  | selectAll
  | leadingWildcard
  | missingFilter
  deriving DecidableEq, Repr

namespace Advisory

/-- The wording of an advice. -/
def message : Advisory → String
  | .selectAll => "Consider selecting only the columns you need instead of using SELECT *."
  | .leadingWildcard =>
    "Using LIKE with a leading wildcard (e.g., LIKE '%text') prevents index usage."
  | .missingFilter =>
    "Consider adding a WHERE clause to filter results and improve performance."

/-- Every advice, in the order of reports. -/
def all : List Advisory := [.selectAll, .leadingWildcard, .missingFilter]

/-- Whether an advice is due on a `SELECT`. -/
def applies (q : Query) : Advisory → Bool
  | .selectAll => q.isSelectAll
  | .leadingWildcard => q.filter.any LeadingWildcard.occursIn
  | .missingFilter => q.sourceTable?.isSome && q.filter.isNone

end Advisory

/-- The advice on a statement. -/
def Query.advisories (q : Query) : List Advisory :=
  if q.isSelect then Advisory.all.filter (Advisory.applies q) else []

namespace Join

/-- What a kind of join does with the rows of its tables. -/
def effect : JoinType → String
  | .inner => "returns only matching rows in both tables"
  | .left => "returns all left-table rows plus matches from the right"
  | .right => "returns all right-table rows plus matches from the left"
  | .full => "returns rows matching in either table"
  | .cross => "returns the Cartesian product of both tables"
  | .other _ => "combines rows from both tables based on related columns"

/-- The indefinite article in front of a name, chosen by its first letter. -/
def article (name : String) : String :=
  if name.toList.head?.any (['A', 'E', 'I', 'O', 'U'].contains ·) then "an" else "a"

/-- A sentence on the kind of a join, and one on its condition if it has one. -/
def explain (j : Join) : String :=
  let name := j.type.name
  "This is " ++ article name ++ " " ++ name ++ " JOIN, which " ++ effect j.type ++ "." ++
    match j.condition with
    | some condition => " The join condition is: " ++ condition ++ "."
    | none => ""

end Join

/-- A sort key in a sentence. -/
def SortKey.phrase (key : SortKey) : String :=
  key.column ++ match key.direction with
    | .ascending => " asc"
    | .descending => " desc"

namespace Query

/-- What is selected. -/
def describeSelection : Option Selection → String
  | none => "data"
  | some selection =>
    if selection.isSelectAll then "all columns (*)"
    else "specific columns (" ++ String.intercalate ", " selection.columns ++ ")"

/-- Where it is selected from. -/
def describeTable : Option TableReference → String
  | none => ""
  | some table =>
    " from the " ++ table.name ++ " table" ++
      match table.aliasName with
      | some name => " (aliased as " ++ name ++ ")"
      | none => ""

/-- The order it comes in; an empty list of sort keys says nothing. -/
def describeOrder : Option (List SortKey) → String
  | none => ""
  | some [] => ""
  | some (key :: keys) =>
    " ordered by " ++ String.intercalate ", " ((key :: keys).map SortKey.phrase)

/-- The sentence on a `SELECT`. -/
def describeSelect (q : Query) : String :=
  "This query selects " ++ describeSelection q.selection ++ describeTable q.sourceTable? ++
    (match q.firstJoin? with
      | some join => " and joins with the " ++ join.table.name ++ " table"
      | none => "") ++
    (match q.filter with
      | some condition => " where " ++ condition
      | none => "") ++
    describeOrder q.sortKeys ++
    (match q.limit with
      | some limit => " with a limit of " ++ toString limit ++ " rows"
      | none => "") ++
    "."

/-- The sentence on a statement of any kind. -/
def describe (q : Query) : String :=
  match q.kind with
  | .select => q.describeSelect
  | .unknown =>
    "The statement type could not be determined, so no explanation is available."
  | kind =>
    "This is " ++ (if kind = .insert ∨ kind = .alter then "an " else "a ") ++ kind.name ++
      " statement. Detailed explanations are only available for SELECT queries."

end Query

/-- What is said about a statement. -/
structure Explanation where
  description : String
  join : Option String
  advisories : List Advisory
  deriving DecidableEq, Repr

/-- All that is said about a statement. -/
def Query.explain (q : Query) : Explanation :=
  ⟨q.describe, q.firstJoin?.map Join.explain, q.advisories⟩

end SqlOutline
