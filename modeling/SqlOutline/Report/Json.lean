import SqlOutline.Explanation
import SqlOutline.Json

/-!
# Reports as JSON values

The fields of an outline in their order. A part that the statement does not have has no
field, while an empty list has a field with an empty list.
-/

namespace SqlOutline

/-- A field that is left out when there is no value. -/
def Json.field? {α : Type} (key : String) (encode : α → Json) (value : Option α) :
    List (String × Json) :=
  (value.map fun a => (key, encode a)).toList

open Json (field?)

/-- A table: its name, and the name given to it. -/
def TableReference.toJson (table : TableReference) : Json :=
  .object (("name", .string table.name) :: field? "alias" Json.string table.aliasName)

/-- A join: its kind, its table and its condition. -/
def Join.toJson (join : Join) : Json :=
  .object ([("type", .string join.type.name), ("table", join.table.toJson)] ++
    field? "condition" Json.string join.condition)

/-- A column list. -/
def Selection.toJson (selection : Selection) : Json :=
  .object [("columns", .array (selection.columns.map Json.string)),
    ("isSelectAll", .bool selection.isSelectAll)]

/-- A sort key. -/
def SortKey.toJson (key : SortKey) : Json :=
  .object [("column", .string key.column), ("direction", .string key.direction.name)]

/-- An outline. -/
def Query.toJson (q : Query) : Json :=
  .object ([("kind", .string q.kind.name)] ++
    field? "select" Selection.toJson q.selection ++
    field? "from" (fun tables => .array (tables.map TableReference.toJson)) q.tables ++
    field? "joins" (fun joins => .array (joins.map Join.toJson)) q.joins ++
    field? "where" (fun condition => .object [("condition", .string condition)]) q.filter ++
    field? "orderBy" (fun keys => .array (keys.map SortKey.toJson)) q.sortKeys ++
    field? "limit" Json.number q.limit ++
    [("raw", .string q.source)])

/-- An explanation, with the advice in words. -/
def Explanation.toJson (e : Explanation) : Json :=
  .object ([("description", .string e.description)] ++
    field? "join" Json.string e.join ++
    [("advisories", .array (e.advisories.map fun advisory => .string advisory.message))])

end SqlOutline
