import SqlOutline.Proofs.Json.Reader
import SqlOutline.Proofs.Json.Writer
import SqlOutline.Report

/-!
# JSON reports lose nothing

A report is read back from its JSON text field by field: a field that is not there is a part
that the report does not have. What comes back is the report itself, but for the kinds of
joins: these are written by their names, and a kind that merely has the name of a standard one
comes back as that one. The two layouts of a report differ in blanks outside of strings only.

## Main results

* `Query.ofJson?_toJson`, `Explanation.ofJson?_toJson`, `Report.ofJson?_toJson`: what is
  decoded from the value of a record is the record.
* `Report.lossless_render`: both texts of a report are JSON and give it back, and the one is
  the other without its blanks.
-/

namespace SqlOutline

/-! ### The parts of a value -/

namespace Json

variable {α : Type}

/-- The value of a boolean. -/
def bool? : Json → Option Bool
  | .bool value => some value
  | _ => none

/-- The value of a number. -/
def number? : Json → Option Nat
  | .number value => some value
  | _ => none

/-- The value of a string. -/
def string? : Json → Option String
  | .string value => some value
  | _ => none

/-- The member of a list that a string names. -/
def named? (name : α → String) (members : List α) : Json → Option α
  | .string text => members.find? fun a => name a = text
  | _ => none

/-- The items of an array, each of them decoded. -/
def list? (decode : Json → Option α) : Json → Option (List α)
  | .array items => items.mapM decode
  | _ => none

/-- The value of a field of an object. -/
def get? (key : String) : Json → Option Json
  | .object fields => fields.lookup key
  | _ => none

/-- A field that has to be there. -/
def required? (key : String) (decode : Json → Option α) (value : Json) : Option α :=
  (value.get? key).bind decode

/-- A field that may be missing. -/
def optional? (key : String) (decode : Json → Option α) (value : Json) : Option (Option α) :=
  match value.get? key with
  | none => some none
  | some part => (decode part).map some

section Fields

variable (key other : String) (fields : List (String × Json)) (encode : α → Json)

/-- An object without fields has no value for any key. -/
@[simp] theorem get?_nil : get? key (.object []) = none := rfl

/-- The first field with a key counts. -/
@[simp] theorem get?_cons (value : Json) :
    get? key (.object ((other, value) :: fields)) =
      if key = other then some value else get? key (.object fields) := by
  rw [get?, List.lookup_cons]
  by_cases h : key = other
  · rw [beq_iff_eq.mpr h, if_pos h]
  · rw [beq_eq_false_iff_ne.mpr h, if_neg h]
    rfl

/-- A field that may be left out has a value if it is there. -/
@[simp] theorem get?_field?_append (part : Option α) :
    get? key (.object (field? other encode part ++ fields)) =
      if key = other then (part.map encode).or (get? key (.object fields))
      else get? key (.object fields) := by
  cases part with
  | none => simp [field?]
  | some a => simp [field?]

/-- A record with one optional field has that one or none. -/
@[simp] theorem get?_field? (part : Option α) :
    get? key (.object (field? other encode part)) =
      if key = other then part.map encode else none := by
  have happend := get?_field?_append key other [] encode part
  rwa [List.append_nil, get?_nil, Option.or_none] at happend

end Fields

variable {decode : Json → Option α} {encode : α → Json} {change : α → α}

/-- An array is decoded item by item. -/
theorem list?_map (h : ∀ a, decode (encode a) = some (change a)) (items : List α) :
    list? decode (.array (items.map encode)) = some (items.map change) := by
  rw [list?]
  induction items with
  | nil => rfl
  | cons a items ih => rw [List.map_cons, List.mapM_cons, h, ih, List.map_cons]; rfl

/-- A required part is decoded from the value of its key. -/
theorem required?_of_get? {key : String} {value part : Json} {a : α}
    (h : value.get? key = some part) (hdecode : decode part = some a) :
    value.required? key decode = some a := by
  rw [required?, h, Option.bind_some, hdecode]

/-- A missing key is read as a part that is absent. -/
theorem optional?_of_get? {key : String} {value : Json} {part : Option α}
    (h : value.get? key = part.map encode)
    (hdecode : ∀ a, decode (encode a) = some (change a)) :
    value.optional? key decode = some (part.map change) := by
  rw [optional?, h]
  cases part with
  | none => rfl
  | some a => exact congrArg (Option.map some) (hdecode a)

/-- A string is read back. -/
theorem string?_string (text : String) : string? (.string text) = some (id text) := rfl

/-- A number is read back. -/
theorem number?_number (n : Nat) : number? (.number n) = some (id n) := rfl

end Json

open Json

/-! ### Names -/

/-- The kinds of statements. -/
def StatementKind.all : List StatementKind :=
  [.select, .insert, .update, .delete, .create, .drop, .alter, .unknown]

/-- The two directions. -/
def SortDirection.all : List SortDirection := [.ascending, .descending]

/-- A kind of statement is read back from its name. -/
theorem StatementKind.named?_name (kind : StatementKind) :
    named? name all (.string kind.name) = some kind := by
  cases kind <;> rfl

/-- A direction is read back from its name. -/
theorem SortDirection.named?_name (direction : SortDirection) :
    named? name all (.string direction.name) = some direction := by
  cases direction <;> rfl

/-- An advisory is read back from its message. -/
theorem Advisory.named?_message (advisory : Advisory) :
    named? message all (.string advisory.message) = some (id advisory) := by
  cases advisory <;> rfl

/-- The kind of join that its name is read as. -/
def JoinType.named (type : JoinType) : JoinType := .ofName type.name

/-- A kind of join is read as one of the same name. -/
theorem JoinType.name_named (type : JoinType) : type.named.name = type.name := by
  rw [named]
  unfold ofName
  split <;> simp_all [name]

/-! ### Records -/

/-- The join with its kind as it is read. -/
def Join.named (join : Join) : Join := { join with type := join.type.named }

/-- The outline with the kinds of its joins as they are read. -/
def Query.named (q : Query) : Query := { q with joins := q.joins.map (List.map Join.named) }

/-- The report with the kinds of the joins as they are read. -/
def Report.named (r : Report) : Report := { r with query := r.query.named }

/-- The table that a value stands for. -/
def TableReference.ofJson? (value : Json) : Option TableReference := do
  let name ← value.required? "name" string?
  let aliasName ← value.optional? "alias" string?
  return ⟨name, aliasName⟩

/-- The join that a value stands for. -/
def Join.ofJson? (value : Json) : Option Join := do
  let type ← value.required? "type" string?
  let table ← value.required? "table" TableReference.ofJson?
  let condition ← value.optional? "condition" string?
  return ⟨.ofName type, table, condition⟩

/-- The column list that a value stands for. -/
def Selection.ofJson? (value : Json) : Option Selection := do
  let columns ← value.required? "columns" (list? string?)
  let isSelectAll ← value.required? "isSelectAll" bool?
  return ⟨columns, isSelectAll⟩

/-- The sort key that a value stands for. -/
def SortKey.ofJson? (value : Json) : Option SortKey := do
  let column ← value.required? "column" string?
  let direction ← value.required? "direction" (named? SortDirection.name SortDirection.all)
  return ⟨column, direction⟩

/-- The outline that a value stands for. -/
def Query.ofJson? (value : Json) : Option Query := do
  let kind ← value.required? "kind" (named? StatementKind.name StatementKind.all)
  let selection ← value.optional? "select" Selection.ofJson?
  let tables ← value.optional? "from" (list? TableReference.ofJson?)
  let joins ← value.optional? "joins" (list? Join.ofJson?)
  let filter ← value.optional? "where" (required? "condition" string?)
  let sortKeys ← value.optional? "orderBy" (list? SortKey.ofJson?)
  let limit ← value.optional? "limit" number?
  let source ← value.required? "raw" string?
  return ⟨kind, selection, tables, joins, filter, sortKeys, limit, source⟩

/-- The explanation that a value stands for. -/
def Explanation.ofJson? (value : Json) : Option Explanation := do
  let description ← value.required? "description" string?
  let join ← value.optional? "join" string?
  let advisories ← value.required? "advisories" (list? (named? Advisory.message Advisory.all))
  return ⟨description, join, advisories⟩

/-- The report that a value stands for. -/
def Report.ofJson? (value : Json) : Option Report := do
  let query ← value.required? "query" Query.ofJson?
  let explanation ← value.required? "explanation" Explanation.ofJson?
  return ⟨query, explanation⟩

/-! ### What is decoded -/

/-- A table is read back. -/
theorem TableReference.ofJson?_toJson (table : TableReference) :
    ofJson? table.toJson = some (id table) := by
  have hname : table.toJson.required? "name" string? = some table.name :=
    required?_of_get? rfl rfl
  have halias : table.toJson.optional? "alias" string? = some (table.aliasName.map id) :=
    optional?_of_get? (by simp [toJson]) string?_string
  rw [ofJson?, hname, halias, Option.map_id]
  rfl

/-- Of a join everything comes back, its kind as its name is read. -/
theorem Join.ofJson?_toJson (join : Join) : ofJson? join.toJson = some join.named := by
  have htype : join.toJson.required? "type" string? = some join.type.name :=
    required?_of_get? rfl rfl
  have htable : join.toJson.required? "table" TableReference.ofJson? = some (id join.table) :=
    required?_of_get? rfl join.table.ofJson?_toJson
  have hcondition : join.toJson.optional? "condition" string? = some (join.condition.map id) :=
    optional?_of_get? (by simp [toJson]) string?_string
  rw [ofJson?, htype, htable, hcondition, Option.map_id]
  rfl

/-- The columns are read back. -/
theorem Selection.ofJson?_toJson (selection : Selection) :
    ofJson? selection.toJson = some (id selection) := by
  have hcolumns : selection.toJson.required? "columns" (list? string?) =
      some (selection.columns.map id) :=
    required?_of_get? rfl (list?_map string?_string selection.columns)
  have hall : selection.toJson.required? "isSelectAll" bool? = some selection.isSelectAll :=
    required?_of_get? rfl rfl
  rw [ofJson?, hcolumns, hall, List.map_id]
  rfl

/-- A sort key is read back. -/
theorem SortKey.ofJson?_toJson (key : SortKey) : ofJson? key.toJson = some (id key) := by
  have hcolumn : key.toJson.required? "column" string? = some key.column :=
    required?_of_get? rfl rfl
  have hdirection : key.toJson.required? "direction"
      (named? SortDirection.name SortDirection.all) = some key.direction :=
    required?_of_get? rfl key.direction.named?_name
  rw [ofJson?, hcolumn, hdirection]
  rfl

/-- Of an outline every part comes back, and no part that it does not have. -/
theorem Query.ofJson?_toJson (q : Query) : ofJson? q.toJson = some q.named := by
  have hkind : q.toJson.required? "kind" (named? StatementKind.name StatementKind.all) =
      some q.kind :=
    required?_of_get? rfl q.kind.named?_name
  have hselection : q.toJson.optional? "select" Selection.ofJson? =
      some (q.selection.map id) :=
    optional?_of_get? (by simp [toJson]) Selection.ofJson?_toJson
  have htables : q.toJson.optional? "from" (list? TableReference.ofJson?) =
      some (q.tables.map (List.map id)) :=
    optional?_of_get? (by simp [toJson]) (list?_map TableReference.ofJson?_toJson)
  have hjoins : q.toJson.optional? "joins" (list? Join.ofJson?) =
      some (q.joins.map (List.map Join.named)) :=
    optional?_of_get? (by simp [toJson]) (list?_map Join.ofJson?_toJson)
  have hcondition : q.toJson.get? "where" =
      q.filter.map fun condition => .object [("condition", .string condition)] := by
    simp [toJson]
  have hfilter : q.toJson.optional? "where" (required? "condition" string?) =
      some (q.filter.map id) :=
    optional?_of_get? hcondition fun _ => rfl
  have hsortKeys : q.toJson.optional? "orderBy" (list? SortKey.ofJson?) =
      some (q.sortKeys.map (List.map id)) :=
    optional?_of_get? (by simp [toJson]) (list?_map SortKey.ofJson?_toJson)
  have hlimit : q.toJson.optional? "limit" number? = some (q.limit.map id) :=
    optional?_of_get? (by simp [toJson]) number?_number
  have hraw : q.toJson.get? "raw" = some (.string q.source) := by
    simp [toJson]
  have hsource : q.toJson.required? "raw" string? = some q.source := required?_of_get? hraw rfl
  rw [ofJson?, hkind, hselection, htables, hjoins, hfilter, hsortKeys, hlimit, hsource]
  simp [named]

/-- An explanation is read back. -/
theorem Explanation.ofJson?_toJson (e : Explanation) : ofJson? e.toJson = some (id e) := by
  have hdescription : e.toJson.required? "description" string? = some e.description :=
    required?_of_get? rfl rfl
  have hjoin : e.toJson.optional? "join" string? = some (e.join.map id) :=
    optional?_of_get? (by simp [toJson]) string?_string
  have hadvisories : e.toJson.required? "advisories"
      (list? (named? Advisory.message Advisory.all)) = some (e.advisories.map id) :=
    required?_of_get? (by simp [toJson]) (list?_map Advisory.named?_message e.advisories)
  rw [ofJson?, hdescription, hjoin, hadvisories, Option.map_id, List.map_id]
  rfl

/-- A report is read back, its joins by their names. -/
theorem Report.ofJson?_toJson (r : Report) : ofJson? r.toJson = some r.named := by
  have hquery : r.toJson.required? "query" Query.ofJson? = some r.query.named :=
    required?_of_get? rfl r.query.ofJson?_toJson
  have hexplanation : r.toJson.required? "explanation" Explanation.ofJson? =
      some (id r.explanation) :=
    required?_of_get? rfl r.explanation.ofJson?_toJson
  rw [ofJson?, hquery, hexplanation]
  rfl

/-! ### The two texts of a report -/

namespace Report

/-- Whether two texts hold a report: both are JSON and are read as one value, from which the
report comes back, and the one is the other without its blanks. -/
structure AreTexts (r : Report) (compact indented : String) : Prop where
  isText_compact : IsText r.toJson compact.toList
  isText_indented : IsText r.toJson indented.toList
  read_indented : read indented.toList = read compact.toList
  decode : (read compact.toList).bind ofJson? = some r.named
  withoutBlanks : withoutBlanks indented.toList = compact.toList
  isPrintable : IsPrintable compact.toList

/-- A report is written in the layout that is asked for. -/
theorem toList_render (r : Report) (indented : Bool) :
    (r.render .json indented).toList =
      write (if indented then .indented else .compact) 0 r.toJson :=
  String.toList_ofList

/-- Both layouts are texts of one value. -/
theorem areTexts_render (r : Report) :
    r.AreTexts (r.render .json false) (r.render .json true) := by
  have hcompact : IsText r.toJson (r.render .json false).toList := by
    rw [toList_render]
    exact isText_write (within_compact isDigit_of_isBlank) r.toJson
  have hindented : IsText r.toJson (r.render .json true).toList := by
    rw [toList_render]
    exact isText_write within_indented r.toJson
  have hread := read_of_isText hcompact
  refine ⟨hcompact, hindented, ?_, ?_, ?_, ?_⟩
  · rw [hread, read_of_isText hindented]
  · rw [hread, Option.bind_some, ofJson?_toJson]
  · rw [toList_render, toList_render]
    exact withoutBlanks_write within_indented r.toJson
  · rw [toList_render]
    exact isPrintable_write_compact r.toJson

/-- Both texts of a report hold it, also the report on the statement in a text, and the kinds
of joins that come back have the names of those that were written. -/
theorem lossless_render :
    (∀ r : Report, r.AreTexts (r.render .json false) (r.render .json true)) ∧
      (∀ sql : String, (ofQuery (Query.ofText sql)).AreTexts
        (onText sql .json false) (onText sql .json true)) ∧
      ∀ type : JoinType, type.named.name = type.name :=
  ⟨areTexts_render, fun sql => areTexts_render (ofQuery (Query.ofText sql)),
    JoinType.name_named⟩

end Report

end SqlOutline
