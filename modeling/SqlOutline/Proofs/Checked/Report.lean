import SqlOutline.Proofs.Checked.Outline
import SqlOutline.Proofs.Checked.Wildcards
import SqlOutline.Report

/-!
# Reports without failure

The report on a text, made of the checked outline and the checked advice. How JSON is written
is left open: an encoder turns values into an encoded form, from the leaves up, and may fail
at any of them. With an encoder that never fails there is a report on every text. The encoder
that writes values in a layout is one of those, and gives the report of `Report.onText`.

## Main results

* `exists_encode`: a value is encoded when none of its parts can fail.
* `encode_writer`: the encoder of a layout writes what `Json.write` does.
* `render_writer`: with it, the report is the one of `Report.onText`.
* `exists_render`: no text makes the outline, the advice or the report fail.
-/

namespace SqlOutline.Checked

/-! ### Encoders -/

/-- How the values of JSON are encoded from their parts. A part that has been encoded is an
`α`, and what goes wrong is an `ε`. -/
structure Encoder (ε α : Type) where
  bool : Bool → Except ε α
  number : Nat → Except ε α
  string : String → Except ε α
  array : List α → Except ε α
  object : List (String × α) → Except ε α
  text : α → String

/-- An encoder that never fails. -/
structure Encoder.Total {ε α : Type} (e : Encoder ε α) : Prop where
  bool : ∀ value, ∃ a, e.bool value = .ok a
  number : ∀ value, ∃ a, e.number value = .ok a
  string : ∀ value, ∃ a, e.string value = .ok a
  array : ∀ items, ∃ a, e.array items = .ok a
  object : ∀ fields, ∃ a, e.object fields = .ok a

section Encoding

variable {ε α : Type}

mutual

/-- Encodes a value. -/
def encode (e : Encoder ε α) : Json → Except ε α
  | .bool value => e.bool value
  | .number value => e.number value
  | .string value => e.string value
  | .array items => do e.array (← encodeItems e items)
  | .object fields => do e.object (← encodeFields e fields)

/-- Encodes the items of an array. -/
def encodeItems (e : Encoder ε α) : List Json → Except ε (List α)
  | [] => return []
  | item :: items => return (← encode e item) :: (← encodeItems e items)

/-- Encodes the fields of an object. -/
def encodeFields (e : Encoder ε α) : List (String × Json) → Except ε (List (String × α))
  | [] => return []
  | (key, value) :: fields => return (key, ← encode e value) :: (← encodeFields e fields)

end

mutual

/-- A value is encoded when none of its parts can fail. -/
theorem exists_encode {e : Encoder ε α} (h : e.Total) :
    (json : Json) → ∃ a, encode e json = .ok a
  | .bool value => h.bool value
  | .number value => h.number value
  | .string value => h.string value
  | .array items => by
      obtain ⟨parts, hparts⟩ := exists_encodeItems h items
      obtain ⟨a, ha⟩ := h.array parts
      exact ⟨a, by rw [encode, hparts]; exact ha⟩
  | .object fields => by
      obtain ⟨parts, hparts⟩ := exists_encodeFields h fields
      obtain ⟨a, ha⟩ := h.object parts
      exact ⟨a, by rw [encode, hparts]; exact ha⟩

/-- The items of an array are encoded one by one. -/
theorem exists_encodeItems {e : Encoder ε α} (h : e.Total) :
    (items : List Json) → ∃ parts, encodeItems e items = .ok parts
  | [] => ⟨[], by rw [encodeItems]; rfl⟩
  | item :: items => by
      obtain ⟨a, ha⟩ := exists_encode h item
      obtain ⟨parts, hparts⟩ := exists_encodeItems h items
      exact ⟨a :: parts, by rw [encodeItems, ha, hparts]; rfl⟩

/-- The fields of an object are encoded one by one. -/
theorem exists_encodeFields {e : Encoder ε α} (h : e.Total) :
    (fields : List (String × Json)) → ∃ parts, encodeFields e fields = .ok parts
  | [] => ⟨[], by rw [encodeFields]; rfl⟩
  | (key, value) :: fields => by
      obtain ⟨a, ha⟩ := exists_encode h value
      obtain ⟨parts, hparts⟩ := exists_encodeFields h fields
      exact ⟨(key, a) :: parts, by rw [encodeFields, ha, hparts]; rfl⟩

end

end Encoding

/-! ### The encoder of a layout -/

namespace Encoder

/-- Parts between two brackets with commas between them, each at a place where a
line may end. -/
def enclose (layout : Json.Layout) (opening closing : Char) (depth : Nat) :
    List (List Char) → List Char
  | [] => [opening, closing]
  | part :: parts =>
    opening :: (layout.lineBreak (depth + 1) ++ part ++
      parts.flatMap (fun part => ',' :: (layout.lineBreak (depth + 1) ++ part)) ++
      layout.lineBreak depth ++ [closing])

/-- A field of an object. -/
def field (layout : Json.Layout) (depth : Nat) (key : String) (value : Nat → List Char) :
    List Char :=
  Json.quote key ++ layout.colon ++ value depth

/-- The encoder that writes values in a layout. What has been encoded waits for the depth at
which it stands. -/
def writer (ε : Type) (layout : Json.Layout) : Encoder ε (Nat → List Char) where
  bool value := .ok fun depth => Json.write layout depth (.bool value)
  number value := .ok fun depth => Json.write layout depth (.number value)
  string value := .ok fun depth => Json.write layout depth (.string value)
  array items := .ok fun depth =>
    enclose layout '[' ']' depth (items.map fun item => item (depth + 1))
  object fields := .ok fun depth =>
    enclose layout '\x7b' '\x7d' depth
      (fields.map fun (key, value) => field layout (depth + 1) key value)
  text written := String.ofList (written 0)

/-- The writer of texts never fails. -/
theorem total_writer (ε : Type) (layout : Json.Layout) : (writer ε layout).Total where
  bool _ := ⟨_, rfl⟩
  number _ := ⟨_, rfl⟩
  string _ := ⟨_, rfl⟩
  array _ := ⟨_, rfl⟩
  object _ := ⟨_, rfl⟩

variable {ε : Type} {layout : Json.Layout}

/-- Each item behind the first one is written behind a comma and a line break. -/
theorem writeItems_eq (depth : Nat) (items : List Json) :
    Json.writeItems layout depth items = (items.map (Json.write layout depth)).flatMap
      fun part => ',' :: (layout.lineBreak depth ++ part) := by
  induction items with
  | nil => rw [Json.writeItems]; rfl
  | cons item items ih =>
      rw [Json.writeItems, ih, List.map_cons, List.flatMap_cons]
      rfl

/-- Each field behind the first one is written behind a comma and a line break. -/
theorem writeFields_eq (depth : Nat) (fields : List (String × Json)) :
    Json.writeFields layout depth fields =
      (fields.map fun (key, value) =>
        field layout depth key fun depth => Json.write layout depth value).flatMap
          fun part => ',' :: (layout.lineBreak depth ++ part) := by
  induction fields with
  | nil => rw [Json.writeFields]; rfl
  | cons pair fields ih =>
      rcases pair with ⟨key, value⟩
      rw [Json.writeFields, ih, List.map_cons, List.flatMap_cons]
      simp only [field, List.append_assoc, List.cons_append]

/-- An array is its items between brackets. -/
theorem write_array (depth : Nat) (items : List Json) :
    Json.write layout depth (.array items) =
      enclose layout '[' ']' depth (items.map (Json.write layout (depth + 1))) := by
  cases items with
  | nil => rw [Json.write]; rfl
  | cons item items => rw [Json.write, writeItems_eq]; rfl

/-- An object is its fields between braces. -/
theorem write_object (depth : Nat) (fields : List (String × Json)) :
    Json.write layout depth (.object fields) = enclose layout '\x7b' '\x7d' depth
      (fields.map fun (key, value) =>
        field layout (depth + 1) key fun depth => Json.write layout depth value) := by
  rcases fields with - | ⟨⟨key, value⟩, fields⟩
  · rw [Json.write]; rfl
  · rw [Json.write, writeFields_eq, List.map_cons, enclose]
    simp only [field, List.append_assoc]

mutual

/-- The encoder of a layout writes what `Json.write` does. -/
theorem encode_writer : (json : Json) →
    encode (writer ε layout) json = .ok fun depth => Json.write layout depth json
  | .bool _ => rfl
  | .number _ => rfl
  | .string _ => rfl
  | .array items => by
      rw [encode, encodeItems_writer items]
      change (writer ε layout).array _ = _
      simp only [write_array, writer, List.map_map]
      rfl
  | .object fields => by
      rw [encode, encodeFields_writer fields]
      change (writer ε layout).object _ = _
      simp only [write_object, writer, List.map_map]
      rfl

/-- Items are encoded as they are written. -/
theorem encodeItems_writer : (items : List Json) → encodeItems (writer ε layout) items =
    .ok (items.map fun item depth => Json.write layout depth item)
  | [] => by rw [encodeItems]; rfl
  | item :: items => by
      rw [encodeItems, encode_writer item, encodeItems_writer items]
      rfl

/-- Fields are encoded as they are written. -/
theorem encodeFields_writer : (fields : List (String × Json)) →
    encodeFields (writer ε layout) fields =
      .ok (fields.map fun (key, value) => (key, fun depth => Json.write layout depth value))
  | [] => by rw [encodeFields]; rfl
  | (key, value) :: fields => by
      rw [encodeFields, encode_writer value, encodeFields_writer fields]
      rfl

end

end Encoder

/-! ### Reports -/

/-- The report on the statement in a text, in a form. JSON is encoded in one of two ways. -/
def render {ε α : Type} (encoder : Bool → Encoder ε α) (sql : String) (format : Report.Format)
    (indented : Bool) : Checked (Except ε String) := do
  let q ← outline sql
  let advice ← advisories q
  let report : Report := ⟨q, q.describe, q.firstJoin?.map Join.explain, advice⟩
  match format with
  | .text => return .ok report.toText
  | .json => return (encode (encoder indented) report.toJson).map (encoder indented).text

section Reports

variable {ε α : Type}

/-- Nothing fails on the way to a report but its encoding. -/
theorem render_eq (encoder : Bool → Encoder ε α) (sql : String) (format : Report.Format)
    (indented : Bool) :
    render encoder sql format indented = .ok (match format with
      | .text => .ok (Report.onText sql .text indented)
      | .json => (encode (encoder indented) (Report.ofQuery (Query.ofText sql)).toJson).map
          (encoder indented).text) := by
  rw [render, outline_eq, ok_bind, advisories_eq, ok_bind]
  cases format <;> rfl

/-- Written in a layout, the report is that of `Report.onText`. -/
theorem render_writer (sql : String) (format : Report.Format) (indented : Bool) :
    render (fun indented => Encoder.writer ε (if indented then .indented else .compact)) sql
      format
      indented = .ok (.ok (Report.onText sql format indented)) := by
  rw [render_eq, Encoder.encode_writer]
  cases format <;> rfl

/-- No text makes the outline, the advice or the report fail, as long as the
encoder does not. -/
theorem exists_render {encoder : Bool → Encoder ε α} (h : ∀ indented, (encoder indented).Total)
    (sql : String) (format : Report.Format) (indented : Bool) :
    outline sql = .ok (Query.ofText sql) ∧ (∀ q, advisories q = .ok q.advisories) ∧
      ∃ text, render encoder sql format indented = .ok (.ok text) := by
  refine ⟨outline_eq sql, advisories_eq, ?_⟩
  rw [render_eq]
  cases format with
  | text => exact ⟨_, rfl⟩
  | json =>
      obtain ⟨a, ha⟩ := exists_encode (h indented) (Report.ofQuery (Query.ofText sql)).toJson
      refine ⟨(encoder indented).text a, ?_⟩
      dsimp only
      rw [ha]
      rfl

/-- A statement that is cut short, with characters of several bytes. -/
theorem exists_render_cut_short :
    (∀ indented : Bool, (Encoder.writer Empty
      (if indented then .indented else .compact)).Total) ∧
    outline "SELECT é, (ß FROM t JOIN ON WHERE ıLIKE '%ß" =
      .ok (Query.ofText "SELECT é, (ß FROM t JOIN ON WHERE ıLIKE '%ß") ∧
    (∀ q, advisories q = .ok q.advisories) ∧
    ∃ text, render (fun indented => Encoder.writer Empty
      (if indented then .indented else .compact)) "SELECT é, (ß FROM t JOIN ON WHERE ıLIKE '%ß"
      .json true = .ok (.ok text) :=
  ⟨fun _ => Encoder.total_writer _ _, exists_render (fun _ => Encoder.total_writer _ _) _ _ _⟩

end Reports

end SqlOutline.Checked
