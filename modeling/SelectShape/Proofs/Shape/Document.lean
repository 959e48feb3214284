import SelectShape.Proofs.Entries
import SelectShape.Proofs.Json.Layout
import SelectShape.Shape.Document

/-!
# Shapes in documents

What stands for a value in a document says nothing of its form, so reading guesses it from the keys of an
object. Main statement: a value or shape that is written, in either layout, is read back as it was exactly
if no shape within it has a key twice, which holds of everything that is read.
-/
namespace SelectShape

/-- Every relation in the value, at any depth, has keys of its own. -/
inductive FieldShape.Keyed : FieldShape → Prop
  | scalar (type : String) : Keyed (.scalar type)
  | relation (cardinality : Cardinality) (unique : (Entries.keys fields).Nodup)
      (values : ∀ field ∈ fields, Keyed field.2) : Keyed (.relation cardinality fields)
  | intersection (each : ∀ member ∈ parts, Keyed member) : Keyed (.intersection parts)

/-- The shape, and every relation in it, has keys of its own. -/
structure Shape.Keyed (shape : Shape) : Prop where
  unique : shape.keys.Nodup
  values : ∀ field ∈ shape, field.2.Keyed

theorem Cardinality.ofJson?_name (cardinality : Cardinality) :
    ofJson? (.string cardinality.name) = some cardinality := by
  cases cardinality <;> decide

namespace FieldShape

variable {value : FieldShape} {members : List FieldShape} {fields : List (String × FieldShape)}

/-! ## Reading what was written -/

theorem relationOf?_written (cardinality : Cardinality) (json : Json) (shape : Option Shape) :
    relationOf? [("cardinality", .string cardinality.name), ("shape", json)] shape =
      shape.map (.relation cardinality) := by
  have once : Json.namesOnce ["cardinality", "shape"]
    [("cardinality", .string cardinality.name), ("shape", json)] := rfl
  have named : List.lookup "cardinality"
    [("cardinality", Json.string cardinality.name), ("shape", json)] =
      some (.string cardinality.name) := rfl
  cases shape <;> simp [relationOf?, once, named, Cardinality.ofJson?_name]

theorem ofJson?_relation (cardinality : Cardinality) (fields : List (String × FieldShape)) :
    ofJson? (toJson (.relation cardinality fields)) =
      (fieldsOfJson? (fieldsToJson fields)).map fun fields =>
        .relation cardinality (Entries.ofPairs fields) := by
  rw [toJson, ofJson?, relationOf?_written]
  cases read : fieldsOfJson? (fieldsToJson fields) <;> simp [shapeOf?, allOf?, read]

/-- An object without a cardinality is no relation, whatever else it holds. -/
theorem ofJson?_intersection (members : List FieldShape) :
    ofJson? (toJson (.intersection members)) =
      (membersOfJson? (membersToJson members)).map .intersection := by
  have all : allOf? [("all_of", .array (membersToJson members))] =
      membersOfJson? (membersToJson members) := by
    simp [allOf?]
  have once : Json.namesOnce ["all_of"] [("all_of", .array (membersToJson members))] := rfl
  have none (shape : Option Shape) :
      relationOf? [("all_of", .array (membersToJson members))] shape = none := rfl
  simp [toJson, ofJson?, none, once, all]

theorem membersOfJson?_toJson (each : ∀ member ∈ members, ofJson? member.toJson = some member) :
    membersOfJson? (membersToJson members) = some members := by
  induction members with
  | nil => rw [membersToJson, membersOfJson?]
  | cons member rest ih =>
    obtain ⟨head, later⟩ := List.forall_mem_cons.mp each
    simp [membersToJson, membersOfJson?, head, ih later]

theorem fieldsOfJson?_toJson (each : ∀ field ∈ fields, ofJson? field.2.toJson = some field.2) :
    fieldsOfJson? (fieldsToJson fields) = some fields := by
  induction fields with
  | nil => rw [fieldsToJson, fieldsOfJson?]
  | cons field rest ih =>
    obtain ⟨head, later⟩ := List.forall_mem_cons.mp each
    simp [fieldsToJson, fieldsOfJson?, head, ih later]

theorem Keyed.ofJson?_toJson (keyed : value.Keyed) : ofJson? value.toJson = some value := by
  induction keyed with
  | scalar type => rw [toJson, ofJson?]
  | relation cardinality unique values ih =>
    rw [ofJson?_relation, fieldsOfJson?_toJson ih, Option.map_some, Entries.ofPairs_eq_self unique]
  | intersection each ih => rw [ofJson?_intersection, membersOfJson?_toJson ih, Option.map_some]

/-! ## What is read has keys of its own -/

theorem keyed_of_relationOf? {fields : List (String × Json)} {shape : Option Shape}
    (returned : relationOf? fields shape = some value)
    (keyed : ∀ found, shape = some found → found.Keyed) : value.Keyed := by
  rw [relationOf?] at returned
  split at returned
  · simp only [Option.bind_eq_bind, Option.pure_def, Option.bind_eq_some_iff,
      Option.some.injEq] at returned
    obtain ⟨_, _, cardinality, _, found, given, rfl⟩ := returned
    exact .relation cardinality (keyed found given).unique (keyed found given).values
  · cases returned

mutual

theorem keyed_of_ofJson? : (json : Json) → ∀ value, ofJson? json = some value → value.Keyed
  | .string type, value, returned => by
    cases returned
    exact .scalar type
  | .object fields, value, returned => by
    rw [ofJson?] at returned
    split at returned
    next relation =>
      cases returned
      exact keyed_of_relationOf? relation (keyed_of_shapeOf? fields)
    next =>
      split at returned
      · obtain ⟨members, found, rfl⟩ := Option.map_eq_some_iff.mp returned
        exact .intersection (keyed_of_allOf? fields members found)
      · cases returned
  | .null, _, returned | .bool _, _, returned | .number _, _, returned | .array _, _, returned
  | .unreadable, _, returned => by cases returned

theorem keyed_of_shapeOf? : (fields : List (String × Json)) → ∀ shape,
    shapeOf? fields = some shape → shape.Keyed
  | [], _, returned => by cases returned
  | (key, json) :: rest, shape, returned => by
    by_cases named : key = "shape"
    · cases json with
      | object inner =>
        rw [shapeOf?, if_pos named] at returned
        obtain ⟨values, found, rfl⟩ := Option.map_eq_some_iff.mp returned
        have each := keyed_of_fieldsOfJson? inner values found
        exact ⟨Entries.nodup_keys_ofPairs, Entries.forall_ofPairs each⟩
      | _ => simp [shapeOf?, named] at returned
    · have later : shapeOf? rest = some shape := by
        unfold shapeOf? at returned
        rwa [if_neg named] at returned
      exact keyed_of_shapeOf? rest shape later

theorem keyed_of_allOf? : (fields : List (String × Json)) → ∀ members,
    allOf? fields = some members → ∀ member ∈ members, member.Keyed
  | [], _, returned => by cases returned
  | (key, json) :: rest, members, returned => by
    by_cases named : key = "all_of"
    · cases json with
      | array items =>
        rw [allOf?, if_pos named] at returned
        exact keyed_of_membersOfJson? items members returned
      | _ => simp [allOf?, named] at returned
    · have later : allOf? rest = some members := by
        unfold allOf? at returned
        rwa [if_neg named] at returned
      exact keyed_of_allOf? rest members later

theorem keyed_of_membersOfJson? : (items : List Json) → ∀ members,
    membersOfJson? items = some members → ∀ member ∈ members, member.Keyed
  | [], _, returned => by
    cases returned
    exact List.forall_mem_nil _
  | item :: rest, members, returned => by
    simp only [membersOfJson?, Option.bind_eq_bind, Option.pure_def, Option.bind_eq_some_iff,
      Option.some.injEq] at returned
    obtain ⟨member, own, others, later, rfl⟩ := returned
    exact List.forall_mem_cons.mpr
      ⟨keyed_of_ofJson? item member own, keyed_of_membersOfJson? rest others later⟩

theorem keyed_of_fieldsOfJson? : (fields : List (String × Json)) → ∀ values,
    fieldsOfJson? fields = some values → ∀ field ∈ values, field.2.Keyed
  | [], _, returned => by
    cases returned
    exact List.forall_mem_nil _
  | (key, json) :: rest, values, returned => by
    simp only [fieldsOfJson?, Option.bind_eq_bind, Option.pure_def, Option.bind_eq_some_iff,
      Option.some.injEq] at returned
    obtain ⟨value, own, others, later, rfl⟩ := returned
    exact List.forall_mem_cons.mpr
      ⟨keyed_of_ofJson? json value own, keyed_of_fieldsOfJson? rest others later⟩

end

theorem ofJson?_toJson_iff : ofJson? value.toJson = some value ↔ value.Keyed :=
  ⟨keyed_of_ofJson? value.toJson value, Keyed.ofJson?_toJson⟩

/-! ## Texts -/

mutual

theorem textual_toJson : (value : FieldShape) → value.toJson.Textual
  | .scalar type => .string type
  | .relation cardinality fields => by
    rw [toJson]
    apply Json.Textual.object
    rw [List.forall_mem_cons, List.forall_mem_singleton]
    exact ⟨.string _, .object (textual_fieldsToJson fields)⟩
  | .intersection members => by
    rw [toJson]
    apply Json.Textual.object
    rw [List.forall_mem_singleton]
    exact .array (textual_membersToJson members)

theorem textual_membersToJson : (members : List FieldShape) →
    ∀ item ∈ membersToJson members, item.Textual
  | [] => List.forall_mem_nil _
  | member :: rest => by
    rw [membersToJson, List.forall_mem_cons]
    exact ⟨textual_toJson member, textual_membersToJson rest⟩

theorem textual_fieldsToJson : (fields : List (String × FieldShape)) →
    ∀ field ∈ fieldsToJson fields, field.2.Textual
  | [] => List.forall_mem_nil _
  | (key, value) :: rest => by
    rw [fieldsToJson, List.forall_mem_cons]
    exact ⟨textual_toJson value, textual_fieldsToJson rest⟩

end

theorem ofDocument?_eq {text : String} (parsed : Json.parse text = some value.toJson)
    (low : value.toJson.height ≤ Json.heightLimit) : ofDocument? text = ofJson? value.toJson := by
  have sound := (textual_toJson value).isSound low
  simp [ofDocument?, parsed, sound]

end FieldShape

namespace Shape

variable {shape : Shape}

theorem textual_toJson (shape : Shape) : shape.toJson.Textual :=
  .object (FieldShape.textual_fieldsToJson shape)

theorem ofJson?_toJson_iff : ofJson? shape.toJson = some shape ↔ shape.Keyed := by
  rw [toJson, ofJson?]
  constructor
  · intro returned
    obtain ⟨values, found, same⟩ := Option.map_eq_some_iff.mp returned
    have each := FieldShape.keyed_of_fieldsOfJson? _ values found
    rw [← same]
    exact ⟨Entries.nodup_keys_ofPairs, Entries.forall_ofPairs each⟩
  · intro keyed
    have each := fun field member => (keyed.values field member).ofJson?_toJson
    rw [FieldShape.fieldsOfJson?_toJson each, Option.map_some, Entries.ofPairs_eq_self keyed.unique]

theorem ofDocument?_eq {text : String} (parsed : Json.parse text = some shape.toJson)
    (low : shape.toJson.height ≤ Json.heightLimit) : ofDocument? text = ofJson? shape.toJson := by
  have sound := (textual_toJson shape).isSound low
  simp [ofDocument?, parsed, sound]

/-- A value, and a shape, that nests few enough objects and arrays as JSON is read back from what is
written of it, in either layout, as it was: the order of keys at every level, the order of members, empty
relations, and intersections of any number of members included. Only a key that occurs twice in one shape,
as none does in a shape that has been read, is lost. -/
theorem ofDocument?_toJson :
    (∀ value : FieldShape, value.toJson.height ≤ Json.heightLimit →
      (FieldShape.ofDocument? value.toJson.compact = some value ↔ value.Keyed) ∧
      (FieldShape.ofDocument? value.toJson.pretty = some value ↔ value.Keyed)) ∧
    ∀ shape : Shape, shape.toJson.height ≤ Json.heightLimit →
      (ofDocument? shape.toJson.compact = some shape ↔ shape.Keyed) ∧
      (ofDocument? shape.toJson.pretty = some shape ↔ shape.Keyed) := by
  constructor
  · intro value low
    have textual := FieldShape.textual_toJson value
    rw [FieldShape.ofDocument?_eq (Json.parse_compact textual) low,
      FieldShape.ofDocument?_eq (Json.parse_pretty textual) low]
    exact ⟨FieldShape.ofJson?_toJson_iff, FieldShape.ofJson?_toJson_iff⟩
  · intro shape low
    have textual := textual_toJson shape
    rw [ofDocument?_eq (Json.parse_compact textual) low, ofDocument?_eq (Json.parse_pretty textual) low]
    exact ⟨ofJson?_toJson_iff, ofJson?_toJson_iff⟩

/-- Keys that are names of the document format, a type with a quote, a backslash and a control, an empty
relation, and intersections that no projection returns. -/
def structural : Shape :=
  [("all_of", .intersection [.intersection [], .intersection [.scalar "one"],
      .relation .many [("shape", .relation .oneOrMany []), ("cardinality", .scalar "a\"\\\u0001é")]]),
    ("", .scalar "")]

theorem ofDocument?_toJson_structural :
    structural.Keyed ∧ structural.toJson.height ≤ Json.heightLimit ∧
    ofDocument? structural.toJson.compact = some structural ∧
    ofDocument? structural.toJson.pretty = some structural ∧
    FieldShape.ofDocument? (FieldShape.toJson (.relation .one structural)).compact =
      some (.relation .one structural) := by
  have inner : FieldShape.Keyed
      (.relation .many [("shape", .relation .oneOrMany []), ("cardinality", .scalar "a\"\\\u0001é")]) := by
    apply FieldShape.Keyed.relation .many (by decide)
    rw [List.forall_mem_cons, List.forall_mem_singleton]
    exact ⟨.relation .oneOrMany .nil (List.forall_mem_nil _), .scalar _⟩
  have keyed : structural.Keyed := by
    refine ⟨by decide, ?_⟩
    rw [structural, List.forall_mem_cons, List.forall_mem_singleton]
    refine ⟨.intersection ?_, .scalar _⟩
    rw [List.forall_mem_cons, List.forall_mem_cons, List.forall_mem_singleton]
    refine ⟨.intersection (List.forall_mem_nil _), .intersection ?_, inner⟩
    exact List.forall_mem_singleton.mpr (.scalar _)
  have low : structural.toJson.height ≤ Json.heightLimit := by decide
  have whole := ofDocument?_toJson.1 (.relation .one structural) (by decide)
  have read := ofDocument?_toJson.2 structural low
  exact ⟨keyed, low, read.1.mpr keyed, read.2.mpr keyed,
    whole.1.mpr (.relation .one keyed.unique keyed.values)⟩

end Shape

end SelectShape
