import SelectShape.Shape.Basic
import SelectShape.Json.Render
import SelectShape.Json.Parse

/-!
# Shapes as JSON

A type is a string, a relation an object with `cardinality` and `shape`, an intersection an object with
`all_of`; a shape is an object from keys to values. Reading takes the first form that fits, in this
order; other keys of a relation or an intersection are ignored, and an array is no form.
-/
namespace SelectShape

/-- A cardinality is its name, or an object with the name as its only key and `null` under it. -/
def Cardinality.ofJson? : Json → Option Cardinality
  | .string name => ofName? name
  | .object [(name, .null)] => ofName? name
  | _ => none

namespace FieldShape

mutual

def toJson : FieldShape → Json
  | .scalar type => .string type
  | .relation cardinality fields =>
    .object [("cardinality", .string cardinality.name), ("shape", .object (fieldsToJson fields))]
  | .intersection members => .object [("all_of", .array (membersToJson members))]

def membersToJson : List FieldShape → List Json
  | [] => []
  | member :: rest => member.toJson :: membersToJson rest

def fieldsToJson : List (String × FieldShape) → List (String × Json)
  | [] => []
  | (key, value) :: rest => (key, value.toJson) :: fieldsToJson rest

end

/-- The relation that the fields of an object describe: its cardinality and `shape`, each given once. -/
def relationOf? (fields : List (String × Json)) (shape : Option Shape) : Option FieldShape :=
  if Json.namesOnce ["cardinality", "shape"] fields then do
    return .relation (← Cardinality.ofJson? (← fields.lookup "cardinality")) (← shape)
  else none

mutual

def ofJson? : Json → Option FieldShape
  | .string type => some (.scalar type)
  | .object fields =>
    match relationOf? fields (shapeOf? fields) with
    | some value => some value
    | none => if Json.namesOnce ["all_of"] fields then (allOf? fields).map .intersection else none
  | _ => none

/-- The shape of a relation. -/
def shapeOf? : List (String × Json) → Option Shape
  | [] => none
  | (key, value) :: rest =>
    if key = "shape" then
      match value with
      | .object fields => (fieldsOfJson? fields).map Entries.ofPairs
      | _ => none
    else shapeOf? rest

/-- The members of an intersection. -/
def allOf? : List (String × Json) → Option (List FieldShape)
  | [] => none
  | (key, value) :: rest =>
    if key = "all_of" then
      match value with
      | .array items => membersOfJson? items
      | _ => none
    else allOf? rest

def membersOfJson? : List Json → Option (List FieldShape)
  | [] => some []
  | item :: rest => do return (← ofJson? item) :: (← membersOfJson? rest)

def fieldsOfJson? : List (String × Json) → Option (List (String × FieldShape))
  | [] => some []
  | (key, value) :: rest => do return (key, ← ofJson? value) :: (← fieldsOfJson? rest)

end

def ofDocument? (text : String) : Option FieldShape := do
  let json ← Json.parse text
  if json.isSound then ofJson? json else none

end FieldShape

namespace Shape

def toJson (shape : Shape) : Json := .object (FieldShape.fieldsToJson shape)

/-- The shape that a JSON value spells. Of values under a repeated key the last one counts. -/
def ofJson? : Json → Option Shape
  | .object fields => (FieldShape.fieldsOfJson? fields).map Entries.ofPairs
  | _ => none

def ofDocument? (text : String) : Option Shape := do
  let json ← Json.parse text
  if json.isSound then ofJson? json else none

end Shape

end SelectShape
