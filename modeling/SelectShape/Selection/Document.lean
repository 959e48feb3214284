import SelectShape.Selection.Basic
import SelectShape.Json.Render
import SelectShape.Json.Parse

/-!
# Select lists as JSON

A node is an object with a `kind`, which is `wildcard` or `field`; a field has `name` and
`source_column`, and where they are present `hint` and `children`. Other keys are ignored. A node may
also be an array of its kind and its fields in that order. Within another node the kind may be given by
its number.
-/
namespace SelectShape.Node

/-- The fields of a node apart from its select list. -/
def headJson (field : Field) : List (String × Json) :=
  [("kind", .string "field"), ("name", .string field.key), ("source_column", .string field.source)]
    ++ (field.hint.map fun hint => ("hint", Json.string hint)).toList

mutual

def toJson : Node → Json
  | .wildcard => .object [("kind", .string "wildcard")]
  | .column field => .object (headJson field)
  | .embed field children => .object (headJson field ++ [("children", .array (itemsToJson children))])

def itemsToJson : List Node → List Json
  | [] => []
  | node :: rest => node.toJson :: itemsToJson rest

end

def listToJson (nodes : List Node) : Json := .array (itemsToJson nodes)

/-- What sort of node a document describes. -/
inductive Kind where
  | wildcard
  | field
  deriving DecidableEq, Repr

/-- The kind that a JSON value names; by number only within another node. -/
def Kind.ofJson? (nested : Bool) : Json → Option Kind
  | .string "wildcard" => some .wildcard
  | .string "field" => some .field
  | .number spelling =>
    if nested && spelling == "0" then some .wildcard
    else if nested && spelling == "1" then some .field
    else none
  | _ => none

/-- The node of a field, an embedded one when it has children. -/
def assemble (key source : String) (hint : Option String) : Option (List Node) → Node
  | none => .column ⟨key, source, hint⟩
  | some children => .embed ⟨key, source, hint⟩ children

def fieldNames : List String := ["name", "source_column", "hint", "children"]

mutual

def ofJson? (nested : Bool) : Json → Option Node
  | .object fields =>
    if Json.namesOnce ["kind"] fields then do
      match ← Kind.ofJson? nested (← fields.lookup "kind") with
      | .wildcard => return .wildcard
      | .field =>
        if Json.namesOnce fieldNames fields then
          let key ← (← fields.lookup "name").string?
          let source ← (← fields.lookup "source_column").string?
          let hint ← Json.optional? Json.string? (fields.lookup "hint")
          return assemble key source hint (← childrenOf? fields)
        else none
    else none
  | .array [kind] =>
    match Kind.ofJson? nested kind with
    | some .wildcard => some .wildcard
    | _ => none
  | .array (kind :: key :: source :: rest) =>
    match Kind.ofJson? nested kind with
    | some .field => do
      let key ← key.string?
      let source ← source.string?
      match rest with
      | [] => return assemble key source none none
      | [hint] => return assemble key source (← Json.optional? Json.string? (some hint)) none
      | [hint, children] =>
        return assemble key source (← Json.optional? Json.string? (some hint)) (← children? children)
      | _ => none
    | _ => none
  | _ => none

/-- The children among the fields of an object, if it has any. -/
def childrenOf? : List (String × Json) → Option (Option (List Node))
  | [] => some none
  | (name, value) :: rest => if name = "children" then children? value else childrenOf? rest

/-- A list of children, or `null` for none. -/
def children? : Json → Option (Option (List Node))
  | .null => some none
  | .array items => (itemsOfJson? true items).map some
  | _ => none

def itemsOfJson? (nested : Bool) : List Json → Option (List Node)
  | [] => some []
  | item :: rest => do return (← ofJson? nested item) :: (← itemsOfJson? nested rest)

end

def listOfJson? : Json → Option (List Node)
  | .array items => itemsOfJson? false items
  | _ => none

def listOfDocument? (text : String) : Option (List Node) := do
  let json ← Json.parse text
  if json.isSound then listOfJson? json else none

end SelectShape.Node
