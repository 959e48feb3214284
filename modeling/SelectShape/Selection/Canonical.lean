import SelectShape.Selection.Basic

/-!
# Canonical text

The compact spelling of a tree: no blanks, and `key:source` only where the key differs from the source
or a hint follows, since a hint is read after the long form alone.
-/
namespace SelectShape

/-- The spelling of a field without its select list. -/
def Field.chars (field : Field) : List Char :=
  let name := if field.isRenamed || field.hint.isSome then
      field.key.toList ++ ':' :: field.source.toList
    else field.key.toList
  match field.hint with
  | some hint => name ++ '!' :: hint.toList
  | none => name

namespace Node

mutual

def chars : Node → List Char
  | .wildcard => ['*']
  | .column field => field.chars
  | .embed field children => field.chars ++ '(' :: listChars children ++ [')']

/-- The spelling of a select list: its nodes with commas between them. -/
def listChars : List Node → List Char
  | [] => []
  | node :: rest => node.chars ++ tailChars rest

/-- The spelling of the nodes that follow another one, a comma before each. -/
def tailChars : List Node → List Char
  | [] => []
  | node :: rest => ',' :: (node.chars ++ tailChars rest)

end

def text (node : Node) : String := .ofList node.chars

/-- The canonical text of a select list. -/
def listText (nodes : List Node) : String := .ofList (listChars nodes)

end Node

end SelectShape
