import SelectShape.Shape.Basic

/-!
# Merging

Several values selected under one key come to one. Their parts are gathered: the types, each once and
in ascending order; at most one relation, into which further relations are folded key by key; and
intersections nested within intersections, each once, which no query leads to. A single part is the
result itself, any other number of parts an intersection.

Values under a shared key of two relations merge in turn, so merging goes down by one level of
relations at a time. `mergeWithin` counts these levels; `merge` allows as many as there are.
-/
namespace SelectShape

/-- What the members of an intersection come to. -/
structure Parts where
  -- Types of columns, ascending.
  types : List String
  relation : Option (Cardinality × Shape)
  -- Intersections that are members themselves.
  nested : List FieldShape

namespace Parts

def empty : Parts := ⟨[], none, []⟩

/-- A type in its place among ascending ones, unless it is there. -/
def insertType (type : String) : List String → List String
  | [] => [type]
  | first :: rest =>
    if type < first then type :: first :: rest
    else if type = first then first :: rest
    else first :: insertType type rest

/-- Gather one more member. `join` merges values under a shared key. -/
def add (join : FieldShape → FieldShape → FieldShape) (parts : Parts) : FieldShape → Parts
  | .scalar type => { parts with types := insertType type parts.types }
  | .relation cardinality fields =>
    match parts.relation with
    | none => { parts with relation := some (cardinality, fields) }
    | some (present, shape) =>
      { parts with relation := some (present.merge cardinality, shape.putAll join fields) }
  | .intersection members =>
    if parts.nested.any (·.same (.intersection members)) then parts
    else { parts with nested := parts.nested ++ [.intersection members] }

def toList (parts : Parts) : List FieldShape :=
  parts.types.map .scalar
    ++ (parts.relation.map fun (cardinality, fields) => .relation cardinality fields).toList
    ++ parts.nested

/-- The value that consists of the parts. -/
def toFieldShape (parts : Parts) : FieldShape :=
  match parts.toList with
  | [single] => single
  | members => .intersection members

end Parts

namespace FieldShape

/-- What two values under one key come to, with values under shared keys of relations merged down to
the given number of levels. -/
def mergeWithin : Nat → FieldShape → FieldShape → FieldShape
  | 0, a, _ => a
  | levels + 1, a, b =>
    ((a.members ++ b.members).foldl (Parts.add (mergeWithin levels)) .empty).toFieldShape

/-- What two values under one key come to. -/
def merge (a b : FieldShape) : FieldShape := mergeWithin (max a.height b.height + 1) a b

end FieldShape

namespace Shape

/-- Put a value under a key, merged with the value there. -/
def insert (shape : Shape) (key : String) (value : FieldShape) : Shape :=
  shape.put FieldShape.merge key value

/-- Put all of another shape's values under their keys. -/
def merge (shape other : Shape) : Shape := shape.putAll FieldShape.merge other

/-- The shape of a list of pairs, values under the same key merged in order. -/
def ofPairs (pairs : List (String × FieldShape)) : Shape := merge [] pairs

end Shape

end SelectShape
