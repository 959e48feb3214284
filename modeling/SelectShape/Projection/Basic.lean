import SelectShape.Catalog.Basic
import SelectShape.Projection.Error
import SelectShape.Selection.Basic
import SelectShape.Shape.Merge

/-!
# Projection

The shape of one row of the answer to a select list. Each node contributes values under keys: a
wildcard one for every column, any other node one under its own key. The contributions of a list, put
one after another into an empty shape, are its shape, unless a node fails to contribute; the first node
in reading order that fails decides the error.
-/
namespace SelectShape

namespace Projection

/-- The columns of a table that must be known. -/
def tableOf (directory : Directory) (name : String) : Except ProjectionError Table :=
  match directory.table? name with
  | some columns => .ok columns
  | none => .error (.unknownTable name (Suggestion.closest? name directory.tableNames))

def columnEntries (columns : Table) : List (String × FieldShape) :=
  columns.map fun (name, type) => (name, .scalar type)

def columnEntry (table : String) (columns : Table) (field : Field) :
    Except ProjectionError (String × FieldShape) :=
  match columns.get? field.source with
  | some type => .ok (field.key, .scalar type)
  | none =>
    .error (.unknownColumn table field.source (Suggestion.closest? field.source columns.keys))

/-- The cardinality of a related resource, uncertain where the catalog does not declare it. -/
def cardinalityOf (directory : Directory) (table : String) (field : Field) : Cardinality :=
  (directory.cardinality? table field.source field.hint).getD .oneOrMany

mutual

/-- What a node contributes that stands `depth` related resources deep, in a list on `table`. The limit
on depth is tested before the related table is looked up. -/
def nodeEntries (directory : Directory) (maxDepth : Nat) (table : String) (columns : Table)
    (depth : Nat) : Node → Except ProjectionError (List (String × FieldShape))
  | .wildcard => .ok (columnEntries columns)
  | .column field => (columnEntry table columns field).map ([·])
  | .embed field children =>
    if maxDepth ≤ depth then .error (.nestingTooDeep maxDepth)
    else do
      let related ← tableOf directory field.source
      let entries ← listEntries directory maxDepth field.source related (depth + 1) children
      return [(field.key, .relation (cardinalityOf directory table field) (Shape.ofPairs entries))]

/-- What the nodes of a list contribute, in order. -/
def listEntries (directory : Directory) (maxDepth : Nat) (table : String) (columns : Table)
    (depth : Nat) : List Node → Except ProjectionError (List (String × FieldShape))
  | [] => .ok []
  | node :: rest => do
    let first ← nodeEntries directory maxDepth table columns depth node
    let others ← listEntries directory maxDepth table columns depth rest
    return first ++ others

end

end Projection

/-- The shape of one row of the answer to a select list on `table`, with related resources nested no
deeper than `maxDepth`. -/
def project (directory : Directory) (maxDepth : Nat) (table : String) (nodes : List Node) :
    Except ProjectionError Shape := do
  let columns ← Projection.tableOf directory table
  let entries ← Projection.listEntries directory maxDepth table columns 0 nodes
  return Shape.ofPairs entries

end SelectShape
