import SelectShape.Projection.Basic
import SelectShape.Proofs.Success

/-!
# Successful projections

What each step of a projection that succeeds has looked up and returned, node by node, the induction
on select lists that follows them, and changes to a list at any of its levels.
-/
namespace SelectShape

/-- Induction on select lists, into those of related resources. -/
theorem Node.list_induction {P : List Node → Prop} (nil : P [])
    (wildcard : ∀ rest, P rest → P (.wildcard :: rest))
    (column : ∀ field rest, P rest → P (.column field :: rest))
    (embed : ∀ field children rest, P children → P rest → P (.embed field children :: rest)) :
    ∀ nodes, P nodes
  | [] => nil
  | .wildcard :: rest => wildcard rest (list_induction nil wildcard column embed rest)
  | .column field :: rest => column field rest (list_induction nil wildcard column embed rest)
  | .embed field children :: rest =>
    embed field children rest (list_induction nil wildcard column embed children)
      (list_induction nil wildcard column embed rest)

/-- A change to a list takes place at some level: in the list itself, or in one within it. -/
inductive Node.AtSomeLevel (change : List Node → List Node → Prop) : List Node → List Node → Prop
  | here (changed : change nodes others) : AtSomeLevel change nodes others
  | inside (before after : List Node) (field : Field) (deeper : AtSomeLevel change children others) :
      AtSomeLevel change (before ++ .embed field children :: after)
        (before ++ .embed field others :: after)

namespace Projection

variable {directory : Directory} {maxDepth depth : Nat} {table : String} {columns : Table}
  {field : Field} {node : Node} {children nodes : List Node}
  {entries : List (String × FieldShape)}

theorem tableOf_eq_ok_iff :
    tableOf directory table = .ok columns ↔ directory.table? table = some columns := by
  rw [tableOf]
  cases directory.table? table <;> simp

theorem nodeEntries_column_eq_ok_iff :
    nodeEntries directory maxDepth table columns depth (.column field) = .ok entries ↔
      ∃ type, columns.get? field.source = some type ∧ entries = [(field.key, .scalar type)] := by
  rw [nodeEntries, columnEntry]
  cases columns.get? field.source <;> simp [Except.map, eq_comm]

theorem nodeEntries_embed_eq_ok_iff :
    nodeEntries directory maxDepth table columns depth (.embed field children) = .ok entries ↔
      depth < maxDepth ∧ ∃ related, directory.table? field.source = some related ∧
        ∃ inner, listEntries directory maxDepth field.source related (depth + 1) children = .ok inner ∧
          entries = [(field.key,
            .relation (cardinalityOf directory table field) (Shape.ofPairs inner))] := by
  rw [nodeEntries]
  by_cases deep : maxDepth ≤ depth
  · simp [deep, Nat.not_lt.mpr deep]
  · simp only [if_neg deep, Nat.not_le.mp deep, true_and, bind_eq_ok_iff, tableOf_eq_ok_iff,
      pure_eq_ok_iff]

theorem listEntries_cons_eq_ok_iff :
    listEntries directory maxDepth table columns depth (node :: nodes) = .ok entries ↔
      ∃ first, nodeEntries directory maxDepth table columns depth node = .ok first ∧
        ∃ others, listEntries directory maxDepth table columns depth nodes = .ok others ∧
          entries = first ++ others := by
  simp only [listEntries, bind_eq_ok_iff, pure_eq_ok_iff]

end Projection

theorem project_eq_ok_iff {directory : Directory} {maxDepth : Nat} {table : String} {nodes : List Node}
    {shape : Shape} :
    project directory maxDepth table nodes = .ok shape ↔
      ∃ columns, directory.table? table = some columns ∧
        ∃ entries, Projection.listEntries directory maxDepth table columns 0 nodes = .ok entries ∧
          shape = .ofPairs entries := by
  simp only [project, bind_eq_ok_iff, Projection.tableOf_eq_ok_iff, pure_eq_ok_iff]

end SelectShape
