import SelectShape.Proofs.Catalog.Keyed
import SelectShape.Proofs.Projection.Append

/-!
# What a wildcard selects

A wildcard stands for the columns of the table that encloses it, so it can be written out: at every level,
by the columns of the table of that level. Main statement: a list so written out has the same projection,
with its keys in the same order, or the same error.
-/
namespace SelectShape

namespace Node

/-- A plain column for every column of a table, in the order of their declaration. -/
def columnsOf (columns : Table) : List Node := columns.keys.map fun name => .column (.plain name)

mutual

/-- A node of a list on `table` with every wildcard written out, at this level and at those below. Under
a table that is not known a wildcard stays as it is. -/
def writeOut (lookup : String → Option Table) (table : String) : Node → List Node
  | .wildcard =>
    match lookup table with
    | some columns => columnsOf columns
    | none => [.wildcard]
  | .column field => [.column field]
  | .embed field children => [.embed field (writeOutList lookup field.source children)]

/-- A list on `table` with every wildcard written out, each in its place. -/
def writeOutList (lookup : String → Option Table) (table : String) : List Node → List Node
  | [] => []
  | node :: rest => writeOut lookup table node ++ writeOutList lookup table rest

end

end Node

namespace Projection

variable {directory : Directory} {maxDepth depth : Nat} {table : String} {columns : Table}
  {field : Field} {node : Node} {children counterparts nodes others rest : List Node}

theorem listEntries_singleton :
    listEntries directory maxDepth table columns depth [node] =
      nodeEntries directory maxDepth table columns depth node := by
  rw [listEntries, listEntries]
  cases nodeEntries directory maxDepth table columns depth node with
  | error error => rfl
  | ok entries => exact congrArg Except.ok (List.append_nil entries)

/-- Columns that are selected one by one, under their own names, contribute what a wildcard does. -/
theorem listEntries_columnsOf (unique : columns.keys.Nodup) :
    listEntries directory maxDepth table columns depth (Node.columnsOf columns) =
      .ok (columnEntries columns) := by
  -- The induction runs over a part of the columns, while the names are looked up among all of them.
  suffices each : ∀ part : Table, part ⊆ columns →
      listEntries directory maxDepth table columns depth (Node.columnsOf part) =
        .ok (columnEntries part) from each columns (List.Subset.refl columns)
  intro part
  induction part with
  | nil => exact fun _ => rfl
  | cons column rest ih =>
    intro among
    obtain ⟨first, later⟩ := List.cons_subset.mp among
    have typed : columns.get? column.1 = some column.2 := Entries.get?_of_mem unique first
    have own : nodeEntries directory maxDepth table columns depth (.column (.plain column.1)) =
        .ok [(column.1, .scalar column.2)] :=
      nodeEntries_column_eq_ok_iff.mpr ⟨column.2, typed, rfl⟩
    exact listEntries_cons_eq_ok_iff.mpr ⟨_, own, _, ih later, rfl⟩

/-- What a related resource contributes depends on its list only through what that contributes. -/
theorem nodeEntries_embed_congr
    (same : ∀ related, directory.table? field.source = some related →
      listEntries directory maxDepth field.source related (depth + 1) children =
        listEntries directory maxDepth field.source related (depth + 1) counterparts) :
    nodeEntries directory maxDepth table columns depth (.embed field children) =
      nodeEntries directory maxDepth table columns depth (.embed field counterparts) := by
  rw [nodeEntries, nodeEntries]
  cases found : tableOf directory field.source with
  | error error => rfl
  | ok related =>
    simp only [bind, Except.bind]
    rw [same related (tableOf_eq_ok_iff.mp found)]

/-- Nodes in place of one node that contribute what it does, before a rest that contributes the same. -/
theorem listEntries_append_eq_cons
    (first : listEntries directory maxDepth table columns depth nodes =
      nodeEntries directory maxDepth table columns depth node)
    (later : listEntries directory maxDepth table columns depth others =
      listEntries directory maxDepth table columns depth rest) :
    listEntries directory maxDepth table columns depth (nodes ++ others) =
      listEntries directory maxDepth table columns depth (node :: rest) := by
  rw [listEntries_append, listEntries, first, later]

/-- A list that stands anywhere contributes the same when its wildcards are written out. -/
theorem listEntries_writeOutList
    (unique : ∀ name columns, directory.table? name = some columns → columns.keys.Nodup)
    (known : directory.table? table = some columns) :
    listEntries directory maxDepth table columns depth
        (Node.writeOutList directory.table? table nodes) =
      listEntries directory maxDepth table columns depth nodes := by
  induction nodes using Node.list_induction generalizing table columns depth with
  | nil => rfl
  | wildcard rest ih =>
    rw [Node.writeOutList, Node.writeOut, known]
    apply listEntries_append_eq_cons _ (ih known)
    rw [listEntries_columnsOf (unique table columns known), nodeEntries]
  | column field rest ih =>
    rw [Node.writeOutList, Node.writeOut]
    exact listEntries_append_eq_cons listEntries_singleton (ih known)
  | embed field children rest ihChildren ih =>
    rw [Node.writeOutList, Node.writeOut]
    apply listEntries_append_eq_cons _ (ih known)
    rw [listEntries_singleton]
    exact nodeEntries_embed_congr fun related found => ihChildren found

theorem project_writeOutList
    (unique : ∀ name columns, directory.table? name = some columns → columns.keys.Nodup) :
    project directory maxDepth table (Node.writeOutList directory.table? table nodes) =
      project directory maxDepth table nodes := by
  rw [project, project]
  cases found : tableOf directory table with
  | error error => rfl
  | ok columns =>
    simp only [bind, Except.bind]
    rw [listEntries_writeOutList unique (tableOf_eq_ok_iff.mp found)]

/-- Writing out every wildcard of a select list, at every level, by the columns of the table that encloses
it changes nothing: the projection has the same shape, key order included, or the same error. -/
theorem project_wildcards {catalog : Catalog} (keyed : catalog.Keyed) (maxDepth : Nat) (table : String)
    (nodes : List Node) :
    project (.ofCatalog catalog) maxDepth table (Node.writeOutList catalog.table? table nodes) =
      project (.ofCatalog catalog) maxDepth table nodes := by
  apply project_writeOutList
  intro name columns found
  exact keyed.columns (name, columns) (Entries.mem_of_get? found)

/-- Three tables, one of them without columns. -/
def sampleCatalog : Catalog :=
  ⟨[("t", [("a", "text"), ("id", "int")]), ("u", [("id", "int"), ("at", "date")]), ("e", [])],
    [⟨"t", "u", none, .many⟩]⟩

/-- Wildcards at three levels, one of them under a table without columns, next to a column and a resource
that share a key. A wildcard in a resource that is not known stays, and the resource is what fails. -/
theorem project_wildcards_nested :
    sampleCatalog.Keyed ∧
    Node.writeOutList sampleCatalog.table? "t"
        [.column ⟨"x", "a", none⟩, .wildcard,
          .embed ⟨"x", "u", none⟩ [.embed (.plain "e") [.wildcard], .wildcard]] =
      [.column ⟨"x", "a", none⟩, .column (.plain "a"), .column (.plain "id"),
        .embed ⟨"x", "u", none⟩
          [.embed (.plain "e") [], .column (.plain "id"), .column (.plain "at")]] ∧
    project (.ofCatalog sampleCatalog) 2 "t"
        [.column ⟨"x", "a", none⟩, .column (.plain "a"), .column (.plain "id"),
          .embed ⟨"x", "u", none⟩
            [.embed (.plain "e") [], .column (.plain "id"), .column (.plain "at")]] =
      .ok [("x", .intersection [.scalar "text", .relation .many [("e", .relation .oneOrMany []),
          ("id", .scalar "int"), ("at", .scalar "date")]]),
        ("a", .scalar "text"), ("id", .scalar "int")] ∧
    project (.ofCatalog sampleCatalog) 2 "t"
        [.column (.plain "a"), .column (.plain "id"), .embed (.plain "v") [.wildcard]] =
      .error (.unknownTable "v" none) := by
  have keyed : sampleCatalog.Keyed := ⟨by decide, by decide⟩
  refine ⟨keyed, rfl, ?_, ?_⟩
  · exact project_wildcards keyed 2 "t" [.column ⟨"x", "a", none⟩, .wildcard,
      .embed ⟨"x", "u", none⟩ [.embed (.plain "e") [.wildcard], .wildcard]]
  · exact project_wildcards keyed 2 "t" [.wildcard, .embed (.plain "v") [.wildcard]]

end Projection

end SelectShape
