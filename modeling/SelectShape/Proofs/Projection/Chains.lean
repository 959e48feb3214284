import SelectShape.Proofs.Projection.Basic
import SelectShape.Proofs.Shape.Paths

/-!
# What a projection holds at every path

A chain of nodes follows a path of keys through a select list and the tables that its resources name.
Main statement: at every path, the shape of a list holds the columns and relations that its chains end
in, and no others, whatever is merged on the way.
-/
namespace SelectShape

namespace Projection

/-- The ends of the chains along a path, each with the table that encloses it. A chain enters a related
resource under each key of the path, and ends in any node of the list it has come to. -/
def chainEnds (table : String) (nodes : List Node) : List String → List (String × Node)
  | [] => nodes.map (table, ·)
  | key :: path => nodes.flatMap fun
    | .embed field children => if field.key = key then chainEnds field.source children path else []
    | _ => []

/-- A node selects a column of a type under a key. -/
inductive Selects (columns : Table) (key type : String) : Node → Prop
  | column {field : Field} (named : field.key = key) (typed : columns.get? field.source = some type) :
      Selects columns key type (.column field)
  | wildcard (typed : (key, type) ∈ columns) : Selects columns key type .wildcard

/-- The end of a chain selects a column of a type under a key. -/
def EndSelects (directory : Directory) (key type : String) (last : String × Node) : Prop :=
  ∃ columns, directory.table? last.1 = some columns ∧ Selects columns key type last.2

/-- The cardinality of the related resource under a key that a chain ends in. -/
def endCardinality? (directory : Directory) (key : String) : String × Node → Option Cardinality
  | (table, .embed field _) =>
    if field.key = key then some (cardinalityOf directory table field) else none
  | _ => none

/-- The cardinality of the related resources under a key that the chains along a path end in. -/
def chainCardinality? (directory : Directory) (table : String) (nodes : List Node) (path : List String)
    (key : String) : Option Cardinality :=
  Cardinality.mergeAll? ((chainEnds table nodes path).filterMap (endCardinality? directory key))

variable {directory : Directory} {maxDepth depth : Nat} {table : String} {columns : Table}
  {field : Field} {node : Node} {children nodes rest : List Node} {shape other : Shape}
  {entries : List (String × FieldShape)}

theorem chainEnds_cons (table : String) (node : Node) (rest : List Node) (path : List String) :
    chainEnds table (node :: rest) path = chainEnds table [node] path ++ chainEnds table rest path := by
  cases path with
  | nil => rfl
  | cons key path => simp [chainEnds]

theorem chainEnds_embed (table : String) (field : Field) (children : List Node) (key : String)
    (path : List String) :
    chainEnds table [.embed field children] (key :: path) =
      if field.key = key then chainEnds field.source children path else [] := by
  simp [chainEnds]

/-- A shape holds, at every path, what the chains of a select list end in. -/
structure Matches (directory : Directory) (table : String) (nodes : List Node) (shape : Shape) :
    Prop where
  normal : shape.Normal
  types : ∀ path key type, shape.Occurs path key (.scalar type) ↔
    ∃ last ∈ chainEnds table nodes path, EndSelects directory key type last
  cardinality : ∀ path key,
    shape.cardinality? path key = chainCardinality? directory table nodes path key

theorem matches_nil : Matches directory table [] [] := by
  have none (path : List String) : chainEnds table [] path = [] := by cases path <;> rfl
  refine ⟨Shape.normal_nil, fun path key type => ?_, fun path key => ?_⟩
  · simp [none, Shape.not_nil_occurs]
  · simp [chainCardinality?, none, Shape.nil_cardinality?, Cardinality.mergeAll?]

theorem Matches.cons (first : Matches directory table [node] shape)
    (others : Matches directory table rest other) :
    Matches directory table (node :: rest) (shape.merge other) := by
  refine ⟨first.normal.merge others.normal, fun path key type => ?_, fun path key => ?_⟩
  · rw [Shape.occurs_scalar_merge_iff first.normal others.normal, first.types, others.types,
      chainEnds_cons table node rest]
    simp only [List.mem_append, or_and_right, exists_or]
  · rw [Shape.cardinality?_merge first.normal others.normal, first.cardinality, others.cardinality,
      chainCardinality?, chainCardinality?, chainCardinality?, chainEnds_cons table node rest,
      List.filterMap_append, Cardinality.mergeAll?_append]

theorem matches_column {type : String} (known : directory.table? table = some columns)
    (typed : columns.get? field.source = some type) :
    Matches directory table [.column field] [(field.key, .scalar type)] := by
  refine ⟨Shape.normal_singleton (.scalar type), fun path key found => ?_, fun path key => ?_⟩
  · rw [Shape.column_occurs_iff]
    cases path with
    | nil =>
      simp only [true_and, chainEnds, List.map_cons, List.map_nil, List.mem_singleton, exists_eq_left,
        EndSelects, known, Option.some.injEq, exists_eq_left']
      constructor
      · rintro ⟨named, rfl⟩
        exact .column named typed
      · rintro (⟨named, again⟩)
        exact ⟨named, Option.some.inj (typed.symm.trans again)⟩
    | cons next path => simp [chainEnds]
  · rw [Shape.column_cardinality?]
    cases path <;> rfl

theorem matches_embed (inside : Matches directory field.source children shape) :
    Matches directory table [.embed field children]
      [(field.key, .relation (cardinalityOf directory table field) shape)] := by
  refine ⟨Shape.normal_singleton (FieldShape.normal_relation_iff.mpr inside.normal),
    fun path key type => ?_, fun path key => ?_⟩
  · cases path with
    | nil =>
      refine iff_of_false Shape.not_relation_occurs_nil ?_
      rintro ⟨last, member, columns, _, selects⟩
      obtain rfl := List.mem_singleton.mp member
      cases selects
    | cons next path =>
      -- Both the chain and the path go on inside, or neither does.
      rw [chainEnds_embed, Shape.Occurs, Shape.under_cons, Shape.relation_inner]
      split
      next => exact inside.types path key type
      next => simp
  · cases path with
    | nil =>
      rw [Shape.relation_cardinality?_nil]
      by_cases named : field.key = key <;>
        simp [chainCardinality?, chainEnds, endCardinality?, named, Cardinality.mergeAll?]
    | cons next path =>
      rw [chainCardinality?, chainEnds_embed, Shape.cardinality?, Shape.under_cons,
        Shape.relation_inner]
      split
      next => exact inside.cardinality path key
      next => simp [Shape.related?, Cardinality.mergeAll?]

theorem normal_columnEntries : ∀ pair ∈ columnEntries columns, pair.2.Normal := by
  intro pair member
  obtain ⟨⟨name, type⟩, _, rfl⟩ := List.mem_map.mp member
  exact .scalar type

theorem ofPairs_columnEntries_cons (name type : String) (rest : Table) :
    Shape.ofPairs (columnEntries ((name, type) :: rest)) =
      Shape.merge [(name, .scalar type)] (Shape.ofPairs (columnEntries rest)) :=
  (Shape.normal_singleton (.scalar type)).merge_ofPairs normal_columnEntries

theorem columnEntries_occurs_iff {path : List String} {key type : String} :
    (Shape.ofPairs (columnEntries columns)).Occurs path key (.scalar type) ↔
      path = [] ∧ (key, type) ∈ columns := by
  induction columns with
  | nil => exact iff_of_false Shape.not_nil_occurs (by simp)
  | cons column rest ih =>
    obtain ⟨name, found⟩ := column
    have single : Shape.Normal [(name, .scalar found)] := Shape.normal_singleton (.scalar found)
    rw [ofPairs_columnEntries_cons,
      Shape.occurs_scalar_merge_iff single (Shape.normal_ofPairs normal_columnEntries), ih,
      Shape.column_occurs_iff, ← and_or_left, List.mem_cons, Prod.mk.injEq, eq_comm (a := name),
      eq_comm (a := found)]

theorem columnEntries_cardinality? {path : List String} {key : String} :
    (Shape.ofPairs (columnEntries columns)).cardinality? path key = none := by
  induction columns with
  | nil => exact Shape.nil_cardinality?
  | cons column rest ih =>
    obtain ⟨name, found⟩ := column
    have single : Shape.Normal [(name, .scalar found)] := Shape.normal_singleton (.scalar found)
    rw [ofPairs_columnEntries_cons,
      Shape.cardinality?_merge single (Shape.normal_ofPairs normal_columnEntries), ih,
      Shape.column_cardinality?, Option.merge_none_left]

theorem matches_wildcard (known : directory.table? table = some columns) :
    Matches directory table [.wildcard] (Shape.ofPairs (columnEntries columns)) := by
  refine ⟨Shape.normal_ofPairs normal_columnEntries, fun path key type => ?_, fun path key => ?_⟩
  · rw [columnEntries_occurs_iff]
    cases path with
    | nil =>
      simp only [true_and, chainEnds, List.map_cons, List.map_nil, List.mem_singleton, exists_eq_left,
        EndSelects, known, Option.some.injEq, exists_eq_left']
      constructor
      · exact fun typed => .wildcard typed
      · rintro (_ | typed)
        exact typed
    | cons next path => simp [chainEnds]
  · rw [columnEntries_cardinality?]
    cases path <;> rfl

/-- What the nodes of a list contribute comes to a shape that holds what their chains end in. -/
theorem listEntries_matches (known : directory.table? table = some columns)
    (returned : listEntries directory maxDepth table columns depth nodes = .ok entries) :
    (∀ pair ∈ entries, pair.2.Normal) ∧ Matches directory table nodes (Shape.ofPairs entries) := by
  -- Each node adds its own shape to that of the nodes behind it. What a related resource contributes
  -- has been read off its select list before.
  induction nodes using Node.list_induction generalizing table columns depth entries with
  | nil =>
    cases returned
    exact ⟨List.forall_mem_nil _, matches_nil⟩
  | wildcard rest ih =>
    obtain ⟨first, own, others, later, rfl⟩ := listEntries_cons_eq_ok_iff.mp returned
    obtain ⟨values, matched⟩ := ih known later
    cases own
    refine ⟨List.forall_mem_append.mpr ⟨normal_columnEntries, values⟩, ?_⟩
    rw [Shape.ofPairs_append normal_columnEntries values]
    exact (matches_wildcard known).cons matched
  | column field rest ih =>
    obtain ⟨first, own, others, later, rfl⟩ := listEntries_cons_eq_ok_iff.mp returned
    obtain ⟨type, typed, rfl⟩ := nodeEntries_column_eq_ok_iff.mp own
    obtain ⟨values, matched⟩ := ih known later
    have single := matches_column known typed
    refine ⟨List.forall_mem_append.mpr ⟨single.normal.values, values⟩, ?_⟩
    rw [Shape.ofPairs_append single.normal.values values]
    exact single.cons matched
  | embed field children rest ihChildren ih =>
    obtain ⟨first, own, others, later, rfl⟩ := listEntries_cons_eq_ok_iff.mp returned
    obtain ⟨_, related, knownRelated, inner, inside, rfl⟩ := nodeEntries_embed_eq_ok_iff.mp own
    obtain ⟨values, matched⟩ := ih known later
    have single : Matches directory table [.embed field children] _ :=
      matches_embed (ihChildren knownRelated inside).2
    refine ⟨List.forall_mem_append.mpr ⟨single.normal.values, values⟩, ?_⟩
    rw [Shape.ofPairs_append single.normal.values values]
    exact single.cons matched

theorem matches_of_project (returned : project directory maxDepth table nodes = .ok shape) :
    Matches directory table nodes shape := by
  obtain ⟨columns, known, entries, listed, rfl⟩ := project_eq_ok_iff.mp returned
  exact (listEntries_matches known listed).2

/-- Chains have a cardinality if one of them ends in a related resource. -/
theorem chainCardinality?_ne_none_iff {path : List String} {key : String} :
    chainCardinality? directory table nodes path key ≠ none ↔
      ∃ enclosing field children, (enclosing, .embed field children) ∈ chainEnds table nodes path ∧
        field.key = key := by
  -- Merging forgets which cardinalities there were, and not whether there was one.
  rw [chainCardinality?, ne_eq, Cardinality.mergeAll?_eq_none_iff, List.filterMap_eq_nil_iff]
  constructor
  · intro some
    by_contra absent
    refine some fun last member => ?_
    obtain ⟨enclosing, node⟩ := last
    cases node with
    | wildcard => rfl
    | column field => rfl
    | embed field children =>
      exact if_neg fun named => absent ⟨enclosing, field, children, member, named⟩
  · rintro ⟨enclosing, field, children, member, named⟩ none
    simpa [endCardinality?, named] using none _ member

/-- A projection loses nothing and invents nothing. Under a key at the end of a path, it holds the types
of the columns that chains along the path end in, named or covered by a wildcard, and holds a relation
if chains end in a related resource. Its cardinality is that of all these resources merged. -/
theorem project_occurs_iff (returned : project directory maxDepth table nodes = .ok shape)
    (path : List String) (key : String) :
    (∀ type, shape.Occurs path key (.scalar type) ↔
      ∃ last ∈ chainEnds table nodes path, EndSelects directory key type last) ∧
    ((∃ cardinality fields, shape.Occurs path key (.relation cardinality fields)) ↔
      ∃ enclosing field children, (enclosing, .embed field children) ∈ chainEnds table nodes path ∧
        field.key = key) ∧
    ∀ cardinality fields, shape.Occurs path key (.relation cardinality fields) →
      chainCardinality? directory table nodes path key = some cardinality := by
  have matched := matches_of_project returned
  have relation (cardinality : Cardinality) :
      (∃ fields, shape.Occurs path key (.relation cardinality fields)) ↔
        chainCardinality? directory table nodes path key = some cardinality := by
    rw [matched.normal.exists_occurs_relation_iff, matched.cardinality]
  refine ⟨matched.types path key, ?_, ?_⟩
  · rw [← chainCardinality?_ne_none_iff, Option.ne_none_iff_exists']
    exact exists_congr relation
  · intro cardinality fields occurs
    exact (relation cardinality).mp ⟨fields, occurs⟩

/-- A column and two related resources under one key, of which one is selected with a wildcard. -/
theorem project_occurs_iff_mixed :
    (Shape.Occurs [("x", .intersection [.scalar "text", .relation .oneOrMany [("id", .scalar "int")]])]
      ["x"] "id" (.scalar "int") ↔
        ∃ last ∈ chainEnds "t" [.column ⟨"x", "a", none⟩, .embed ⟨"x", "u", some "g"⟩ [.wildcard],
          .embed ⟨"x", "u", some "h"⟩ [.column (.plain "id")]] ["x"],
          EndSelects (.ofCatalog ⟨[("t", [("a", "text")]), ("u", [("id", "int")])],
            [⟨"t", "u", some "g", .one⟩, ⟨"t", "u", some "h", .many⟩]⟩) "id" "int" last) ∧
    chainCardinality? (.ofCatalog ⟨[("t", [("a", "text")]), ("u", [("id", "int")])],
        [⟨"t", "u", some "g", .one⟩, ⟨"t", "u", some "h", .many⟩]⟩) "t"
      [.column ⟨"x", "a", none⟩, .embed ⟨"x", "u", some "g"⟩ [.wildcard],
        .embed ⟨"x", "u", some "h"⟩ [.column (.plain "id")]] [] "x" = some .oneOrMany := by
  have returned : project (.ofCatalog ⟨[("t", [("a", "text")]), ("u", [("id", "int")])],
      [⟨"t", "u", some "g", .one⟩, ⟨"t", "u", some "h", .many⟩]⟩) 1 "t"
      [.column ⟨"x", "a", none⟩, .embed ⟨"x", "u", some "g"⟩ [.wildcard],
        .embed ⟨"x", "u", some "h"⟩ [.column (.plain "id")]] =
      .ok [("x", .intersection [.scalar "text", .relation .oneOrMany [("id", .scalar "int")]])] := by
    rfl
  refine ⟨(project_occurs_iff returned ["x"] "id").1 "int", ?_⟩
  refine (project_occurs_iff returned [] "x").2.2 _ [("id", .scalar "int")] ?_
  exact ⟨_, rfl, by decide⟩

end Projection

end SelectShape
