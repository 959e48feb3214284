import SelectShape.Proofs.Projection.Chains
import SelectShape.Proofs.Shape.Uncertain

/-!
# What relationships and hints decide

A catalog's relationships, and the hints that choose among them, are read for cardinalities. Main
statement: they decide nothing else. Whatever they are, a projection fails with the same error or has the
same shape, cardinalities apart, and that shape is the one without any relationships.
-/
namespace SelectShape

/-- The field without its hint. -/
def Field.unhinted (field : Field) : Field := { field with hint := none }

namespace Node

mutual

/-- The node without any hints, its own and those below it. -/
def unhinted : Node → Node
  | .wildcard => .wildcard
  | .column field => .column field.unhinted
  | .embed field children => .embed field.unhinted (unhintedList children)

def unhintedList : List Node → List Node
  | [] => []
  | node :: rest => node.unhinted :: unhintedList rest

end

end Node

/-- Two computations that agree but for what a function forgets fail alike, or both succeed. -/
private theorem error_or_ok_of_map_eq {first second : Except ε α} {f : α → β}
    (same : first.map f = second.map f) :
    (∃ error, first = .error error ∧ second = .error error) ∨
      ∃ value other, first = .ok value ∧ second = .ok other ∧ f value = f other := by
  cases first with
  | error error =>
    cases second with
    | error other =>
      cases same
      exact .inl ⟨error, rfl, rfl⟩
    | ok other => cases same
  | ok value =>
    cases second with
    | error other => cases same
    | ok other => exact .inr ⟨value, other, rfl, rfl, Except.ok.inj same⟩

/-- The directory with no relationship declared. -/
def Directory.unrelated (directory : Directory) : Directory :=
  { directory with cardinality? := fun _ _ _ => none }

namespace Projection

variable {directory : Directory} {maxDepth depth : Nat} {table : String} {columns : Table}
  {field : Field} {node : Node} {children nodes : List Node}

theorem tableOf_unrelated (name : String) :
    tableOf directory.unrelated name = tableOf directory name := rfl

/-! ### Relationships -/

theorem uncertain_columnEntries (columns : Table) :
    Shape.uncertain (columnEntries columns) = columnEntries columns := by
  rw [Shape.uncertain, Entries.mapValues, columnEntries, List.map_map]
  exact List.map_congr_left fun column _ => by simp

theorem nodeEntries_column_unrelated :
    nodeEntries directory.unrelated maxDepth table columns depth (.column field) =
      (nodeEntries directory maxDepth table columns depth (.column field)).map Shape.uncertain := by
  rw [nodeEntries, nodeEntries, columnEntry]
  cases columns.get? field.source with
  | none => rfl
  | some type => rfl

theorem nodeEntries_embed_unrelated
    (inside : ∀ related, directory.table? field.source = some related →
      listEntries directory.unrelated maxDepth field.source related (depth + 1) children =
        (listEntries directory maxDepth field.source related (depth + 1) children).map
          Shape.uncertain) :
    nodeEntries directory.unrelated maxDepth table columns depth (.embed field children) =
      (nodeEntries directory maxDepth table columns depth (.embed field children)).map
        Shape.uncertain := by
  rw [nodeEntries, nodeEntries, tableOf_unrelated]
  by_cases deep : maxDepth ≤ depth
  · rw [if_pos deep, if_pos deep]
    rfl
  · rw [if_neg deep, if_neg deep]
    cases found : tableOf directory field.source with
    | error error => rfl
    | ok related =>
      have known := tableOf_eq_ok_iff.mp found
      simp only [bind, Except.bind, inside related known]
      cases listed : listEntries directory maxDepth field.source related (depth + 1) children with
      | error error => rfl
      | ok entries =>
        have normal := (listEntries_matches known listed).1
        have relation (cardinality : Cardinality) :
            (FieldShape.relation cardinality (Shape.ofPairs entries)).uncertain =
              .relation .oneOrMany (Shape.ofPairs (Shape.uncertain entries)) := by
          rw [FieldShape.uncertain_relation, Shape.uncertain_ofPairs normal]
        exact congrArg (fun value => Except.ok [(field.key, value)]) (relation _).symm

theorem listEntries_cons_unrelated
    (own : nodeEntries directory.unrelated maxDepth table columns depth node =
      (nodeEntries directory maxDepth table columns depth node).map Shape.uncertain)
    (later : listEntries directory.unrelated maxDepth table columns depth nodes =
      (listEntries directory maxDepth table columns depth nodes).map Shape.uncertain) :
    listEntries directory.unrelated maxDepth table columns depth (node :: nodes) =
      (listEntries directory maxDepth table columns depth (node :: nodes)).map Shape.uncertain := by
  rw [listEntries, listEntries, own, later]
  cases nodeEntries directory maxDepth table columns depth node with
  | error error => rfl
  | ok first =>
    cases listEntries directory maxDepth table columns depth nodes with
    | error error => rfl
    | ok others => exact congrArg Except.ok List.map_append.symm

/-- Without relationships, a list contributes what it does with them, cardinalities apart. -/
theorem listEntries_unrelated (known : directory.table? table = some columns) :
    listEntries directory.unrelated maxDepth table columns depth nodes =
      (listEntries directory maxDepth table columns depth nodes).map Shape.uncertain := by
  induction nodes using Node.list_induction generalizing table columns depth with
  | nil => rfl
  | wildcard rest ih =>
    apply listEntries_cons_unrelated _ (ih known)
    exact congrArg Except.ok (uncertain_columnEntries columns).symm
  | column field rest ih => exact listEntries_cons_unrelated nodeEntries_column_unrelated (ih known)
  | embed field children rest ihChildren ih =>
    apply listEntries_cons_unrelated _ (ih known)
    exact nodeEntries_embed_unrelated fun _ knownRelated => ihChildren knownRelated

theorem project_unrelated :
    project directory.unrelated maxDepth table nodes =
      (project directory maxDepth table nodes).map Shape.uncertain := by
  rw [project, project, tableOf_unrelated]
  cases found : tableOf directory table with
  | error error => rfl
  | ok columns =>
    have known := tableOf_eq_ok_iff.mp found
    simp only [bind, Except.bind, listEntries_unrelated known]
    cases listed : listEntries directory maxDepth table columns 0 nodes with
    | error error => rfl
    | ok entries =>
      have normal := (listEntries_matches known listed).1
      exact congrArg Except.ok (Shape.uncertain_ofPairs normal).symm

/-! ### Hints -/

/-- Where no relationship is declared, a list contributes what it does without its hints. -/
theorem listEntries_unhinted :
    listEntries directory.unrelated maxDepth table columns depth (Node.unhintedList nodes) =
      listEntries directory.unrelated maxDepth table columns depth nodes := by
  induction nodes using Node.list_induction generalizing table columns depth with
  | nil => rfl
  | wildcard rest ih => rw [Node.unhintedList, Node.unhinted, listEntries, listEntries, ih]
  | column field rest ih =>
    rw [Node.unhintedList, Node.unhinted, listEntries, listEntries, ih]
    rfl
  | embed field children rest ihChildren ih =>
    have own : nodeEntries directory.unrelated maxDepth table columns depth
          (.embed field.unhinted (Node.unhintedList children)) =
        nodeEntries directory.unrelated maxDepth table columns depth (.embed field children) := by
      simp only [nodeEntries, Field.unhinted, ihChildren]
      rfl
    rw [Node.unhintedList, Node.unhinted, listEntries, listEntries, ih, own]

theorem project_unhinted :
    project directory.unrelated maxDepth table (Node.unhintedList nodes) =
      project directory.unrelated maxDepth table nodes := by
  simp only [project, listEntries_unhinted]

/-- Two catalogs declare the same tables, and two select lists differ in their hints at most. Then both
projections fail with the same error, or both succeed with shapes that are identical once their
cardinalities are left open. That error or shape is what the tables alone lead to, whatever the hints. -/
theorem project_uncertain_eq (tables : Entries Table) (relationships others : List Relationship)
    (maxDepth : Nat) (table : String) {nodes counterparts : List Node}
    (same : Node.unhintedList nodes = Node.unhintedList counterparts) :
    (∃ error, project (.ofCatalog ⟨tables, relationships⟩) maxDepth table nodes = .error error ∧
      project (.ofCatalog ⟨tables, others⟩) maxDepth table counterparts = .error error ∧
      ∀ list, Node.unhintedList list = Node.unhintedList nodes →
        project (.ofTables tables) maxDepth table list = .error error) ∨
    ∃ shape other, project (.ofCatalog ⟨tables, relationships⟩) maxDepth table nodes = .ok shape ∧
      project (.ofCatalog ⟨tables, others⟩) maxDepth table counterparts = .ok other ∧
      shape.uncertain = other.uncertain ∧
      ∀ list, Node.unhintedList list = Node.unhintedList nodes →
        project (.ofTables tables) maxDepth table list = .ok shape.uncertain := by
  have bare (relationships : List Relationship) :
      (Directory.ofCatalog ⟨tables, relationships⟩).unrelated = .ofTables tables := rfl
  have alike (list : List Node) (equal : Node.unhintedList list = Node.unhintedList nodes) :
      project (.ofTables tables) maxDepth table list =
        project (.ofTables tables) maxDepth table nodes := by
    rw [← bare relationships, ← project_unhinted, equal, project_unhinted]
  have first : project (.ofTables tables) maxDepth table nodes =
      (project (.ofCatalog ⟨tables, relationships⟩) maxDepth table nodes).map Shape.uncertain := by
    rw [← bare relationships, project_unrelated]
  have second : project (.ofTables tables) maxDepth table nodes =
      (project (.ofCatalog ⟨tables, others⟩) maxDepth table counterparts).map Shape.uncertain := by
    rw [← alike counterparts same.symm, ← bare others, project_unrelated]
  rcases error_or_ok_of_map_eq (first.symm.trans second) with ⟨error, failed, failedOther⟩ |
    ⟨shape, other, returned, returnedOther, equal⟩
  · left
    refine ⟨error, failed, failedOther, fun list same => ?_⟩
    rw [alike list same, first, failed]
    rfl
  · right
    refine ⟨shape, other, returned, returnedOther, equal, fun list same => ?_⟩
    rw [alike list same, first, returned]
    rfl

/-- A column and a related resource under one key, and the resource again under another key. With hints one
resource is a single row and the other one many, without hints both are many. A misspelt column of the
resource is refused with the same suggestion. -/
theorem project_uncertain_eq_hinted :
    Node.unhintedList [.column ⟨"x", "a", none⟩, .embed ⟨"x", "u", some "g"⟩ [.wildcard],
        .embed ⟨"y", "u", some "h"⟩ [.wildcard, .column ⟨"id", "at", some "g"⟩]] =
      Node.unhintedList [.column ⟨"x", "a", some "h"⟩, .embed ⟨"x", "u", none⟩ [.wildcard],
        .embed ⟨"y", "u", none⟩ [.wildcard, .column ⟨"id", "at", none⟩]] ∧
    Shape.uncertain [("x", .intersection [.scalar "text",
          .relation .one [("id", .scalar "int"), ("at", .scalar "date")]]),
        ("y", .relation .many [("id", .intersection [.scalar "date", .scalar "int"]),
          ("at", .scalar "date")])] =
      Shape.uncertain [("x", .intersection [.scalar "text",
          .relation .many [("id", .scalar "int"), ("at", .scalar "date")]]),
        ("y", .relation .many [("id", .intersection [.scalar "date", .scalar "int"]),
          ("at", .scalar "date")])] ∧
    project (.ofTables [("t", [("a", "text")]), ("u", [("id", "int"), ("at", "date")])]) 1 "t"
      [.embed ⟨"x", "u", none⟩ [.column (.plain "ats")]] =
        .error (.unknownColumn "u" "ats" (some "at")) := by
  have same : Node.unhintedList [.column ⟨"x", "a", none⟩, .embed ⟨"x", "u", some "g"⟩ [.wildcard],
        .embed ⟨"y", "u", some "h"⟩ [.wildcard, .column ⟨"id", "at", some "g"⟩]] =
      Node.unhintedList [.column ⟨"x", "a", some "h"⟩, .embed ⟨"x", "u", none⟩ [.wildcard],
        .embed ⟨"y", "u", none⟩ [.wildcard, .column ⟨"id", "at", none⟩]] := by
    rfl
  refine ⟨same, ?_, ?_⟩
  · rcases project_uncertain_eq [("t", [("a", "text")]), ("u", [("id", "int"), ("at", "date")])]
        [⟨"t", "u", some "g", .one⟩, ⟨"t", "u", some "h", .many⟩] [⟨"t", "u", none, .many⟩] 1 "t"
        same with ⟨error, failed, _⟩ | ⟨shape, other, first, second, equal, _⟩
    · cases failed
    · cases first
      cases second
      exact equal
  · have same : Node.unhintedList [.embed ⟨"x", "u", some "g"⟩ [.column (.plain "ats")]] =
        Node.unhintedList [.embed ⟨"x", "u", none⟩ [.column (.plain "ats")]] := by
      rfl
    rcases project_uncertain_eq [("t", [("a", "text")]), ("u", [("id", "int"), ("at", "date")])]
        [⟨"t", "u", some "g", .one⟩] [] 1 "t" same with ⟨error, failed, _, bare⟩ | ⟨shape, _, returned, _⟩
    · cases failed
      have close : Suggestion.closest? "ats" ["id", "at"] = some "at" := by decide
      rw [← close]
      exact bare _ same.symm
    · cases returned

end Projection

end SelectShape
