import Mathlib.Data.List.Forall2
import Mathlib.Logic.Relation
import SelectShape.Proofs.Catalog.Relationships
import SelectShape.Proofs.Projection.Chains

/-!
# The order of relationships

A projection looks relationships up for the pairs of tables that its select list follows, and finds what
is declared for them. Main statement: neither the order of consistent relationships, nor repetitions
among them, nor relationships that the list does not follow make a difference; and the cardinality under
a key is that of all related resources selected there, each as it is declared.
-/
namespace SelectShape

namespace Node

mutual

/-- The pairs of tables between which a node of a list on `table` leads, and the nodes within it: from
the table that encloses a related resource to the table of the resource. -/
def follows (table : String) : Node → List (String × String)
  | .wildcard | .column _ => []
  | .embed field children => (table, field.source) :: listFollows field.source children

def listFollows (table : String) : List Node → List (String × String)
  | [] => []
  | node :: rest => node.follows table ++ listFollows table rest

end

end Node

/-- Changes to the relationships of a catalog that a select list does not notice. -/
inductive Catalog.Redeclared (table : String) (nodes : List Node) :
    List Relationship → List Relationship → Prop
  | permuted {relationships others : List Relationship} (permutation : relationships.Perm others) :
      Redeclared table nodes relationships others
  | repeated (before after : List Relationship) (member : relationship ∈ before ++ after) :
      Redeclared table nodes (before ++ after) (before ++ relationship :: after)
  | added (before after : List Relationship)
      (unfollowed : (relationship.origin, relationship.target) ∉ Node.listFollows table nodes) :
      Redeclared table nodes (before ++ after) (before ++ relationship :: after)

variable {relationships others : List Relationship}

open Catalog

/-- The pairs of tables that a list follows keep their relationships. -/
theorem Catalog.Redeclared.sameBetween {table origin target : String} {nodes : List Node}
    (changed : Redeclared table nodes relationships others)
    (follows : (origin, target) ∈ Node.listFollows table nodes) :
    SameBetween relationships others origin target := by
  intro hint cardinality
  cases changed with
  | permuted permutation => exact permutation.mem_iff
  | @repeated relationship before after member =>
    simp only [List.mem_append, List.mem_cons] at member ⊢
    constructor
    · tauto
    · rintro (early | rfl | late)
      · exact .inl early
      · exact member
      · exact .inr late
  | @added relationship before after unfollowed =>
    have other : (⟨origin, target, hint, cardinality⟩ : Relationship) ≠ relationship := by
      rintro rfl
      exact unfollowed follows
    simp [other]

namespace Projection

variable {directory other : Directory} {maxDepth depth : Nat} {table : String} {columns : Table}
  {nodes : List Node}

/-- Directories with the same tables find the same cardinalities where a select list follows a
relationship. -/
structure AgreeAlong (directory other : Directory) (table : String) (nodes : List Node) : Prop where
  tables : directory.table? = other.table?
  names : directory.tableNames = other.tableNames
  cardinalities : ∀ origin field, (origin, field.source) ∈ Node.listFollows table nodes →
    cardinalityOf directory origin field = cardinalityOf other origin field

theorem AgreeAlong.tail {node : Node} (agree : AgreeAlong directory other table (node :: nodes)) :
    AgreeAlong directory other table nodes where
  tables := agree.tables
  names := agree.names
  cardinalities origin field follows :=
    agree.cardinalities origin field (List.mem_append_right _ follows)

theorem AgreeAlong.children {field : Field} {children : List Node}
    (agree : AgreeAlong directory other table (.embed field children :: nodes)) :
    AgreeAlong directory other field.source children where
  tables := agree.tables
  names := agree.names
  cardinalities origin field follows :=
    agree.cardinalities origin field (List.mem_append_left _ (List.mem_cons_of_mem _ follows))

theorem AgreeAlong.tableOf_eq (agree : AgreeAlong directory other table nodes) (name : String) :
    tableOf directory name = tableOf other name := by
  rw [tableOf, tableOf, agree.tables, agree.names]

theorem AgreeAlong.listEntries_eq (agree : AgreeAlong directory other table nodes) :
    listEntries directory maxDepth table columns depth nodes =
      listEntries other maxDepth table columns depth nodes := by
  induction nodes using Node.list_induction generalizing table columns depth with
  | nil => rfl
  | wildcard rest ih => rw [listEntries, listEntries, ih agree.tail, nodeEntries, nodeEntries]
  | column field rest ih => rw [listEntries, listEntries, ih agree.tail, nodeEntries, nodeEntries]
  | embed field children rest ihChildren ih =>
    have own := agree.cardinalities table field (List.mem_append_left _ List.mem_cons_self)
    have inside (related : Table) :
        listEntries directory maxDepth field.source related (depth + 1) children =
          listEntries other maxDepth field.source related (depth + 1) children :=
      ihChildren agree.children
    rw [listEntries, listEntries, ih agree.tail, nodeEntries, nodeEntries, agree.tableOf_eq, own]
    simp only [inside]

theorem AgreeAlong.project_eq (agree : AgreeAlong directory other table nodes) :
    project directory maxDepth table nodes = project other maxDepth table nodes := by
  rw [project, project, agree.tableOf_eq]
  simp only [agree.listEntries_eq]

theorem project_eq_of_redeclared {tables : Entries Table} (consistent : Consistent relationships)
    (changed : Relation.ReflTransGen (Redeclared table nodes) relationships others) :
    project (.ofCatalog ⟨tables, others⟩) maxDepth table nodes =
      project (.ofCatalog ⟨tables, relationships⟩) maxDepth table nodes := by
  have same {origin target : String} (follows : (origin, target) ∈ Node.listFollows table nodes) :
      SameBetween relationships others origin target := by
    induction changed with
    | refl => exact fun _ _ => .rfl
    | tail _ last ih => exact fun hint cardinality =>
        (ih hint cardinality).trans (last.sameBetween follows hint cardinality)
  have agree : AgreeAlong (.ofCatalog ⟨tables, relationships⟩) (.ofCatalog ⟨tables, others⟩) table
      nodes :=
    ⟨rfl, rfl, fun _ field follows => getD_cardinality?_eq consistent (same follows) field.hint⟩
  exact agree.project_eq.symm

/-! ### Cardinalities -/

/-- The related resource under a key that a chain ends in, with the table that encloses it. -/
def endResource? (key : String) : String × Node → Option (String × Field)
  | (table, .embed field _) => if field.key = key then some (table, field) else none
  | _ => none

theorem endCardinality?_eq (directory : Directory) (key : String) (last : String × Node) :
    endCardinality? directory key last =
      (endResource? key last).map fun (enclosing, field) => cardinalityOf directory enclosing field := by
  obtain ⟨enclosing, node⟩ := last
  cases node with
  | wildcard => rfl
  | column field => rfl
  | embed field children =>
    rw [endCardinality?, endResource?]
    split <;> rfl

theorem chainCardinality?_eq_mergeAll? (directory : Directory) (table : String) (nodes : List Node)
    (path : List String) (key : String) :
    chainCardinality? directory table nodes path key =
      Cardinality.mergeAll? (((chainEnds table nodes path).filterMap (endResource? key)).map
        fun (enclosing, field) => cardinalityOf directory enclosing field) := by
  rw [chainCardinality?, List.map_filterMap, funext (endCardinality?_eq directory key)]

/-- The cardinality that is declared for a related resource in a table. -/
def DeclaresFor (relationships : List Relationship) (resource : String × Field)
    (cardinality : Cardinality) : Prop :=
  Declares relationships resource.1 resource.2.source resource.2.hint cardinality

/-- The relationships of a catalog may be permuted and repeated, and others may be added that a select
list does not follow, without a change to its projection, as long as no two with the same hint between
the same tables differ. A relation in a shape has the cardinality to which those of all related resources
merge that are selected there, each of them as it is declared, which is in one way only. -/
theorem project_redeclared (tables : Entries Table) {relationships : List Relationship}
    (consistent : Consistent relationships) :
    (∀ (others : List Relationship) (maxDepth : Nat) (table : String) (nodes : List Node),
      Relation.ReflTransGen (Redeclared table nodes) relationships others →
      project (.ofCatalog ⟨tables, others⟩) maxDepth table nodes =
        project (.ofCatalog ⟨tables, relationships⟩) maxDepth table nodes) ∧
    (∀ (maxDepth : Nat) (table : String) (nodes : List Node) (shape : Shape) (path : List String)
      (key : String) (cardinality : Cardinality) (fields : Shape),
      project (.ofCatalog ⟨tables, relationships⟩) maxDepth table nodes = .ok shape →
      shape.Occurs path key (.relation cardinality fields) →
      ∃ declared, List.Forall₂ (DeclaresFor relationships)
          ((chainEnds table nodes path).filterMap (endResource? key)) declared ∧
        Cardinality.mergeAll? declared = some cardinality) ∧
    ∀ origin target hint, ∃! cardinality, Declares relationships origin target hint cardinality := by
  refine ⟨fun _ _ _ _ => project_eq_of_redeclared consistent, ?_, fun origin target hint => ?_⟩
  · intro maxDepth table nodes shape path key cardinality fields returned occurs
    have matched := matches_of_project returned
    have merged := (matched.normal.exists_occurs_relation_iff).mp ⟨fields, occurs⟩
    rw [matched.cardinality, chainCardinality?_eq_mergeAll?] at merged
    refine ⟨_, ?_, merged⟩
    rw [List.forall₂_map_right_iff, List.forall₂_same]
    exact fun resource _ => declares_cardinality? ⟨tables, relationships⟩ _ _ _
  · have declares := declares_cardinality? ⟨tables, relationships⟩ origin target hint
    exact ⟨_, declares, fun _ again => again.unique consistent declares⟩

/-- Of two resources under one key one is a single row by its hint. For the hint of the other there is no
relationship, and those there are differ, so nothing is certain. Another order, a repetition, and a
relationship back to the first table change nothing. -/
theorem project_redeclared_hinted :
    Consistent [⟨"t", "u", some "g", .one⟩, ⟨"t", "u", none, .many⟩] ∧
    project (.ofCatalog ⟨[("t", []), ("u", [("id", "int")])],
        [⟨"t", "u", none, .many⟩, ⟨"u", "t", some "g", .many⟩, ⟨"t", "u", some "g", .one⟩,
          ⟨"t", "u", none, .many⟩]⟩) 1 "t"
      [.embed ⟨"x", "u", some "g"⟩ [.wildcard], .embed ⟨"x", "u", some "h"⟩ []] =
        .ok [("x", .relation .oneOrMany [("id", .scalar "int")])] ∧
    ∃ declared, List.Forall₂
        (DeclaresFor [⟨"t", "u", some "g", .one⟩, ⟨"t", "u", none, .many⟩])
        [("t", ⟨"x", "u", some "g"⟩), ("t", ⟨"x", "u", some "h"⟩)] declared ∧
      Cardinality.mergeAll? declared = some .oneOrMany := by
  have consistent : Consistent [⟨"t", "u", some "g", .one⟩, ⟨"t", "u", none, .many⟩] := by
    intro origin target name first second member other
    simp only [List.mem_cons, Relationship.mk.injEq, reduceCtorEq, List.not_mem_nil, false_and, and_false,
      or_false] at member other
    rw [member.2.2.2, other.2.2.2]
  have returned : project (.ofCatalog ⟨[("t", []), ("u", [("id", "int")])],
      [⟨"t", "u", some "g", .one⟩, ⟨"t", "u", none, .many⟩]⟩) 1 "t"
      [.embed ⟨"x", "u", some "g"⟩ [.wildcard], .embed ⟨"x", "u", some "h"⟩ []] =
        .ok [("x", .relation .oneOrMany [("id", .scalar "int")])] := by rfl
  refine ⟨consistent, ?_, ?_⟩
  · rw [← returned]
    refine (project_redeclared _ consistent).1 _ _ _ _ ?_
    refine .tail (.tail (.single (.permuted (.swap _ _ _))) ?_) (.added [_] [_, _] (by decide))
    exact .repeated [_, _] [] (by simp)
  · exact (project_redeclared _ consistent).2.1 _ _ _ _ [] "x" _ [("id", .scalar "int")] returned
      ⟨_, rfl, by decide⟩

end Projection

end SelectShape
