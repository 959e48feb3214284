import Mathlib.Logic.Relation
import SelectShape.Proofs.Projection.Chains
import SelectShape.Proofs.Projection.Checks
import SelectShape.Proofs.Shape.Alike

/-!
# Order and repetition of siblings

Which checks a select list has, and what its chains end in, depends on which nodes stand side by side at
each level, not on their order or number. Main statement: when siblings have been swapped or repeated,
a projection succeeds if it did before, with a shape that differs in the order of keys at most.
-/
namespace SelectShape

/-- Two siblings are swapped, or a copy of a sibling is put anywhere among them. -/
inductive Node.SiblingChange : List Node → List Node → Prop
  | swap (before between after : List Node) (first second : Node) :
      SiblingChange (before ++ first :: (between ++ second :: after))
        (before ++ second :: (between ++ first :: after))
  | copy (before after : List Node) (present : node ∈ before ++ after) :
      SiblingChange (before ++ after) (before ++ node :: after)

/-- A node without the select list of its related resource. -/
def Node.outline : Node → Node
  | .embed field _ => .embed field []
  | other => other

theorem Node.SiblingChange.mem_iff {nodes others : List Node} (change : SiblingChange nodes others)
    {node : Node} : node ∈ nodes ↔ node ∈ others := by
  cases change with
  | swap before between after first second =>
    simp only [List.mem_append, List.mem_cons]
    tauto
  | copy before after present =>
    simp only [List.mem_append, List.mem_cons] at present ⊢
    constructor
    · tauto
    · rintro (member | rfl | member)
      · exact .inl member
      · exact present
      · exact .inr member

namespace Projection

variable {directory : Directory} {maxDepth : Nat} {table : String} {field : Field} {node : Node}
  {nodes others further children : List Node} {path : List String} {key type : String}

theorem mem_listChecks_iff {outer : Nat} {check : Check} :
    check ∈ listChecks table outer nodes ↔ ∃ node ∈ nodes, check ∈ nodeChecks table outer node := by
  induction nodes with
  | nil => simp [listChecks]
  | cons node rest ih => simp [listChecks, ih]

/-- The ends of the chains along a path, without the select lists of related resources. -/
def outlines (table : String) (nodes : List Node) (path : List String) : List (String × Node) :=
  (chainEnds table nodes path).map fun last => (last.1, last.2.outline)

theorem mem_outlines_nil_iff {last : String × Node} :
    last ∈ outlines table nodes [] ↔ ∃ node ∈ nodes, (table, node.outline) = last := by
  simp [outlines, chainEnds]

theorem mem_outlines_cons_iff {last : String × Node} :
    last ∈ outlines table nodes (key :: path) ↔ ∃ field children, .embed field children ∈ nodes ∧
      field.key = key ∧ last ∈ outlines field.source children path := by
  simp only [outlines, chainEnds, List.mem_map, List.mem_flatMap]
  constructor
  · rintro ⟨last, ⟨node, member, among⟩, rfl⟩
    cases node with
    | wildcard => cases among
    | column field => cases among
    | embed field children =>
      simp only [] at among
      split at among
      next named => exact ⟨field, children, member, named, last, among, rfl⟩
      next => cases among
  · rintro ⟨field, children, member, named, last, among, rfl⟩
    exact ⟨last, ⟨_, member, by simpa [named] using among⟩, rfl⟩

/-! ### What a chain ends in does not depend on further select lists -/

theorem endSelects_outline_iff :
    EndSelects directory key type (table, node.outline) ↔ EndSelects directory key type (table, node) := by
  cases node with
  | wildcard => rfl
  | column field => rfl
  | embed field children =>
    have none (children : List Node) :
        ¬ EndSelects directory key type (table, .embed field children) := by
      rintro ⟨columns, _, selects⟩
      cases selects
    exact iff_of_false (none []) (none children)

theorem endCardinality?_outline :
    endCardinality? directory key (table, node.outline) = endCardinality? directory key (table, node) := by
  cases node <;> rfl

theorem exists_endSelects_iff :
    (∃ last ∈ chainEnds table nodes path, EndSelects directory key type last) ↔
      ∃ last ∈ outlines table nodes path, EndSelects directory key type last := by
  simp [outlines, endSelects_outline_iff]

theorem chainCardinality?_eq_outlines :
    chainCardinality? directory table nodes path key =
      Cardinality.mergeAll? ((outlines table nodes path).filterMap (endCardinality? directory key)) := by
  rw [chainCardinality?, outlines, List.filterMap_map]
  congr 1
  exact List.filterMap_congr fun _ _ => endCardinality?_outline.symm

/-! ### Lists that ask for the same -/

/-- Two lists have the same checks, and chains with the same ends. -/
structure SameDemands (nodes others : List Node) : Prop where
  checks : ∀ table outer check, check ∈ listChecks table outer nodes ↔
    check ∈ listChecks table outer others
  outlines : ∀ table path last, last ∈ outlines table nodes path ↔ last ∈ outlines table others path

theorem SameDemands.refl (nodes : List Node) : SameDemands nodes nodes :=
  ⟨fun _ _ _ => .rfl, fun _ _ _ => .rfl⟩

theorem SameDemands.trans (first : SameDemands nodes others) (second : SameDemands others further) :
    SameDemands nodes further :=
  ⟨fun table outer check => (first.checks table outer check).trans (second.checks table outer check),
    fun table path last => (first.outlines table path last).trans (second.outlines table path last)⟩

theorem sameDemands_of_mem_iff (members : ∀ node, node ∈ nodes ↔ node ∈ others) :
    SameDemands nodes others := by
  refine ⟨fun table outer check => ?_, fun table path last => ?_⟩
  · simp only [mem_listChecks_iff, members]
  · cases path with
    | nil => simp only [mem_outlines_nil_iff, members]
    | cons key path => simp only [mem_outlines_cons_iff, members]

theorem SameDemands.inside (same : SameDemands children others) (before after : List Node)
    (field : Field) :
    SameDemands (before ++ .embed field children :: after) (before ++ .embed field others :: after) := by
  refine ⟨fun table outer check => ?_, fun table path last => ?_⟩
  · simp only [mem_listChecks_iff, List.mem_append, List.mem_cons, or_and_right, exists_or,
      exists_eq_left, nodeChecks, same.checks]
  · cases path with
    | nil =>
      simp only [mem_outlines_nil_iff, List.mem_append, List.mem_cons, or_and_right, exists_or,
        exists_eq_left, Node.outline]
    | cons key path =>
      simp only [mem_outlines_cons_iff, List.mem_append, List.mem_cons, or_and_right, exists_or,
        Node.embed.injEq, and_assoc, exists_eq_left, exists_and_left, same.outlines]

theorem sameDemands_of_change (changed : Node.AtSomeLevel Node.SiblingChange nodes others) :
    SameDemands nodes others := by
  induction changed with
  | here change => exact sameDemands_of_mem_iff fun _ => change.mem_iff
  | inside before after field _ ih => exact ih.inside before after field

theorem sameDemands_of_changes
    (changed : Relation.ReflTransGen (Node.AtSomeLevel Node.SiblingChange) nodes others) :
    SameDemands nodes others := by
  induction changed with
  | refl => exact .refl nodes
  | tail _ last ih => exact ih.trans (sameDemands_of_change last)

theorem SameDemands.succeeds_iff (same : SameDemands nodes others) :
    (∃ shape, project directory maxDepth table nodes = .ok shape) ↔
      ∃ shape, project directory maxDepth table others = .ok shape := by
  simp only [exists_project_eq_ok_iff, Projection.checks, List.forall_mem_cons, same.checks]

theorem SameDemands.alike {shape other : Shape} (same : SameDemands nodes others)
    (matched : Matches directory table nodes shape) (matchedOther : Matches directory table others other) :
    shape.Alike other := by
  refine ⟨fun path key type => ?_, fun path key => ?_⟩
  · rw [matched.types, matchedOther.types, exists_endSelects_iff, exists_endSelects_iff]
    simp only [same.outlines]
  · rw [matched.cardinality, matchedOther.cardinality, chainCardinality?_eq_outlines,
      chainCardinality?_eq_outlines]
    refine Cardinality.mergeAll?_congr fun cardinality => ?_
    simp only [List.mem_filterMap, same.outlines]

/-- When siblings have been swapped and repeated, any number of times and at any level, a projection
succeeds exactly if it did before, and both shapes are equal up to the order of keys. -/
theorem project_siblings
    (changed : Relation.ReflTransGen (Node.AtSomeLevel Node.SiblingChange) nodes others)
    (directory : Directory) (maxDepth : Nat) (table : String) :
    ((∃ shape, project directory maxDepth table nodes = .ok shape) ↔
      ∃ shape, project directory maxDepth table others = .ok shape) ∧
    ∀ shape other, project directory maxDepth table nodes = .ok shape →
      project directory maxDepth table others = .ok other → shape.same other := by
  have same := sameDemands_of_changes changed
  refine ⟨same.succeeds_iff, fun shape other returned returnedOther => ?_⟩
  have matched := matches_of_project returned
  have matchedOther := matches_of_project returnedOther
  exact (same.alike matched matchedOther).same matched.normal matchedOther.normal

/-- A column and a related resource under one key change places, and a column of the resource is
repeated: the order of keys in the resource is all that changes. -/
theorem project_siblings_mixed :
    let nodes : List Node :=
      [.column ⟨"x", "a", none⟩, .embed ⟨"x", "u", none⟩ [.column (.plain "id"), .column (.plain "at")]]
    let others : List Node :=
      [.embed ⟨"x", "u", none⟩ [.column (.plain "at"), .column (.plain "id"), .column (.plain "at")],
        .column ⟨"x", "a", none⟩]
    let directory : Directory :=
      .ofTables [("t", [("a", "text")]), ("u", [("id", "int"), ("at", "date")])]
    let shape : Shape := [("x", .intersection [.scalar "text",
      .relation .oneOrMany [("id", .scalar "int"), ("at", .scalar "date")]])]
    let other : Shape := [("x", .intersection [.scalar "text",
      .relation .oneOrMany [("at", .scalar "date"), ("id", .scalar "int")]])]
    Relation.ReflTransGen (Node.AtSomeLevel Node.SiblingChange) nodes others ∧
    project directory 1 "t" nodes = .ok shape ∧ project directory 1 "t" others = .ok other ∧
    shape.same other := by
  intro nodes others directory shape other
  have swapped : Node.AtSomeLevel Node.SiblingChange nodes
      [.embed ⟨"x", "u", none⟩ [.column (.plain "id"), .column (.plain "at")],
        .column ⟨"x", "a", none⟩] := .here (.swap [] [] [] _ _)
  have changed : Relation.ReflTransGen (Node.AtSomeLevel Node.SiblingChange) nodes others :=
    .tail (.single swapped) (.inside [] _ ⟨"x", "u", none⟩
      (.here (.copy [] [.column (.plain "id"), .column (.plain "at")] (by decide))))
  have returned : project directory 1 "t" nodes = .ok shape := by rfl
  have returnedOther : project directory 1 "t" others = .ok other := by rfl
  have same := (project_siblings changed directory 1 "t").2 shape other returned returnedOther
  exact ⟨changed, returned, returnedOther, same⟩

end Projection

end SelectShape
