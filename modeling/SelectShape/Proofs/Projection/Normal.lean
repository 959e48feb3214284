import SelectShape.Proofs.Projection.Chains

/-!
# Normal form as an invariant

Whoever starts from normal values and only merges, puts values under keys, collects pairs and takes apart
what came out has normal values in hand at every moment. Main statement: this closure, and all that a
projection returns, is normal at every depth.
-/
namespace SelectShape

mutual

/-- A value in reach of normal ones: by merging, as a relation around a shape in reach, and out of a
shape or an intersection in reach. -/
inductive FieldShape.Built : FieldShape → Prop
  | given (normal : FieldShape.Normal value) : FieldShape.Built value
  | merge (first : FieldShape.Built value) (second : FieldShape.Built other) :
      FieldShape.Built (FieldShape.merge value other)
  | relation (cardinality : Cardinality) (inner : Shape.Built shape) :
      FieldShape.Built (.relation cardinality shape)
  | under (outer : Shape.Built shape) (member : (key, value) ∈ shape) : FieldShape.Built value
  | among (outer : FieldShape.Built (.intersection parts)) (member : value ∈ parts) :
      FieldShape.Built value

/-- A shape in reach of normal values: from the empty one by putting values under keys and by merging,
from pairs, and out of a relation in reach. -/
inductive Shape.Built : Shape → Prop
  | empty : Shape.Built []
  | insert (before : Shape.Built shape) (key : String) (added : FieldShape.Built value) :
      Shape.Built (Shape.insert shape key value)
  | merge (first : Shape.Built shape) (second : Shape.Built other) :
      Shape.Built (Shape.merge shape other)
  | collect (values : ∀ pair ∈ pairs, FieldShape.Built pair.2) : Shape.Built (.ofPairs pairs)
  | within (outer : FieldShape.Built (.relation cardinality shape)) : Shape.Built shape

end

/-- The value stands at some depth of the shape: under a key, in a relation or in an intersection. -/
inductive Shape.Holds (shape : Shape) : FieldShape → Prop
  | under (member : (key, value) ∈ shape) : Holds shape value
  | within (outer : Holds shape (.relation cardinality fields)) (member : (key, value) ∈ fields) :
      Holds shape value
  | among (outer : Holds shape (.intersection parts)) (member : value ∈ parts) : Holds shape value

namespace Shape

variable {shape : Shape} {key : String} {value : FieldShape}

theorem Normal.insert (normal : shape.Normal) (key : String) (normalValue : value.Normal) :
    (shape.insert key value).Normal :=
  normal.merge (normal_singleton normalValue)

theorem Normal.of_holds (normal : shape.Normal) (holds : shape.Holds value) : value.Normal := by
  induction holds with
  | under member => exact normal.values _ member
  | within _ member ih => exact (FieldShape.normal_relation_iff.mp ih).values _ member
  | among _ member ih => exact ih.of_mem member

end Shape

mutual

theorem FieldShape.Built.normal : FieldShape.Built value → FieldShape.Normal value
  | .given normal => normal
  | .merge first second => first.normal.merge second.normal
  | .relation _ inner => FieldShape.normal_relation_iff.mpr inner.normal
  | .under outer member => outer.normal.values _ member
  | .among outer member => outer.normal.of_mem member

theorem Shape.Built.normal : Shape.Built shape → Shape.Normal shape
  | .empty => Shape.normal_nil
  | .insert before key added => before.normal.insert key added.normal
  | .merge first second => first.normal.merge second.normal
  | .collect values => Shape.normal_ofPairs fun pair member => (values pair member).normal
  | .within outer => FieldShape.normal_relation_iff.mp outer.normal

end

namespace Projection

/-- Normal form is an invariant: of values and shapes made from normal values by any operations, at every
depth, and of what projections return, at every depth. So no intersection that comes up is empty, has a
single member, or stands in another one. -/
theorem normal_invariant :
    (∀ value : FieldShape, value.Built → value.Normal) ∧
    (∀ shape : Shape, shape.Built → shape.Normal ∧ ∀ value, shape.Holds value → value.Normal) ∧
    (∀ (directory : Directory) (maxDepth : Nat) (table : String) (nodes : List Node) (shape : Shape),
      project directory maxDepth table nodes = .ok shape →
        shape.Normal ∧ ∀ value, shape.Holds value → value.Normal) ∧
    ∀ members, (FieldShape.intersection members).Normal →
      2 ≤ members.length ∧ ∀ inner, .intersection inner ∉ members := by
  refine ⟨fun value built => built.normal, fun shape built => ?_, ?_, fun members normal => ?_⟩
  · exact ⟨built.normal, fun value holds => built.normal.of_holds holds⟩
  · intro directory maxDepth table nodes shape returned
    have normal := (matches_of_project returned).normal
    exact ⟨normal, fun value holds => normal.of_holds holds⟩
  · obtain ⟨several, types, related, _, _, rfl⟩ := FieldShape.normal_intersection_iff.mp normal
    refine ⟨several, fun inner nested => ?_⟩
    rcases List.mem_append.mp nested with scalar | last
    · simp at scalar
    · simp at last

/-- A column and a related resource under one key, the resource selected twice with two columns under one
key of its own: the values within are an intersection in a relation in an intersection. And a merged value
that is put under a key. -/
theorem normal_invariant_mixed :
    (FieldShape.intersection [.scalar "date", .scalar "int"]).Normal ∧
    Shape.Normal (.insert [] "k" (.merge (.scalar "int") (.scalar "date"))) := by
  have returned : project
      (.ofTables [("t", [("a", "text")]), ("u", [("id", "int"), ("at", "date")])]) 1 "t"
      [.column ⟨"x", "a", none⟩, .embed ⟨"x", "u", none⟩ [.column ⟨"k", "id", none⟩],
        .embed ⟨"x", "u", none⟩ [.column ⟨"k", "at", none⟩]] =
      .ok [("x", .intersection [.scalar "text",
        .relation .oneOrMany [("k", .intersection [.scalar "date", .scalar "int"])]])] := by
    rfl
  have outer : Shape.Holds [("x", .intersection [.scalar "text",
      .relation .oneOrMany [("k", .intersection [.scalar "date", .scalar "int"])]])]
      (.relation .oneOrMany [("k", .intersection [.scalar "date", .scalar "int"])]) :=
    .among (.under (List.mem_singleton_self _)) (by simp)
  have inner := outer.within (List.mem_singleton_self _)
  have built : Shape.Built (.insert [] "k" (.merge (.scalar "int") (.scalar "date"))) :=
    .insert .empty "k" (.merge (.given (.scalar "int")) (.given (.scalar "date")))
  exact ⟨(normal_invariant.2.2.1 _ _ _ _ _ returned).2 _ inner, (normal_invariant.2.1 _ built).1⟩

end Projection

end SelectShape
