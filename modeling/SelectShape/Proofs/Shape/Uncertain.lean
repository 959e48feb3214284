import SelectShape.Proofs.Shape.Pairs

/-!
# Shapes without their cardinalities

Which keys a shape has, their order and the types under them are left when every cardinality is
overwritten. Merging decides none of these by a cardinality: on normal values it commutes with
overwriting.
-/
namespace SelectShape

namespace FieldShape

mutual

/-- The value with every cardinality in it, at any depth, left open. -/
def uncertain : FieldShape → FieldShape
  | .scalar type => .scalar type
  | .relation _ fields => .relation .oneOrMany (uncertainFields fields)
  | .intersection members => .intersection (uncertainMembers members)

def uncertainMembers : List FieldShape → List FieldShape
  | [] => []
  | member :: rest => member.uncertain :: uncertainMembers rest

def uncertainFields : List (String × FieldShape) → List (String × FieldShape)
  | [] => []
  | (key, value) :: rest => (key, value.uncertain) :: uncertainFields rest

end

end FieldShape

/-- The shape with every cardinality in it, at any depth, left open. -/
def Shape.uncertain (shape : Shape) : Shape := Entries.mapValues FieldShape.uncertain shape

open FieldShape

namespace FieldShape

variable {value a b : FieldShape}

theorem uncertainMembers_eq_map (members : List FieldShape) :
    uncertainMembers members = members.map uncertain := by
  induction members with
  | nil => rfl
  | cons member rest ih => rw [uncertainMembers, ih, List.map_cons]

theorem uncertainFields_eq (fields : List (String × FieldShape)) :
    uncertainFields fields = Shape.uncertain fields := by
  induction fields with
  | nil => rfl
  | cons field rest ih =>
    rw [uncertainFields, ih]
    rfl

@[simp]
theorem uncertain_scalar (type : String) : (scalar type).uncertain = .scalar type := by
  rw [uncertain]

theorem uncertain_relation (cardinality : Cardinality) (fields : List (String × FieldShape)) :
    (relation cardinality fields).uncertain = .relation .oneOrMany (Shape.uncertain fields) := by
  rw [uncertain, uncertainFields_eq]

theorem uncertain_intersection (members : List FieldShape) :
    (intersection members).uncertain = .intersection (members.map uncertain) := by
  rw [uncertain, uncertainMembers_eq_map]

theorem map_uncertain_scalar (types : List String) :
    (types.map scalar).map uncertain = types.map scalar := by
  rw [List.map_map]
  exact List.map_congr_left fun type _ => uncertain_scalar type

theorem members_uncertain (value : FieldShape) :
    value.uncertain.members = value.members.map uncertain := by
  cases value with
  | scalar type => rfl
  | relation cardinality fields => rfl
  | intersection members =>
    rw [uncertain_intersection]
    rfl

theorem scalar?_uncertain (value : FieldShape) : value.uncertain.scalar? = value.scalar? := by
  cases value with
  | scalar type => rfl
  | relation cardinality fields => rfl
  | intersection members => rfl

theorem relation?_uncertain (value : FieldShape) :
    value.uncertain.relation? = value.relation?.map fun pair => (.oneOrMany, pair.2.uncertain) := by
  cases value with
  | scalar type => rfl
  | relation cardinality fields =>
    rw [uncertain_relation]
    rfl
  | intersection members => rfl

end FieldShape

/-! ## Parts -/

namespace Parts

variable {parts others : Parts}

/-- The parts with every cardinality in them left open. -/
def uncertain (parts : Parts) : Parts where
  types := parts.types
  relation := parts.relation.map fun pair => (.oneOrMany, pair.2.uncertain)
  nested := parts.nested.map FieldShape.uncertain

theorem toList_uncertain (parts : Parts) :
    parts.uncertain.toList = parts.toList.map FieldShape.uncertain := by
  obtain ⟨types, relation, nested⟩ := parts
  rw [toList, toList, List.map_append, List.map_append, map_uncertain_scalar]
  cases relation with
  | none => rfl
  | some pair =>
    obtain ⟨cardinality, shape⟩ := pair
    simp [uncertain, uncertain_relation]

theorem toFieldShape_uncertain (parts : Parts) :
    parts.uncertain.toFieldShape = parts.toFieldShape.uncertain := by
  rw [toFieldShape, toFieldShape, toList_uncertain]
  -- A single part stays single.
  rcases parts.toList with _ | ⟨first, _ | ⟨second, rest⟩⟩
  · exact (uncertain_intersection []).symm
  · rfl
  · exact (uncertain_intersection (first :: second :: rest)).symm

end Parts

namespace FieldShape

variable {value a b : FieldShape}

theorem parts_uncertain (value : FieldShape) : value.uncertain.parts = value.parts.uncertain := by
  have types : value.uncertain.types = value.types := by
    rw [FieldShape.types, FieldShape.types, members_uncertain, List.filterMap_map]
    exact List.filterMap_congr fun member _ => scalar?_uncertain member
  have related : value.uncertain.related? =
      value.related?.map fun pair => (.oneOrMany, pair.2.uncertain) := by
    rw [related?, related?, members_uncertain, List.findSome?_map, List.map_findSome?]
    exact congrArg (value.members.findSome? ·) (funext relation?_uncertain)
  rw [parts, parts, types, related]
  rfl

theorem Normal.uncertain (normal : value.Normal) : value.uncertain.Normal := by
  induction normal with
  | scalar type =>
    rw [uncertain_scalar]
    exact .scalar type
  | relation unique values ih =>
    rw [uncertain_relation]
    apply Normal.relation
    · rwa [Shape.uncertain, Entries.keys_mapValues]
    · intro field member
      obtain ⟨before, among, rfl⟩ := List.mem_map.mp member
      exact ih before among
  | types ascending several =>
    rw [uncertain_intersection, map_uncertain_scalar]
    exact .types ascending several
  | mixed ascending several relation ih =>
    rw [uncertain_relation] at ih
    rw [uncertain_intersection, List.map_append, map_uncertain_scalar, List.map_singleton,
      uncertain_relation]
    exact .mixed ascending several ih

end FieldShape

namespace Shape

variable {shape other : Shape}

theorem Normal.uncertain (normal : shape.Normal) : shape.uncertain.Normal := by
  constructor
  · rw [Shape.uncertain, Entries.keys_mapValues]
    exact normal.unique
  · intro field member
    obtain ⟨before, among, rfl⟩ := List.mem_map.mp member
    exact (normal.values before among).uncertain

private theorem Normal.uncertain_merge_of_values (normal : shape.Normal) (normalOther : other.Normal)
    (values : ∀ field ∈ shape, ∀ b, b.Normal →
      (field.2.merge b).uncertain = field.2.uncertain.merge b.uncertain) :
    (shape.merge other).uncertain = shape.uncertain.merge other.uncertain := by
  apply Entries.mapValues_putAll normal.unique normalOther.unique
  intro key a b first second
  exact values _ (Entries.mem_of_get? first) b (normalOther.values _ (Entries.mem_of_get? second))

end Shape

namespace Parts

variable {parts others : Parts}

private theorem uncertain_join_of_related (related : ∀ first second, parts.relation = some first →
      others.relation = some second →
      (joinRelated first second).2.uncertain = first.2.uncertain.merge second.2.uncertain) :
    (parts.join others).uncertain = parts.uncertain.join others.uncertain := by
  simp only [join, uncertain, List.map_nil]
  cases first : parts.relation with
  | none => simp
  | some pair =>
    cases second : others.relation with
    | none => rfl
    | some added =>
      -- Two open cardinalities come to an open one.
      simp [joinRelated, Cardinality.merge_self, ← related pair added first second]

end Parts

namespace FieldShape

variable {value a b : FieldShape}

/-- What normal values come to, cardinalities apart, is decided by the values, cardinalities apart. -/
theorem Normal.uncertain_merge (normalA : a.Normal) (normalB : b.Normal) :
    (a.merge b).uncertain = a.uncertain.merge b.uncertain := by
  refine Normal.induction
    (P := fun a => ∀ b, b.Normal → (a.merge b).uncertain = a.uncertain.merge b.uncertain)
    ?_ normalA b normalB
  intro a normalA ih b normalB
  rw [merge_eq_toFieldShape normalA normalB,
    merge_eq_toFieldShape normalA.uncertain normalB.uncertain, parts_uncertain, parts_uncertain,
    ← Parts.toFieldShape_uncertain]
  congr 1
  apply Parts.uncertain_join_of_related
  rintro ⟨_, shape⟩ ⟨_, other⟩ first second
  exact (normalA.parts.related _ _ first).uncertain_merge_of_values
    (normalB.parts.related _ _ second) (ih _ _ first)

end FieldShape

namespace Shape

variable {shape other : Shape} {pairs : List (String × FieldShape)}

theorem Normal.uncertain_merge (normal : shape.Normal) (normalOther : other.Normal) :
    (shape.merge other).uncertain = shape.uncertain.merge other.uncertain :=
  normal.uncertain_merge_of_values normalOther fun field member _ normalValue =>
    (normal.values field member).uncertain_merge normalValue

/-- The shape of a list of pairs, even if keys are repeated. -/
theorem uncertain_ofPairs (values : ∀ pair ∈ pairs, pair.2.Normal) :
    (ofPairs pairs).uncertain = ofPairs (Shape.uncertain pairs) := by
  induction pairs using List.reverseRecOn with
  | nil => rfl
  | append_singleton pairs pair ih =>
    obtain ⟨before, last⟩ := List.forall_mem_append.mp values
    have single : Shape.Normal [pair] := normal_singleton (last pair List.mem_cons_self)
    have split : Shape.uncertain (pairs ++ [pair]) = Shape.uncertain pairs ++ Shape.uncertain [pair] :=
      List.map_append
    calc (ofPairs (pairs ++ [pair])).uncertain
        = ((ofPairs pairs).merge [pair]).uncertain := by rw [ofPairs, ofPairs, merge_append]
      _ = (ofPairs (Shape.uncertain pairs)).merge (Shape.uncertain [pair]) := by
        rw [(normal_ofPairs before).uncertain_merge single, ih before]
      _ = ofPairs (Shape.uncertain (pairs ++ [pair])) := by
        rw [split, ofPairs, ofPairs, merge_append]

end Shape

end SelectShape
