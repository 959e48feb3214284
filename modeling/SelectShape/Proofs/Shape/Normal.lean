import SelectShape.Proofs.Shape.Levels
import SelectShape.Proofs.Shape.Types

/-!
# Normal values

The values that merging leads to. A normal value is determined by its parts, ascending types and at most
one relation, and the parts of what two normal values come to are the union of their parts.
-/
namespace SelectShape

/-- A value as merging leaves it: a type, a relation of normal values under keys of their own, or an
intersection of ascending types, two of them or more, or of ascending types and one relation. -/
inductive FieldShape.Normal : FieldShape → Prop where
  | scalar (type : String) : Normal (.scalar type)
  | relation {cardinality : Cardinality} {fields : List (String × FieldShape)}
      (unique : (Entries.keys fields).Nodup) (values : ∀ field ∈ fields, Normal field.2) :
      Normal (.relation cardinality fields)
  | types {types : List String} (ascending : types.Pairwise (· < ·)) (several : 2 ≤ types.length) :
      Normal (.intersection (types.map .scalar))
  | mixed {types : List String} {cardinality : Cardinality} {fields : List (String × FieldShape)}
      (ascending : types.Pairwise (· < ·)) (several : types ≠ [])
      (relation : Normal (.relation cardinality fields)) :
      Normal (.intersection (types.map .scalar ++ [.relation cardinality fields]))

/-- A shape of normal values under keys of their own. -/
structure Shape.Normal (shape : Shape) : Prop where
  unique : shape.keys.Nodup
  values : ∀ field ∈ shape, field.2.Normal

namespace FieldShape

theorem normal_relation_iff {cardinality : Cardinality} {fields : List (String × FieldShape)} :
    Normal (.relation cardinality fields) ↔ Shape.Normal fields := by
  constructor
  · rintro (_ | ⟨unique, values⟩)
    exact ⟨unique, values⟩
  · rintro ⟨unique, values⟩
    exact .relation unique values

theorem filterMap_scalar? (types : List String) : (types.map scalar).filterMap scalar? = types := by
  simp [List.filterMap_map, Function.comp_def, scalar?]

theorem findSome?_relation? (types : List String) : (types.map scalar).findSome? relation? = none := by
  simp [relation?]

/-- The types among the members of a value. -/
def types (value : FieldShape) : List String := value.members.filterMap scalar?

/-- The relation among the members of a value. -/
def related? (value : FieldShape) : Option (Cardinality × Shape) := value.members.findSome? relation?

/-- The types and the relation of a value. -/
def parts (value : FieldShape) : Parts := ⟨value.types, value.related?, []⟩

end FieldShape

open FieldShape

namespace Parts

variable {parts others further : Parts}

/-- Parts of a normal value. -/
structure Normal (parts : Parts) : Prop where
  ascending : parts.types.Pairwise (· < ·)
  related : ∀ cardinality shape, parts.relation = some (cardinality, shape) → shape.Normal
  flat : parts.nested = []
  inhabited : parts.types ≠ [] ∨ parts.relation ≠ none

theorem members_toFieldShape (flat : parts.nested = []) :
    parts.toFieldShape.members = parts.toList := by
  obtain ⟨types, relation, nested⟩ := parts
  obtain rfl : nested = [] := flat
  rw [toFieldShape]
  split
  next single same =>
    -- A single part is a column or a relation, thus its own only member.
    rw [same]
    rcases types with _ | ⟨type, types⟩ <;> rcases relation with _ | ⟨cardinality, shape⟩ <;>
      simp [toList] at same <;> simp [← same, members]
  next => rfl

theorem parts_toFieldShape (flat : parts.nested = []) : parts.toFieldShape.parts = parts := by
  rw [FieldShape.parts, FieldShape.types, related?, members_toFieldShape flat]
  obtain ⟨types, relation, nested⟩ := parts
  obtain rfl : nested = [] := flat
  rw [toList, List.append_nil, List.filterMap_append, List.findSome?_append, filterMap_scalar?,
    findSome?_relation?, Option.none_or]
  cases relation with
  | none => simp
  | some pair => simp [scalar?, relation?]

theorem Normal.toFieldShape (normal : parts.Normal) : parts.toFieldShape.Normal := by
  obtain ⟨types, relation, nested⟩ := parts
  obtain ⟨ascending, related, flat, inhabited⟩ := normal
  obtain rfl : nested = [] := flat
  cases relation with
  | none =>
    rcases types with _ | ⟨first, _ | ⟨second, types⟩⟩
    · simp at inhabited
    · exact .scalar first
    · have several := FieldShape.Normal.types ascending (by simp)
      simpa [Parts.toFieldShape, toList] using several
  | some pair =>
    obtain ⟨cardinality, shape⟩ := pair
    have relation : FieldShape.Normal (.relation cardinality shape) :=
      normal_relation_iff.mpr (related cardinality shape rfl)
    cases types with
    | nil => exact relation
    | cons type types =>
      have mixed := FieldShape.Normal.mixed ascending (by simp) relation
      simpa [Parts.toFieldShape, toList] using mixed

end Parts

namespace FieldShape

variable {value a b : FieldShape}

private theorem Normal.exists_parts (normal : value.Normal) :
    ∃ parts : Parts, parts.Normal ∧ parts.toFieldShape = value := by
  cases normal with
  | scalar type => exact ⟨⟨[type], none, []⟩, ⟨by simp, by simp, rfl, by simp⟩, rfl⟩
  | relation unique values =>
    refine ⟨⟨[], some (_, _), []⟩, ⟨.nil, ?_, rfl, by simp⟩, rfl⟩
    intro cardinality shape same
    cases same
    exact ⟨unique, values⟩
  | @types types ascending several =>
    rcases types with _ | ⟨first, _ | ⟨second, types⟩⟩
    · simp at several
    · simp at several
    · exact ⟨⟨first :: second :: types, none, []⟩, ⟨ascending, by simp, rfl, by simp⟩,
        by simp [Parts.toFieldShape, Parts.toList]⟩
  | @mixed types cardinality fields ascending several relation =>
    refine ⟨⟨types, some (cardinality, fields), []⟩, ⟨ascending, ?_, rfl, .inl several⟩, ?_⟩
    · intro _ _ same
      cases same
      exact normal_relation_iff.mp relation
    · cases types with
      | nil => exact absurd rfl several
      | cons type types => simp [Parts.toFieldShape, Parts.toList]

theorem Normal.parts (normal : value.Normal) : value.parts.Normal := by
  obtain ⟨parts, wellFormed, rfl⟩ := normal.exists_parts
  rwa [Parts.parts_toFieldShape wellFormed.flat]

/-- A normal value consists of its parts. -/
theorem Normal.toFieldShape_parts (normal : value.Normal) : value.parts.toFieldShape = value := by
  obtain ⟨parts, wellFormed, rfl⟩ := normal.exists_parts
  rw [Parts.parts_toFieldShape wellFormed.flat]

theorem Normal.members_eq (normal : value.Normal) : value.members = value.parts.toList := by
  obtain ⟨parts, wellFormed, rfl⟩ := normal.exists_parts
  rw [Parts.members_toFieldShape wellFormed.flat, Parts.parts_toFieldShape wellFormed.flat]

theorem Normal.eq_of_parts (normalA : a.Normal) (normalB : b.Normal) (same : a.parts = b.parts) :
    a = b := by
  rw [← normalA.toFieldShape_parts, ← normalB.toFieldShape_parts, same]

theorem Normal.of_mem {members : List FieldShape} (normal : Normal (.intersection members))
    (member : value ∈ members) :
    value.Normal := by
  generalize same : FieldShape.intersection members = whole at normal
  cases normal with
  | scalar type => cases same
  | relation unique values => cases same
  | types ascending several =>
    cases same
    obtain ⟨type, _, rfl⟩ := List.mem_map.mp member
    exact .scalar type
  | mixed ascending several relation =>
    cases same
    rcases List.mem_append.mp member with scalar | last
    · obtain ⟨type, _, rfl⟩ := List.mem_map.mp scalar
      exact .scalar type
    · rwa [List.mem_singleton.mp last]

/-- A normal intersection has two members or more: ascending types, and after them one normal relation at
most. -/
theorem normal_intersection_iff {members : List FieldShape} : Normal (.intersection members) ↔
    2 ≤ members.length ∧ ∃ (types : List String) (related : Option (Cardinality × Shape)),
      types.Pairwise (· < ·) ∧ (∀ pair ∈ related, pair.2.Normal) ∧
      members = types.map .scalar ++ (related.map fun pair => .relation pair.1 pair.2).toList := by
  constructor
  · intro normal
    generalize same : FieldShape.intersection members = whole at normal
    cases normal with
    | scalar type => cases same
    | relation unique values => cases same
    | @types types ascending several =>
      cases same
      exact ⟨by simpa using several, types, none, ascending, by simp, by simp⟩
    | @mixed types cardinality fields ascending several relation =>
      cases same
      refine ⟨?_, types, some (cardinality, fields), ascending, ?_, by simp⟩
      · have positive := List.length_pos_iff.mpr several
        simp only [List.length_append, List.length_map, List.length_singleton]
        omega
      · simpa using normal_relation_iff.mp relation
  · rintro ⟨several, types, related, ascending, normal, rfl⟩
    cases related with
    | none =>
      simp only [Option.map_none, Option.toList_none, List.append_nil, List.length_map] at several ⊢
      exact .types ascending several
    | some pair =>
      obtain ⟨cardinality, shape⟩ := pair
      have relation : Normal (.relation cardinality shape) :=
        normal_relation_iff.mpr (normal _ rfl)
      refine .mixed ascending ?_ relation
      -- The relation alone would be a single member.
      rintro rfl
      simp at several

/-- What holds of a normal value if it holds of the values in its relation holds of all of them. -/
theorem Normal.induction {P : FieldShape → Prop}
    (step : ∀ value, Normal value → (∀ cardinality shape,
      value.related? = some (cardinality, shape) → ∀ field ∈ shape, P field.2) → P value)
    (normal : value.Normal) : P value := by
  -- What is proved by induction is the premise of `step`, so that a relation within an intersection has
  -- it from the relation alone.
  refine step value normal ?_
  induction normal with
  | scalar type => simp [related?, members, relation?]
  | types ascending several => simp [related?, members, findSome?_relation?]
  | relation unique values ih =>
    intro cardinality shape related field member
    simp only [related?, members, relation?, List.findSome?_singleton, Option.some.injEq,
      Prod.mk.injEq] at related
    obtain ⟨_, rfl⟩ := related
    exact step field.2 (values field member) (ih field member)
  | mixed ascending several relation ih =>
    intro cardinality shape related
    refine ih cardinality shape ?_
    rwa [related?, members, List.findSome?_append, findSome?_relation?, Option.none_or] at related

end FieldShape

/-! ## The union of parts -/

namespace Parts

variable {parts others further : Parts}

/-- What two relations under one key come to. -/
def joinRelated : Cardinality × Shape → Cardinality × Shape → Cardinality × Shape
  | (present, shape), (cardinality, fields) => (present.merge cardinality, shape.merge fields)

/-- The union of parts without nested intersections. -/
def join (parts others : Parts) : Parts :=
  ⟨joinTypes parts.types others.types, Option.merge joinRelated parts.relation others.relation, []⟩

theorem foldl_add_types (types : List String) (parts : Parts) :
    (types.map FieldShape.scalar).foldl (add merge) parts =
      { parts with types := joinTypes parts.types types } := by
  induction types generalizing parts with
  | nil => rfl
  | cons type rest ih => exact ih _

theorem foldl_add_toList (flat : parts.nested = []) (flatOthers : others.nested = []) :
    others.toList.foldl (add merge) parts = parts.join others := by
  obtain ⟨types, relation, nested⟩ := others
  obtain rfl : nested = [] := flatOthers
  rw [toList, List.append_nil, List.foldl_append, foldl_add_types]
  cases relation with
  | none => simp [join, flat]
  | some pair =>
    cases present : parts.relation <;> simp [join, joinRelated, add, present, flat, Shape.merge]

end Parts

namespace Shape

variable {shape other : Shape}

private theorem Normal.merge_of_values (normal : shape.Normal) (normalOther : other.Normal)
    (closed : ∀ field ∈ shape, ∀ value, value.Normal → (field.2.merge value).Normal) :
    (shape.merge other).Normal := by
  have unique : (shape.merge other).keys.Nodup := Entries.nodup_keys_putAll normal.unique
  refine ⟨unique, ?_⟩
  rintro ⟨key, value⟩ member
  have found := Entries.get?_of_mem unique member
  rw [merge, Entries.get?_putAll _ _ normalOther.unique, Option.merge_eq_some_iff] at found
  -- The value stood under its key on one side alone, or is merged from both.
  rcases found with ⟨old, _⟩ | ⟨_, new⟩ | ⟨old, new, present, added, rfl⟩
  · exact normal.values _ (Entries.mem_of_get? old)
  · exact normalOther.values _ (Entries.mem_of_get? new)
  · exact closed _ (Entries.mem_of_get? present) _ (normalOther.values _ (Entries.mem_of_get? added))

end Shape

namespace Parts

variable {parts others : Parts}

private theorem Normal.join_of_values (normal : parts.Normal) (normalOthers : others.Normal)
    (closed : ∀ cardinality shape, parts.relation = some (cardinality, shape) →
      ∀ field ∈ shape, ∀ value, value.Normal → (field.2.merge value).Normal) :
    (parts.join others).Normal where
  ascending := ascending_joinTypes normal.ascending
  related cardinality shape related := by
    rcases Option.merge_eq_some_iff.mp related with ⟨old, _⟩ | ⟨_, new⟩ |
      ⟨⟨present, first⟩, ⟨added, second⟩, old, new, both⟩
    · exact normal.related _ _ old
    · exact normalOthers.related _ _ new
    · cases both
      exact (normal.related _ _ old).merge_of_values (normalOthers.related _ _ new) (closed _ _ old)
  flat := rfl
  inhabited := by
    rcases normal.inhabited with types | relation
    · left
      obtain ⟨type, member⟩ := List.exists_mem_of_ne_nil _ types
      exact List.ne_nil_of_mem (mem_joinTypes.mpr (.inl member))
    · right
      intro none
      exact relation (Option.merge_eq_none_iff.mp none).1

end Parts

namespace FieldShape

variable {a b : FieldShape}

theorem merge_eq_toFieldShape (normalA : a.Normal) (normalB : b.Normal) :
    merge a b = (a.parts.join b.parts).toFieldShape := by
  -- Gathering the members of `a` gives its parts, and those of `b` are then added to them.
  have first : a.parts.toList.foldl (Parts.add merge) .empty = a.parts := by
    rw [Parts.foldl_add_toList rfl normalA.parts.flat, Parts.join]
    simp only [Parts.empty, Option.merge_none_left, Parts.nil_joinTypes normalA.parts.ascending]
    rfl
  rw [merge_eq_mergeBy, mergeBy, normalA.members_eq, normalB.members_eq, List.foldl_append, first,
    Parts.foldl_add_toList normalA.parts.flat normalB.parts.flat]

/-- The parts of what normal values come to are the union of their parts. -/
theorem parts_merge (normalA : a.Normal) (normalB : b.Normal) :
    (merge a b).parts = a.parts.join b.parts := by
  rw [merge_eq_toFieldShape normalA normalB, Parts.parts_toFieldShape rfl]

/-- Normal values come to a normal value. -/
theorem Normal.merge (normalA : a.Normal) (normalB : b.Normal) : (merge a b).Normal := by
  refine Normal.induction (P := fun a => ∀ b, b.Normal → (a.merge b).Normal) ?_ normalA b normalB
  intro a normalA ih b normalB
  rw [merge_eq_toFieldShape normalA normalB]
  exact (normalA.parts.join_of_values normalB.parts ih).toFieldShape

end FieldShape

/-- Normal shapes come to a normal shape. -/
theorem Shape.Normal.merge {shape other : Shape} (normal : shape.Normal) (normalOther : other.Normal) :
    (shape.merge other).Normal :=
  normal.merge_of_values normalOther fun field member _ normalValue =>
    (normal.values field member).merge normalValue

end SelectShape
