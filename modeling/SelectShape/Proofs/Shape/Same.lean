import Mathlib.Data.Option.Defs
import SelectShape.Proofs.Shape.Normal

/-!
# Equality up to the order of keys

The equality of shapes looks values up by key. Normal values equal themselves, and are equal if they have
the same types and equal relations.
-/
namespace SelectShape

namespace FieldShape

theorem sameFields_iff {fields : List (String × FieldShape)} {other : Shape} :
    sameFields fields other ↔ ∀ field ∈ fields,
      ∃ counterpart, other.get? field.1 = some counterpart ∧ field.2.same counterpart := by
  induction fields with
  | nil => simp [sameFields]
  | cons field rest ih =>
    rw [sameFields, Bool.and_eq_true, ih, List.forall_mem_cons]
    cases found : other.get? field.1 <;> simp

theorem sameMembers_types (types : List String) (left right : List FieldShape) :
    sameMembers (types.map scalar ++ left) (types.map scalar ++ right) = sameMembers left right := by
  induction types with
  | nil => rfl
  | cons type rest ih => simp [sameMembers, same, ih]

end FieldShape

open FieldShape

namespace Shape

variable {shape other : Shape}

theorem same_iff : shape.same other ↔ shape.length = other.length ∧
    ∀ field ∈ shape, ∃ counterpart, other.get? field.1 = some counterpart ∧
      field.2.same counterpart := by
  rw [same, Bool.and_eq_true, beq_iff_eq, sameFields_iff]

theorem same_self_of_values (unique : shape.keys.Nodup)
    (values : ∀ field ∈ shape, field.2.same field.2) : shape.same shape :=
  same_iff.mpr ⟨rfl, fun field member =>
    ⟨field.2, Entries.get?_of_mem unique member, values field member⟩⟩

end Shape

namespace Parts

variable {left right : Parts}

/-- The same types, and relations that are equal up to the order of keys. -/
structure Same (left right : Parts) : Prop where
  types : left.types = right.types
  relation : Option.Rel (fun first second => first.1 = second.1 ∧ first.2.same second.2)
    left.relation right.relation

theorem Same.toFieldShape (same : left.Same right) (flat : left.nested = [])
    (flatRight : right.nested = []) : left.toFieldShape.same right.toFieldShape := by
  obtain ⟨types, first, nested⟩ := left
  obtain ⟨others, second, further⟩ := right
  obtain ⟨rfl, related⟩ : types = others ∧ _ := ⟨same.types, same.relation⟩
  obtain rfl : nested = [] := flat
  obtain rfl : further = [] := flatRight
  -- Both consist of as many parts, so both are single or neither is.
  cases related with
  | none =>
    have reflexive := sameMembers_types types [] []
    rcases types with _ | ⟨type, _ | ⟨next, types⟩⟩
    · rfl
    · simp [Parts.toFieldShape, toList, FieldShape.same]
    · simpa [Parts.toFieldShape, toList, FieldShape.same, sameMembers] using reflexive
  | @some first second pair =>
    obtain ⟨cardinality, shape⟩ := first
    obtain ⟨_, other⟩ := second
    obtain ⟨rfl, equal⟩ : cardinality = _ ∧ shape.same other := pair
    have relations : (FieldShape.relation cardinality shape).same (.relation cardinality other) := by
      simpa [FieldShape.same, Shape.same] using equal
    have members : sameMembers (types.map scalar ++ [.relation cardinality shape])
        (types.map scalar ++ [.relation cardinality other]) := by
      rw [sameMembers_types, sameMembers, relations]
      rfl
    cases types with
    | nil => exact relations
    | cons type types => simpa [Parts.toFieldShape, toList, FieldShape.same] using members

end Parts

namespace FieldShape

theorem Normal.same_self {value : FieldShape} (normal : value.Normal) : value.same value := by
  refine Normal.induction (P := fun value => value.same value) ?_ normal
  intro value normal ih
  rw [← normal.toFieldShape_parts]
  refine Parts.Same.toFieldShape ⟨rfl, ?_⟩ rfl rfl
  cases related : value.parts.relation with
  | none => exact .none
  | some pair =>
    obtain ⟨cardinality, shape⟩ := pair
    exact .some ⟨rfl, Shape.same_self_of_values (normal.parts.related _ _ related).unique
      (ih cardinality shape related)⟩

end FieldShape

theorem Shape.Normal.same_self {shape : Shape} (normal : shape.Normal) : shape.same shape :=
  same_self_of_values normal.unique fun field member => (normal.values field member).same_self

end SelectShape
