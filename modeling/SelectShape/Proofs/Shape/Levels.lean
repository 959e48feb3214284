import SelectShape.Proofs.Entries
import SelectShape.Shape.Merge

/-!
# Merging without levels

Merging values of some height merges values of a smaller height only. So any number of levels above the
height gives the same, and merging satisfies the recursion that the levels serve to bound.
-/
namespace SelectShape

namespace FieldShape

theorem fieldsHeight_le_iff {fields : List (String × FieldShape)} {limit : Nat} :
    fieldsHeight fields ≤ limit ↔ ∀ field ∈ fields, field.2.height ≤ limit := by
  induction fields with
  | nil => simp [fieldsHeight]
  | cons field rest ih => rw [fieldsHeight, Nat.max_le, ih, List.forall_mem_cons]

theorem fieldsHeight_lt_iff {fields : List (String × FieldShape)} {limit : Nat} (positive : 0 < limit) :
    fieldsHeight fields < limit ↔ ∀ field ∈ fields, field.2.height < limit := by
  obtain ⟨limit, rfl⟩ := Nat.exists_eq_add_one.mpr positive
  simp only [Nat.lt_succ_iff]
  exact fieldsHeight_le_iff

theorem membersHeight_le_iff {members : List FieldShape} {limit : Nat} :
    membersHeight members ≤ limit ↔ ∀ member ∈ members, member.height ≤ limit := by
  induction members with
  | nil => simp [membersHeight]
  | cons member rest ih => rw [membersHeight, Nat.max_le, ih, List.forall_mem_cons]

theorem height_le_iff {value : FieldShape} {limit : Nat} :
    value.height ≤ limit ↔ ∀ member ∈ value.members, member.height ≤ limit := by
  cases value with
  | scalar type => simp [members]
  | relation cardinality fields => simp [members]
  | intersection members => rw [height, membersHeight_le_iff, FieldShape.members]

/-- Two ways of merging agree on values below a height, and stay below it. -/
def AgreeBelow (limit : Nat) (join other : FieldShape → FieldShape → FieldShape) : Prop :=
  ∀ a b, a.height < limit → b.height < limit → join a b = other a b ∧ (other a b).height < limit

variable {join other : FieldShape → FieldShape → FieldShape} {limit : Nat}

theorem AgreeBelow.putAll {shape fields : Shape} (agree : AgreeBelow limit join other)
    (old : fieldsHeight shape < limit) (new : fieldsHeight fields < limit) :
    shape.putAll join fields = shape.putAll other fields ∧
      fieldsHeight (shape.putAll other fields) < limit := by
  have positive : 0 < limit := Nat.zero_lt_of_lt old
  rw [fieldsHeight_lt_iff positive] at old new ⊢
  constructor
  · exact Entries.putAll_congr (fun a b lowA lowB => (agree a b lowA lowB).1)
      (fun a b lowA lowB => (agree a b lowA lowB).2) old new
  · exact Entries.forall_putAll (fun a b lowA lowB => (agree a b lowA lowB).2) old new

end FieldShape

open FieldShape

namespace Parts

variable {join other : FieldShape → FieldShape → FieldShape} {limit : Nat} {parts : Parts}
  {member : FieldShape}

/-- No part is higher than the limit. -/
structure Within (limit : Nat) (parts : Parts) : Prop where
  relation : ∀ cardinality shape, parts.relation = some (cardinality, shape) →
    fieldsHeight shape < limit
  nested : ∀ member ∈ parts.nested, member.height ≤ limit

theorem within_empty (limit : Nat) : empty.Within limit :=
  ⟨fun _ _ related => (nomatch related), List.forall_mem_nil _⟩

theorem Within.height_toFieldShape (within : parts.Within limit) :
    parts.toFieldShape.height ≤ limit := by
  have each : ∀ member ∈ parts.toList, member.height ≤ limit := by
    intro member present
    simp only [toList, List.mem_append, List.mem_map, Option.mem_toList,
      Option.map_eq_some_iff] at present
    rcases present with (⟨type, _, rfl⟩ | ⟨⟨cardinality, shape⟩, related, rfl⟩) | nested
    · exact Nat.zero_le _
    · exact within.relation cardinality shape related
    · exact within.nested member nested
  rw [toFieldShape]
  split
  next single same => exact each single (by simp [same])
  next => exact membersHeight_le_iff.mpr each

theorem add_congr (agree : AgreeBelow limit join other) (within : parts.Within limit)
    (bound : member.height ≤ limit) :
    add join parts member = add other parts member ∧ (add other parts member).Within limit := by
  cases member with
  | scalar type => exact ⟨rfl, within.relation, within.nested⟩
  | intersection members =>
    simp only [add, true_and]
    split
    next => exact within
    next =>
      have single : ∀ member ∈ [FieldShape.intersection members], member.height ≤ limit :=
        List.forall_mem_singleton.mpr bound
      exact ⟨within.relation, List.forall_mem_append.mpr ⟨within.nested, single⟩⟩
  | relation cardinality fields =>
    -- Only here are values merged, one level down.
    cases related : parts.relation with
    | none =>
      simp only [add, related, true_and]
      refine ⟨fun _ _ same => ?_, within.nested⟩
      cases same
      exact bound
    | some pair =>
      obtain ⟨present, shape⟩ := pair
      obtain ⟨equal, lower⟩ := agree.putAll (within.relation present shape related) bound
      simp only [add, related, equal, true_and]
      refine ⟨fun _ _ same => ?_, within.nested⟩
      cases same
      exact lower

theorem foldl_add_congr (agree : AgreeBelow limit join other) {members : List FieldShape}
    (within : parts.Within limit) (bound : ∀ member ∈ members, member.height ≤ limit) :
    members.foldl (add join) parts = members.foldl (add other) parts ∧
      (members.foldl (add other) parts).Within limit := by
  induction members generalizing parts with
  | nil => exact ⟨rfl, within⟩
  | cons member rest ih =>
    obtain ⟨head, later⟩ := List.forall_mem_cons.mp bound
    obtain ⟨same, kept⟩ := add_congr agree within head
    rw [List.foldl_cons, List.foldl_cons, same]
    exact ih kept later

end Parts

namespace FieldShape

variable {join other : FieldShape → FieldShape → FieldShape} {limit levels fuel : Nat}
  {a b : FieldShape}

/-- What two values come to, where `join` merges the values under shared keys of their relations. -/
def mergeBy (join : FieldShape → FieldShape → FieldShape) (a b : FieldShape) : FieldShape :=
  ((a.members ++ b.members).foldl (Parts.add join) .empty).toFieldShape

theorem AgreeBelow.mergeBy (agree : AgreeBelow limit join other) (boundA : a.height ≤ limit)
    (boundB : b.height ≤ limit) :
    mergeBy join a b = mergeBy other a b ∧ (mergeBy other a b).height ≤ limit := by
  have bound : ∀ member ∈ a.members ++ b.members, member.height ≤ limit :=
    List.forall_mem_append.mpr ⟨height_le_iff.mp boundA, height_le_iff.mp boundB⟩
  obtain ⟨same, within⟩ := Parts.foldl_add_congr agree (Parts.within_empty limit) bound
  exact ⟨congrArg Parts.toFieldShape same, within.height_toFieldShape⟩

/-- Levels beyond the height of both values do not count, and merging adds no height. -/
theorem mergeWithin_eq (boundA : a.height ≤ levels) (boundB : b.height ≤ levels)
    (enough : levels < fuel) :
    mergeWithin fuel a b = mergeWithin (levels + 1) a b ∧
      (mergeWithin (levels + 1) a b).height ≤ levels := by
  -- One level is spent on these values. The rest has to do for values below their height.
  obtain ⟨fuel, rfl⟩ := Nat.exists_eq_add_one_of_ne_zero (Nat.ne_zero_of_lt enough)
  suffices agree : AgreeBelow levels (mergeWithin fuel) (mergeWithin levels) from
    agree.mergeBy boundA boundB
  induction levels generalizing a b fuel with
  | zero => exact fun a b lowA => absurd lowA (Nat.not_lt_zero _)
  | succ levels ih =>
    intro a b lowA lowB
    have boundA := Nat.le_of_lt_succ lowA
    have boundB := Nat.le_of_lt_succ lowB
    obtain ⟨fuel, rfl⟩ := Nat.exists_eq_add_one_of_ne_zero (n := fuel) (by omega)
    obtain ⟨same, bound⟩ := (ih boundA boundB fuel (by omega)).mergeBy boundA boundB
    exact ⟨same, Nat.lt_succ_of_le bound⟩

theorem height_merge_le (a b : FieldShape) : (merge a b).height ≤ max a.height b.height :=
  (mergeWithin_eq (Nat.le_max_left _ _) (Nat.le_max_right _ _) (Nat.lt_succ_self _)).2

/-- Merging merges the values under shared keys of relations. -/
theorem merge_eq_mergeBy (a b : FieldShape) : merge a b = mergeBy merge a b := by
  have agree : AgreeBelow (max a.height b.height) (mergeWithin (max a.height b.height)) merge := by
    intro a b lowA lowB
    have lower := Nat.max_lt.mpr ⟨lowA, lowB⟩
    refine ⟨?_, Nat.lt_of_le_of_lt (height_merge_le a b) lower⟩
    exact (mergeWithin_eq (Nat.le_max_left _ _) (Nat.le_max_right _ _) lower).1
  exact (agree.mergeBy (Nat.le_max_left _ _) (Nat.le_max_right _ _)).1

/-- Two relations come to one, with both shapes merged. -/
theorem merge_relation (a b : Cardinality) (shape other : Shape) :
    merge (.relation a shape) (.relation b other) = .relation (a.merge b) (shape.merge other) := by
  rw [merge_eq_mergeBy]
  rfl

end FieldShape

end SelectShape
