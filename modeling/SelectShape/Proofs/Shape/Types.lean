import Mathlib.Data.List.Nodup
import SelectShape.Shape.Merge

/-!
# Ascending types

Inserting types keeps them ascending, and ascending types are determined by which they are. The union
of two lists of types is therefore the same in any order and however often a type is repeated.
-/
namespace SelectShape

namespace Parts

variable {type other : String} {types others further : List String}

theorem mem_insertType : other ∈ insertType type types ↔ other = type ∨ other ∈ types := by
  induction types with
  | nil => simp [insertType]
  | cons first rest ih =>
    rw [insertType]
    split
    next => simp
    next =>
      split
      next same => simp [same]
      next => rw [List.mem_cons, ih, List.mem_cons, or_left_comm]

theorem ascending_insertType (ascending : types.Pairwise (· < ·)) :
    (insertType type types).Pairwise (· < ·) := by
  induction types with
  | nil => simp [insertType]
  | cons first rest ih =>
    obtain ⟨least, later⟩ := List.pairwise_cons.mp ascending
    rw [insertType]
    split
    next before =>
      refine List.pairwise_cons.mpr ⟨?_, ascending⟩
      intro other member
      rcases List.mem_cons.mp member with rfl | member
      · exact before
      · exact String.lt_trans before (least other member)
    next notBefore =>
      split
      next => exact ascending
      next differ =>
        -- For strings `≤` is the negation of `<` the other way round.
        have after : first < type :=
          Decidable.byContradiction fun notAfter => differ (String.le_antisymm notAfter notBefore)
        refine List.pairwise_cons.mpr ⟨?_, ih later⟩
        intro other member
        rcases mem_insertType.mp member with rfl | member
        · exact after
        · exact least other member

/-- The union of types: the second ones inserted into the first. -/
def joinTypes (types others : List String) : List String :=
  others.foldl (fun types type => insertType type types) types

@[simp]
theorem joinTypes_nil : joinTypes types [] = types := rfl

theorem mem_joinTypes : type ∈ joinTypes types others ↔ type ∈ types ∨ type ∈ others := by
  induction others generalizing types with
  | nil => simp
  | cons first rest ih =>
    have step : joinTypes types (first :: rest) = joinTypes (insertType first types) rest := rfl
    rw [step, ih, mem_insertType, List.mem_cons, or_assoc, or_left_comm]

theorem ascending_joinTypes (ascending : types.Pairwise (· < ·)) :
    (joinTypes types others).Pairwise (· < ·) := by
  induction others generalizing types with
  | nil => exact ascending
  | cons first rest ih => exact ih (ascending_insertType ascending)

/-- Ascending types are determined by which they are. -/
theorem eq_of_ascending (ascending : types.Pairwise (· < ·)) (ascendingOthers : others.Pairwise (· < ·))
    (members : ∀ type, type ∈ types ↔ type ∈ others) : types = others := by
  have unique {types : List String} (ascending : types.Pairwise (· < ·)) : types.Nodup :=
    ascending.imp String.ne_of_lt
  have permuted : types.Perm others :=
    (List.perm_ext_iff_of_nodup (unique ascending) (unique ascendingOthers)).mpr members
  exact permuted.eq_of_pairwise
    (fun _ _ _ _ before after => absurd after (String.lt_asymm before)) ascending ascendingOthers

theorem nil_joinTypes (ascending : types.Pairwise (· < ·)) : joinTypes [] types = types :=
  eq_of_ascending (ascending_joinTypes .nil) ascending fun type => by simp [mem_joinTypes]

theorem joinTypes_self (ascending : types.Pairwise (· < ·)) : joinTypes types types = types :=
  eq_of_ascending (ascending_joinTypes ascending) ascending fun type => by simp [mem_joinTypes]

theorem joinTypes_comm (ascending : types.Pairwise (· < ·)) (ascendingOthers : others.Pairwise (· < ·)) :
    joinTypes types others = joinTypes others types :=
  eq_of_ascending (ascending_joinTypes ascending) (ascending_joinTypes ascendingOthers) fun type => by
    rw [mem_joinTypes, mem_joinTypes, or_comm]

theorem joinTypes_assoc (ascending : types.Pairwise (· < ·)) :
    joinTypes (joinTypes types others) further = joinTypes types (joinTypes others further) :=
  eq_of_ascending (ascending_joinTypes (ascending_joinTypes ascending)) (ascending_joinTypes ascending)
    fun type => by simp only [mem_joinTypes, or_assoc]

end Parts

end SelectShape
