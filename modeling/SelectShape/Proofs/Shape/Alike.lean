import SelectShape.Proofs.Shape.Paths

/-!
# Shapes that hold the same

Types and cardinalities at every path are all that a normal shape holds, apart from the order of its
keys. Main statement: normal shapes that agree in them are equal up to that order.
-/
namespace SelectShape

namespace Cardinality

instance : Std.Associative merge := ⟨merge_assoc⟩

instance : Std.Commutative merge := ⟨merge_comm⟩

variable {cardinality : Cardinality} {cardinalities others : List Cardinality}

theorem merge_mergeAll?_of_mem (member : cardinality ∈ cardinalities) :
    Option.merge merge (some cardinality) (mergeAll? cardinalities) = mergeAll? cardinalities := by
  induction cardinalities with
  | nil => cases member
  | cons first rest ih =>
    rw [mergeAll?]
    rcases List.mem_cons.mp member with rfl | later
    · calc Option.merge merge (some cardinality) (Option.merge merge (some cardinality) (mergeAll? rest))
          = Option.merge merge (some (merge cardinality cardinality)) (mergeAll? rest) := by
            rw [← Option.merge_some_some]; ac_rfl
        _ = Option.merge merge (some cardinality) (mergeAll? rest) := by rw [merge_self]
    · calc Option.merge merge (some cardinality) (Option.merge merge (some first) (mergeAll? rest))
          = Option.merge merge (some first) (Option.merge merge (some cardinality) (mergeAll? rest)) := by
            ac_rfl
        _ = Option.merge merge (some first) (mergeAll? rest) := by rw [ih later]

theorem mergeAll?_merge_of_subset (subset : ∀ cardinality ∈ cardinalities, cardinality ∈ others) :
    Option.merge merge (mergeAll? cardinalities) (mergeAll? others) = mergeAll? others := by
  induction cardinalities with
  | nil => simp [mergeAll?]
  | cons first rest ih =>
    obtain ⟨head, later⟩ := List.forall_mem_cons.mp subset
    calc Option.merge merge (mergeAll? (first :: rest)) (mergeAll? others)
        = Option.merge merge (some first) (Option.merge merge (mergeAll? rest) (mergeAll? others)) := by
          rw [mergeAll?]; ac_rfl
      _ = mergeAll? others := by rw [ih later, merge_mergeAll?_of_mem head]

/-- What cardinalities come to depends on which they are, not on their order or number. -/
theorem mergeAll?_congr (same : ∀ cardinality, cardinality ∈ cardinalities ↔ cardinality ∈ others) :
    mergeAll? cardinalities = mergeAll? others :=
  calc mergeAll? cardinalities
      = Option.merge merge (mergeAll? others) (mergeAll? cardinalities) :=
        (mergeAll?_merge_of_subset fun cardinality => (same cardinality).mpr).symm
    _ = Option.merge merge (mergeAll? cardinalities) (mergeAll? others) :=
        by ac_rfl
    _ = mergeAll? others := mergeAll?_merge_of_subset fun cardinality => (same cardinality).mp

end Cardinality

/-- Two shapes hold the same types, and relations of the same cardinalities, at every path. -/
structure Shape.Alike (shape other : Shape) : Prop where
  types : ∀ path key type,
    shape.Occurs path key (.scalar type) ↔ other.Occurs path key (.scalar type)
  cardinality : ∀ path key, shape.cardinality? path key = other.cardinality? path key

/-- Two values have the same types, and relations of the same cardinality with shapes that are alike. -/
structure FieldShape.Alike (value counterpart : FieldShape) : Prop where
  types : value.types = counterpart.types
  related : Option.Rel (fun first second => first.1 = second.1 ∧ Shape.Alike first.2 second.2)
    value.related? counterpart.related?

namespace Shape

variable {shape other : Shape} {key : String} {value : FieldShape}

theorem Alike.inner (alike : shape.Alike other) : (shape.inner key).Alike (other.inner key) where
  types path := alike.types (key :: path)
  cardinality path := alike.cardinality (key :: path)

/-- A normal shape has a key exactly if something stands under it. -/
theorem Normal.mem_keys_iff (normal : shape.Normal) : key ∈ shape.keys ↔
    (∃ type, shape.Occurs [] key (.scalar type)) ∨ shape.cardinality? [] key ≠ none := by
  rw [cardinality?, related?, under_nil]
  cases found : Entries.get? shape key with
  | none => simp [Occurs, found, Entries.get?_eq_none_iff.mp found]
  | some value =>
    refine iff_of_true (Entries.mem_keys_of_get? found) ?_
    rcases (normal.get? found).parts.inhabited with types | relation
    · obtain ⟨type, member⟩ := List.exists_mem_of_ne_nil _ types
      exact .inl ⟨type, value, found, FieldShape.scalar_mem_members_iff.mpr member⟩
    · exact .inr (by simpa [found, FieldShape.parts] using relation)

theorem Alike.mem_keys_iff (alike : shape.Alike other) (normal : shape.Normal)
    (normalOther : other.Normal) : key ∈ shape.keys ↔ key ∈ other.keys := by
  rw [normal.mem_keys_iff, normalOther.mem_keys_iff, alike.cardinality]
  simp only [alike.types]

theorem Alike.length_eq (alike : shape.Alike other) (normal : shape.Normal)
    (normalOther : other.Normal) : shape.length = other.length :=
  Entries.length_eq_of_mem_keys_iff normal.unique normalOther.unique fun _ =>
    alike.mem_keys_iff normal normalOther

theorem occurs_nil_scalar_iff (found : Entries.get? shape key = some value) {type : String} :
    shape.Occurs [] key (.scalar type) ↔ type ∈ value.types := by
  simp [Occurs, found, FieldShape.scalar_mem_members_iff]

/-- The value under a key has a counterpart that is alike. -/
theorem Alike.get? (alike : shape.Alike other) (normal : shape.Normal) (normalOther : other.Normal)
    (found : Entries.get? shape key = some value) :
    ∃ counterpart, Entries.get? other key = some counterpart ∧ value.Alike counterpart := by
  have present : key ∈ shape.keys := Entries.mem_keys_of_get? found
  cases again : Entries.get? other key with
  | none =>
    exact absurd ((alike.mem_keys_iff normal normalOther).mp present)
      (Entries.get?_eq_none_iff.mp again)
  | some counterpart =>
    refine ⟨counterpart, rfl, ?_, ?_⟩
    · refine Parts.eq_of_ascending (normal.get? found).parts.ascending
        (normalOther.get? again).parts.ascending fun type => ?_
      exact (occurs_nil_scalar_iff found).symm.trans
        ((alike.types [] key type).trans (occurs_nil_scalar_iff again))
    · have cardinality := alike.cardinality [] key
      have inside : (shape.inner key).Alike (other.inner key) := alike.inner
      simp only [cardinality?, Shape.inner, related?, under_nil, found, again,
        Option.bind_some] at cardinality inside
      cases first : value.related? <;> cases second : counterpart.related? <;>
        simp only [first, second, Option.map_none, Option.map_some, reduceCtorEq,
          Option.some.injEq] at cardinality inside
      · exact .none
      · exact .some ⟨cardinality, inside⟩

private theorem Alike.same_of_values (alike : shape.Alike other) (normal : shape.Normal)
    (normalOther : other.Normal) (values : ∀ field ∈ shape, ∀ counterpart, counterpart.Normal →
      field.2.Alike counterpart → field.2.same counterpart) : shape.same other := by
  refine same_iff.mpr ⟨alike.length_eq normal normalOther, fun field member => ?_⟩
  obtain ⟨counterpart, found, equal⟩ :=
    alike.get? normal normalOther (Entries.get?_of_mem normal.unique member)
  exact ⟨counterpart, found, values field member counterpart (normalOther.get? found) equal⟩

end Shape

theorem FieldShape.Alike.same {value counterpart : FieldShape} (alike : value.Alike counterpart)
    (normal : value.Normal) (normalCounterpart : counterpart.Normal) : value.same counterpart := by
  refine FieldShape.Normal.induction (P := fun value => ∀ counterpart, counterpart.Normal →
    value.Alike counterpart → value.same counterpart) ?_ normal counterpart normalCounterpart alike
  intro value normal ih counterpart normalCounterpart alike
  rw [← normal.toFieldShape_parts, ← normalCounterpart.toFieldShape_parts]
  refine Parts.Same.toFieldShape ⟨alike.types, ?_⟩ rfl rfl
  -- The relations are alike too, and the values in them have been dealt with.
  have related := alike.related
  change Option.Rel _ value.related? counterpart.related?
  generalize first : value.related? = left at related ⊢
  generalize second : counterpart.related? = right at related ⊢
  cases related with
  | none => exact .none
  | @some pair added equal =>
    obtain ⟨cardinality, shape⟩ := pair
    obtain ⟨_, other⟩ := added
    exact .some ⟨equal.1, equal.2.same_of_values (normal.parts.related _ _ first)
      (normalCounterpart.parts.related _ _ second) (ih _ _ first)⟩

/-- Normal shapes that hold the same at every path are equal up to the order of keys. -/
theorem Shape.Alike.same {shape other : Shape} (alike : shape.Alike other) (normal : shape.Normal)
    (normalOther : other.Normal) : shape.same other :=
  alike.same_of_values normal normalOther fun field member _ normalCounterpart equal =>
    equal.same (normal.values field member) normalCounterpart

end SelectShape
