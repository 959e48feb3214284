import Mathlib.Data.List.Induction
import SelectShape.Proofs.Shape.Semilattice

/-!
# Shapes of lists of pairs

With normal values, the shape of a list of pairs is normal, and that of two lists one after the other is
what the shapes of both come to. In that sense putting pairs one by one is merging. Main statement: of any
values, the shape of a list of pairs tells the keys in the order in which they come up and, under each, its
values merged from the left.
-/
namespace SelectShape

/-- What values come to, the first merged with each further one in order, if there is one at all. -/
def FieldShape.mergeAll? : List FieldShape → Option FieldShape
  | [] => none
  | first :: rest => some (rest.foldl merge first)

namespace Shape

variable {shape : Shape} {pairs others : List (String × FieldShape)} {key : String} {value : FieldShape}

theorem normal_nil : Shape.Normal [] := ⟨.nil, List.forall_mem_nil _⟩

theorem normal_singleton (normal : value.Normal) : Shape.Normal [(key, value)] :=
  ⟨List.nodup_singleton key, List.forall_mem_singleton.mpr normal⟩

theorem normal_ofPairs (values : ∀ pair ∈ pairs, pair.2.Normal) : (ofPairs pairs).Normal where
  unique := Entries.nodup_keys_putAll .nil
  values := Entries.forall_putAll (fun _ _ normalA normalB => normalA.merge normalB)
    (List.forall_mem_nil _) values

theorem merge_append (shape pairs others : Shape) :
    shape.merge (pairs ++ others) = (shape.merge pairs).merge others :=
  Entries.putAll_append _ _ _ _

/-- Putting pairs into a shape is merging their shape into it, even if keys are repeated. -/
theorem Normal.merge_ofPairs (normal : shape.Normal) (values : ∀ pair ∈ pairs, pair.2.Normal) :
    shape.merge pairs = shape.merge (ofPairs pairs) := by
  induction pairs using List.reverseRecOn with
  | nil => rfl
  | append_singleton pairs pair ih =>
    obtain ⟨before, last⟩ := List.forall_mem_append.mp values
    have single : Shape.Normal [pair] := normal_singleton (last pair List.mem_cons_self)
    calc shape.merge (pairs ++ [pair])
        = (shape.merge (ofPairs pairs)).merge [pair] := by rw [merge_append, ih before]
      _ = shape.merge ((ofPairs pairs).merge [pair]) :=
        normal.merge_assoc (normal_ofPairs before) single
      _ = shape.merge (ofPairs (pairs ++ [pair])) := by rw [ofPairs, ofPairs, merge_append]

theorem ofPairs_append (values : ∀ pair ∈ pairs, pair.2.Normal)
    (valuesOthers : ∀ pair ∈ others, pair.2.Normal) :
    ofPairs (pairs ++ others) = (ofPairs pairs).merge (ofPairs others) := by
  rw [← (normal_ofPairs values).merge_ofPairs valuesOthers, ofPairs, ofPairs, merge_append]

/-! ## Pairs of any values -/

/-- The shape tells what was put, pair by pair: each key once, in the place where it first comes up among
the pairs, with its values merged from the left in their order. -/
structure Collects (shape : Shape) (pairs : List (String × FieldShape)) : Prop where
  unique : shape.keys.Nodup
  keys : shape.keys = (pairs.map (·.1)).eraseDups
  values : ∀ key, shape.get? key = FieldShape.mergeAll? (Entries.valuesUnder pairs key)

theorem get?_ofPairs (pairs : List (String × FieldShape)) (key : String) :
    (ofPairs pairs).get? key = FieldShape.mergeAll? (Entries.valuesUnder pairs key) := by
  rw [ofPairs, merge, Entries.get?_putAll_eq_foldl, Entries.get?_nil]
  cases Entries.valuesUnder pairs key with
  | nil => rfl
  | cons first rest => exact List.foldl_hom some fun _ _ => rfl

theorem collects_ofPairs (pairs : List (String × FieldShape)) : (ofPairs pairs).Collects pairs where
  unique := Entries.nodup_keys_putAll .nil
  keys := Entries.keys_nil_putAll _ pairs
  values := get?_ofPairs pairs

/-- The keys in order and the value under each leave no other shape. -/
theorem collects_iff : shape.Collects pairs ↔ shape = ofPairs pairs := by
  constructor
  · intro collects
    have collected := collects_ofPairs pairs
    refine Entries.ext_keys_get? (collects.keys.trans collected.keys.symm) collects.unique fun key => ?_
    rw [collects.values, collected.values]
  · rintro rfl
    exact collects_ofPairs pairs

theorem ofPairs_append_singleton (pairs : List (String × FieldShape)) (key : String) (value : FieldShape) :
    ofPairs (pairs ++ [(key, value)]) = (ofPairs pairs).insert key value :=
  merge_append [] pairs [(key, value)]

theorem ofPairs_eq_self (unique : shape.keys.Nodup) : ofPairs shape = shape :=
  Entries.nil_putAll _ unique

theorem merge_eq_ofPairs (unique : shape.keys.Nodup) (other : Shape) :
    shape.merge other = ofPairs (shape ++ other) := by
  have both : ofPairs (shape ++ other) = (ofPairs shape).merge other := merge_append [] shape other
  rw [both, ofPairs_eq_self unique]

/-- The shape of a list of pairs is the one that collects them, whatever the values and however often a key
is repeated. One more pair is one more insertion, and an insertion neither moves nor changes anything under
other keys. Merging collects the entries of both shapes. -/
theorem insertion_history :
    (∀ (pairs : List (String × FieldShape)) (shape : Shape), shape.Collects pairs ↔ shape = ofPairs pairs) ∧
    (∀ (pairs : List (String × FieldShape)) (key : String) (value : FieldShape),
      ofPairs (pairs ++ [(key, value)]) = (ofPairs pairs).insert key value) ∧
    (∀ (shape : Shape) (key other : String) (value present : FieldShape) (position : Nat), other ≠ key →
      ((shape.insert key value)[position]? = some (other, present) ↔
        shape[position]? = some (other, present))) ∧
    ∀ shape other : Shape, shape.keys.Nodup → shape.merge other = ofPairs (shape ++ other) := by
  refine ⟨fun pairs shape => collects_iff, ofPairs_append_singleton, ?_, ?_⟩
  · intro shape key other value present position differ
    exact Entries.getElem?_put_other _ shape value differ position present
  · intro shape other unique
    exact merge_eq_ofPairs unique other

/-- An intersection of nothing stands in another one under `x`. -/
def nestedFields : Shape := [("x", .intersection [.intersection []]), ("y", .scalar "text")]

/-- Both keys of `nestedFields` come up again, `x` twice and with another key before it. -/
def interleavedPairs : List (String × FieldShape) :=
  [("z", .intersection []), ("x", .intersection [.intersection []]), ("y", .scalar "date"),
    ("x", .scalar "int")]

/-- The values under `x` come to a type. Merged from the right they would come to an intersection. -/
theorem insertion_history_interleaved :
    nestedFields.keys.Nodup ∧
    nestedFields.merge interleavedPairs = ofPairs (nestedFields ++ interleavedPairs) ∧
    nestedFields.merge interleavedPairs =
      [("x", .scalar "int"), ("y", .intersection [.scalar "date", .scalar "text"]),
        ("z", .intersection [])] ∧
    FieldShape.merge (.intersection [.intersection []])
        (.merge (.intersection [.intersection []]) (.scalar "int")) =
      .intersection [.scalar "int", .intersection []] ∧
    "y" ≠ "x" ∧ (nestedFields.insert "x" (.scalar "int"))[1]? = some ("y", .scalar "text") := by
  obtain ⟨_, _, elsewhere, merged⟩ := insertion_history
  have unique : nestedFields.keys.Nodup := by decide
  have differ : "y" ≠ "x" := by decide
  refine ⟨unique, merged _ _ unique, by decide, by decide, differ, ?_⟩
  exact (elsewhere nestedFields "x" "y" (.scalar "int") (.scalar "text") 1 differ).mpr rfl

end Shape

end SelectShape
