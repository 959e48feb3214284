import SelectShape.Proofs.Shape.Pairs

/-!
# What occurs at a path of keys

A path goes from a shape into the related rows under each of its keys. At every path, what two normal
shapes come to holds the types of both, and a relation of both cardinalities merged.
-/
namespace SelectShape

/-- What cardinalities come to, merged one after another, if there is one at all. -/
def Cardinality.mergeAll? : List Cardinality → Option Cardinality
  | [] => none
  | cardinality :: rest => Option.merge merge (some cardinality) (mergeAll? rest)

theorem Cardinality.mergeAll?_append (cardinalities others : List Cardinality) :
    mergeAll? (cardinalities ++ others) =
      Option.merge merge (mergeAll? cardinalities) (mergeAll? others) := by
  induction cardinalities with
  | nil => simp [mergeAll?]
  | cons cardinality rest ih =>
    rw [List.cons_append, mergeAll?, ih, mergeAll?]
    cases mergeAll? rest <;> cases mergeAll? others <;> simp [merge_assoc]

theorem Cardinality.mergeAll?_eq_none_iff (cardinalities : List Cardinality) :
    mergeAll? cardinalities = none ↔ cardinalities = [] := by
  cases cardinalities <;> simp [mergeAll?, Option.merge_eq_none_iff]

open FieldShape

namespace FieldShape

variable {value a b : FieldShape} {type : String}

theorem scalar_mem_members_iff : .scalar type ∈ value.members ↔ type ∈ value.types := by
  rw [types, List.mem_filterMap]
  constructor
  · exact fun member => ⟨_, member, rfl⟩
  · rintro ⟨member, present, read⟩
    cases member with
    | scalar found => cases read; exact present
    | relation cardinality fields => cases read
    | intersection members => cases read

theorem scalar_mem_members_merge_iff (normalA : a.Normal) (normalB : b.Normal) :
    .scalar type ∈ (a.merge b).members ↔ .scalar type ∈ a.members ∨ .scalar type ∈ b.members := by
  have types : (a.merge b).types = Parts.joinTypes a.types b.types :=
    congrArg Parts.types (parts_merge normalA normalB)
  simp only [scalar_mem_members_iff, types, Parts.mem_joinTypes]

theorem related?_merge (normalA : a.Normal) (normalB : b.Normal) :
    (a.merge b).related? = Option.merge Parts.joinRelated a.related? b.related? :=
  congrArg Parts.relation (parts_merge normalA normalB)

/-- A normal value has one relation at most. -/
theorem Normal.relation_mem_members_iff (normal : value.Normal) {cardinality : Cardinality}
    {fields : List (String × FieldShape)} :
    .relation cardinality fields ∈ value.members ↔ value.related? = some (cardinality, fields) := by
  rw [normal.members_eq]
  simp [Parts.toList, FieldShape.parts]

end FieldShape

namespace Shape

variable {shape other : Shape} {key : String} {path : List String}

/-- The relation under a key: the value itself, or the relation among its members. -/
def related? (shape : Shape) (key : String) : Option (Cardinality × Shape) :=
  (shape.get? key).bind FieldShape.related?

/-- The shape of the related rows under a key, without any key where there is no relation. -/
def inner (shape : Shape) (key : String) : Shape := ((shape.related? key).map (·.2)).getD []

/-- The shape at the end of a path that goes into the related rows under each key in turn. -/
def under (shape : Shape) (path : List String) : Shape := path.foldl inner shape

/-- A column or a relation stands under a key at the end of a path, as the value or a member of it. -/
def Occurs (shape : Shape) (path : List String) (key : String) (part : FieldShape) : Prop :=
  ∃ value, (shape.under path).get? key = some value ∧ part ∈ value.members

/-- The cardinality of the relation under a key at the end of a path. -/
def cardinality? (shape : Shape) (path : List String) (key : String) : Option Cardinality :=
  ((shape.under path).related? key).map (·.1)

theorem get?_merge (normalOther : other.Normal) :
    (shape.merge other).get? key = Option.merge FieldShape.merge (shape.get? key) (other.get? key) :=
  Entries.get?_putAll _ _ normalOther.unique key

theorem Normal.get? (normal : shape.Normal) (found : Entries.get? shape key = some value) :
    value.Normal :=
  normal.values _ (Entries.mem_of_get? found)

theorem related?_merge (normal : shape.Normal) (normalOther : other.Normal) :
    (shape.merge other).related? key =
      Option.merge Parts.joinRelated (shape.related? key) (other.related? key) := by
  rw [related?, related?, related?, get?_merge normalOther]
  cases first : Entries.get? shape key with
  | none => simp
  | some value =>
    cases second : Entries.get? other key with
    | none => simp
    | some added => exact FieldShape.related?_merge (normal.get? first) (normalOther.get? second)

theorem Normal.inner (normal : shape.Normal) : (shape.inner key).Normal := by
  rw [Shape.inner, Shape.related?]
  cases found : Entries.get? shape key with
  | none => exact normal_nil
  | some value =>
    cases related : value.related? with
    | none => simpa [related] using normal_nil
    | some pair => simpa [related] using (normal.get? found).parts.related _ _ related

theorem inner_merge (normal : shape.Normal) (normalOther : other.Normal) :
    (shape.merge other).inner key = (shape.inner key).merge (other.inner key) := by
  have identity : Shape.merge [] (other.inner key) = other.inner key := normalOther.inner.nil_merge
  simp only [inner, related?_merge normal normalOther] at identity ⊢
  -- A side without the relation counts as one with the empty shape, which changes nothing.
  cases shape.related? key with
  | none => simpa using identity.symm
  | some pair => cases other.related? key <;> rfl

theorem Normal.under (normal : shape.Normal) : (shape.under path).Normal := by
  induction path generalizing shape with
  | nil => exact normal
  | cons key rest ih => exact ih normal.inner

/-- Following a path commutes with merging. -/
theorem under_merge (normal : shape.Normal) (normalOther : other.Normal) :
    (shape.merge other).under path = (shape.under path).merge (other.under path) := by
  induction path generalizing shape other with
  | nil => rfl
  | cons key rest ih =>
    calc (shape.merge other).under (key :: rest)
        = ((shape.merge other).inner key).under rest := rfl
      _ = ((shape.inner key).merge (other.inner key)).under rest := by
        rw [inner_merge normal normalOther]
      _ = (shape.under (key :: rest)).merge (other.under (key :: rest)) :=
        ih normal.inner normalOther.inner

theorem occurs_scalar_merge_iff (normal : shape.Normal) (normalOther : other.Normal) {type : String} :
    (shape.merge other).Occurs path key (.scalar type) ↔
      shape.Occurs path key (.scalar type) ∨ other.Occurs path key (.scalar type) := by
  simp only [Occurs, under_merge normal normalOther, get?_merge normalOther.under]
  cases first : Entries.get? (shape.under path) key with
  | none => simp
  | some value =>
    cases second : Entries.get? (other.under path) key with
    | none => simp
    | some added =>
      simpa using scalar_mem_members_merge_iff (normal.under.get? first) (normalOther.under.get? second)

theorem cardinality?_merge (normal : shape.Normal) (normalOther : other.Normal) :
    (shape.merge other).cardinality? path key =
      Option.merge Cardinality.merge (shape.cardinality? path key) (other.cardinality? path key) := by
  rw [cardinality?, under_merge normal normalOther, related?_merge normal.under normalOther.under,
    cardinality?, cardinality?]
  cases (shape.under path).related? key <;> cases (other.under path).related? key <;> rfl

theorem Normal.exists_occurs_relation_iff (normal : shape.Normal) {cardinality : Cardinality} :
    (∃ fields, shape.Occurs path key (.relation cardinality fields)) ↔
      shape.cardinality? path key = some cardinality := by
  rw [cardinality?, Shape.related?]
  cases found : Entries.get? (shape.under path) key with
  | none => simp [Occurs, found]
  | some value => simp [Occurs, found, (normal.under.get? found).relation_mem_members_iff]

/-! ### Shapes with a single key -/

@[simp]
theorem under_nil (shape : Shape) : shape.under [] = shape := rfl

@[simp]
theorem under_cons (shape : Shape) (key : String) (path : List String) :
    shape.under (key :: path) = (shape.inner key).under path := rfl

@[simp]
theorem nil_under (path : List String) : under [] path = [] := by
  induction path with
  | nil => rfl
  | cons key rest ih => exact ih

theorem not_nil_occurs {part : FieldShape} : ¬ Occurs [] path key part := by
  simp [Occurs]

theorem nil_cardinality? : cardinality? [] path key = none := by
  simp [cardinality?, related?]

variable {first type other : String} {cardinality : Cardinality} {inside : Shape} {value : FieldShape}

theorem related?_singleton :
    related? [(first, value)] key = if first = key then value.related? else none := by
  rw [related?, Entries.get?_cons]
  split <;> rfl

theorem column_inner : inner [(first, .scalar type)] key = [] := by
  simp [inner, related?_singleton, FieldShape.related?, members, relation?]

theorem column_occurs_iff :
    Occurs [(first, .scalar type)] path key (.scalar other) ↔
      path = [] ∧ first = key ∧ type = other := by
  cases path with
  | nil => by_cases same : first = key <;> simp [Occurs, Entries.get?_cons, same, members, eq_comm]
  | cons next rest => simp [Occurs, column_inner]

theorem column_cardinality? : cardinality? [(first, .scalar type)] path key = none := by
  cases path with
  | nil => simp [cardinality?, related?_singleton, FieldShape.related?, members, relation?]
  | cons next rest => simp [cardinality?, column_inner, related?]

theorem relation_inner :
    inner [(first, .relation cardinality inside)] key = if first = key then inside else [] := by
  rw [inner, related?_singleton]
  split <;> rfl

theorem not_relation_occurs_nil :
    ¬ Occurs [(first, .relation cardinality inside)] [] key (.scalar type) := by
  by_cases same : first = key <;> simp [Occurs, Entries.get?_cons, same, members]

theorem relation_cardinality?_nil :
    cardinality? [(first, .relation cardinality inside)] [] key =
      if first = key then some cardinality else none := by
  rw [cardinality?, under_nil, related?_singleton]
  split <;> rfl

end Shape

end SelectShape
