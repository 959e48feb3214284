import SelectShape.Proofs.Shape.Same

/-!
# Merging is a join

On normal values merging is idempotent and associative, and commutative up to the order of keys. Each law
goes down a value along the relations within it: the laws of keyed values carry it from the values under
shared keys to the relations, and ascending types satisfy it on their own.
-/
namespace SelectShape

theorem Cardinality.merge_self (a : Cardinality) : a.merge a = a := by simp [merge]

theorem Cardinality.merge_comm (a b : Cardinality) : a.merge b = b.merge a := by
  cases a <;> cases b <;> rfl

theorem Cardinality.merge_assoc (a b c : Cardinality) : (a.merge b).merge c = a.merge (b.merge c) := by
  cases a <;> cases b <;> cases c <;> rfl

open FieldShape

/-! ## Laws of relations, from those of the values in them -/

namespace Shape

variable {shape other further : Shape}

private theorem Normal.merge_self_of_values (normal : shape.Normal)
    (values : ∀ field ∈ shape, field.2.merge field.2 = field.2) : shape.merge shape = shape :=
  Entries.putAll_self normal.unique values

private theorem Normal.merge_assoc_of_values (normal : shape.Normal) (normalOther : other.Normal)
    (normalFurther : further.Normal) (values : ∀ field ∈ shape, ∀ b c, b.Normal → c.Normal →
      (field.2.merge b).merge c = field.2.merge (b.merge c)) :
    (shape.merge other).merge further = shape.merge (other.merge further) := by
  refine Entries.putAll_assoc normal.unique normalOther.unique normalFurther.unique ?_
  intro key a b c first second third
  exact values _ (Entries.mem_of_get? first) b c (normalOther.values _ (Entries.mem_of_get? second))
    (normalFurther.values _ (Entries.mem_of_get? third))

private theorem Normal.merge_comm_of_values (normal : shape.Normal) (normalOther : other.Normal)
    (values : ∀ field ∈ shape, ∀ b, b.Normal → (field.2.merge b).same (b.merge field.2)) :
    (shape.merge other).same (other.merge shape) := by
  refine same_iff.mpr ⟨Entries.length_putAll_comm _ normal.unique normalOther.unique, ?_⟩
  rintro ⟨key, value⟩ member
  have found := Entries.get?_of_mem (normal.merge normalOther).unique member
  rw [Shape.merge, Entries.get?_putAll _ _ normalOther.unique] at found
  rw [Shape.merge, Entries.get?_putAll _ _ normal.unique]
  -- A value that stands on one side alone is its own counterpart.
  rcases Option.merge_eq_some_iff.mp found with ⟨old, absent⟩ | ⟨absent, new⟩ |
    ⟨present, added, old, new, rfl⟩
  · rw [old, absent]
    exact ⟨value, rfl, (normal.values _ (Entries.mem_of_get? old)).same_self⟩
  · rw [new, absent]
    exact ⟨value, rfl, (normalOther.values _ (Entries.mem_of_get? new)).same_self⟩
  · rw [old, new]
    exact ⟨_, rfl, values _ (Entries.mem_of_get? old) added
      (normalOther.values _ (Entries.mem_of_get? new))⟩

end Shape

namespace Parts

variable {parts others further : Parts}

private theorem join_self_of_related (normal : parts.Normal)
    (related : ∀ pair, parts.relation = some pair → joinRelated pair pair = pair) :
    parts.join parts = parts := by
  obtain ⟨types, relation, nested⟩ := parts
  obtain rfl : nested = [] := normal.flat
  rw [join, joinTypes_self normal.ascending]
  cases relation with
  | none => rfl
  | some pair => rw [Option.merge_some_some, related pair rfl]

private theorem join_assoc_of_related (normal : parts.Normal)
    (related : ∀ first second third, parts.relation = some first → others.relation = some second →
      further.relation = some third →
      joinRelated (joinRelated first second) third = joinRelated first (joinRelated second third)) :
    (parts.join others).join further = parts.join (others.join further) := by
  simp only [join, joinTypes_assoc normal.ascending]
  -- Unless all three have a relation, both sides are the same by definition.
  cases first : parts.relation <;> cases second : others.relation <;>
    cases third : further.relation <;> simp [Option.merge]
  exact related _ _ _ first second third

private theorem join_comm_of_related (normal : parts.Normal) (normalOthers : others.Normal)
    (related : ∀ first second, parts.relation = some first → others.relation = some second →
      (joinRelated first second).2.same (joinRelated second first).2) :
    (parts.join others).Same (others.join parts) := by
  refine ⟨joinTypes_comm normal.ascending normalOthers.ascending, ?_⟩
  simp only [join]
  cases first : parts.relation with
  | none =>
    cases second : others.relation with
    | none => exact .none
    | some pair => exact .some ⟨rfl, (normalOthers.related _ _ second).same_self⟩
  | some pair =>
    cases second : others.relation with
    | none => exact .some ⟨rfl, (normal.related _ _ first).same_self⟩
    | some added => exact .some ⟨Cardinality.merge_comm _ _, related pair added first second⟩

end Parts

/-! ## The laws -/

namespace FieldShape

variable {a b c : FieldShape}

theorem Normal.merge_self (normal : a.Normal) : a.merge a = a := by
  refine Normal.induction (P := fun a => a.merge a = a) ?_ normal
  intro a normal ih
  refine (normal.merge normal).eq_of_parts normal ?_
  rw [parts_merge normal normal]
  refine Parts.join_self_of_related normal.parts ?_
  rintro ⟨cardinality, shape⟩ related
  have shapes := (normal.parts.related _ _ related).merge_self_of_values (ih _ _ related)
  rw [Parts.joinRelated, Cardinality.merge_self, shapes]

theorem Normal.merge_assoc (normalA : a.Normal) (normalB : b.Normal) (normalC : c.Normal) :
    (a.merge b).merge c = a.merge (b.merge c) := by
  refine Normal.induction (P := fun a => ∀ b c, b.Normal → c.Normal →
    (a.merge b).merge c = a.merge (b.merge c)) ?_ normalA b c normalB normalC
  intro a normalA ih b c normalB normalC
  refine ((normalA.merge normalB).merge normalC).eq_of_parts
    (normalA.merge (normalB.merge normalC)) ?_
  rw [parts_merge (normalA.merge normalB) normalC, parts_merge normalA normalB,
    parts_merge normalA (normalB.merge normalC), parts_merge normalB normalC]
  refine Parts.join_assoc_of_related normalA.parts ?_
  rintro ⟨_, _⟩ ⟨_, _⟩ ⟨_, _⟩ first second third
  have shapes := (normalA.parts.related _ _ first).merge_assoc_of_values
    (normalB.parts.related _ _ second) (normalC.parts.related _ _ third) (ih _ _ first)
  simp only [Parts.joinRelated, Cardinality.merge_assoc, shapes]

theorem Normal.merge_comm (normalA : a.Normal) (normalB : b.Normal) :
    (a.merge b).same (b.merge a) := by
  refine Normal.induction (P := fun a => ∀ b, b.Normal → (a.merge b).same (b.merge a)) ?_
    normalA b normalB
  intro a normalA ih b normalB
  rw [merge_eq_toFieldShape normalA normalB, merge_eq_toFieldShape normalB normalA]
  refine Parts.Same.toFieldShape ?_ rfl rfl
  refine Parts.join_comm_of_related normalA.parts normalB.parts ?_
  rintro ⟨_, _⟩ ⟨_, _⟩ first second
  exact (normalA.parts.related _ _ first).merge_comm_of_values (normalB.parts.related _ _ second)
    (ih _ _ first)

end FieldShape

namespace Shape

variable {shape other further : Shape}

theorem Normal.merge_self (normal : shape.Normal) : shape.merge shape = shape :=
  normal.merge_self_of_values fun field member => (normal.values field member).merge_self

theorem Normal.merge_assoc (normal : shape.Normal) (normalOther : other.Normal)
    (normalFurther : further.Normal) :
    (shape.merge other).merge further = shape.merge (other.merge further) :=
  normal.merge_assoc_of_values normalOther normalFurther fun field member _ _ normalB normalC =>
    (normal.values field member).merge_assoc normalB normalC

theorem Normal.merge_comm (normal : shape.Normal) (normalOther : other.Normal) :
    (shape.merge other).same (other.merge shape) :=
  normal.merge_comm_of_values normalOther fun field member _ normalB =>
    (normal.values field member).merge_comm normalB

theorem Normal.nil_merge (normal : shape.Normal) : Shape.merge [] shape = shape :=
  Entries.nil_putAll _ normal.unique

theorem merge_nil (shape : Shape) : shape.merge [] = shape := rfl

end Shape

/-- A join on the normal members of a type: closed, idempotent, associative, and commutative up to an
equality that may be coarser than being identical. -/
structure Semilattice (Normal : α → Prop) (join : α → α → α) (same : α → α → Bool) : Prop where
  closed : ∀ a b, Normal a → Normal b → Normal (join a b)
  self : ∀ a, Normal a → join a a = a
  assoc : ∀ a b c, Normal a → Normal b → Normal c → join (join a b) c = join a (join b c)
  comm : ∀ a b, Normal a → Normal b → same (join a b) (join b a)

/-- Merging is a join on normal values and on normal shapes, whose equality ignores the order of keys;
idempotence and associativity do not. The empty shape is its identity. -/
theorem merge_semilattice :
    Semilattice FieldShape.Normal FieldShape.merge FieldShape.same ∧
    Semilattice Shape.Normal Shape.merge Shape.same ∧
    ∀ shape : Shape, shape.Normal → Shape.merge [] shape = shape ∧ shape.merge [] = shape := by
  refine ⟨⟨?_, ?_, ?_, ?_⟩, ⟨?_, ?_, ?_, ?_⟩, ?_⟩
  · exact fun _ _ normalA normalB => normalA.merge normalB
  · exact fun _ normal => normal.merge_self
  · exact fun _ _ _ normalA normalB normalC => normalA.merge_assoc normalB normalC
  · exact fun _ _ normalA normalB => normalA.merge_comm normalB
  · exact fun _ _ normal normalOther => normal.merge normalOther
  · exact fun _ normal => normal.merge_self
  · exact fun _ _ _ normal normalOther normalFurther => normal.merge_assoc normalOther normalFurther
  · exact fun _ _ normal normalOther => normal.merge_comm normalOther
  · exact fun shape normal => ⟨normal.nil_merge, shape.merge_nil⟩

/-- The order of keys does count for being identical: a relation and a mixed value under one key, in
either order. -/
theorem merge_semilattice_mixed :
    (FieldShape.merge (.relation .one [("id", .scalar "int")])
        (.intersection [.scalar "text",
          .relation .many [("at", .scalar "date"), ("id", .scalar "uuid")]])).same
      (FieldShape.merge
        (.intersection [.scalar "text",
          .relation .many [("at", .scalar "date"), ("id", .scalar "uuid")]])
        (.relation .one [("id", .scalar "int")])) ∧
    FieldShape.merge (.relation .one [("id", .scalar "int")])
        (.intersection [.scalar "text",
          .relation .many [("at", .scalar "date"), ("id", .scalar "uuid")]]) =
      .intersection [.scalar "text", .relation .oneOrMany
        [("id", .intersection [.scalar "int", .scalar "uuid"]), ("at", .scalar "date")]] ∧
    FieldShape.merge
        (.intersection [.scalar "text",
          .relation .many [("at", .scalar "date"), ("id", .scalar "uuid")]])
        (.relation .one [("id", .scalar "int")]) =
      .intersection [.scalar "text", .relation .oneOrMany
        [("at", .scalar "date"), ("id", .intersection [.scalar "int", .scalar "uuid"])]] := by
  refine ⟨merge_semilattice.1.comm _ _ (.relation (by decide) ?_) ?_, by decide, by decide⟩
  · simpa using .scalar "int"
  · refine @FieldShape.Normal.mixed ["text"] _ _ (by decide) (by decide) (.relation (by decide) ?_)
    simpa using ⟨.scalar "date", .scalar "uuid"⟩

end SelectShape
