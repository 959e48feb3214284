import SelectShape.Catalog.Basic

/-!
# Declared cardinalities

Looking a relationship up goes through a list, and takes the first one with the given hint. `Declares`
says what a list declares by its members alone. Main statement: looking up returns what is declared, and
where relationships with the same hint do not differ nothing else is, so their order does not count.
-/
namespace SelectShape.Catalog

/-- There are relationships from one table to another, and all have this cardinality. -/
structure Agreed (relationships : List Relationship) (origin target : String)
    (cardinality : Cardinality) : Prop where
  declared : ∃ hint, ⟨origin, target, hint, cardinality⟩ ∈ relationships
  only : ∀ hint other, ⟨origin, target, hint, other⟩ ∈ relationships → other = cardinality

/-- No relationship has the hint, if one is given. -/
def Unanswered (relationships : List Relationship) (origin target : String)
    (hint : Option String) : Prop :=
  ∀ name cardinality, hint = some name → ⟨origin, target, some name, cardinality⟩ ∉ relationships

/-- The cardinality that is declared for a related resource: that of a relationship with the given hint,
else the one on which all relationships between the tables agree, and else it is left open. -/
inductive Declares (relationships : List Relationship) (origin target : String) :
    Option String → Cardinality → Prop
  | hinted (member : ⟨origin, target, some name, cardinality⟩ ∈ relationships) :
      Declares relationships origin target (some name) cardinality
  | agreed (unanswered : Unanswered relationships origin target hint)
      (agreed : Agreed relationships origin target cardinality) :
      Declares relationships origin target hint cardinality
  | disagreed (unanswered : Unanswered relationships origin target hint)
      (none : ∀ cardinality, ¬ Agreed relationships origin target cardinality) :
      Declares relationships origin target hint .oneOrMany

/-- Relationships between the same tables with the same hint have the same cardinality. -/
def Consistent (relationships : List Relationship) : Prop :=
  ∀ origin target name first second, ⟨origin, target, some name, first⟩ ∈ relationships →
    ⟨origin, target, some name, second⟩ ∈ relationships → first = second

/-- From one table to another there are the same relationships in both lists, in any order. -/
def SameBetween (relationships others : List Relationship) (origin target : String) : Prop :=
  ∀ hint cardinality, ⟨origin, target, hint, cardinality⟩ ∈ relationships ↔
    ⟨origin, target, hint, cardinality⟩ ∈ others

variable {catalog : Catalog} {relationships others : List Relationship} {origin target : String}
  {hint : Option String} {cardinality first second : Cardinality}

/-! ### Looking up -/

theorem mem_between_iff {relationship : Relationship} :
    relationship ∈ catalog.between origin target ↔
      relationship ∈ catalog.relationships ∧ relationship.origin = origin ∧
        relationship.target = target := by
  simp [between]

theorem mk_mem_between_iff :
    ⟨origin, target, hint, cardinality⟩ ∈ catalog.between origin target ↔
      ⟨origin, target, hint, cardinality⟩ ∈ catalog.relationships := by
  simp [between]

theorem agreed?_eq_some_iff :
    agreed? relationships = some cardinality ↔
      relationships ≠ [] ∧ ∀ relationship ∈ relationships, relationship.cardinality = cardinality := by
  cases relationships with
  | nil => simp [agreed?]
  | cons relationship rest =>
    simp only [agreed?, List.all_eq_true, beq_iff_eq, Option.ite_none_right_eq_some, Option.some.injEq,
      List.forall_mem_cons, ne_eq, reduceCtorEq, not_false_eq_true, true_and]
    constructor
    · rintro ⟨same, rfl⟩
      exact ⟨rfl, same⟩
    · rintro ⟨rfl, same⟩
      exact ⟨same, rfl⟩

theorem agreed?_between_iff :
    agreed? (catalog.between origin target) = some cardinality ↔
      Agreed catalog.relationships origin target cardinality := by
  rw [agreed?_eq_some_iff]
  constructor
  · rintro ⟨nonempty, same⟩
    refine ⟨?_, fun hint other member => same _ (mk_mem_between_iff.mpr member)⟩
    obtain ⟨⟨origin, target, hint, own⟩, among⟩ := List.exists_mem_of_ne_nil _ nonempty
    obtain ⟨member, rfl, rfl⟩ := mem_between_iff.mp among
    obtain rfl : own = cardinality := same _ among
    exact ⟨hint, member⟩
  · rintro ⟨⟨hint, member⟩, only⟩
    refine ⟨List.ne_nil_of_mem (mk_mem_between_iff.mpr member), ?_⟩
    rintro ⟨origin, target, given, other⟩ among
    obtain ⟨present, rfl, rfl⟩ := mem_between_iff.mp among
    exact only given other present

/-- Looking up returns what is declared. -/
theorem declares_cardinality? (catalog : Catalog) (origin target : String) (hint : Option String) :
    Declares catalog.relationships origin target hint
      ((catalog.cardinality? origin target hint).getD .oneOrMany) := by
  rw [cardinality?]
  cases found : hint.bind fun hint => (catalog.between origin target).find? (·.hint == some hint) with
  | some relationship =>
    obtain ⟨name, rfl, first⟩ := Option.bind_eq_some_iff.mp found
    obtain ⟨origin, target, given, cardinality⟩ := relationship
    obtain ⟨member, rfl, rfl⟩ := mem_between_iff.mp (List.mem_of_find?_eq_some first)
    obtain rfl : given = some name := by simpa using List.find?_some first
    exact .hinted member
  | none =>
    have unanswered : Unanswered catalog.relationships origin target hint := by
      rintro name cardinality rfl member
      have absent := List.find?_eq_none.mp found _ (mk_mem_between_iff.mpr member)
      simp at absent
    dsimp only
    cases agreed : agreed? (catalog.between origin target) with
    | some cardinality => exact .agreed unanswered (agreed?_between_iff.mp agreed)
    | none =>
      refine .disagreed unanswered fun cardinality all => ?_
      simp [agreed?_between_iff.mpr all] at agreed

/-! ### Only members count -/

/-- Consistent relationships declare one cardinality. -/
theorem Declares.unique (consistent : Consistent relationships)
    (declares : Declares relationships origin target hint first)
    (again : Declares relationships origin target hint second) : first = second := by
  cases declares with
  | hinted member =>
    cases again with
    | hinted other => exact consistent _ _ _ _ _ member other
    | agreed unanswered => exact absurd member (unanswered _ _ rfl)
    | disagreed unanswered => exact absurd member (unanswered _ _ rfl)
  | agreed unanswered agreed =>
    cases again with
    | hinted other => exact absurd other (unanswered _ _ rfl)
    | agreed _ others =>
      obtain ⟨hint, member⟩ := agreed.declared
      exact others.only hint first member
    | disagreed _ none => exact absurd agreed (none first)
  | disagreed unanswered none =>
    cases again with
    | hinted other => exact absurd other (unanswered _ _ rfl)
    | agreed _ agreed => exact absurd agreed (none second)
    | disagreed => rfl

theorem SameBetween.symm (same : SameBetween relationships others origin target) :
    SameBetween others relationships origin target :=
  fun hint cardinality => (same hint cardinality).symm

theorem Agreed.congr (agreed : Agreed relationships origin target cardinality)
    (same : SameBetween relationships others origin target) :
    Agreed others origin target cardinality where
  declared := by
    obtain ⟨hint, member⟩ := agreed.declared
    exact ⟨hint, (same _ _).mp member⟩
  only hint other among := agreed.only hint other ((same _ _).mpr among)

theorem Unanswered.congr (unanswered : Unanswered relationships origin target hint)
    (same : SameBetween relationships others origin target) :
    Unanswered others origin target hint :=
  fun name cardinality given member => unanswered name cardinality given ((same _ _).mpr member)

theorem Declares.congr (declares : Declares relationships origin target hint cardinality)
    (same : SameBetween relationships others origin target) :
    Declares others origin target hint cardinality := by
  cases declares with
  | hinted member => exact .hinted ((same _ _).mp member)
  | agreed unanswered agreed => exact .agreed (unanswered.congr same) (agreed.congr same)
  | disagreed unanswered none =>
    exact .disagreed (unanswered.congr same) fun cardinality agreed => none _ (agreed.congr same.symm)

/-- Looking up returns the same for lists with the same relationships, if these are consistent. -/
theorem getD_cardinality?_eq {other : Catalog} (consistent : Consistent catalog.relationships)
    (same : SameBetween catalog.relationships other.relationships origin target)
    (hint : Option String) :
    (catalog.cardinality? origin target hint).getD .oneOrMany =
      (other.cardinality? origin target hint).getD .oneOrMany := by
  have declares := declares_cardinality? catalog origin target hint
  have again := declares_cardinality? other origin target hint
  exact declares.unique consistent (again.congr same.symm)

end SelectShape.Catalog
