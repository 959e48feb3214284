import SelectShape.Proofs.Shape.TypeGrammar
import SelectShape.Proofs.Shape.TypeText

/-!
# Grouping

What the text of a shape groups together is not always what belongs together: the type of a column is
copied as it stands, so where it is a union and a member of an intersection, the intersection takes only
that one of its alternatives that is next to it. Unions that come from an uncertain cardinality are put in
parentheses. Main statement: the text of a normal shape reads as one type, and that is what the shape means
under each key where no intersection has a column as a member whose type is a union, and only there.
-/
namespace SelectShape

/-- The names in the type of a column. -/
def typeNames (type : String) : List String :=
  (tokens type.toList).filterMap fun
    | .word name => some name
    | .mark _ => none

/-- A name, or a union of names with bars between them. -/
def IsColumnType (type : String) : Prop :=
  ∃ names, names ≠ [] ∧ (∀ name ∈ names, IsName name) ∧ type = " | ".intercalate names

/-- The type of related rows, from the type of one of them. -/
def Cardinality.meaning (row : TypeTree) : Cardinality → TypeTree
  | .one => row
  | .many => .array row
  | .oneOrMany => .union [row, .array row]

/-- The alternatives in the text of this type. -/
def Cardinality.alternatives (row : TypeTree) : Cardinality → List (List TypeTree)
  | .one => [[row]]
  | .many => [[.array row]]
  | .oneOrMany => [[row], [.array row]]

namespace FieldShape

/-- All keys in a value are names, and all types of columns names or unions of names. -/
inductive Typed : FieldShape → Prop
  | scalar (column : IsColumnType type) : Typed (.scalar type)
  | relation {fields : List (String × FieldShape)} (keys : ∀ field ∈ fields, IsName field.1)
      (values : ∀ field ∈ fields, Typed field.2) : Typed (.relation cardinality fields)
  | intersection {members : List FieldShape} (each : ∀ member ∈ members, Typed member) :
      Typed (.intersection members)

/-- No intersection in a value has a column as a member whose type is a union. -/
inductive Grouped : FieldShape → Prop
  | scalar (type : String) : Grouped (.scalar type)
  | relation {fields : List (String × FieldShape)} (values : ∀ field ∈ fields, Grouped field.2) :
      Grouped (.relation cardinality fields)
  | intersection {members : List FieldShape} (names : ∀ type, .scalar type ∈ members → IsName type)
      (each : ∀ member ∈ members, Grouped member) : Grouped (.intersection members)

mutual

/-- The type that a value stands for. -/
def meaning : FieldShape → TypeTree
  | .scalar type => .oneOf ((typeNames type).map .name)
  | .relation cardinality fields => cardinality.meaning (.object (fieldMeanings fields))
  | .intersection members => .intersection (memberMeanings members)

def memberMeanings : List FieldShape → List TypeTree
  | [] => []
  | member :: rest => member.meaning :: memberMeanings rest

def fieldMeanings : List (String × FieldShape) → List (String × TypeTree)
  | [] => []
  | (key, value) :: rest => (key, value.meaning) :: fieldMeanings rest

end

mutual

/-- The alternatives in the text of a value. -/
def alternatives : FieldShape → List (List TypeTree)
  | .scalar type => (typeNames type).map ([.name ·])
  | .relation cardinality fields => cardinality.alternatives (.object (fieldReadings fields))
  | .intersection members => joinedAlternatives members

/-- The alternatives in the text of an intersection. -/
def joinedAlternatives : List FieldShape → List (List TypeTree)
  | [] => []
  | member :: rest =>
    joined (if member.isUnion then [[.ofAlternatives member.alternatives]] else member.alternatives)
      (joinedAlternatives rest)

def fieldReadings : List (String × FieldShape) → List (String × TypeTree)
  | [] => []
  | (key, value) :: rest => (key, .ofAlternatives value.alternatives) :: fieldReadings rest

end

/-- The type that the text of a value reads as. -/
def reading (value : FieldShape) : TypeTree := .ofAlternatives value.alternatives

/-- The alternatives in the text of a value as a member of an intersection. -/
def memberAlternatives (member : FieldShape) : List (List TypeTree) :=
  if member.isUnion then [[member.reading]] else member.alternatives

/-- The text of a value reads as its alternatives, wherever it does not go on with its last word. -/
def Readable (value : FieldShape) : Prop :=
  ∀ ⦃rest⦄, EndsWord rest →
    ReadsAlternatives value.alternatives (tokens (value.typeChars .line ++ rest)) (tokens rest)

end FieldShape

namespace Shape

/-- All keys in a shape are names, and all types of columns names or unions of names. -/
structure Typed (shape : Shape) : Prop where
  keys : ∀ field ∈ shape, IsName field.1
  values : ∀ field ∈ shape, field.2.Typed

/-- The type that a shape stands for. -/
def meaning (shape : Shape) : TypeTree := .object (FieldShape.fieldMeanings shape)

end Shape

open FieldShape

variable {names : List String} {type : String} {value member : FieldShape} {members : List FieldShape}
  {cardinality : Cardinality} {shape : Shape} {rest : List Char}

/-! ### Types of columns -/

theorem tokens_spaced_mark {c : Char} (outside : isWordChar c = false) (visible : isBlank c = false)
    (rest : List Char) : tokens (' ' :: c :: ' ' :: rest) = .mark c :: tokens rest := by
  rw [tokens_cons_blank (by decide), tokens_cons_mark outside visible, tokens_cons_blank (by decide)]

theorem tokens_intercalate (nonempty : names ≠ []) (each : ∀ name ∈ names, IsName name)
    (ends : EndsWord rest) :
    tokens ((" | ".intercalate names).toList ++ rest) =
      (names.map .word).intersperse (.mark '|') ++ tokens rest := by
  induction names with
  | nil => exact absurd rfl nonempty
  | cons name names ih =>
    obtain ⟨valid, others⟩ := List.forall_mem_cons.mp each
    cases names with
    | nil => simpa [String.toList_intercalate] using tokens_name_append valid ends
    | cons next names =>
      have text : (" | ".intercalate (name :: next :: names)).toList ++ rest =
          name.toList ++ (' ' :: '|' :: ' ' :: ((" | ".intercalate (next :: names)).toList ++ rest)) := by
        simp [String.toList_intercalate]
      rw [text, tokens_name_append valid (endsWord_cons.mpr (by decide)),
        tokens_spaced_mark (by decide) (by decide), ih (by simp) others]
      simp

theorem typeNames_intercalate (nonempty : names ≠ []) (each : ∀ name ∈ names, IsName name) :
    typeNames (" | ".intercalate names) = names := by
  have scanned := tokens_intercalate nonempty each endsValue_nil.word
  rw [tokens_nil, List.append_nil, List.append_nil] at scanned
  rw [typeNames, scanned]
  clear scanned nonempty each
  induction names with
  | nil => rfl
  | cons name names ih =>
    cases names with
    | nil => rfl
    | cons next names => simpa using ih

theorem readsAlternatives_names (nonempty : names ≠ []) (ts : List Token) :
    ReadsAlternatives (names.map ([.name ·])) ((names.map .word).intersperse (.mark '|') ++ ts) ts := by
  induction names with
  | nil => exact absurd rfl nonempty
  | cons name names ih =>
    cases names with
    | nil => exact .single (.single (.core .name))
    | cons next names => exact .cons (.single (.core .name)) (ih (by simp))

/-! ### Readings of texts -/

namespace FieldShape

theorem Readable.scalar (column : IsColumnType type) : Readable (.scalar type) := by
  obtain ⟨names, nonempty, each, rfl⟩ := column
  intro rest ends
  rw [alternatives, typeNames_intercalate nonempty each, typeChars, tokens_intercalate nonempty each ends]
  exact readsAlternatives_names nonempty _

theorem readsFields_keyChars (nonempty : shape ≠ []) (keys : ∀ field ∈ shape, IsName field.1)
    (values : ∀ field ∈ shape, field.2.Readable) (rest : List Char) :
    ReadsFields (fieldReadings shape)
      (tokens (keyChars .line shape ++ (' ' :: '\x7d' :: rest))) (.mark '\x7d' :: tokens rest) := by
  induction shape with
  | nil => exact absurd rfl nonempty
  | cons field shape ih =>
    obtain ⟨key, value⟩ := field
    rw [List.forall_mem_cons] at keys values
    have after := endsValue_afterValue .line shape rest
    have text := keyChars_append .line key value shape rest
    simp only [Layout.inner, Layout.gap, List.singleton_append] at text
    have value := values.1 after.word
    rw [text, tokens_cons_blank (by decide), tokens_name_append keys.1 (endsWord_cons.mpr (by decide)),
      tokens_cons_mark (by decide) (by decide), tokens_cons_blank (by decide), fieldReadings]
    cases shape with
    | nil =>
      have last : afterValue .line [] rest = ' ' :: '\x7d' :: rest := rfl
      rw [last, tokens_cons_blank (by decide), tokens_cons_mark (by decide) (by decide)] at value
      exact .single (.typed value)
    | cons next shape =>
      have more : afterValue .line (next :: shape) rest =
          ';' :: (keyChars .line (next :: shape) ++ (' ' :: '\x7d' :: rest)) := rfl
      rw [more, tokens_cons_mark (by decide) (by decide)] at value
      exact .cons (.typed value) (ih (by simp) keys.2 values.2)

theorem readsCore_braced (keys : ∀ field ∈ shape, IsName field.1)
    (values : ∀ field ∈ shape, field.2.Readable) (rest : List Char) :
    ReadsCore (.object (fieldReadings shape)) (tokens (Layout.line.braced (keyChars .line shape) ++ rest))
      (tokens rest) := by
  cases shape with
  | nil => exact .empty
  | cons field shape =>
    have text := braced_cons_append .line field shape rest
    simp only [Layout.inner, Layout.gap, List.singleton_append] at text
    rw [text, tokens_cons_mark (by decide) (by decide)]
    exact .object (readsFields_keyChars (by simp) keys values rest)

theorem Readable.relation (keys : ∀ field ∈ shape, IsName field.1)
    (values : ∀ field ∈ shape, field.2.Readable) : Readable (.relation cardinality shape) := by
  intro rest ends
  have object (rest : List Char) := readsCore_braced keys values rest
  have array (rest : List Char) : ReadsOperand (.array (.object (fieldReadings shape)))
      (tokens (Layout.line.braced (keyChars .line shape) ++ '[' :: ']' :: rest)) (tokens rest) := by
    refine .arrays 1 ?_
    have read := object ('[' :: ']' :: rest)
    rwa [tokens_cons_mark (by decide) (by decide), tokens_cons_mark (by decide) (by decide)] at read
  rw [alternatives, typeChars, Layout.inner]
  cases cardinality with
  | one => exact .single (.single (.core (object rest)))
  | many =>
    have read := array rest
    simp only [Cardinality.typeChars, List.append_assoc, List.cons_append, List.nil_append]
    exact .single (.single read)
  | oneOrMany =>
    simp only [Cardinality.typeChars, List.append_assoc, List.cons_append, List.nil_append]
    have first := object (' ' :: '|' :: ' ' ::
      (Layout.line.braced (keyChars .line shape) ++ '[' :: ']' :: rest))
    rw [tokens_spaced_mark (by decide) (by decide)] at first
    exact .cons (.single (.core first)) (.single (.single (array rest)))

theorem Readable.memberText (readable : member.Readable) (ends : EndsWord rest) :
    ReadsAlternatives member.memberAlternatives (tokens (member.memberText .line ++ rest)) (tokens rest) := by
  rw [memberAlternatives, FieldShape.memberText]
  split
  · have inside := readable (endsWord_cons.mpr (by decide) : EndsWord (')' :: rest))
    rw [tokens_cons_mark (by decide) (by decide)] at inside
    simp only [List.cons_append, List.append_assoc, List.nil_append]
    rw [tokens_cons_mark (by decide) (by decide)]
    exact .single (.single (.core (.group inside)))
  · exact readable ends

theorem joinedAlternatives_cons (member : FieldShape) (members : List FieldShape) :
    joinedAlternatives (member :: members) =
      joined member.memberAlternatives (joinedAlternatives members) := rfl

theorem Readable.intersection (nonempty : members ≠ []) (each : ∀ member ∈ members, member.Readable) :
    Readable (.intersection members) := by
  intro rest ends
  rw [alternatives, typeChars]
  induction members with
  | nil => exact absurd rfl nonempty
  | cons member members ih =>
    obtain ⟨here, later⟩ := List.forall_mem_cons.mp each
    rw [joinedAlternatives_cons, memberChars_cons_append, afterMember]
    cases members with
    | nil =>
      have alone : joined member.memberAlternatives (joinedAlternatives []) = member.memberAlternatives :=
        joined_nil _
      rw [alone]
      exact here.memberText ends
    | cons next members =>
      have first := here.memberText (endsWord_cons.mpr (by decide) :
        EndsWord (' ' :: '&' :: ' ' :: (memberChars .line (next :: members) ++ rest)))
      rw [tokens_spaced_mark (by decide) (by decide)] at first
      exact ReadsAlternatives.joined first (ih (by simp) later)

/-! ### Parts of intersections -/

theorem Normal.scalar_or_relation (normal : Normal (.intersection members)) (inside : member ∈ members) :
    (∃ type, member = .scalar type) ∨ ∃ cardinality fields, member = .relation cardinality fields := by
  obtain ⟨-, types, related, -, -, rfl⟩ := normal_intersection_iff.mp normal
  rcases List.mem_append.mp inside with scalar | last
  · obtain ⟨type, -, rfl⟩ := List.mem_map.mp scalar
    exact .inl ⟨type, rfl⟩
  · cases related with
    | none => cases last
    | some pair => exact .inr ⟨pair.1, pair.2, List.mem_singleton.mp last⟩

theorem Typed.readable (typed : value.Typed) (normal : value.Normal) : value.Readable := by
  induction typed with
  | scalar column => exact .scalar column
  | relation keys values ih =>
    have inner := (normal_relation_iff.mp normal).values
    exact .relation keys fun field member => ih field member (inner field member)
  | intersection each ih =>
    have several := (normal_intersection_iff.mp normal).1
    exact .intersection (List.ne_nil_of_length_pos (by omega)) fun member inside =>
      ih member inside (normal.of_mem inside)

theorem reading_scalar (type : String) : (scalar type).reading = (scalar type).meaning := by
  simp [reading, alternatives, meaning, TypeTree.ofAlternatives, TypeTree.allOf, Function.comp_def]

theorem reading_relation (cardinality : Cardinality) (fields : Shape) :
    (relation cardinality fields).reading = cardinality.meaning (.object (fieldReadings fields)) := by
  cases cardinality <;> rfl

theorem memberAlternatives_relation (cardinality : Cardinality) (fields : Shape) :
    (relation cardinality fields).memberAlternatives = [[(relation cardinality fields).reading]] := by
  cases cardinality <;> rfl

theorem memberAlternatives_name (valid : IsName type) :
    (scalar type).memberAlternatives = [[(scalar type).reading]] := by
  have only : typeNames type = [type] := by
    simpa using typeNames_intercalate (List.cons_ne_nil type []) (List.forall_mem_singleton.mpr valid)
  simp [memberAlternatives, isUnion, reading, alternatives, only, TypeTree.ofAlternatives, TypeTree.oneOf,
    TypeTree.allOf]

theorem two_le_memberAlternatives (column : IsColumnType type) (union : ¬ IsName type) :
    2 ≤ (scalar type).memberAlternatives.length := by
  obtain ⟨names, nonempty, each, rfl⟩ := column
  have length : (scalar (" | ".intercalate names)).memberAlternatives.length = names.length := by
    simp [memberAlternatives, isUnion, alternatives, typeNames_intercalate nonempty each]
  rw [length]
  rcases names with _ | ⟨first, _ | ⟨second, names⟩⟩
  · exact absurd rfl nonempty
  · exact absurd (by simpa using each) union
  · simp

theorem joinedAlternatives_of_single (nonempty : members ≠ [])
    (each : ∀ member ∈ members, member.memberAlternatives = [[member.reading]]) :
    joinedAlternatives members = [members.map reading] := by
  induction members with
  | nil => exact absurd rfl nonempty
  | cons member members ih =>
    obtain ⟨here, later⟩ := List.forall_mem_cons.mp each
    rw [joinedAlternatives_cons, here]
    cases members with
    | nil => rfl
    | cons next members =>
      rw [ih (by simp) later]
      rfl

theorem length_le_joinedAlternatives (inside : member ∈ members) :
    member.memberAlternatives.length ≤ (joinedAlternatives members).length := by
  induction members with
  | nil => cases inside
  | cons first members ih =>
    rw [joinedAlternatives_cons]
    have joins := length_joined first.memberAlternatives (joinedAlternatives members)
    rcases List.mem_cons.mp inside with rfl | later
    · exact joins.1
    · exact (ih later).trans joins.2

/-! ### Readings and meanings -/

theorem fieldReadings_eq (fields : Shape) :
    fieldReadings fields = fields.map fun field => (field.1, field.2.reading) := by
  induction fields with
  | nil => rfl
  | cons field fields ih => rw [fieldReadings, ih]; rfl

theorem fieldMeanings_eq (fields : Shape) :
    fieldMeanings fields = fields.map fun field => (field.1, field.2.meaning) := by
  induction fields with
  | nil => rfl
  | cons field fields ih => rw [fieldMeanings, ih]; rfl

theorem memberMeanings_eq (members : List FieldShape) : memberMeanings members = members.map meaning := by
  induction members with
  | nil => rfl
  | cons member members ih => rw [memberMeanings, ih]; rfl

theorem fieldReadings_eq_fieldMeanings_iff {fields : Shape} :
    fieldReadings fields = fieldMeanings fields ↔ ∀ field ∈ fields, field.2.reading = field.2.meaning := by
  rw [fieldReadings_eq, fieldMeanings_eq, List.map_inj_left]
  simp

theorem meaning_inj {row other : TypeTree} :
    cardinality.meaning row = cardinality.meaning other ↔ row = other := by
  cases cardinality <;> simp [Cardinality.meaning]

/-- An intersection is read as it is meant if its members are, and no column among them has a union for its
type. -/
theorem reading_intersection_iff (normal : Normal (.intersection members))
    (typed : ∀ member ∈ members, member.Typed)
    (each : ∀ member ∈ members, member.reading = member.meaning ↔ member.Grouped) :
    (intersection members).reading = (intersection members).meaning ↔ Grouped (.intersection members) := by
  have several := (normal_intersection_iff.mp normal).1
  by_cases names : ∀ type, .scalar type ∈ members → IsName type
  · have single (member) (inside : member ∈ members) : member.memberAlternatives = [[member.reading]] := by
      rcases normal.scalar_or_relation inside with ⟨type, rfl⟩ | ⟨cardinality, fields, rfl⟩
      · exact memberAlternatives_name (names type inside)
      · exact memberAlternatives_relation cardinality fields
    have read : (intersection members).reading = .intersection (members.map reading) := by
      have whole := joinedAlternatives_of_single (List.ne_nil_of_length_pos (by omega)) single
      rw [reading, alternatives, whole]
      exact TypeTree.allOf_eq_intersection (by simpa using several)
    rw [read, meaning, memberMeanings_eq, TypeTree.intersection.injEq, List.map_inj_left]
    constructor
    · exact fun equal => .intersection names fun member inside => (each member inside).mp (equal member inside)
    · rintro (_ | _ | ⟨-, grouped⟩)
      exact fun member inside => (each member inside).mpr (grouped member inside)
  · -- The text has a bar outside of parentheses, but an intersection is meant.
    obtain ⟨type, inside, union⟩ : ∃ type, .scalar type ∈ members ∧ ¬ IsName type := by simpa using names
    have column : IsColumnType type := by
      cases typed _ inside with
      | scalar column => exact column
    have bars := (two_le_memberAlternatives column union).trans (length_le_joinedAlternatives inside)
    have read : (intersection members).reading =
        .union ((joinedAlternatives members).map .allOf) := by
      rw [reading, alternatives]
      exact TypeTree.oneOf_eq_union (by simpa using bars)
    rw [read, meaning]
    constructor
    · exact fun equal => nomatch equal
    · rintro (_ | _ | ⟨grouped, -⟩)
      exact absurd grouped names

/-- A normal value is read as it is meant if no intersection in it has a column as a member whose type is a
union, and only then. -/
theorem reading_eq_meaning_iff (typed : value.Typed) (normal : value.Normal) :
    value.reading = value.meaning ↔ value.Grouped := by
  induction typed with
  | scalar column => exact iff_of_true (reading_scalar _) (.scalar _)
  | @relation cardinality fields keys values ih =>
    have inner := (normal_relation_iff.mp normal).values
    rw [reading_relation, meaning, meaning_inj, TypeTree.object.injEq, fieldReadings_eq_fieldMeanings_iff]
    constructor
    · exact fun equal => .relation fun field member =>
        (ih field member (inner field member)).mp (equal field member)
    · rintro (_ | grouped)
      exact fun field member => (ih field member (inner field member)).mpr (grouped field member)
  | intersection each ih =>
    exact reading_intersection_iff normal each fun member inside => ih member inside (normal.of_mem inside)

end FieldShape

/-- The text of a shape reads as one type, an object type with what is read under each key. -/
theorem readsType_typeText_iff (normal : shape.Normal) (typed : shape.Typed) (type : TypeTree) :
    ReadsType (shape.typeText .line).toList type ↔
      type = .object (shape.map fun field => (field.1, field.2.reading)) := by
  have core := readsCore_braced typed.keys
    (fun field member => (typed.values field member).readable (normal.values field member)) []
  rw [List.append_nil, tokens_nil] at core
  have read : ReadsType (shape.typeText .line).toList
      (.object (shape.map fun field => (field.1, field.2.reading))) := by
    rw [Shape.typeText, String.toList_ofList, ← fieldReadings_eq]
    exact ⟨_, .single (.single (.core core)), rfl⟩
  constructor
  · exact fun other => other.unique read
  · rintro rfl
    exact read

/-- The text of a normal shape, whose keys are names and whose columns have names or unions of names as their
types, reads as one type: an object type with one type under each key. That is what the value under the key
means if no intersection in the value has a column as a member whose type is a union, and only then. So
the whole text reads as what the shape means if this holds under each key, and only then. -/
theorem typeText_groups (normal : shape.Normal) (typed : shape.Typed) :
    (∀ type, ReadsType (shape.typeText .line).toList type ↔
      type = .object (shape.map fun field => (field.1, field.2.reading))) ∧
    (∀ field ∈ shape, field.2.reading = field.2.meaning ↔ field.2.Grouped) ∧
    (ReadsType (shape.typeText .line).toList shape.meaning ↔ ∀ field ∈ shape, field.2.Grouped) := by
  have each (field) (member : field ∈ shape) : field.2.reading = field.2.meaning ↔ field.2.Grouped :=
    reading_eq_meaning_iff (typed.values field member) (normal.values field member)
  refine ⟨readsType_typeText_iff normal typed, each, ?_⟩
  rw [readsType_typeText_iff normal typed, Shape.meaning, TypeTree.object.injEq, ← fieldReadings_eq, eq_comm,
    fieldReadings_eq_fieldMeanings_iff]
  constructor
  · exact fun equal field member => (each field member).mp (equal field member)
  · exact fun grouped field member => (each field member).mpr (grouped field member)

/-- A union of names under one key, and under another one a name and rows of an uncertain number. -/
def Shape.parenthesized : Shape :=
  [("n", .scalar "int | null"),
    ("k", .intersection [.scalar "string", .relation .oneOrMany [("a", .scalar "b")]])]

theorem typeText_groups_parenthesized :
    ReadsType "\x7b n: int | null; k: string & (\x7b a: b \x7d | \x7b a: b \x7d[]) \x7d".toList
      (.object [("n", .union [.name "int", .name "null"]),
        ("k", .intersection [.name "string",
          .union [.object [("a", .name "b")], .array (.object [("a", .name "b")])]])]) := by
  have column {name : String} (valid : IsName name) : Typed (.scalar name) :=
    .scalar ⟨[name], by simp, List.forall_mem_singleton.mpr valid, by simp⟩
  have normal : Shape.parenthesized.Normal := by
    have inner : FieldShape.Normal (.relation .oneOrMany [("a", .scalar "b")]) :=
      .relation (by decide) (List.forall_mem_singleton.mpr (.scalar "b"))
    refine ⟨by decide, ?_⟩
    rw [Shape.parenthesized, List.forall_mem_cons, List.forall_mem_singleton]
    exact ⟨.scalar "int | null", @FieldShape.Normal.mixed ["string"] _ _ (by simp) (by simp) inner⟩
  have typed : Shape.parenthesized.Typed := by
    have inner : Typed (.relation .oneOrMany [("a", .scalar "b")]) :=
      .relation (by decide) (List.forall_mem_singleton.mpr (column (by decide)))
    refine ⟨by decide, ?_⟩
    rw [Shape.parenthesized, List.forall_mem_cons, List.forall_mem_singleton]
    refine ⟨.scalar ⟨["int", "null"], by simp, by decide, rfl⟩, .intersection ?_⟩
    rw [List.forall_mem_cons, List.forall_mem_singleton]
    exact ⟨column (by decide), inner⟩
  refine (typeText_groups normal typed).2.2.mpr ?_
  rw [Shape.parenthesized, List.forall_mem_cons, List.forall_mem_singleton]
  refine ⟨.scalar _, .intersection ?_ ?_⟩
  · intro type member
    obtain rfl : type = "string" := by simpa using member
    decide
  · rw [List.forall_mem_cons, List.forall_mem_singleton]
    exact ⟨.scalar _, .relation (List.forall_mem_singleton.mpr (.scalar _))⟩

/-- Two columns under one key, the second of which has a union for its type. -/
def Shape.optional : Shape := [("x", .intersection [.scalar "number", .scalar "string | null"])]

/-- The intersection takes one name of the union only. -/
theorem typeText_union_misread :
    Shape.optional.Normal ∧ Shape.optional.Typed ∧
    Shape.optional.typeText .line = "\x7b x: number & string | null \x7d" ∧
    Shape.optional.meaning =
      .object [("x", .intersection [.name "number", .union [.name "string", .name "null"]])] ∧
    ReadsType (Shape.optional.typeText .line).toList
      (.object [("x", .union [.intersection [.name "number", .name "string"], .name "null"])]) ∧
    ¬ ReadsType (Shape.optional.typeText .line).toList Shape.optional.meaning := by
  have normal : Shape.optional.Normal :=
    ⟨by decide, List.forall_mem_singleton.mpr
      (@FieldShape.Normal.types ["number", "string | null"] (by decide) (by simp))⟩
  have typed : Shape.optional.Typed := by
    refine ⟨by decide, List.forall_mem_singleton.mpr (.intersection ?_)⟩
    rw [List.forall_mem_cons, List.forall_mem_singleton]
    exact ⟨.scalar ⟨["number"], by simp, by decide, rfl⟩,
      .scalar ⟨["string", "null"], by simp, by decide, rfl⟩⟩
  have reads := readsType_typeText_iff normal typed
  refine ⟨normal, typed, by decide, rfl, (reads _).mpr rfl, fun read => ?_⟩
  have same := (reads _).mp read
  cases same

end SelectShape
