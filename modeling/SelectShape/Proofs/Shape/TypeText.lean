import SelectShape.Proofs.Selection.Token
import SelectShape.Proofs.Shape.Normal
import SelectShape.Shape.TypeText

/-!
# Reading types back

Braces enclose an object, and what follows a value tells where it ends: an array has brackets, a union
goes on with a bar, an intersection with an ampersand, and nothing else does. So from the text of a
value, with whatever may follow, the value can be told and where its text ends. Main statement: in
either layout, the text of a normal shape whose keys and types are names determines the shape.
-/
namespace SelectShape

/-- All keys and types in a value are names. -/
inductive FieldShape.Named : FieldShape → Prop
  | scalar (name : IsName type) : Named (.scalar type)
  | relation {fields : List (String × FieldShape)} (keys : ∀ field ∈ fields, IsName field.1)
      (values : ∀ field ∈ fields, Named field.2) : Named (.relation cardinality fields)
  | intersection {members : List FieldShape} (each : ∀ member ∈ members, Named member) :
      Named (.intersection members)

/-- All keys and types in a shape are names. -/
structure Shape.Named (shape : Shape) : Prop where
  keys : ∀ field ∈ shape, IsName field.1
  values : ∀ field ∈ shape, field.2.Named

/-- A text that may follow a part of an intersection: it goes on with no word, array or union. -/
structure EndsPart (rest : List Char) : Prop where
  word : EndsWord rest
  array : rest.head? ≠ some '['
  union : ¬ [' ', '|'] <+: rest

/-- A text that may follow a value: neither does it go on with an intersection. -/
structure EndsValue (rest : List Char) : Prop extends EndsPart rest where
  intersection : ¬ [' ', '&'] <+: rest

namespace FieldShape

/-- A normal value with names for its keys and types. -/
def Plain (value : FieldShape) : Prop := value.Normal ∧ value.Named

/-- The text of a value tells it from all plain values, whatever follows, and tells where it ends. -/
def Determined (value : FieldShape) : Prop :=
  ∀ {layout : Layout} {other : FieldShape} {rest further : List Char}, other.Plain → EndsValue rest →
    EndsValue further → value.typeChars layout ++ rest = other.typeChars layout ++ further →
    value = other ∧ rest = further

/-- A type or a relation, named, that holds values with a property. -/
inductive Part (P : FieldShape → Prop) : FieldShape → Prop
  | scalar (name : IsName type) : Part P (.scalar type)
  | relation {fields : List (String × FieldShape)} (keys : ∀ field ∈ fields, IsName field.1)
      (values : ∀ field ∈ fields, P field.2) : Part P (.relation cardinality fields)

/-- A part, or an intersection of several ones. -/
inductive Composed (P : FieldShape → Prop) : FieldShape → Prop
  | part (single : Part P value) : Composed P value
  | joined {members : List FieldShape} (parts : ∀ member ∈ first :: second :: members, Part P member) :
      Composed P (.intersection (first :: second :: members))

end FieldShape

open FieldShape

variable {layout : Layout} {rest further : List Char} {shape other : Shape}

/-! ### What may follow -/

theorem endsWord_cons {c : Char} : EndsWord (c :: rest) ↔ isWordChar c = false := by simp [EndsWord]

theorem endsValue_nil : EndsValue [] := ⟨⟨by simp [EndsWord], by simp, by simp⟩, by simp⟩

theorem endsValue_semicolon (rest : List Char) : EndsValue (';' :: rest) :=
  ⟨⟨endsWord_cons.mpr (by decide), by simp, by simp⟩, by simp⟩

theorem endsValue_brace (rest : List Char) : EndsValue (' ' :: '\x7d' :: rest) :=
  ⟨⟨endsWord_cons.mpr (by decide), by simp, by simp⟩, by simp⟩

theorem endsPart_parenthesis (rest : List Char) : EndsPart (')' :: rest) :=
  ⟨endsWord_cons.mpr (by decide), by simp, by simp⟩

theorem endsPart_ampersand (rest : List Char) : EndsPart (' ' :: '&' :: rest) :=
  ⟨endsWord_cons.mpr (by decide), by simp, by simp⟩

theorem not_endsWord_name_append {name : String} (valid : IsName name) :
    ¬ EndsWord (name.toList ++ rest) := by
  obtain ⟨nonempty, inside⟩ := valid
  intro ends
  cases chars : name.toList with
  | nil => exact nonempty (String.toList_eq_nil_iff.mp chars)
  | cons c cs =>
    have word : isWordChar c = true := inside c (by simp [chars])
    have noWord : isWordChar c = false := ends c (by simp [chars])
    simp [word] at noWord

theorem name_append_inj {name other : String} (valid : IsName name) (validOther : IsName other)
    (ends : EndsWord rest) (endsFurther : EndsWord further)
    (same : name.toList ++ rest = other.toList ++ further) : name = other ∧ rest = further := by
  have text : name.toList = other.toList := by
    rw [← takeWhile_name_append valid ends, same, takeWhile_name_append validOther endsFurther]
  rw [text] at same
  exact ⟨String.toList_inj.mp text, List.append_cancel_left same⟩

/-! ### Objects -/

/-- What follows a value in an object: the keys after it, and the end of the object. -/
def afterValue (layout : Layout) (fields : Shape) (rest : List Char) : List Char :=
  (if fields.isEmpty then layout.inner.last else ';' :: keyChars layout.inner fields)
    ++ (layout.gap ++ '\x7d' :: rest)

theorem endsValue_afterValue (layout : Layout) (fields : Shape) (rest : List Char) :
    EndsValue (afterValue layout fields rest) := by
  cases fields with
  | cons field fields => exact endsValue_semicolon _
  | nil =>
    cases layout with
    | line => exact endsValue_brace rest
    | lines level => exact endsValue_semicolon _

/-- Whether further keys follow a value is told by what stands in front of the next one. -/
theorem afterValue_nil_ne (layout : Layout) (field : String × FieldShape) (fields : Shape)
    (rest further : List Char) :
    afterValue layout [] rest ≠ afterValue layout (field :: fields) further := by
  obtain ⟨key, value⟩ := field
  intro same
  cases layout with
  | line => simp [afterValue, Layout.inner, Layout.last, Layout.gap] at same
  | lines level =>
    -- The next key is indented further than the brace that ends the object.
    have deeper : List.replicate (2 * (level + 1)) ' ' =
        List.replicate (2 * level) ' ' ++ [' ', ' '] := by
      rw [Nat.mul_add, List.replicate_add]
      rfl
    simp [afterValue, Layout.inner, Layout.last, Layout.gap, keyChars, deeper] at same

theorem keyChars_append (layout : Layout) (key : String) (value : FieldShape) (fields : Shape)
    (rest : List Char) :
    keyChars layout.inner ((key, value) :: fields) ++ (layout.gap ++ '\x7d' :: rest) =
      layout.inner.gap ++ (key.toList ++ (':' :: ' ' ::
        (value.typeChars layout.inner ++ afterValue layout fields rest))) := by
  simp [keyChars, afterValue]

theorem keyChars_append_inj {key name : String} {value counterpart : FieldShape} (valid : IsName key)
    (determined : value.Determined) (validOther : IsName name) (plain : counterpart.Plain)
    (same : keyChars layout.inner ((key, value) :: shape) ++ (layout.gap ++ '\x7d' :: rest) =
      keyChars layout.inner ((name, counterpart) :: other) ++ (layout.gap ++ '\x7d' :: further)) :
    (key, value) = (name, counterpart) ∧
      afterValue layout shape rest = afterValue layout other further := by
  rw [keyChars_append, keyChars_append] at same
  obtain ⟨rfl, values⟩ := name_append_inj valid validOther (endsWord_cons.mpr (by decide))
    (endsWord_cons.mpr (by decide)) (List.append_cancel_left same)
  simp only [List.cons.injEq, true_and] at values
  obtain ⟨rfl, after⟩ := determined plain (endsValue_afterValue layout shape rest)
    (endsValue_afterValue layout other further) values
  exact ⟨rfl, after⟩

theorem afterValue_inj (keys : ∀ field ∈ shape, IsName field.1)
    (values : ∀ field ∈ shape, field.2.Determined) (keysOther : ∀ field ∈ other, IsName field.1)
    (valuesOther : ∀ field ∈ other, field.2.Plain)
    (same : afterValue layout shape rest = afterValue layout other further) :
    shape = other ∧ rest = further := by
  induction shape generalizing other with
  | nil =>
    cases other with
    | nil => exact ⟨rfl, by simpa [afterValue] using same⟩
    | cons next other => exact absurd same (afterValue_nil_ne layout next other rest further)
  | cons field shape ih =>
    cases other with
    | nil => exact absurd same.symm (afterValue_nil_ne layout field shape further rest)
    | cons next other =>
      rw [List.forall_mem_cons] at keys values keysOther valuesOther
      obtain ⟨equal, after⟩ := keyChars_append_inj keys.1 values.1 keysOther.1 valuesOther.1
        (List.cons.inj same).2
      obtain rfl : field = next := equal
      obtain ⟨rfl, ended⟩ := ih keys.2 values.2 keysOther.2 valuesOther.2 after
      exact ⟨rfl, ended⟩

theorem braced_cons_append (layout : Layout) (field : String × FieldShape) (fields : Shape)
    (rest : List Char) :
    layout.braced (keyChars layout.inner (field :: fields)) ++ rest =
      '\x7b' :: (keyChars layout.inner (field :: fields) ++ (layout.gap ++ '\x7d' :: rest)) := by
  have nonempty : (keyChars layout.inner (field :: fields)).isEmpty = false := by
    cases layout <;> simp [keyChars, Layout.inner, Layout.gap]
  simp [Layout.braced, nonempty]

/-- The text of an object is told from what follows. -/
theorem braced_append_inj (keys : ∀ field ∈ shape, IsName field.1)
    (values : ∀ field ∈ shape, field.2.Determined) (keysOther : ∀ field ∈ other, IsName field.1)
    (valuesOther : ∀ field ∈ other, field.2.Plain)
    (same : layout.braced (keyChars layout.inner shape) ++ rest =
      layout.braced (keyChars layout.inner other) ++ further) : shape = other ∧ rest = further := by
  have empty (text : List Char) :
      layout.braced (keyChars layout.inner []) ++ text = '\x7b' :: '\x7d' :: text := by
    simp [Layout.braced, keyChars]
  have opened (field : String × FieldShape) (fields : Shape) (text more : List Char) :
      keyChars layout.inner (field :: fields) ++ text ≠ '\x7d' :: more := by
    cases layout <;> simp [keyChars, Layout.inner, Layout.gap]
  cases shape with
  | nil =>
    cases other with
    | nil => simpa [empty] using same
    | cons next other =>
      rw [empty, braced_cons_append] at same
      exact absurd (List.cons.inj same).2.symm (opened _ _ _ _)
  | cons field shape =>
    cases other with
    | nil =>
      rw [empty, braced_cons_append] at same
      exact absurd (List.cons.inj same).2 (opened _ _ _ _)
    | cons next other =>
      rw [braced_cons_append, braced_cons_append] at same
      apply afterValue_inj keys values keysOther valuesOther
      exact congrArg (';' :: ·) (List.cons.inj same).2

/-! ### Parts of intersections -/

/-- What stands behind the first object in the type of related rows. -/
def Cardinality.tail (row : List Char) : Cardinality → List Char
  | .one => []
  | .many => ['[', ']']
  | .oneOrMany => [' ', '|', ' '] ++ row ++ ['[', ']']

theorem Cardinality.typeChars_eq (cardinality : Cardinality) (row : List Char) :
    cardinality.typeChars row = row ++ cardinality.tail row := by
  cases cardinality <;> simp [typeChars, tail]

/-- If one tail were longer, what is left of it would follow the other value. -/
theorem Cardinality.tail_append_inj {a b : Cardinality} {row : List Char} (ends : EndsPart rest)
    (endsFurther : EndsPart further) (same : a.tail row ++ rest = b.tail row ++ further) :
    a = b ∧ rest = further := by
  cases a with
  | one =>
    cases b with
    | one => exact ⟨rfl, same⟩
    | many =>
      obtain rfl : rest = '[' :: _ := same
      exact absurd rfl ends.array
    | oneOrMany =>
      obtain rfl : rest = ' ' :: '|' :: _ := same
      exact absurd (by simp) ends.union
  | many =>
    cases b with
    | one =>
      obtain rfl : '[' :: _ = further := same
      exact absurd rfl endsFurther.array
    | many => exact ⟨rfl, List.append_cancel_left same⟩
    | oneOrMany => simp [tail] at same
  | oneOrMany =>
    cases b with
    | one =>
      obtain rfl : ' ' :: '|' :: _ = further := same
      exact absurd (by simp) endsFurther.union
    | many => simp [tail] at same
    | oneOrMany => exact ⟨rfl, List.append_cancel_left same⟩

namespace FieldShape

variable {value counterpart first second : FieldShape} {P : FieldShape → Prop}

theorem relation_typeChars_append (cardinality : Cardinality) (fields : Shape) :
    (relation cardinality fields).typeChars layout ++ rest =
      layout.braced (keyChars layout.inner fields) ++
        (cardinality.tail (layout.braced (keyChars layout.inner fields)) ++ rest) := by
  rw [typeChars, Cardinality.typeChars_eq, List.append_assoc]

theorem exists_relation_typeChars_append (layout : Layout) (cardinality : Cardinality) (fields : Shape)
    (rest : List Char) :
    ∃ text, (relation cardinality fields).typeChars layout ++ rest = '\x7b' :: text := by
  rw [relation_typeChars_append, Layout.braced]
  split <;> exact ⟨_, rfl⟩

theorem endsWord_relation (cardinality : Cardinality) (fields : Shape) :
    EndsWord ((relation cardinality fields).typeChars layout ++ rest) := by
  obtain ⟨text, same⟩ := exists_relation_typeChars_append layout cardinality fields rest
  rw [same]
  exact endsWord_cons.mpr (by decide)

theorem Part.append_inj (part : value.Part Determined) (partOther : counterpart.Part Plain)
    (ends : EndsPart rest) (endsFurther : EndsPart further)
    (same : value.typeChars layout ++ rest = counterpart.typeChars layout ++ further) :
    value = counterpart ∧ rest = further := by
  cases part with
  | scalar name =>
    cases partOther with
    | scalar nameOther =>
      obtain ⟨rfl, equal⟩ := name_append_inj name nameOther ends.word endsFurther.word same
      exact ⟨rfl, equal⟩
    | relation => exact absurd (same ▸ endsWord_relation _ _) (not_endsWord_name_append name)
  | relation keys values =>
    cases partOther with
    | scalar nameOther =>
      exact absurd (same ▸ endsWord_relation _ _) (not_endsWord_name_append nameOther)
    | relation keysOther valuesOther =>
      rw [relation_typeChars_append, relation_typeChars_append] at same
      obtain ⟨rfl, tails⟩ := braced_append_inj keys values keysOther valuesOther same
      obtain ⟨rfl, equal⟩ := Cardinality.tail_append_inj ends endsFurther tails
      exact ⟨rfl, equal⟩

/-! ### Intersections -/

/-- The text of a value as a member of an intersection. -/
def memberText (layout : Layout) (member : FieldShape) : List Char :=
  if member.isUnion then '(' :: member.typeChars layout ++ [')'] else member.typeChars layout

/-- What follows a member: the members after it, and what follows the intersection. -/
def afterMember (layout : Layout) (members : List FieldShape) (rest : List Char) : List Char :=
  if members.isEmpty then rest else ' ' :: '&' :: ' ' :: (memberChars layout members ++ rest)

theorem memberChars_cons_append (layout : Layout) (member : FieldShape) (members : List FieldShape)
    (rest : List Char) :
    memberChars layout (member :: members) ++ rest =
      member.memberText layout ++ afterMember layout members rest := by
  cases members <;> simp [memberChars, memberText, afterMember]

theorem endsPart_afterMember (layout : Layout) (members : List FieldShape) (ends : EndsPart rest) :
    EndsPart (afterMember layout members rest) := by
  cases members with
  | nil => exact ends
  | cons member members => exact endsPart_ampersand _

/-- Only a member in parentheses starts with one. -/
theorem Part.typeChars_append_ne (part : value.Part P) :
    value.typeChars layout ++ rest ≠ '(' :: further := by
  cases part with
  | scalar name =>
    intro same
    have ends : EndsWord ('(' :: further) := endsWord_cons.mpr (by decide)
    exact not_endsWord_name_append name (same ▸ ends)
  | relation =>
    obtain ⟨text, same⟩ := exists_relation_typeChars_append layout _ _ rest
    rw [same]
    simp

theorem Part.memberText_append_inj (part : value.Part Determined) (partOther : counterpart.Part Plain)
    (ends : EndsPart rest) (endsFurther : EndsPart further)
    (same : value.memberText layout ++ rest = counterpart.memberText layout ++ further) :
    value = counterpart ∧ rest = further := by
  rw [memberText, memberText] at same
  split at same <;> split at same
  next =>
    -- Within the parentheses the closing one ends both members.
    simp only [List.cons_append, List.append_assoc, List.nil_append, List.cons.injEq, true_and] at same
    obtain ⟨equal, after⟩ := part.append_inj partOther (endsPart_parenthesis rest)
      (endsPart_parenthesis further) same
    exact ⟨equal, (List.cons.inj after).2⟩
  next => exact absurd same.symm partOther.typeChars_append_ne
  next => exact absurd same part.typeChars_append_ne
  next => exact part.append_inj partOther ends endsFurther same

theorem afterMember_inj {members others : List FieldShape}
    (parts : ∀ member ∈ members, member.Part Determined)
    (partsOther : ∀ member ∈ others, member.Part Plain)
    (ends : EndsValue rest) (endsFurther : EndsValue further)
    (same : afterMember layout members rest = afterMember layout others further) :
    members = others ∧ rest = further := by
  induction members generalizing others with
  | nil =>
    cases others with
    | nil => exact ⟨rfl, same⟩
    | cons next others =>
      obtain rfl : rest = ' ' :: '&' :: _ := same
      exact absurd (by simp) ends.intersection
  | cons member members ih =>
    cases others with
    | nil =>
      obtain rfl : ' ' :: '&' :: _ = further := same
      exact absurd (by simp) endsFurther.intersection
    | cons next others =>
      rw [List.forall_mem_cons] at parts partsOther
      have texts : memberChars layout (member :: members) ++ rest =
          memberChars layout (next :: others) ++ further := by simpa [afterMember] using same
      rw [memberChars_cons_append, memberChars_cons_append] at texts
      obtain ⟨rfl, after⟩ := parts.1.memberText_append_inj partsOther.1
        (endsPart_afterMember layout members ends.toEndsPart)
        (endsPart_afterMember layout others endsFurther.toEndsPart) texts
      obtain ⟨rfl, equal⟩ := ih parts.2 partsOther.2 after
      exact ⟨rfl, equal⟩

/-- What the text of a value could go on with to be that of an intersection is what may not follow. -/
theorem Part.typeChars_append_ne_memberChars {members : List FieldShape} (part : value.Part P)
    (ends : EndsValue rest)
    (inj : ∀ {text}, EndsPart text →
      value.typeChars layout ++ rest = first.typeChars layout ++ text → rest = text) :
    value.typeChars layout ++ rest ≠ memberChars layout (first :: second :: members) ++ further := by
  rw [memberChars_cons_append, memberText]
  split
  next => exact part.typeChars_append_ne
  next =>
    intro same
    obtain rfl : rest = ' ' :: '&' :: _ := inj (endsPart_ampersand _) same
    exact absurd (by simp) ends.intersection

/-! ### Values -/

theorem Composed.of_length {members : List FieldShape} (several : 2 ≤ members.length)
    (parts : ∀ member ∈ members, Part P member) : Composed P (.intersection members) := by
  rcases members with _ | ⟨first, _ | ⟨second, members⟩⟩
  · simp at several
  · simp at several
  · exact .joined parts

theorem Named.part {cardinality : Cardinality} {fields : Shape}
    (named : Named (.relation cardinality fields))
    (values : ∀ field ∈ fields, field.2.Named → P field.2) : Part P (.relation cardinality fields) := by
  cases named with
  | relation keys each =>
    exact .relation keys fun field member => values field member (each field member)

theorem Normal.composed (normal : value.Normal) (named : value.Named)
    (values : ∀ cardinality shape, value.related? = some (cardinality, shape) → ∀ field ∈ shape,
      field.2.Named → P field.2) : value.Composed P := by
  cases normal with
  | scalar type =>
    cases named with
    | scalar name => exact .part (.scalar name)
  | relation unique each => exact .part (named.part (values _ _ rfl))
  | @types types ascending several =>
    cases named with
    | intersection each =>
      refine .of_length (by simpa using several) fun member inside => ?_
      obtain ⟨type, -, rfl⟩ := List.mem_map.mp inside
      cases each _ inside with
      | scalar name => exact .scalar name
  | @mixed types cardinality fields ascending several relation =>
    cases named with
    | intersection each =>
      have related : related? (.intersection (types.map .scalar ++ [.relation cardinality fields])) =
          some (cardinality, fields) := by
        rw [related?, members, List.findSome?_append, findSome?_relation?]
        rfl
      refine .of_length ?_ fun member inside => ?_
      · have := List.length_pos_iff.mpr several
        simp
        omega
      · have named := each member inside
        rcases List.mem_append.mp inside with scalar | relation
        · obtain ⟨type, -, rfl⟩ := List.mem_map.mp scalar
          cases named with
          | scalar name => exact .scalar name
        · obtain rfl := List.mem_singleton.mp relation
          exact named.part (values _ _ related)

theorem Composed.append_inj (composed : value.Composed Determined)
    (composedOther : counterpart.Composed Plain) (ends : EndsValue rest)
    (endsFurther : EndsValue further)
    (same : value.typeChars layout ++ rest = counterpart.typeChars layout ++ further) :
    value = counterpart ∧ rest = further := by
  cases composed with
  | part single =>
    cases composedOther with
    | part other => exact single.append_inj other ends.toEndsPart endsFurther.toEndsPart same
    | joined parts =>
      refine absurd same (single.typeChars_append_ne_memberChars ends fun endsText texts => ?_)
      exact (single.append_inj (parts _ (by simp)) ends.toEndsPart endsText texts).2
  | joined parts =>
    cases composedOther with
    | part other =>
      refine absurd same.symm
        (other.typeChars_append_ne_memberChars endsFurther fun endsText texts => ?_)
      exact ((parts _ (by simp)).append_inj other endsText endsFurther.toEndsPart texts.symm).2.symm
    | joined partsOther =>
      obtain ⟨equal, after⟩ := afterMember_inj parts partsOther ends endsFurther
        (congrArg (' ' :: '&' :: ' ' :: ·) same)
      exact ⟨congrArg intersection equal, after⟩

/-- The text of a plain value determines it. -/
theorem Plain.determined (plain : value.Plain) : value.Determined := by
  obtain ⟨normal, named⟩ := plain
  refine Normal.induction (P := fun value => value.Named → value.Determined) ?_ normal named
  intro value normal ih named layout other rest further plainOther
  refine (normal.composed named ih).append_inj (plainOther.1.composed plainOther.2 ?_)
  intro cardinality shape related field member namedField
  exact ⟨(plainOther.1.parts.related _ _ related).values field member, namedField⟩

end FieldShape

/-- In either layout, normal shapes with names for their keys and types are the same when their texts
are, and so are normal values. -/
theorem typeText_injective (layout : Layout) :
    (∀ {shape other : Shape}, shape.Normal → shape.Named → other.Normal → other.Named →
      shape.typeText layout = other.typeText layout → shape = other) ∧
    (∀ {value counterpart : FieldShape}, value.Normal → value.Named → counterpart.Normal →
      counterpart.Named → value.typeText layout = counterpart.typeText layout →
      value = counterpart) := by
  constructor
  · intro shape other normal named normalOther namedOther same
    have texts : shape.typeChars layout ++ [] = other.typeChars layout ++ [] :=
      congrArg (· ++ []) (String.ofList_injective same)
    have determined (field) (member : field ∈ shape) : field.2.Determined :=
      Plain.determined ⟨normal.values field member, named.values field member⟩
    have plain (field) (member : field ∈ other) : field.2.Plain :=
      ⟨normalOther.values field member, namedOther.values field member⟩
    exact (braced_append_inj named.keys determined namedOther.keys plain texts).1
  · intro value counterpart normal named normalOther namedOther same
    have determined : value.Determined := Plain.determined ⟨normal, named⟩
    have texts : value.typeChars layout ++ [] = counterpart.typeChars layout ++ [] :=
      congrArg (· ++ []) (String.ofList_injective same)
    exact (determined ⟨normalOther, namedOther⟩ endsValue_nil endsValue_nil texts).1

/-- A shape whose text has an array, a union and an intersection. -/
def Shape.twofold : Shape :=
  [("n", .scalar "int"),
    ("k", .intersection [.scalar "text", .relation .oneOrMany [("id", .relation .many [])]])]

theorem typeText_injective_merged :
    Shape.twofold.typeText .line =
      "\x7b n: int; k: text & (\x7b id: \x7b\x7d[] \x7d | \x7b id: \x7b\x7d[] \x7d[]) \x7d" ∧
    Shape.ofPairs [("n", .scalar "int"), ("k", .relation .oneOrMany [("id", .relation .many [])]),
      ("k", .scalar "text")] = Shape.twofold := by
  have name {text : String} (nonempty : text ≠ "") (word : text.toList.all isWordChar = true) :
      IsName text := ⟨nonempty, List.all_eq_true.mp word⟩
  have inner : FieldShape.Normal (.relation .oneOrMany [("id", .relation .many [])]) :=
    .relation (by decide) (List.forall_mem_singleton.mpr (.relation .nil (List.forall_mem_nil _)))
  have innerNamed : FieldShape.Named (.relation .oneOrMany [("id", .relation .many [])]) :=
    .relation (List.forall_mem_singleton.mpr (name (by decide) rfl))
      (List.forall_mem_singleton.mpr (.relation (List.forall_mem_nil _) (List.forall_mem_nil _)))
  have normal : Shape.twofold.Normal := by
    refine ⟨by decide, ?_⟩
    rw [Shape.twofold, List.forall_mem_cons, List.forall_mem_singleton]
    exact ⟨.scalar "int", @FieldShape.Normal.mixed ["text"] _ _ (by simp) (by simp) inner⟩
  have named : Shape.twofold.Named := by
    constructor <;> rw [Shape.twofold, List.forall_mem_cons, List.forall_mem_singleton]
    · exact ⟨name (by decide) rfl, name (by decide) rfl⟩
    · refine ⟨.scalar (name (by decide) rfl), .intersection ?_⟩
      rw [List.forall_mem_cons, List.forall_mem_singleton]
      exact ⟨.scalar (name (by decide) rfl), innerNamed⟩
  -- Merging gives a shape with the same text, and so the same shape.
  exact ⟨by decide, (typeText_injective (.lines 0)).1 normal named normal named (by decide)⟩

end SelectShape
