import SelectShape.Proofs.Json.Literal

/-!
# Spellings of JSON

A value may be written with white space between its parts. However that is done, reading the text gives
the value back.
-/
namespace SelectShape.Json

/-- Only white space. -/
def Spaces (text : List Char) : Prop := ∀ c ∈ text, isSpace c

mutual

/-- The text spells the value, its first and last character being part of it. -/
inductive Spells : List Char → Json → Prop
  | null : Spells "null".toList .null
  | yes : Spells "true".toList (.bool true)
  | no : Spells "false".toList (.bool false)
  | string (text : String) : Spells (quote text) (.string text)
  | emptyArray : Spells ['[', ']'] (.array [])
  | array (inside : SpellsItems text items) : Spells ('[' :: text ++ [']']) (.array items)
  | emptyObject : Spells ['\x7b', '\x7d'] (.object [])
  | object (inside : SpellsFields text fields) : Spells ('\x7b' :: text ++ ['\x7d']) (.object fields)

/-- The text spells the value with white space around it. -/
inductive SpellsPart : List Char → Json → Prop
  | padded (before : Spaces first) (value : Spells text json) (after : Spaces last) :
      SpellsPart (first ++ text ++ last) json

/-- The text spells the items of an array, at least one. -/
inductive SpellsItems : List Char → List Json → Prop
  | single (item : SpellsPart text json) : SpellsItems text [json]
  | cons (item : SpellsPart text json) (others : SpellsItems rest items) :
      SpellsItems (text ++ ',' :: rest) (json :: items)

/-- The text spells a key and the value under it, with white space around both. -/
inductive SpellsField : List Char → String × Json → Prop
  | padded (before : Spaces first) (key : String) (after : Spaces last) (value : SpellsPart text json) :
      SpellsField (first ++ quote key ++ last ++ ':' :: text) (key, json)

/-- The text spells the fields of an object, at least one. -/
inductive SpellsFields : List Char → List (String × Json) → Prop
  | single (field : SpellsField text keyed) : SpellsFields text [keyed]
  | cons (field : SpellsField text keyed) (others : SpellsFields rest fields) :
      SpellsFields (text ++ ',' :: rest) (keyed :: fields)

end

variable {text first last rest : List Char} {json : Json} {items : List Json}
  {fields : List (String × Json)} {c : Char} {budget : Nat}

/-! ## White space -/

theorem skipSpace_append (spaces : Spaces first) (rest : List Char) :
    skipSpace (first ++ rest) = skipSpace rest :=
  List.dropWhile_append_of_pos spaces

theorem skipSpace_cons (visible : isSpace c = false) : skipSpace (c :: rest) = c :: rest := by
  rw [skipSpace, List.dropWhile_cons_of_neg]
  simp [visible]

theorem skipSpace_key (spaces : Spaces first) (key : String) :
    skipSpace (first ++ quote key ++ rest) = quote key ++ rest := by
  rw [List.append_assoc, skipSpace_append spaces]
  exact skipSpace_cons rfl

/-- A value starts with a character that neither is white space nor closes an array. -/
theorem Spells.head (spells : Spells text json) :
    ∃ c more, text = c :: more ∧ isSpace c = false ∧ c ≠ ']' := by
  cases spells <;> exact ⟨_, _, rfl, by decide, by decide⟩

/-! ## Reading one part after another -/

theorem items?_close : items? budget (']' :: rest) = none := by
  cases budget with
  | zero => rw [items?]
  | succ budget =>
    have none : value? budget (']' :: rest) = none := by
      cases budget <;> rfl
    rw [items?, none]
    rfl

theorem value?_array (read : items? budget (skipSpace text) = some (items, rest)) :
    value? (budget + 1) ('[' :: text) = some (.array items, rest) := by
  have more (after : List Char) : skipSpace text ≠ ']' :: after := by
    intro close
    rw [close, items?_close] at read
    cases read
  rw [value?]
  split
  next after close => exact absurd close (more after)
  next => rw [read, Option.map_some]

theorem value?_object (read : fields? budget (skipSpace text) = some (json, rest)) :
    value? (budget + 1) ('\x7b' :: text) = some (json, rest) := by
  rw [value?]
  split
  next after close =>
    -- No field starts with a brace.
    rw [close] at read
    cases budget <;> cases read
  next => exact read

theorem items?_single {left : List Char} (item : value? budget text = some (json, left))
    (close : skipSpace left = ']' :: rest) : items? (budget + 1) text = some ([json], rest) := by
  simp [items?, item, close]

theorem items?_cons {left more : List Char} (item : value? budget text = some (json, left))
    (comma : skipSpace left = ',' :: more)
    (others : items? budget (skipSpace more) = some (items, rest)) :
    items? (budget + 1) text = some (json :: items, rest) := by
  simp [items?, item, comma, others]

theorem fields?_single {left after : List Char} {key : String}
    (colon : skipSpace after = ':' :: text)
    (value : value? budget (skipSpace text) = some (json, left))
    (close : skipSpace left = '\x7d' :: rest) :
    fields? (budget + 1) (quote key ++ after) = some (.object [(key, json)], rest) := by
  simp [fields?, quote, literal?_escaped, colon, value, close, objectOf]

theorem fields?_cons {left after more : List Char} {key : String}
    (colon : skipSpace after = ':' :: text)
    (value : value? budget (skipSpace text) = some (json, left))
    (comma : skipSpace left = ',' :: more)
    (others : fields? budget (skipSpace more) = some (.object fields, rest)) :
    fields? (budget + 1) (quote key ++ after) = some (.object ((key, json) :: fields), rest) := by
  simp [fields?, quote, literal?_escaped, colon, value, comma, others, objectOf]

/-! ## Reading spellings -/

mutual

theorem Spells.read {text : List Char} {json : Json} : Spells text json → ∀ budget rest,
    text.length < budget → value? budget (text ++ rest) = some (json, rest)
  | _, 0, _, enough => absurd enough (Nat.not_lt_zero _)
  | .null, budget + 1, rest, _ => rfl
  | .yes, budget + 1, rest, _ => rfl
  | .no, budget + 1, rest, _ => rfl
  | .string text, budget + 1, rest, _ => by
    simp [quote, value?, literal?_escaped]
  | .emptyArray, budget + 1, rest, _ => by
    simp [value?, skipSpace, isSpace]
  | .array inside, budget + 1, rest, enough => by
    have read := inside.read budget rest (by simp at enough; omega)
    rw [List.append_assoc]
    exact value?_array read
  | .emptyObject, budget + 1, rest, _ => by
    simp [value?, skipSpace, isSpace]
  | .object inside, budget + 1, rest, enough => by
    have read := inside.read budget rest (by simp at enough; omega)
    rw [List.append_assoc]
    exact value?_object read

theorem SpellsPart.read {text : List Char} {json : Json} : SpellsPart text json → ∀ budget rest,
    text.length < budget → ∃ left, value? budget (skipSpace (text ++ rest)) = some (json, left) ∧
      skipSpace left = skipSpace rest
  | @SpellsPart.padded first core json last before value after, budget, rest, enough => by
    have read := value.read budget (last ++ rest) (by simp at enough; omega)
    obtain ⟨c, more, rfl, visible, _⟩ := value.head
    refine ⟨last ++ rest, ?_, skipSpace_append after rest⟩
    rw [List.append_assoc, List.append_assoc, skipSpace_append before]
    rw [List.cons_append] at read ⊢
    rwa [skipSpace_cons visible]

theorem SpellsItems.read {text : List Char} {items : List Json} : SpellsItems text items →
    ∀ budget rest, text.length + 1 < budget →
      items? budget (skipSpace (text ++ ']' :: rest)) = some (items, rest)
  | .single item, budget + 1, rest, enough => by
    obtain ⟨left, value, close⟩ := item.read budget (']' :: rest) (by omega)
    exact items?_single value close
  | @SpellsItems.cons _ _ further _ item others, budget + 1, rest, enough => by
    simp only [List.length_append, List.length_cons] at enough
    obtain ⟨left, value, comma⟩ := item.read budget (',' :: (further ++ ']' :: rest)) (by omega)
    rw [List.append_assoc, List.cons_append]
    exact items?_cons value comma (others.read budget rest (by omega))

theorem SpellsField.read {text : List Char} {field : String × Json} : SpellsField text field →
    ∀ budget rest, text.length < budget → ∃ after value left,
      skipSpace (text ++ rest) = quote field.1 ++ after ∧ skipSpace after = ':' :: value ∧
      value? budget (skipSpace value) = some (field.2, left) ∧ skipSpace left = skipSpace rest
  | @SpellsField.padded first last text json before key after value, budget, rest, enough => by
    simp only [List.length_append, List.length_cons] at enough
    obtain ⟨left, read, same⟩ := value.read budget rest (by omega)
    refine ⟨last ++ (':' :: text ++ rest), text ++ rest, left, ?_, skipSpace_append after _, read, same⟩
    rw [List.append_assoc, List.append_assoc, skipSpace_key before]

theorem SpellsFields.read {text : List Char} {fields : List (String × Json)} :
    SpellsFields text fields → ∀ budget rest, text.length + 1 < budget →
      fields? budget (skipSpace (text ++ '\x7d' :: rest)) = some (.object fields, rest)
  | .single field, budget + 1, rest, enough => by
    obtain ⟨after, value, left, key, colon, read, close⟩ :=
      field.read budget ('\x7d' :: rest) (by omega)
    rw [key]
    exact fields?_single colon read close
  | @SpellsFields.cons _ _ further _ field others, budget + 1, rest, enough => by
    simp only [List.length_append, List.length_cons] at enough
    obtain ⟨after, value, left, key, colon, read, comma⟩ :=
      field.read budget (',' :: (further ++ '\x7d' :: rest)) (by omega)
    rw [List.append_assoc, List.cons_append, key]
    exact fields?_cons colon read comma (others.read budget rest (by omega))

end

theorem parse_of_spells (part : SpellsPart text json) : parse (.ofList text) = some json := by
  obtain ⟨left, read, all⟩ := part.read (2 * text.length + 1) [] (by omega)
  rw [List.append_nil] at read
  have empty : skipSpace left = [] := all
  simp [parse, read, empty]

end SelectShape.Json
