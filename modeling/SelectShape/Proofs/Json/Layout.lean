import SelectShape.Proofs.Json.Spelling

/-!
# Layouts of JSON

Both layouts, the compact and the indented one, spell the value that is written. So a value whose parts
can all be told by a text is read back from either.
-/
namespace SelectShape.Json

/-- A value without numbers, whose literals all name a text. -/
inductive Textual : Json → Prop
  | null : Textual .null
  | bool (value : Bool) : Textual (.bool value)
  | string (text : String) : Textual (.string text)
  | array (each : ∀ item ∈ items, Textual item) : Textual (.array items)
  | object (each : ∀ field ∈ fields, Textual field.2) : Textual (.object fields)

variable {first last text : List Char} {json : Json} {items : List Json}
  {fields : List (String × Json)}

theorem Textual.isReadable (textual : json.Textual) : json.isReadable := by
  induction textual with
  | null => rfl
  | bool value => rfl
  | string text => rfl
  | @array items each ih =>
    rw [Json.isReadable]
    clear each
    induction items with
    | nil => rfl
    | cons item rest inner =>
      obtain ⟨head, later⟩ := List.forall_mem_cons.mp ih
      simp [areReadable, head, inner later]
  | @object fields each ih =>
    rw [Json.isReadable]
    clear each
    induction fields with
    | nil => rfl
    | cons field rest inner =>
      obtain ⟨head, later⟩ := List.forall_mem_cons.mp ih
      simp [fieldsReadable, head, inner later]

theorem Textual.isSound (textual : json.Textual) (low : json.height ≤ heightLimit) : json.isSound := by
  rw [Json.isSound, textual.isReadable, Bool.true_and]
  exact decide_eq_true low

/-! ## White space that is written -/

theorem spaces_nil : Spaces [] := List.forall_mem_nil _

theorem spaces_lineBreak (level : Nat) : Spaces (lineBreak level) := by
  intro c member
  rcases List.mem_cons.mp member with rfl | blank
  · rfl
  · rw [List.eq_of_mem_replicate blank]
    rfl

theorem Spells.after (spells : Spells text json) (spaces : Spaces first) :
    SpellsPart (first ++ text) json := by
  simpa using SpellsPart.padded spaces spells spaces_nil

theorem SpellsPart.under (value : SpellsPart text json) (spaces : Spaces first) (key : String) :
    SpellsField (first ++ quote key ++ ':' :: text) (key, json) := by
  simpa using SpellsField.padded spaces key spaces_nil value

/-! ## The compact layout -/

theorem spellsItems_chars {item : Json} (each : ∀ json ∈ item :: items, Spells json.chars json) :
    SpellsItems (item.chars ++ moreItemChars items) (item :: items) := by
  induction items generalizing item with
  | nil =>
    rw [moreItemChars, List.append_nil]
    exact .single ((each item List.mem_cons_self).after spaces_nil)
  | cons second rest ih =>
    obtain ⟨head, later⟩ := List.forall_mem_cons.mp each
    rw [moreItemChars]
    exact .cons (head.after spaces_nil) (ih later)

theorem spellsFields_chars {field : String × Json}
    (each : ∀ keyed ∈ field :: fields, Spells keyed.2.chars keyed.2) :
    SpellsFields (quote field.1 ++ ':' :: (field.2.chars ++ moreFieldChars fields))
      (field :: fields) := by
  induction fields generalizing field with
  | nil =>
    rw [moreFieldChars, List.append_nil]
    exact .single (((each field List.mem_cons_self).after spaces_nil).under spaces_nil field.1)
  | cons second rest ih =>
    obtain ⟨head, later⟩ := List.forall_mem_cons.mp each
    have first := (head.after spaces_nil).under spaces_nil field.1
    have both := SpellsFields.cons first (ih later)
    simpa [moreFieldChars] using both

theorem spells_chars (textual : json.Textual) : Spells json.chars json := by
  induction textual with
  | null => exact .null
  | bool value =>
    cases value with
    | false => exact .no
    | true => exact .yes
  | string text => exact .string text
  | @array items each ih =>
    cases items with
    | nil => exact .emptyArray
    | cons item rest => exact .array (spellsItems_chars ih)
  | @object fields each ih =>
    cases fields with
    | nil => exact .emptyObject
    | cons field rest => exact .object (spellsFields_chars ih)

/-! ## The indented layout -/

theorem spellsItems_prettyChars {level : Nat} {item : Json}
    (each : ∀ json ∈ item :: items, Spells (json.prettyChars level) json) (after : Spaces last) :
    SpellsItems (lineBreak level ++ item.prettyChars level ++ morePrettyItems level items ++ last)
      (item :: items) := by
  induction items generalizing item with
  | nil =>
    rw [morePrettyItems, List.append_nil]
    exact .single (.padded (spaces_lineBreak level) (each item List.mem_cons_self) after)
  | cons second rest ih =>
    obtain ⟨head, later⟩ := List.forall_mem_cons.mp each
    have both := SpellsItems.cons (head.after (spaces_lineBreak level)) (ih later)
    simpa [morePrettyItems] using both

theorem spellsFields_prettyChars {level : Nat} {field : String × Json}
    (each : ∀ keyed ∈ field :: fields, Spells (keyed.2.prettyChars level) keyed.2)
    (after : Spaces last) :
    SpellsFields (lineBreak level ++ quote field.1 ++ ':' :: ' ' :: field.2.prettyChars level
      ++ morePrettyFields level fields ++ last) (field :: fields) := by
  have blank : Spaces [' '] := List.forall_mem_singleton.mpr rfl
  induction fields generalizing field with
  | nil =>
    have value := SpellsPart.padded blank (each field List.mem_cons_self) after
    have single := SpellsFields.single (value.under (spaces_lineBreak level) field.1)
    simpa [morePrettyFields] using single
  | cons second rest ih =>
    obtain ⟨head, later⟩ := List.forall_mem_cons.mp each
    have first := (head.after blank).under (spaces_lineBreak level) field.1
    have both := SpellsFields.cons first (ih later)
    simpa [morePrettyFields] using both

theorem spells_prettyChars (textual : json.Textual) (level : Nat) :
    Spells (json.prettyChars level) json := by
  induction textual generalizing level with
  | null => exact .null
  | bool value =>
    cases value with
    | false => exact .no
    | true => exact .yes
  | string text => exact .string text
  | @array items each ih =>
    cases items with
    | nil => exact .emptyArray
    | cons item rest =>
      have inside := spellsItems_prettyChars (fun json member => ih json member (level + 1))
        (spaces_lineBreak level)
      simpa [prettyChars] using Spells.array inside
  | @object fields each ih =>
    cases fields with
    | nil => exact .emptyObject
    | cons field rest =>
      have inside := spellsFields_prettyChars (fun keyed member => ih keyed member (level + 1))
        (spaces_lineBreak level)
      simpa [prettyChars] using Spells.object inside

/-! ## Reading both -/

theorem Textual.spellsPart_chars (textual : json.Textual) : SpellsPart json.chars json :=
  (spells_chars textual).after spaces_nil

theorem Textual.spellsPart_prettyChars (textual : json.Textual) : SpellsPart (json.prettyChars 0) json :=
  (spells_prettyChars textual 0).after spaces_nil

theorem parse_compact (textual : json.Textual) : parse json.compact = some json :=
  parse_of_spells textual.spellsPart_chars

theorem parse_pretty (textual : json.Textual) : parse json.pretty = some json :=
  parse_of_spells textual.spellsPart_prettyChars

end SelectShape.Json
