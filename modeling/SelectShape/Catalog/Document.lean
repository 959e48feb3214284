import SelectShape.Catalog.Basic
import SelectShape.Json.Parse
import SelectShape.Json.Render
import SelectShape.Shape.Document
import SelectShape.Toml.Parse

/-!
# Catalogs in documents

A catalog is written as JSON or TOML: `tables`, from names to columns and their types, and a list of
`relationships`; both may be missing, and other keys are ignored. A structure may also be written as an
array of its parts in order. JSON may repeat a table or a column, and then the later one counts in the
place of the earlier.
-/
namespace SelectShape

namespace Relationship

def toJson (relationship : Relationship) : Json :=
  .object ([("from", .string relationship.origin), ("to", .string relationship.target)]
    ++ (relationship.hint.map fun hint => ("hint", Json.string hint)).toList
    ++ [("cardinality", .string relationship.cardinality.name)])

def fieldNames : List String := ["from", "to", "hint", "cardinality"]

/-- The relationship whose parts are given as JSON. -/
def ofParts? (origin target : Json) (hint : Option Json) (cardinality : Json) :
    Option Relationship := do
  return ⟨← origin.string?, ← target.string?, ← Json.optional? Json.string? hint,
    ← Cardinality.ofJson? cardinality⟩

/-- The relationship that a JSON value spells. -/
def ofJson? : Json → Option Relationship
  | .object fields =>
    if Json.namesOnce fieldNames fields then do
      ofParts? (← fields.lookup "from") (← fields.lookup "to") (fields.lookup "hint")
        (← fields.lookup "cardinality")
    else none
  | .array [origin, target, hint, cardinality] => ofParts? origin target (some hint) cardinality
  | _ => none

end Relationship

namespace Catalog

def tableToJson (table : Table) : Json :=
  .object (table.map fun (column, type) => (column, .string type))

/-- A catalog as JSON. A list of no relationships is left out. -/
def toJson (catalog : Catalog) : Json :=
  .object (("tables", .object (catalog.tables.map fun (name, table) => (name, tableToJson table)))
    :: if catalog.relationships.isEmpty then []
      else [("relationships", .array (catalog.relationships.map Relationship.toJson))])

def tableOfJson? : Json → Option Table
  | .object fields =>
    (Entries.mapValues? Json.string? fields).map Entries.ofPairs
  | _ => none

def tablesOfJson? : Json → Option (Entries Table)
  | .object fields =>
    (Entries.mapValues? tableOfJson? fields).map Entries.ofPairs
  | _ => none

def relationshipsOfJson? : Json → Option (List Relationship)
  | .array items => items.mapM Relationship.ofJson?
  | _ => none

/-- The catalog whose parts are given as JSON; a missing part is empty. -/
def ofParts? (tables relationships : Option Json) : Option Catalog := do
  return ⟨← (tables.map tablesOfJson?).getD (some []),
    ← (relationships.map relationshipsOfJson?).getD (some [])⟩

def ofJson? : Json → Option Catalog
  | .object fields =>
    if Json.namesOnce ["tables", "relationships"] fields then
      ofParts? (fields.lookup "tables") (fields.lookup "relationships")
    else none
  | .array [] => some .empty
  | .array [tables] => ofParts? (some tables) none
  | .array [tables, relationships] => ofParts? (some tables) (some relationships)
  | _ => none

def ofJsonText? (text : String) : Option Catalog := (Json.parse text).bind ofJson?

end Catalog

/-- A cardinality is its name, or a table with the name as its only key and nothing under it. -/
def Cardinality.ofToml? : Toml → Option Cardinality
  | .string name => ofName? name
  | .table _ [(name, .array [])] | .table _ [(name, .table _ [])] =>
    ofName? name
  | _ => none

def Relationship.ofToml? : Toml → Option Relationship
  | .table _ fields => do
    let hint ← match fields.lookup "hint" with
      | some hint => hint.string?.map some
      | none => some none
    return ⟨← (← fields.lookup "from").string?, ← (← fields.lookup "to").string?, hint,
      ← Cardinality.ofToml? (← fields.lookup "cardinality")⟩
  | .array (origin :: target :: hint :: cardinality :: _) => do
    return ⟨← origin.string?, ← target.string?, some (← hint.string?),
      ← Cardinality.ofToml? cardinality⟩
  | _ => none

namespace Catalog

/-- The column that a date or a time in place of a table stands for. -/
def dateTimeColumn : String := "$__toml_private_datetime"

/-- The columns that a TOML value spells. A date or a time counts as a table with one column, of which
its text is the type. -/
def tableOfToml? : Toml → Option Table
  | .table _ columns => Entries.mapValues? Toml.string? columns
  | .dateTime text => some [(dateTimeColumn, text)]
  | _ => none

def tablesOfToml? (value : Toml) : Option (Entries Table) :=
  value.entries?.bind (Entries.mapValues? tableOfToml?)

def relationshipsOfToml? (value : Toml) : Option (List Relationship) := do
  (← value.items?).mapM Relationship.ofToml?

def ofTomlText? (text : String) : Option Catalog := do
  let fields ← Toml.parse text
  return ⟨← ((fields.lookup "tables").map tablesOfToml?).getD (some []),
    ← ((fields.lookup "relationships").map relationshipsOfToml?).getD (some [])⟩

end Catalog

end SelectShape
