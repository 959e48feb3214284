import SelectShape.Json.Basic
import SelectShape.Settings.Basic
import SelectShape.Toml.Parse

/-!
# Settings in documents

Settings are written in TOML with the keys `max_depth`, `max_length` and `schema`, each of which may be
missing; other keys are ignored.
-/
namespace SelectShape.Settings

def toJson (settings : Settings) : Json :=
  .object ([("max_depth", .number (toString settings.limits.maxDepth)),
      ("max_length", .number (toString settings.limits.maxLength))]
    ++ (settings.schema.map fun schema => ("schema", Json.string schema)).toList)

/-- A limit is an integer that is not negative. -/
def limitOfToml? : Toml → Option Nat
  | .integer value => if 0 ≤ value then some value.toNat else none
  | _ => none

def ofTomlText? (text : String) : Option Settings := do
  let fields ← Toml.parse text
  let depth ← ((fields.lookup "max_depth").map limitOfToml?).getD (some standard.limits.maxDepth)
  let length ← ((fields.lookup "max_length").map limitOfToml?).getD (some standard.limits.maxLength)
  let schema ← match fields.lookup "schema" with
    | some schema => schema.string?.map some
    | none => some none
  return ⟨⟨depth, length⟩, schema⟩

end SelectShape.Settings
