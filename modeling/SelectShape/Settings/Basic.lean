import SelectShape.Blank
import SelectShape.Digits
import SelectShape.Selection.Limits

/-!
# Settings

The limits on queries and the catalog that projections use by default. Variables of the environment
override the limits: the one on depth first, and if its value is refused the other is left alone.
-/
namespace SelectShape

/-- What settings hold. -/
structure Settings where
  limits : Limits
  -- The file with the default catalog.
  schema : Option String
  deriving DecidableEq, Repr

namespace Settings

def standard : Settings := ⟨.standard, none⟩

def depthVariable : String := "POSTGREST_SELECT_MAX_DEPTH"

def lengthVariable : String := "POSTGREST_SELECT_MAX_LENGTH"

/-- A limit from the value of a variable: a 64-bit word, white space around it. -/
def limit? (value : String) : Option Nat := Digits.signedWord? (trimmed value.toList)

end Settings

/-- Why settings are refused. -/
inductive SettingsFault where
  -- A document does not hold settings.
  | document
  -- The value of a variable is no limit.
  | limit (name value : String)
  deriving DecidableEq, Repr

/-- How the text of an error goes on after its kind. For a document, the explanation by the library that
reads TOML would follow; it is left out. -/
def SettingsFault.detail : SettingsFault → String
  | .document => ""
  | .limit name value =>
    ": " ++ name ++ " must be a non-negative integer, got '" ++ value ++ "'"

namespace Settings

/-- Settings with the limits that an environment overrides, and why it was not followed to its end. -/
def override (environment : String → Option String) (settings : Settings) :
    Settings × Option SettingsFault :=
  match overrideLimit depthVariable settings.limits.maxDepth with
  | .error fault => (settings, some fault)
  | .ok depth =>
    let settings := { settings with limits := { settings.limits with maxDepth := depth } }
    match overrideLimit lengthVariable settings.limits.maxLength with
    | .error fault => (settings, some fault)
    | .ok length =>
      ({ settings with limits := { settings.limits with maxLength := length } }, none)
where
  -- The limit in a variable, or the present one if the variable is not set.
  overrideLimit (name : String) (present : Nat) : Except SettingsFault Nat :=
    match environment name with
    | none => .ok present
    | some value =>
      match limit? value with
      | some limit => .ok limit
      | none => .error (.limit name value)

end Settings

end SelectShape
