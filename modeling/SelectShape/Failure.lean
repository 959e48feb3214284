import SelectShape.FileTree
import SelectShape.Projection.Error
import SelectShape.Selection.ParseError
import SelectShape.Settings.Basic

/-!
# Failures

What can go wrong when queries are read, projected, and served from files: one cause each, and its text.
-/
namespace SelectShape

/-- Why a catalog is refused. -/
inductive CatalogFault where
  | unreadable (path : String) (cause : ReadFailure)
  -- The document is not JSON or holds no catalog.
  | json
  -- The document is not TOML or holds no catalog.
  | toml
  | unsupportedFormat (extension : String)
  deriving DecidableEq, Repr

/-- The text of a refusal. The explanations by the libraries that read JSON and TOML, which would follow
what is said of a document, are left out. -/
def CatalogFault.message : CatalogFault → String
  | .unreadable path cause => "Failed to read " ++ path ++ ": " ++ cause.message
  | .json => "Failed to parse JSON schema"
  | .toml => "Failed to parse TOML schema"
  | .unsupportedFormat extension =>
    "Unsupported schema format '" ++ extension ++ "': expected .json or .toml"

/-- Why a request fails. -/
inductive Failure where
  | parse (cause : ParseError)
  | projection (cause : ProjectionError)
  | catalog (cause : CatalogFault)
  | settings (cause : SettingsFault)
  -- Settings cannot be read from a file.
  | reading (cause : ReadFailure)
  deriving DecidableEq, Repr

def Failure.message : Failure → String
  | .parse cause => "parse error: " ++ cause.message
  | .projection cause => "projection error: " ++ cause.message
  | .catalog cause => "schema error: " ++ cause.message
  | .settings cause => "configuration error" ++ cause.detail
  | .reading cause => "IO error: " ++ cause.message

end SelectShape
