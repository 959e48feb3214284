import SelectShape.Catalog.Suggestion

/-!
# Why a select list has no shape
-/
namespace SelectShape

/-- Why a select list has no shape. -/
inductive ProjectionError where
  | unknownTable (table : String) (suggestion : Option String)
  | unknownColumn (table column : String) (suggestion : Option String)
  | nestingTooDeep (limit : Nat)
  deriving DecidableEq, Repr

def ProjectionError.message : ProjectionError → String
  | .unknownTable table suggestion =>
    "table '" ++ table ++ "' not found" ++ Suggestion.clause suggestion
  | .unknownColumn table column suggestion =>
    "column '" ++ column ++ "' not found in table '" ++ table ++ "'"
      ++ Suggestion.clause suggestion
  | .nestingTooDeep limit =>
    "embedded resources nested deeper than " ++ toString limit ++ " levels"

end SelectShape
