import SelectShape.Failure
import SelectShape.Projection.Basic
import SelectShape.Selection.Parse

/-!
# From a query to a shape
-/
namespace SelectShape

/-- The shape of one row of the answer to a query on `table`, under standard limits. -/
def select (directory : Directory) (table query : String) : Except Failure Shape :=
  match parse .standard query with
  | .error cause => .error (.parse cause)
  | .ok nodes =>
    match project directory Limits.standard.maxDepth table nodes with
    | .error cause => .error (.projection cause)
    | .ok shape => .ok shape

end SelectShape
