/-!
# Cardinality

How many related rows stand under a key of an answer.
-/
namespace SelectShape

/-- How many related rows an embedded resource yields. -/
inductive Cardinality where
  -- A single row.
  | one
  -- A list of rows.
  | many
  -- Neither is certain.
  | oneOrMany
  deriving DecidableEq, Repr

namespace Cardinality

/-- What two cardinalities under one key come to: nothing is certain unless they agree. -/
def merge (a b : Cardinality) : Cardinality := if a = b then a else .oneOrMany

def display : Cardinality → String
  | .one => "one"
  | .many => "many"
  | .oneOrMany => "one-or-many"

/-- The cardinality as documents name it. -/
def name : Cardinality → String
  | .one => "one"
  | .many => "many"
  | .oneOrMany => "one_or_many"

/-- The cardinality that documents name so. -/
def ofName? (name : String) : Option Cardinality :=
  [one, many, oneOrMany].find? (·.name == name)

end Cardinality

end SelectShape
