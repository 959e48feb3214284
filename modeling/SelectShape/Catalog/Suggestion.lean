/-!
# Suggestions for unknown names

The closest known name is suggested if few enough edits lead to it: inserting, deleting or replacing
one character each. Distances are computed row by row, a row holding the distances of one suffix of
the first text to every suffix of the second.
-/
namespace SelectShape

namespace EditDistance

/-- The row of the empty text: every character of the other one is an insertion. -/
def emptyRow : List Char → List Nat
  | [] => [0]
  | _ :: rest => (rest.length + 1) :: emptyRow rest

/-- The row of a text with `c` in front, from the row of the text without it. -/
def consRow (c : Char) : List Char → List Nat → List Nat
  | [], row => [row.headD 0 + 1]
  | _ :: _, [] => []
  | b :: target, without :: row =>
    let rest := consRow c target row
    let replaced := row.headD 0 + if c = b then 0 else 1
    min replaced (min (without + 1) (rest.headD 0 + 1)) :: rest

/-- The row of a text. -/
def row (target : List Char) : List Char → List Nat
  | [] => emptyRow target
  | c :: rest => consRow c target (row target rest)

end EditDistance

/-- The least number of insertions, deletions and replacements of a character that turn one text into
the other. -/
def editDistance (text target : String) : Nat :=
  (EditDistance.row target.toList text.toList).headD 0

namespace Suggestion

/-- How many edits away from a name a suggestion may be; short names, by bytes, allow fewer. -/
def tolerance (name : String) : Nat :=
  if name.utf8ByteSize ≤ 2 then 0 else if name.utf8ByteSize ≤ 5 then 2 else 3

/-- The better of the best candidate so far, with its distance, and the next one. -/
def better (name : String) (best : Option (Nat × String)) (candidate : String) :
    Option (Nat × String) :=
  let distance := editDistance name candidate
  if distance ≤ tolerance name && best.all (distance < ·.1) then some (distance, candidate) else best

/-- The first of the closest candidates within tolerance. -/
def closest? (name : String) (candidates : List String) : Option String :=
  (candidates.foldl (better name) none).map (·.2)

/-- How an error message goes on when there is a suggestion. -/
def clause : Option String → String
  | some name => ". Did you mean '" ++ name ++ "'?"
  | none => ""

end Suggestion

end SelectShape
