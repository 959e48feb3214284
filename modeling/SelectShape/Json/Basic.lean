import SelectShape.Decimal

/-!
# JSON values

A value keeps the order of its fields, repetitions included, and a number keeps its spelling. One more
value stands for a string literal that is well written but names no text, because an escape stands for
half of a surrogate pair: such a literal may occur where a document is not looked at, and nowhere else.
-/
namespace SelectShape

/-- A JSON value in document order. -/
inductive Json where
  | null
  | bool (value : Bool)
  -- A number as it is written.
  | number (spelling : String)
  | string (text : String)
  | array (items : List Json)
  | object (fields : List (String × Json))
  -- A literal with half of a surrogate pair, or an object with such a key.
  | unreadable
  deriving Repr

namespace Json

mutual

/-- Every literal names a text and every number is within the range of doubles. -/
def isReadable : Json → Bool
  | .null | .bool _ | .string _ => true
  | .number spelling => (Decimal.ofChars spelling.toList).roundsByParts
  | .array items => areReadable items
  | .object fields => fieldsReadable fields
  | .unreadable => false

def areReadable : List Json → Bool
  | [] => true
  | item :: rest => item.isReadable && areReadable rest

def fieldsReadable : List (String × Json) → Bool
  | [] => true
  | (_, value) :: rest => value.isReadable && fieldsReadable rest

end

mutual

/-- How many arrays and objects stand within each other, at most. -/
def height : Json → Nat
  | .array items => itemsHeight items + 1
  | .object fields => fieldsHeight fields + 1
  | _ => 0

def itemsHeight : List Json → Nat
  | [] => 0
  | item :: rest => max item.height (itemsHeight rest)

def fieldsHeight : List (String × Json) → Nat
  | [] => 0
  | (_, value) :: rest => max value.height (fieldsHeight rest)

end

/-- How many arrays and objects may stand within each other in a document that is read as a whole. -/
def heightLimit : Nat := 127

/-- The whole value can be read: no part of it is unreadable, and it nests no deeper than allowed. -/
def isSound (json : Json) : Bool := json.isReadable && json.height ≤ heightLimit

def string? : Json → Option String
  | .string text => some text
  | _ => none

/-- A value that may be absent: `null` counts as absence. -/
def optional? (read : Json → Option α) : Option Json → Option (Option α)
  | none | some .null => some none
  | some json => (read json).map some

/-- None of the names occurs twice among the fields. -/
def namesOnce (names : List String) (fields : List (String × Json)) : Bool :=
  names.all fun name => (fields.filter (·.1 == name)).length ≤ 1

end Json

end SelectShape
