import SelectShape.Shape.Basic

/-!
# Shapes as TypeScript types

An object type lists its keys; a list of rows is an array of objects, and uncertain cardinality a union
of both. Only such a union is put in parentheses within an intersection. The two layouts differ in what
separates one key from the next, and in a semicolon after the last key.
-/
namespace SelectShape

/-- How an object type is laid out: on one line, or with its keys on lines of their own. -/
inductive Layout where
  | line
  -- The object starts on a line that is indented to `level`.
  | lines (level : Nat)
  deriving DecidableEq, Repr

namespace Layout

/-- The layout within an object. -/
def inner : Layout → Layout
  | .line => .line
  | .lines level => .lines (level + 1)

/-- What stands before a key, and before a closing brace. -/
def gap : Layout → List Char
  | .line => [' ']
  | .lines level => '\n' :: List.replicate (2 * level) ' '

/-- What stands after the last key of an object. -/
def last : Layout → List Char
  | .line => []
  | .lines _ => [';']

end Layout

/-- An object type around the text of its keys. -/
def Layout.braced (layout : Layout) (keys : List Char) : List Char :=
  if keys.isEmpty then ['\x7b', '\x7d'] else '\x7b' :: keys ++ layout.gap ++ ['\x7d']

/-- The type of related rows, from the type of one of them. -/
def Cardinality.typeChars (row : List Char) : Cardinality → List Char
  | .one => row
  | .many => row ++ ['[', ']']
  | .oneOrMany => row ++ [' ', '|', ' '] ++ row ++ ['[', ']']

namespace FieldShape

/-- The value's type is a union, which an intersection must put in parentheses. -/
def isUnion : FieldShape → Bool
  | .relation .oneOrMany _ => true
  | _ => false

mutual

/-- The type of one value. -/
def typeChars (layout : Layout) : FieldShape → List Char
  | .scalar type => type.toList
  | .relation cardinality fields => cardinality.typeChars (layout.braced (keyChars layout.inner fields))
  | .intersection members => memberChars layout members

/-- An intersection of types. -/
def memberChars (layout : Layout) : List FieldShape → List Char
  | [] => []
  | member :: rest =>
    (if member.isUnion then '(' :: member.typeChars layout ++ [')'] else member.typeChars layout)
      ++ (if rest.isEmpty then [] else [' ', '&', ' '] ++ memberChars layout rest)

/-- The keys of an object type, at the layout within it. -/
def keyChars (layout : Layout) : List (String × FieldShape) → List Char
  | [] => []
  | (key, value) :: rest =>
    layout.gap ++ key.toList ++ ':' :: ' ' :: value.typeChars layout
      ++ (if rest.isEmpty then layout.last else ';' :: keyChars layout rest)

end

def typeText (layout : Layout) (value : FieldShape) : String := .ofList (value.typeChars layout)

end FieldShape

namespace Shape

/-- The type of one row, an object type. -/
def typeChars (layout : Layout) (shape : Shape) : List Char :=
  layout.braced (FieldShape.keyChars layout.inner shape)

def typeText (layout : Layout) (shape : Shape) : String := .ofList (shape.typeChars layout)

end Shape

end SelectShape
