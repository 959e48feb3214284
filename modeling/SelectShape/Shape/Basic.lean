import SelectShape.Entries
import SelectShape.Shape.Cardinality

/-!
# Shapes of answers

A shape says which keys one row of an answer has and what stands under each: a column's type, the
shape of related rows, or several of these at once, where a query selects different things under one
key. Shapes are raw data: intersections of any members can be read from documents, and merging is what
brings them to a normal form.
-/
namespace SelectShape

/-- What stands under one key. -/
inductive FieldShape where
  -- A column of the named type.
  | scalar (type : String)
  -- Related rows, each with these keys.
  | relation (cardinality : Cardinality) (fields : List (String × FieldShape))
  -- All of these at once.
  | intersection (members : List FieldShape)
  deriving Repr

/-- The keys of one row in the order in which they first appear, and what stands under each. -/
abbrev Shape := Entries FieldShape

namespace FieldShape

mutual

def decEq : (a b : FieldShape) → Decidable (a = b)
  | .scalar s, .scalar t =>
    if same : s = t then isTrue (by rw [same]) else isFalse (by simp [same])
  | .relation c s, .relation d t =>
    if same : c = d then
      match decEqFields s t with
      | isTrue equal => isTrue (by rw [same, equal])
      | isFalse differ => isFalse (by simp [differ])
    else isFalse (by simp [same])
  | .intersection ms, .intersection ns =>
    match decEqMembers ms ns with
    | isTrue equal => isTrue (by rw [equal])
    | isFalse differ => isFalse (by simp [differ])
  | .scalar _, .relation _ _ | .scalar _, .intersection _ | .relation _ _, .scalar _
  | .relation _ _, .intersection _ | .intersection _, .scalar _
  | .intersection _, .relation _ _ => isFalse (by simp)

def decEqMembers : (a b : List FieldShape) → Decidable (a = b)
  | [], [] => isTrue rfl
  | m :: ms, n :: ns =>
    match decEq m n, decEqMembers ms ns with
    | isTrue head, isTrue tail => isTrue (by rw [head, tail])
    | isFalse head, _ => isFalse (by simp [head])
    | _, isFalse tail => isFalse (by simp [tail])
  | [], _ :: _ | _ :: _, [] => isFalse (by simp)

def decEqFields : (a b : List (String × FieldShape)) → Decidable (a = b)
  | [], [] => isTrue rfl
  | (k, v) :: s, (l, w) :: t =>
    if key : k = l then
      match decEq v w, decEqFields s t with
      | isTrue head, isTrue tail => isTrue (by rw [key, head, tail])
      | isFalse head, _ => isFalse (by simp [head])
      | _, isFalse tail => isFalse (by simp [tail])
    else isFalse (by simp [key])
  | [], _ :: _ | _ :: _, [] => isFalse (by simp)

end

instance : DecidableEq FieldShape := decEq

def scalar? : FieldShape → Option String
  | .scalar type => some type
  | _ => none

/-- How many related rows there are, and the shape of each. -/
def relation? : FieldShape → Option (Cardinality × Shape)
  | .relation cardinality fields => some (cardinality, fields)
  | _ => none

/-- What an intersection joins; any other value stands for itself. -/
def members : FieldShape → List FieldShape
  | .intersection members => members
  | other => [other]

mutual

/-- How many relations stand within each other, at most. -/
def height : FieldShape → Nat
  | .scalar _ => 0
  | .relation _ fields => fieldsHeight fields + 1
  | .intersection members => membersHeight members

def membersHeight : List FieldShape → Nat
  | [] => 0
  | member :: rest => max member.height (membersHeight rest)

def fieldsHeight : List (String × FieldShape) → Nat
  | [] => 0
  | (_, value) :: rest => max value.height (fieldsHeight rest)

end

mutual

/-- Equality in which the order of keys does not count; that of members does. -/
def same : FieldShape → FieldShape → Bool
  | .scalar s, .scalar t => s == t
  | .relation c s, .relation d t => c == d && s.length == t.length && sameFields s t
  | .intersection ms, .intersection ns => sameMembers ms ns
  | _, _ => false

def sameMembers : List FieldShape → List FieldShape → Bool
  | [], [] => true
  | m :: ms, n :: ns => m.same n && sameMembers ms ns
  | _, _ => false

def sameFields : List (String × FieldShape) → Shape → Bool
  | [], _ => true
  | (key, value) :: rest, other =>
    (match other.get? key with
      | some counterpart => value.same counterpart
      | none => false) && sameFields rest other

end

end FieldShape

/-- Equality of shapes in which the order of keys does not count. -/
def Shape.same (left right : Shape) : Bool :=
  left.length == right.length && FieldShape.sameFields left right

end SelectShape
