/-!
# Select lists

A select list names what one row of an answer holds: every column (`*`), single columns, and related
resources with select lists of their own. This module holds the tree, the constructors for writing one
by hand, and its depth.

Trees that no query spells (a hint on a plain column, a resource with no fields) are values too, since
they can be built by hand or read from a document.
-/
namespace SelectShape

/-- What a node selects and where its value goes. -/
structure Field where
  -- The key in the answer.
  key : String
  -- The column or relation in the schema.
  source : String
  -- The foreign key to follow, written after `!`.
  hint : Option String
  deriving DecidableEq, Repr

namespace Field

/-- A field that keeps its name. -/
def plain (name : String) : Field := ⟨name, name, none⟩

/-- A field under a key of its own. -/
def renamed (key source : String) : Field := ⟨key, source, none⟩

/-- The key differs from the name in the schema. -/
def isRenamed (field : Field) : Bool := field.key != field.source

end Field

/-- One entry of a select list. -/
inductive Node where
  -- Every column of the enclosing table.
  | wildcard
  -- One column.
  | column (field : Field)
  -- A related resource and what is selected of it.
  | embed (field : Field) (children : List Node)
  deriving Repr

namespace Node

mutual

def decEq : (a b : Node) → Decidable (a = b)
  | .wildcard, .wildcard => isTrue rfl
  | .column f, .column g =>
    if same : f = g then isTrue (by rw [same]) else isFalse (by simp [same])
  | .embed f ns, .embed g ms =>
    if same : f = g then
      match decEqList ns ms with
      | isTrue equal => isTrue (by rw [same, equal])
      | isFalse differ => isFalse (by simp [differ])
    else isFalse (by simp [same])
  | .wildcard, .column _ | .wildcard, .embed _ _ | .column _, .wildcard
  | .column _, .embed _ _ | .embed _ _, .wildcard | .embed _ _, .column _ => isFalse (by simp)

def decEqList : (a b : List Node) → Decidable (a = b)
  | [], [] => isTrue rfl
  | n :: ns, m :: ms =>
    match decEq n m, decEqList ns ms with
    | isTrue head, isTrue tail => isTrue (by rw [head, tail])
    | isFalse head, _ => isFalse (by simp [head])
    | _, isFalse tail => isFalse (by simp [tail])
  | [], _ :: _ | _ :: _, [] => isFalse (by simp)

end

instance : DecidableEq Node := decEq

/-- The field that a node selects; a wildcard selects no single one. -/
def field? : Node → Option Field
  | .wildcard => none
  | .column field | .embed field _ => some field

def isEmbedded : Node → Bool
  | .embed _ _ => true
  | _ => false

/-- The node with `hint` in place of any hint it had. A wildcard takes none. -/
def withHint (hint : String) : Node → Node
  | .wildcard => .wildcard
  | .column field => .column { field with hint := some hint }
  | .embed field children => .embed { field with hint := some hint } children

/-- The node as a related resource with the given select list. A wildcard stays one. -/
def withChildren (children : List Node) : Node → Node
  | .wildcard => .wildcard
  | .column field | .embed field _ => .embed field children

mutual

/-- The levels of related resources at and below a node. -/
def depth : Node → Nat
  | .wildcard | .column _ => 0
  | .embed _ children => 1 + maxDepth children

/-- The greatest depth in a list, zero for an empty one. -/
def maxDepth : List Node → Nat
  | [] => 0
  | node :: rest => max node.depth (maxDepth rest)

end

end Node

end SelectShape
