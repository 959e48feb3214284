/-!
# Entries

Keyed values in the order in which their keys first appeared. Putting a value under a key that is
there leaves the key in its place; the caller says how the two values combine.
-/
namespace SelectShape

/-- Keyed values in order. -/
abbrev Entries (α : Type) := List (String × α)

namespace Entries

def get? (entries : Entries α) (key : String) : Option α := List.lookup key entries

def keys (entries : Entries α) : List String := entries.map (·.1)

/-- Put a value under a key: in the place of the value there, combined with it, else at the end. -/
def put (combine : α → α → α) (entries : Entries α) (key : String) (value : α) : Entries α :=
  match entries with
  | [] => [(key, value)]
  | (k, v) :: rest =>
    if k = key then (k, combine v value) :: rest else (k, v) :: put combine rest key value

def putAll (combine : α → α → α) (entries added : Entries α) : Entries α :=
  added.foldl (fun entries (key, value) => put combine entries key value) entries

/-- The entries of a list of pairs in which a later value replaces an earlier one. -/
def ofPairs (pairs : List (String × α)) : Entries α := putAll (fun _ new => new) [] pairs

/-- The pairs with every value read anew, if every one can be. -/
def mapValues? (read : α → Option β) : List (String × α) → Option (List (String × β))
  | [] => some []
  | (key, value) :: rest => do return (key, ← read value) :: (← mapValues? read rest)

/-- Equality up to order, for entries with keys of their own: as many entries, and under each key an
equal value. -/
def same (equal : α → α → Bool) (left right : Entries α) : Bool :=
  left.length == right.length
    && left.all fun (key, value) => (right.get? key).any (equal value)

end Entries

end SelectShape
