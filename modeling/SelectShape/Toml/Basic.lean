import SelectShape.Entries

/-!
# TOML values

A document is a list of statements: headers, which say what table the following assignments go to, and
assignments of values to dotted keys. Carrying the statements out one after another builds a table, in
which each key stands where it first appeared. How a table came to be decides what may still be added
to it.
-/
namespace SelectShape

/-- How a table came to be. -/
inductive TableOrigin where
  -- Written in braces; complete.
  | braces
  -- Named by a header.
  | header
  -- Named only as a part of longer headers.
  | implied
  -- Named only as a part of dotted keys.
  | dotted
  deriving DecidableEq, Repr

/-- A TOML value. -/
inductive Toml where
  | string (text : String)
  | integer (value : Int)
  -- A date, a time of day, or both, in their one spelling.
  | dateTime (text : String)
  -- A truth value or a float.
  | other
  | array (items : List Toml)
  | table (origin : TableOrigin) (entries : List (String × Toml))
  -- Tables named by headers in double brackets.
  | tables (items : List (List (String × Toml)))
  deriving Repr

namespace Toml

/-- Replace the value of a key, or add the key at the end. -/
def set (entries : Entries Toml) (key : String) (value : Toml) : Entries Toml :=
  entries.put (fun _ new => new) key value

/-- Change the table that `headers` lead to; at a list of tables, its last one. -/
def within (change : Entries Toml → Option (Entries Toml)) :
    List String → Entries Toml → Option (Entries Toml)
  | [], entries => change entries
  | key :: headers, entries =>
    match entries.get? key with
    | some (.table origin inner) =>
      (within change headers inner).map fun inner => set entries key (.table origin inner)
    | some (.tables items) => do
      let inner ← within change headers (← items.getLast?)
      return set entries key (.tables (items.dropLast ++ [inner]))
    | _ => none

/-- Open the table that a header names. A table may be opened once, and a list of tables only by
headers in double brackets (`repeated`). -/
def openTable (repeated : Bool) : List String → Entries Toml → Option (Entries Toml)
  | [], _ => none
  | [key], entries =>
    match repeated, entries.get? key with
    | false, none => some (set entries key (.table .header []))
    | false, some (.table .implied inner) => some (set entries key (.table .header inner))
    | true, none => some (set entries key (.tables [[]]))
    | true, some (.tables items) => some (set entries key (.tables (items ++ [[]])))
    | _, _ => none
  | key :: path, entries =>
    match entries.get? key with
    | none => (openTable repeated path []).map fun inner => set entries key (.table .implied inner)
    | some (.table .braces _) => none
    | some (.table origin inner) =>
      (openTable repeated path inner).map fun inner => set entries key (.table origin inner)
    | some (.tables items) => do
      let inner ← openTable repeated path (← items.getLast?)
      return set entries key (.tables (items.dropLast ++ [inner]))
    | some _ => none

/-- Assign a value to a dotted key. The last key must be new, in a table that dotted keys made or that
the assignment starts from. -/
def assign (value : Toml) : List String → Entries Toml → Option (Entries Toml)
  | [], _ => none
  | [key], entries =>
    match entries.get? key with
    | none => some (set entries key value)
    | some _ => none
  | key :: path, entries =>
    match entries.get? key with
    | none => (assign value path []).map fun inner => set entries key (.table .dotted inner)
    | some (.table .dotted inner) =>
      (assign value path inner).map fun inner => set entries key (.table .dotted inner)
    | some (.table .implied inner) =>
      if path.length = 1 then none
      else (assign value path inner).map fun inner => set entries key (.table .implied inner)
    | some (.tables items) =>
      if path.length = 1 then none
      else do
        let inner ← assign value path (← items.getLast?)
        return set entries key (.tables (items.dropLast ++ [inner]))
    | some _ => none

/-- A line of a document. -/
inductive Statement where
  -- A header, in double brackets if `repeated`.
  | header (repeated : Bool) (path : List String)
  | assignment (path : List String) (value : Toml)
  deriving Repr

/-- Carry out statements, the assignments among them on the table of the last header. -/
def carryOut (headers : List String) (entries : Entries Toml) :
    List Statement → Option (Entries Toml)
  | [] => some entries
  | .header repeated path :: rest => do carryOut path (← openTable repeated path entries) rest
  | .assignment path value :: rest => do
    carryOut headers (← within (assign value path) headers entries) rest

/-- The value of a table in braces. -/
def ofAssignments (assignments : List (List String × Toml)) : Option Toml :=
  (assignments.foldlM (fun entries (path, value) => assign value path entries) []).map
    (Toml.table .braces)

def string? : Toml → Option String
  | .string text => some text
  | _ => none

/-- The entries of a table, however it came to be. -/
def entries? : Toml → Option (Entries Toml)
  | .table _ entries => some entries
  | _ => none

/-- The items of an array, or the tables of a list of tables. -/
def items? : Toml → Option (List Toml)
  | .array items => some items
  | .tables items => some (items.map (.table .header))
  | _ => none

end Toml

end SelectShape
