import SelectShape.Entries
import SelectShape.Shape.Cardinality

/-!
# Catalogs

A catalog knows the tables of a database with the types of their columns, in the order in which they
were declared, and how many rows some relationships lead to. A projection asks a catalog three things
only, which `Directory` collects: a catalog may know its tables and columns and nothing else.
-/
namespace SelectShape

/-- The columns of a table and their types. -/
abbrev Table := Entries String

/-- How many rows of `target` are related to one of `origin`, over the foreign key `hint` if given. -/
structure Relationship where
  origin : String
  target : String
  hint : Option String
  cardinality : Cardinality
  deriving DecidableEq, Repr

/-- Tables and declared relationships. -/
structure Catalog where
  tables : Entries Table
  relationships : List Relationship
  deriving DecidableEq, Repr

namespace Catalog

def empty : Catalog := ⟨[], []⟩

/-- Declare a table, in place of one with the same name. Of a repeated column the last type counts. -/
def addTable (catalog : Catalog) (name : String) (columns : List (String × String)) : Catalog :=
  { catalog with
    tables := catalog.tables.put (fun _ new => new) name (Entries.ofPairs columns) }

/-- Declare a relationship, after those declared before. -/
def addRelationship (catalog : Catalog) (relationship : Relationship) : Catalog :=
  { catalog with relationships := catalog.relationships ++ [relationship] }

def table? (catalog : Catalog) (name : String) : Option Table := catalog.tables.get? name

def between (catalog : Catalog) (origin target : String) : List Relationship :=
  catalog.relationships.filter fun r => r.origin == origin && r.target == target

/-- The cardinality on which all relationships of a list agree. -/
def agreed? : List Relationship → Option Cardinality
  | [] => none
  | first :: rest =>
    if rest.all (·.cardinality == first.cardinality) then some first.cardinality else none

/-- The declared cardinality: that of the first relationship with the given hint, else the one on which
all relationships between the tables agree. -/
def cardinality? (catalog : Catalog) (origin target : String) (hint : Option String) :
    Option Cardinality :=
  let candidates := catalog.between origin target
  match hint.bind fun hint => candidates.find? (·.hint == some hint) with
  | some relationship => some relationship.cardinality
  | none => agreed? candidates

/-- Equality in which the order of tables and of columns does not count; that of relationships does. -/
def same (left right : Catalog) : Bool :=
  Entries.same (Entries.same (· == ·)) left.tables right.tables
    && left.relationships == right.relationships

end Catalog

/-- What a projection asks of a catalog. -/
structure Directory where
  -- The columns of a table.
  table? : String → Option Table
  -- The names to suggest for an unknown table.
  tableNames : List String
  -- The cardinality of a relationship from one table to another.
  cardinality? : String → String → Option String → Option Cardinality

namespace Directory

/-- All that a catalog declares. -/
def ofCatalog (catalog : Catalog) : Directory :=
  ⟨catalog.table?, catalog.tables.keys, catalog.cardinality?⟩

/-- Tables with their names, and no relationships. -/
def ofTables (tables : Entries Table) : Directory := ⟨tables.get?, tables.keys, fun _ _ _ => none⟩

/-- Tables that can be looked up and not listed, and no relationships. -/
def ofLookup (lookup : String → Option Table) : Directory := ⟨lookup, [], fun _ _ _ => none⟩

end Directory

end SelectShape
