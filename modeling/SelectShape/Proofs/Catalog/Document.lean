import SelectShape.Proofs.Catalog.Keyed
import SelectShape.Proofs.Shape.Document

/-!
# Catalogs in documents

Tables and relationships can be declared one after another, or written down in a document, repetitions
included. Main statement: both come to the same catalog, in which every name stands where it is first
declared and means what it is last declared to mean; and what is written of that catalog, without the lists
and hints that are missing, is read back as it was.
-/
namespace SelectShape

/-- The entries are the latest of some pairs: each key where it first occurs among them, with the value
that it has last. -/
structure Entries.Latest (entries : Entries α) (pairs : List (String × α)) : Prop where
  keys : entries.keys = (pairs.map (·.1)).eraseDups
  values : ∀ key, entries.get? key = pairs.reverse.lookup key

theorem Entries.latest_ofPairs (pairs : List (String × α)) : (ofPairs pairs).Latest pairs :=
  ⟨keys_ofPairs pairs, get?_ofPairs pairs⟩

namespace Relationship

theorem ofJson?_toJson (relationship : Relationship) :
    ofJson? relationship.toJson = some relationship := by
  obtain ⟨origin, target, hint, cardinality⟩ := relationship
  cases hint <;> cases cardinality <;> rfl

theorem textual_toJson (relationship : Relationship) : relationship.toJson.Textual := by
  apply Json.Textual.object
  intro field member
  rcases List.mem_append.mp member with front | last
  · rcases List.mem_append.mp front with named | hinted
    · simp only [List.mem_cons, List.not_mem_nil, or_false] at named
      rcases named with rfl | rfl <;> exact .string _
    · obtain ⟨hint, _, rfl⟩ := Option.map_eq_some_iff.mp (Option.mem_toList.mp hinted)
      exact .string hint
  · rw [List.mem_singleton.mp last]
    exact .string _

end Relationship

namespace Catalog

variable {catalog : Catalog}

/-- The catalog in which tables, and then relationships, are declared one after another. -/
def declared (tables : List (String × List (String × String))) (relationships : List Relationship) :
    Catalog :=
  relationships.foldl addRelationship
    (tables.foldl (fun catalog table => catalog.addTable table.1 table.2) empty)

/-- The catalog holds what is declared: each table where it is first declared, with the columns of its
last declaration, and all relationships. -/
structure Holds (catalog : Catalog) (tables : List (String × List (String × String)))
    (relationships : List Relationship) : Prop where
  names : catalog.tables.keys = (tables.map (·.1)).eraseDups
  columns : ∀ name columns, tables.reverse.lookup name = some columns →
    ∃ table, catalog.table? name = some table ∧ table.Latest columns
  relationships : catalog.relationships = relationships

/-- Declarations as JSON, one by one and in order, the repetitions included. -/
def declarationsJson (tables : List (String × List (String × String)))
    (relationships : List Relationship) : Json :=
  .object [("tables", .object (Entries.mapValues tableToJson tables)),
    ("relationships", .array (relationships.map Relationship.toJson))]

/-! ## What is declared -/

theorem foldl_addTable (catalog : Catalog) (tables : List (String × List (String × String))) :
    tables.foldl (fun catalog table => catalog.addTable table.1 table.2) catalog =
      { catalog with
        tables := Entries.putAll (fun _ new => new) catalog.tables
          (Entries.mapValues Entries.ofPairs tables) } := by
  induction tables generalizing catalog with
  | nil => rfl
  | cons table rest ih =>
    rw [List.foldl_cons, ih]
    rfl

theorem foldl_addRelationship (catalog : Catalog) (relationships : List Relationship) :
    relationships.foldl addRelationship catalog =
      { catalog with relationships := catalog.relationships ++ relationships } := by
  induction relationships generalizing catalog with
  | nil => simp
  | cons relationship rest ih =>
    rw [List.foldl_cons, ih, addRelationship]
    simp

theorem declared_eq (tables : List (String × List (String × String)))
    (relationships : List Relationship) :
    declared tables relationships =
      ⟨Entries.ofPairs (Entries.mapValues Entries.ofPairs tables), relationships⟩ := by
  rw [declared, foldl_addTable, foldl_addRelationship]
  rfl

theorem holds_declared (tables : List (String × List (String × String)))
    (relationships : List Relationship) :
    (declared tables relationships).Holds tables relationships := by
  rw [declared_eq]
  refine ⟨?_, ?_, rfl⟩
  · rw [Entries.keys_ofPairs]
    exact congrArg List.eraseDups (Entries.keys_mapValues Entries.ofPairs tables)
  · intro name columns last
    refine ⟨Entries.ofPairs columns, ?_, Entries.latest_ofPairs columns⟩
    have reversed : (Entries.mapValues Entries.ofPairs tables).reverse =
        Entries.mapValues Entries.ofPairs tables.reverse := List.map_reverse.symm
    have found := Entries.get?_mapValues Entries.ofPairs tables.reverse name
    rw [Entries.get?, Entries.get?, last] at found
    rw [table?, Entries.get?_ofPairs, reversed]
    exact found

theorem keyed_declared (tables : List (String × List (String × String)))
    (relationships : List Relationship) : (declared tables relationships).Keyed := by
  rw [declared_eq]
  refine ⟨Entries.nodup_keys_ofPairs, ?_⟩
  apply Entries.forall_ofPairs (P := fun table : Table => table.keys.Nodup)
  intro table member
  obtain ⟨given, _, rfl⟩ := List.mem_map.mp member
  exact Entries.nodup_keys_ofPairs

/-- A catalog with keys of its own is what its tables and relationships declare. -/
theorem Keyed.declared_eq (keyed : catalog.Keyed) :
    declared catalog.tables catalog.relationships = catalog := by
  have columns : Entries.mapValues Entries.ofPairs catalog.tables = catalog.tables :=
    Entries.mapValues_eq_self fun table member => Entries.ofPairs_eq_self (keyed.columns table member)
  rw [Catalog.declared_eq, columns, Entries.ofPairs_eq_self keyed.tables]

/-! ## Reading what was written -/

theorem tableOfJson?_toJson (columns : List (String × String)) :
    tableOfJson? (tableToJson columns) = some (Entries.ofPairs columns) := by
  have written : tableToJson columns = .object (Entries.mapValues Json.string columns) := rfl
  have each (type : String) : Json.string? (.string type) = some (id type) := rfl
  rw [written, tableOfJson?, Entries.mapValues?_mapValues each, Option.map_some,
    Entries.mapValues_eq_self fun _ _ => rfl]

theorem tablesOfJson?_toJson (tables : List (String × List (String × String))) :
    tablesOfJson? (.object (Entries.mapValues tableToJson tables)) =
      some (Entries.ofPairs (Entries.mapValues Entries.ofPairs tables)) := by
  rw [tablesOfJson?, Entries.mapValues?_mapValues tableOfJson?_toJson, Option.map_some]

theorem relationshipsOfJson?_toJson (relationships : List Relationship) :
    relationshipsOfJson? (.array (relationships.map Relationship.toJson)) = some relationships := by
  rw [relationshipsOfJson?]
  induction relationships with
  | nil => rfl
  | cons relationship rest ih =>
    rw [List.map_cons, List.mapM_cons, Relationship.ofJson?_toJson, ih]
    rfl

theorem ofJson?_declarationsJson (tables : List (String × List (String × String)))
    (relationships : List Relationship) :
    ofJson? (declarationsJson tables relationships) = some (declared tables relationships) := by
  have parts : ofJson? (declarationsJson tables relationships) =
      ofParts? (some (.object (Entries.mapValues tableToJson tables)))
        (some (.array (relationships.map Relationship.toJson))) := rfl
  simp only [parts, ofParts?, Option.map_some, Option.getD_some, tablesOfJson?_toJson,
    relationshipsOfJson?_toJson, declared_eq]
  rfl

/-- What is written of a catalog is read as what its tables and relationships declare. -/
theorem ofJson?_toJson (catalog : Catalog) :
    ofJson? catalog.toJson = some (declared catalog.tables catalog.relationships) := by
  obtain ⟨tables, relationships⟩ := catalog
  cases relationships with
  | nil =>
    have parts : ofJson? (toJson ⟨tables, []⟩) =
        ofParts? (some (.object (Entries.mapValues tableToJson tables))) none := rfl
    simp only [parts, ofParts?, Option.map_some, Option.getD_some, tablesOfJson?_toJson, declared_eq]
    rfl
  | cons relationship rest =>
    have whole : toJson ⟨tables, relationship :: rest⟩ =
        declarationsJson tables (relationship :: rest) := rfl
    rw [whole, ofJson?_declarationsJson]

/-! ## Texts -/

theorem textual_tables (tables : List (String × List (String × String))) :
    ∀ field ∈ Entries.mapValues tableToJson tables, field.2.Textual := by
  intro field member
  obtain ⟨table, _, rfl⟩ := List.mem_map.mp member
  apply Json.Textual.object
  intro column among
  obtain ⟨typed, _, rfl⟩ := List.mem_map.mp among
  exact .string typed.2

theorem textual_relationships (relationships : List Relationship) :
    ∀ item ∈ relationships.map Relationship.toJson, item.Textual := by
  intro item member
  obtain ⟨relationship, _, rfl⟩ := List.mem_map.mp member
  exact relationship.textual_toJson

theorem textual_toJson (catalog : Catalog) : catalog.toJson.Textual := by
  obtain ⟨tables, relationships⟩ := catalog
  have first : Json.Textual (.object (Entries.mapValues tableToJson tables)) :=
    .object (textual_tables tables)
  apply Json.Textual.object
  rw [List.forall_mem_cons]
  refine ⟨first, ?_⟩
  cases relationships with
  | nil => exact List.forall_mem_nil _
  | cons relationship rest =>
    exact List.forall_mem_singleton.mpr (.array (textual_relationships (relationship :: rest)))

theorem ofJsonText?_of_parse {text : String} {json : Json} (parsed : Json.parse text = some json) :
    ofJsonText? text = ofJson? json := by
  rw [ofJsonText?, parsed, Option.bind_some]

/-- Declaring tables and relationships one after another, names repeated or not, gives the catalog that is
read from any text of a document that holds the same declarations: each table and each column where its
name is first declared, with the columns or the type of the last declaration, and the relationships in
order. What is written of this catalog is read back as it was, in either layout. -/
theorem ofJsonText?_declared (tables : List (String × List (String × String)))
    (relationships : List Relationship) :
    (declared tables relationships).Holds tables relationships ∧
    (∀ text, Json.SpellsPart text (declarationsJson tables relationships) →
      ofJsonText? (.ofList text) = some (declared tables relationships)) ∧
    ofJsonText? (declared tables relationships).toJson.compact = some (declared tables relationships) ∧
    ofJsonText? (declared tables relationships).toJson.pretty = some (declared tables relationships) := by
  have keyed := keyed_declared tables relationships
  have read : ofJson? (declared tables relationships).toJson = some (declared tables relationships) := by
    rw [ofJson?_toJson, keyed.declared_eq]
  have textual := textual_toJson (declared tables relationships)
  refine ⟨holds_declared tables relationships, ?_, ?_, ?_⟩
  · intro text spells
    rw [ofJsonText?_of_parse (Json.parse_of_spells spells), ofJson?_declarationsJson]
  · rw [ofJsonText?_of_parse (Json.parse_compact textual), read]
  · rw [ofJsonText?_of_parse (Json.parse_pretty textual), read]

/-- A table that is declared twice, the second time with a column twice, around a table without columns. -/
def repeatedTables : List (String × List (String × String)) :=
  [("t", [("a", "int")]), ("u", []), ("t", [("b", "text"), ("c", "date"), ("b", "a\"\\\u0001é")])]

/-- A relationship with an empty hint, and one without a hint. -/
def hintedRelationships : List Relationship := [⟨"u", "t", some "", .many⟩, ⟨"u", "t", none, .one⟩]

theorem ofJsonText?_declared_repeated :
    Json.SpellsPart ((declarationsJson repeatedTables hintedRelationships).prettyChars 0)
      (declarationsJson repeatedTables hintedRelationships) ∧
    ofJsonText? (declarationsJson repeatedTables hintedRelationships).pretty =
      some ⟨[("t", [("b", "a\"\\\u0001é"), ("c", "date")]), ("u", [])], hintedRelationships⟩ ∧
    ofJsonText? (toJson empty).compact = some empty := by
  have textual : (declarationsJson repeatedTables hintedRelationships).Textual :=
    textual_toJson ⟨repeatedTables, hintedRelationships⟩
  have spells := textual.spellsPart_prettyChars
  obtain ⟨_, read, _⟩ := ofJsonText?_declared repeatedTables hintedRelationships
  obtain ⟨_, _, nothing, _⟩ := ofJsonText?_declared [] []
  exact ⟨spells, read _ spells, nothing⟩

end Catalog

end SelectShape
