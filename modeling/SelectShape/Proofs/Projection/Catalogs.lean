import SelectShape.Proofs.Catalog.Keyed
import SelectShape.Proofs.Catalog.Suggestion
import SelectShape.Proofs.Projection.Chains
import SelectShape.Proofs.Projection.Checks
import SelectShape.Proofs.Shape.Alike

/-!
# Equal catalogs

A wildcard selects the columns of a table in the order in which they were declared, and of equally close
names the first one is suggested. Main statement: nothing else about a projection depends on the order of
tables and columns.
-/
namespace SelectShape

/-- Tables with the same columns of the same types, in any order. -/
structure Table.Alike (table other : Table) : Prop where
  unique : table.keys.Nodup
  uniqueOther : other.keys.Nodup
  columns : ∀ column, table.get? column = other.get? column

/-- Directories with the same tables, in any order, and the same relationships. -/
structure Directory.Alike (directory other : Directory) : Prop where
  tables : ∀ name, (directory.table? name = none ∧ other.table? name = none) ∨
    ∃ table counterpart, directory.table? name = some table ∧ other.table? name = some counterpart ∧
      table.Alike counterpart
  names : ∀ name, name ∈ directory.tableNames ↔ name ∈ other.tableNames
  relationships : directory.cardinality? = other.cardinality?

/-- Errors of the same kind about the same names or limit, with suggestions that are as close. -/
inductive ProjectionError.Alike : ProjectionError → ProjectionError → Prop
  | unknownTable (table : String) (close : Suggestion.Alike table first second) :
      Alike (.unknownTable table first) (.unknownTable table second)
  | unknownColumn (table column : String) (close : Suggestion.Alike column first second) :
      Alike (.unknownColumn table column first) (.unknownColumn table column second)
  | nestingTooDeep (limit : Nat) : Alike (.nestingTooDeep limit) (.nestingTooDeep limit)

namespace Table.Alike

variable {table other : Table}

theorem mem_iff (alike : table.Alike other) {column type : String} :
    (column, type) ∈ table ↔ (column, type) ∈ other := by
  constructor
  · intro member
    apply Entries.mem_of_get?
    rw [← alike.columns]
    exact Entries.get?_of_mem alike.unique member
  · intro member
    apply Entries.mem_of_get?
    rw [alike.columns]
    exact Entries.get?_of_mem alike.uniqueOther member

theorem mem_keys_iff (alike : table.Alike other) {column : String} :
    column ∈ table.keys ↔ column ∈ other.keys := by
  rw [← not_iff_not, ← Entries.get?_eq_none_iff, ← Entries.get?_eq_none_iff, alike.columns]

theorem of_same (unique : table.keys.Nodup) (same : table.same (· == ·) other) : table.Alike other where
  unique := unique
  uniqueOther := (Entries.perm_keys_of_same unique same).nodup_iff.mp unique
  columns column := by
    rcases Entries.get?_of_same unique same column with ⟨absent, again⟩ | ⟨_, _, found, again, equal⟩
    · rw [absent, again]
    · rw [found, again, eq_of_beq equal]

end Table.Alike

theorem Directory.alike_of_same {catalog other : Catalog} (keyed : catalog.Keyed)
    (same : catalog.same other) : (Directory.ofCatalog catalog).Alike (.ofCatalog other) := by
  obtain ⟨tables, relationships⟩ := Bool.and_eq_true_iff.mp same
  refine ⟨fun name => ?_, fun name => ?_, ?_⟩
  · rcases Entries.get?_of_same keyed.tables tables name with absent | ⟨table, counterpart, found, again,
      equal⟩
    · exact .inl absent
    · have unique := keyed.columns _ (Entries.mem_of_get? found)
      exact .inr ⟨table, counterpart, found, again, .of_same unique equal⟩
  · exact (Entries.perm_keys_of_same keyed.tables tables).mem_iff
  · have equal : catalog.relationships = other.relationships := eq_of_beq relationships
    funext origin target hint
    simp only [ofCatalog, Catalog.cardinality?, Catalog.between, equal]

namespace Projection

variable {directory other : Directory} {maxDepth : Nat} {table : String} {nodes : List Node}

/-! ### Errors -/

theorem passes_eq (alike : directory.Alike other) (check : Check) :
    check.passes directory maxDepth = check.passes other maxDepth := by
  cases check with
  | known table =>
    rcases alike.tables table with ⟨absent, again⟩ | ⟨_, _, found, again, _⟩
    · simp only [Check.passes, absent, again]
    · simp only [Check.passes, found, again, Option.isSome_some]
  | column table name =>
    rcases alike.tables table with ⟨absent, again⟩ | ⟨columns, _, found, again, same⟩
    · simp only [Check.passes, absent, again]
    · simp only [Check.passes, found, again, Option.bind_some, same.columns]
  | nesting outer => rfl

theorem error_alike (alike : directory.Alike other) (check : Check) :
    (check.error directory maxDepth).Alike (check.error other maxDepth) := by
  cases check with
  | known table =>
    apply ProjectionError.Alike.unknownTable
    exact Suggestion.closest?_alike table alike.names
  | column table name =>
    apply ProjectionError.Alike.unknownColumn
    apply Suggestion.closest?_alike
    intro column
    rcases alike.tables table with ⟨absent, again⟩ | ⟨columns, _, found, again, same⟩
    · rw [absent, again]
    · rw [found, again, Option.getD_some, Option.getD_some, same.mem_keys_iff]
  | nesting outer => exact .nestingTooDeep maxDepth

/-- The same check is the first one that fails, if one does. -/
theorem firstError?_alike (alike : directory.Alike other) (list : List Check) :
    Option.Rel ProjectionError.Alike (firstError? directory maxDepth list)
      (firstError? other maxDepth list) := by
  have same : (fun check : Check => !check.passes directory maxDepth) =
      fun check => !check.passes other maxDepth := by
    funext check
    rw [passes_eq alike]
  rw [firstError?, firstError?, same]
  cases list.find? fun check => !check.passes other maxDepth with
  | none => exact .none
  | some check => exact .some (error_alike alike check)

/-! ### Shapes -/

theorem endSelects_iff (alike : directory.Alike other) {key type : String} {last : String × Node} :
    EndSelects directory key type last ↔ EndSelects other key type last := by
  obtain ⟨table, node⟩ := last
  rcases alike.tables table with ⟨absent, again⟩ | ⟨columns, counterpart, found, again, same⟩
  · simp only [EndSelects, absent, again]
  · simp only [EndSelects, found, again, Option.some.injEq, exists_eq_left']
    constructor
    · intro selects
      cases selects with
      | column named typed => exact .column named (same.columns _ ▸ typed)
      | wildcard typed => exact .wildcard (same.mem_iff.mp typed)
    · intro selects
      cases selects with
      | column named typed => exact .column named ((same.columns _).symm ▸ typed)
      | wildcard typed => exact .wildcard (same.mem_iff.mpr typed)

theorem chainCardinality?_eq (alike : directory.Alike other) (path : List String) (key : String) :
    chainCardinality? directory table nodes path key = chainCardinality? other table nodes path key := by
  have same : endCardinality? directory key = endCardinality? other key := by
    funext last
    obtain ⟨table, node⟩ := last
    cases node <;> simp only [endCardinality?, cardinalityOf, alike.relationships]
  rw [chainCardinality?, chainCardinality?, same]

theorem Matches.alike {shape counterpart : Shape} (alike : directory.Alike other)
    (matched : Matches directory table nodes shape) (matchedOther : Matches other table nodes counterpart) :
    shape.Alike counterpart where
  types path key type := by
    rw [matched.types, matchedOther.types]
    simp only [endSelects_iff alike]
  cardinality path key := by
    rw [matched.cardinality, matchedOther.cardinality, chainCardinality?_eq alike]

/-- Equal catalogs, whose tables and columns may be declared in different orders, project a select list
to equal shapes, or fail with the same error but for the choice among names that are equally close. -/
theorem project_same_catalog {catalog counterpart : Catalog} (keyed : catalog.Keyed)
    (same : catalog.same counterpart) (maxDepth : Nat) (table : String) (nodes : List Node) :
    (∃ shape other, project (.ofCatalog catalog) maxDepth table nodes = .ok shape ∧
      project (.ofCatalog counterpart) maxDepth table nodes = .ok other ∧ shape.same other) ∨
    ∃ error other, project (.ofCatalog catalog) maxDepth table nodes = .error error ∧
      project (.ofCatalog counterpart) maxDepth table nodes = .error other ∧ error.Alike other := by
  have alike := Directory.alike_of_same keyed same
  have errors := @firstError?_alike _ _ maxDepth alike (checks table nodes)
  rw [← error?_project, ← error?_project] at errors
  cases first : project (.ofCatalog catalog) maxDepth table nodes with
  | error error =>
    cases second : project (.ofCatalog counterpart) maxDepth table nodes with
    | error other =>
      rw [first, second] at errors
      cases errors with
      | some equal => exact .inr ⟨error, other, rfl, rfl, equal⟩
    | ok shape =>
      rw [first, second] at errors
      cases errors
  | ok shape =>
    cases second : project (.ofCatalog counterpart) maxDepth table nodes with
    | error other =>
      rw [first, second] at errors
      cases errors
    | ok other =>
      have matched := matches_of_project first
      have matchedOther := matches_of_project second
      have equal := (matched.alike alike matchedOther).same matched.normal matchedOther.normal
      exact .inl ⟨shape, other, rfl, rfl, equal⟩

/-- Two tables and two columns change places. A wildcard then selects the columns in the other order, and
the other one of two columns is suggested that are one edit away. -/
theorem project_same_catalog_reordered :
    let catalog : Catalog :=
      ⟨[("t", [("ida", "int"), ("idb", "text")]), ("u", [("x", "int")])], [⟨"t", "u", none, .many⟩]⟩
    let counterpart : Catalog :=
      ⟨[("u", [("x", "int")]), ("t", [("idb", "text"), ("ida", "int")])], [⟨"t", "u", none, .many⟩]⟩
    let selected : List Node := [.wildcard, .embed ⟨"ida", "u", none⟩ [.wildcard]]
    let misspelt : List Node := [.column (.plain "idx")]
    let shape : Shape :=
      [("ida", .intersection [.scalar "int", .relation .many [("x", .scalar "int")]]),
        ("idb", .scalar "text")]
    let other : Shape :=
      [("idb", .scalar "text"),
        ("ida", .intersection [.scalar "int", .relation .many [("x", .scalar "int")]])]
    let error : ProjectionError := .unknownColumn "t" "idx" (some "ida")
    let otherError : ProjectionError := .unknownColumn "t" "idx" (some "idb")
    catalog.Keyed ∧ catalog.same counterpart ∧
    project (.ofCatalog catalog) 1 "t" selected = .ok shape ∧
    project (.ofCatalog counterpart) 1 "t" selected = .ok other ∧ shape.same other ∧
    project (.ofCatalog catalog) 1 "t" misspelt = .error error ∧
    project (.ofCatalog counterpart) 1 "t" misspelt = .error otherError ∧ error.Alike otherError := by
  intro catalog counterpart selected misspelt shape other error otherError
  have keyed : catalog.Keyed := ⟨by decide, by decide⟩
  have same : catalog.same counterpart := by decide
  have returned : project (.ofCatalog catalog) 1 "t" selected = .ok shape := by rfl
  have returnedOther : project (.ofCatalog counterpart) 1 "t" selected = .ok other := by rfl
  have failed : project (.ofCatalog catalog) 1 "t" misspelt = .error error := by rfl
  have failedOther : project (.ofCatalog counterpart) 1 "t" misspelt = .error otherError := by rfl
  have equal : shape.same other := by
    rcases project_same_catalog keyed same 1 "t" selected with
      ⟨_, _, first, second, equal⟩ | ⟨_, _, first, _⟩
    · cases returned.symm.trans first
      cases returnedOther.symm.trans second
      exact equal
    · cases returned.symm.trans first
  have alike : error.Alike otherError := by
    rcases project_same_catalog keyed same 1 "t" misspelt with
      ⟨_, _, first, _⟩ | ⟨_, _, first, second, alike⟩
    · cases failed.symm.trans first
    · cases failed.symm.trans first
      cases failedOther.symm.trans second
      exact alike
  exact ⟨keyed, same, returned, returnedOther, equal, failed, failedOther, alike⟩

end Projection

end SelectShape
