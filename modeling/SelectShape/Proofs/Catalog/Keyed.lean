import SelectShape.Catalog.Document
import SelectShape.Proofs.Entries

/-!
# Catalogs with keys of their own

No table of a catalog that is built, or read from JSON, is there twice, and no column of a table.
-/
namespace SelectShape

namespace Catalog

/-- Every table and every column of it is declared under a name of its own. -/
structure Keyed (catalog : Catalog) : Prop where
  tables : catalog.tables.keys.Nodup
  columns : ∀ table ∈ catalog.tables, table.2.keys.Nodup

variable {catalog : Catalog}

theorem keyed_empty : empty.Keyed := ⟨.nil, List.forall_mem_nil _⟩

theorem Keyed.addTable (keyed : catalog.Keyed) (name : String) (columns : List (String × String)) :
    (catalog.addTable name columns).Keyed where
  tables := Entries.nodup_keys_put keyed.tables
  columns := Entries.forall_put (P := fun table : Table => table.keys.Nodup)
    (fun _ _ _ new => new) keyed.columns Entries.nodup_keys_ofPairs

theorem Keyed.addRelationship (keyed : catalog.Keyed) (relationship : Relationship) :
    (catalog.addRelationship relationship).Keyed :=
  ⟨keyed.tables, keyed.columns⟩

theorem nodup_keys_of_tableOfJson? {json : Json} {table : Table}
    (returned : tableOfJson? json = some table) : table.keys.Nodup := by
  cases json with
  | object fields =>
    obtain ⟨columns, _, rfl⟩ := Option.map_eq_some_iff.mp returned
    exact Entries.nodup_keys_ofPairs
  | _ => cases returned

theorem keyed_of_ofParts? {tables relationships : Option Json}
    (returned : ofParts? tables relationships = some catalog) : catalog.Keyed := by
  simp only [ofParts?, Option.bind_eq_bind, Option.pure_def, Option.bind_eq_some_iff,
    Option.some.injEq] at returned
  obtain ⟨found, read, list, _, rfl⟩ := returned
  cases tables with
  | none =>
    cases read
    exact ⟨.nil, List.forall_mem_nil _⟩
  | some json =>
    cases json with
    | object fields =>
      obtain ⟨values, mapped, rfl⟩ := Option.map_eq_some_iff.mp read
      refine ⟨Entries.nodup_keys_ofPairs, ?_⟩
      apply Entries.forall_ofPairs (P := fun table : Table => table.keys.Nodup)
      intro field member
      obtain ⟨given, own⟩ := Entries.exists_of_mem_mapValues? mapped field member
      exact nodup_keys_of_tableOfJson? own
    | _ => cases read

theorem keyed_of_ofJson? {json : Json} (returned : ofJson? json = some catalog) : catalog.Keyed := by
  unfold ofJson? at returned
  split at returned
  · split at returned
    · exact keyed_of_ofParts? returned
    · cases returned
  · cases returned
    exact keyed_empty
  · exact keyed_of_ofParts? returned
  · exact keyed_of_ofParts? returned
  · cases returned

end Catalog

end SelectShape
