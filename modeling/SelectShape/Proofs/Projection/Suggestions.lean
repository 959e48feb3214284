import SelectShape.Proofs.Catalog.EditDistance
import SelectShape.Proofs.Catalog.Suggestion
import SelectShape.Proofs.Entries
import SelectShape.Proofs.Projection.Checks

/-!
# What errors suggest

A projection that fails names something that is indeed unknown, since the table that encloses a node is
known when the node is looked at. Main statement: the suggestion that goes with it is the first of the
closest known names within tolerance, by the least number of edits, and there is none only if no known
name is within tolerance.
-/
namespace SelectShape

/-- A suggestion for an unknown name, from the known ones in order: the first of the closest within
tolerance, hence another name, and none exactly if all are too far away. -/
def Suggestion.Suggests (name : String) (known : List String) (suggestion : Option String) : Prop :=
  (∀ found, suggestion = some found → Closest name known found ∧ found ∈ known ∧ found ≠ name) ∧
    (suggestion = none ↔ ∀ other ∈ known, tolerance name < editDistance name other)

theorem Suggestion.suggests_closest? {name : String} {known : List String} (unknown : name ∉ known) :
    Suggests name known (closest? name known) := by
  have best := best_foldl name known
  rw [closest?]
  generalize known.foldl (better name) none = kept at best
  cases best with
  | nothing far => exact ⟨by simp, by simpa using far⟩
  | @kept found closest =>
    have within := closest.within
    refine ⟨?_, ?_⟩
    · rintro _ ⟨⟩
      exact ⟨closest, closest.mem, ne_of_mem_of_not_mem closest.mem unknown⟩
    · refine iff_of_false (by simp) fun far => ?_
      exact absurd (far found closest.mem) (Nat.not_lt.mpr within)

/-- What an error says of a directory is true, and what it suggests is the closest name. -/
inductive ProjectionError.Justified (directory : Directory) : ProjectionError → Prop
  | unknownTable (unknown : directory.table? table = none) :
      Justified directory
        (.unknownTable table (Suggestion.closest? table directory.tableNames))
  | unknownColumn {columns : Table} (known : directory.table? table = some columns)
      (lacks : columns.get? column = none) :
      Justified directory (.unknownColumn table column (Suggestion.closest? column columns.keys))
  | nestingTooDeep (limit : Nat) : Justified directory (.nestingTooDeep limit)

namespace Projection

variable {directory : Directory} {maxDepth depth : Nat} {table : String} {columns : Table}
  {nodes : List Node} {error : ProjectionError}

/-- The first check to fail in a list is justified if the table that encloses the list is known. -/
theorem justified_of_listChecks (known : directory.table? table = some columns)
    (failed : firstError? directory maxDepth (listChecks table depth nodes) = some error) :
    error.Justified directory := by
  induction nodes using Node.list_induction generalizing table columns depth with
  | nil => cases failed
  | wildcard rest ih => exact ih known failed
  | column field rest ih =>
    rw [listChecks, nodeChecks, List.singleton_append, firstError?_cons] at failed
    split at failed
    next => exact ih known failed
    next lacks =>
      obtain rfl := Option.some.inj failed
      have absent : columns.get? field.source = none := by simpa [Check.passes, known] using lacks
      simpa [Check.error, known] using ProjectionError.Justified.unknownColumn known absent
  | embed field children rest ihChildren ih =>
    rw [listChecks, nodeChecks, List.cons_append, List.cons_append, firstError?_cons, firstError?_cons,
      firstError?_append] at failed
    split at failed
    next =>
      split at failed
      next found =>
        -- The resource's table is known when the checks of its select list are reached.
        obtain ⟨related, knownRelated⟩ := Option.isSome_iff_exists.mp found
        rcases Option.or_eq_some_iff.mp failed with inside | ⟨_, later⟩
        · exact ihChildren knownRelated inside
        · exact ih known later
      next absent =>
        obtain rfl := Option.some.inj failed
        exact .unknownTable (by simpa [Check.passes] using absent)
    next =>
      obtain rfl := Option.some.inj failed
      exact .nestingTooDeep maxDepth

theorem project_justified (failed : project directory maxDepth table nodes = .error error) :
    error.Justified directory := by
  have first : firstError? directory maxDepth (checks table nodes) = some error := by
    rw [← error?_project, failed, error?]
  rw [checks, firstError?_cons] at first
  split at first
  next found =>
    obtain ⟨columns, known⟩ := Option.isSome_iff_exists.mp found
    exact justified_of_listChecks known first
  next absent =>
    obtain rfl := Option.some.inj first
    exact .unknownTable (by simpa [Check.passes] using absent)

/-- Errors about unknown names are right, and so are their suggestions. An unknown column is one that a
known table lacks, and of the columns of this table the first one is suggested that is closest, if it is
within tolerance; likewise for an unknown table and the names of the catalog's tables. How close two
names are is the least number of edits that turn one into the other. -/
theorem project_suggestion :
    (∀ name other, IsLeast {count | EditDistance.Edits count name.toList other.toList}
      (editDistance name other)) ∧
    (∀ (directory : Directory) (maxDepth : Nat) (table : String) (nodes : List Node)
      (enclosing column : String) (suggestion : Option String),
      project directory maxDepth table nodes = .error (.unknownColumn enclosing column suggestion) →
      ∃ columns, directory.table? enclosing = some columns ∧ column ∉ columns.keys ∧
        Suggestion.Suggests column columns.keys suggestion) ∧
    ∀ (tables : Entries Table) (directory : Directory) (maxDepth : Nat) (table : String)
      (nodes : List Node) (name : String) (suggestion : Option String),
      (directory = .ofTables tables ∨ ∃ relationships, directory = .ofCatalog ⟨tables, relationships⟩) →
      project directory maxDepth table nodes = .error (.unknownTable name suggestion) →
      name ∉ tables.keys ∧ Suggestion.Suggests name tables.keys suggestion := by
  refine ⟨EditDistance.isLeast_editDistance, ?_, ?_⟩
  · intro directory maxDepth table nodes enclosing column suggestion failed
    cases project_justified failed with
    | @unknownColumn _ _ columns known lacks =>
      have absent := Entries.get?_eq_none_iff.mp lacks
      exact ⟨columns, known, absent, Suggestion.suggests_closest? absent⟩
  · intro tables directory maxDepth table nodes name suggestion kind failed
    have listed : directory.tableNames = tables.keys ∧ directory.table? = tables.get? := by
      rcases kind with rfl | ⟨relationships, rfl⟩ <;> exact ⟨rfl, rfl⟩
    cases project_justified failed with
    | unknownTable unknown =>
      rw [listed.2] at unknown
      have absent := Entries.get?_eq_none_iff.mp unknown
      rw [listed.1]
      exact ⟨absent, Suggestion.suggests_closest? absent⟩

/-- Two columns are one edit away, and the first one is suggested. A table that is one edit away is too far
for a name of two bytes. -/
theorem project_suggestion_first :
    let lookup : Directory := .ofLookup fun
      | "u" => some [("id", "int"), ("name", "text"), ("nane", "text")]
      | _ => none
    project lookup 1 "u" [.embed ⟨"x", "u", none⟩ [.wildcard, .column (.plain "nake")]] =
      .error (.unknownColumn "u" "nake" (some "name")) ∧
    Suggestion.Suggests "nake" ["id", "name", "nane"] (some "name") ∧
    IsLeast {count | EditDistance.Edits count "nake".toList "name".toList} 1 ∧
    project (.ofTables [("u", []), ("t", [])]) 0 "ü" [] = .error (.unknownTable "ü" none) ∧
    Suggestion.Suggests "ü" ["u", "t"] none := by
  intro lookup
  have column : project lookup 1 "u" [.embed ⟨"x", "u", none⟩ [.wildcard, .column (.plain "nake")]] =
      .error (.unknownColumn "u" "nake" (some "name")) := by rfl
  have table : project (.ofTables [("u", []), ("t", [])]) 0 "ü" [] =
      .error (.unknownTable "ü" none) := by rfl
  obtain ⟨columns, known, _, suggests⟩ := project_suggestion.2.1 _ _ _ _ _ _ _ column
  obtain rfl := Option.some.inj known
  have near : editDistance "nake" "name" = 1 := by decide
  exact ⟨column, suggests, near ▸ project_suggestion.1 "nake" "name", table,
    (project_suggestion.2.2 _ _ _ _ _ _ _ (.inl rfl) table).2⟩

end Projection

end SelectShape
