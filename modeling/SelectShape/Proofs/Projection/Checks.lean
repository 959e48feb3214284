import SelectShape.Proofs.Projection.Basic

/-!
# What a projection checks

A select list asks for tables and columns that are known, and for room to nest its resources. `checks`
lists these demands in reading order. Main statement: a projection succeeds exactly if all of them are
met, and fails with the error of the first one that is not.
-/
namespace SelectShape

namespace Projection

/-- One thing that a select list asks for. -/
inductive Check where
  -- The table is known.
  | known (table : String)
  -- The table has a column of that name.
  | column (table name : String)
  -- A resource may lie inside so many others.
  | nesting (outer : Nat)
  deriving DecidableEq, Repr

namespace Check

def passes (directory : Directory) (maxDepth : Nat) : Check → Bool
  | .known table => (directory.table? table).isSome
  | .column table name => ((directory.table? table).bind (·.get? name)).isSome
  | .nesting outer => outer < maxDepth

/-- What a projection answers when the check fails. -/
def error (directory : Directory) (maxDepth : Nat) : Check → ProjectionError
  | .known table => .unknownTable table (Suggestion.closest? table directory.tableNames)
  | .column table name =>
    .unknownColumn table name (Suggestion.closest? name ((directory.table? table).getD []).keys)
  | .nesting _ => .nestingTooDeep maxDepth

end Check

mutual

/-- The checks of a node that lies inside `outer` resources, in a list on `table`. -/
def nodeChecks (table : String) (outer : Nat) : Node → List Check
  | .wildcard => []
  | .column field => [.column table field.source]
  | .embed field children =>
    .nesting outer :: .known field.source :: listChecks field.source (outer + 1) children

def listChecks (table : String) (outer : Nat) : List Node → List Check
  | [] => []
  | node :: rest => nodeChecks table outer node ++ listChecks table outer rest

end

/-- All checks of a select list on `table`, in reading order. -/
def checks (table : String) (nodes : List Node) : List Check :=
  .known table :: listChecks table 0 nodes

/-- The error of the first check that fails, if one does. -/
def firstError? (directory : Directory) (maxDepth : Nat) (list : List Check) : Option ProjectionError :=
  (list.find? fun check => !check.passes directory maxDepth).map (·.error directory maxDepth)

/-- Why a computation has no result, if it has none. -/
def error? : Except ε α → Option ε
  | .ok _ => none
  | .error error => some error

variable {directory : Directory} {maxDepth depth : Nat} {table : String} {columns : Table}
  {field : Field} {node : Node} {children nodes : List Node} {list others : List Check}

theorem firstError?_cons (check : Check) (rest : List Check) :
    firstError? directory maxDepth (check :: rest) =
      if check.passes directory maxDepth then firstError? directory maxDepth rest
      else some (check.error directory maxDepth) := by
  cases passed : check.passes directory maxDepth <;> simp [firstError?, passed]

theorem firstError?_append :
    firstError? directory maxDepth (list ++ others) =
      (firstError? directory maxDepth list).or (firstError? directory maxDepth others) := by
  rw [firstError?, List.find?_append, firstError?, firstError?, Option.map_or]

theorem firstError?_eq_none_iff :
    firstError? directory maxDepth list = none ↔ ∀ check ∈ list, check.passes directory maxDepth := by
  simp [firstError?]

/-! ### The steps of a projection against their checks -/

theorem error?_bind_pure (first : Except ε α) (f : α → β) :
    error? (first >>= fun value => pure (f value)) = error? first := by
  cases first <;> rfl

/-- Looking a table up is a check of its own, before those of what is done with the table. -/
theorem error?_tableOf_bind {next : Table → Except ProjectionError α}
    (inside : ∀ columns, directory.table? table = some columns →
      error? (next columns) = firstError? directory maxDepth list) :
    error? (tableOf directory table >>= next) =
      firstError? directory maxDepth (.known table :: list) := by
  rw [firstError?_cons, tableOf]
  cases known : directory.table? table with
  | none =>
    have failed : Check.passes directory maxDepth (.known table) = false := by
      simp [Check.passes, known]
    rw [failed]
    rfl
  | some columns =>
    have passed : Check.passes directory maxDepth (.known table) := by simp [Check.passes, known]
    rw [if_pos passed]
    exact inside columns known

theorem error?_listEntries_cons :
    error? (listEntries directory maxDepth table columns depth (node :: nodes)) =
      (error? (nodeEntries directory maxDepth table columns depth node)).or
        (error? (listEntries directory maxDepth table columns depth nodes)) := by
  rw [listEntries]
  cases nodeEntries directory maxDepth table columns depth node with
  | error error => rfl
  | ok first => exact error?_bind_pure _ _

theorem error?_nodeEntries_column (known : directory.table? table = some columns) :
    error? (nodeEntries directory maxDepth table columns depth (.column field)) =
      firstError? directory maxDepth (nodeChecks table depth (.column field)) := by
  rw [nodeEntries, columnEntry, nodeChecks, firstError?_cons]
  cases typed : columns.get? field.source <;>
    simp [Check.passes, Check.error, known, typed, firstError?, Except.map, error?]

theorem error?_nodeEntries_embed
    (inside : ∀ related, directory.table? field.source = some related →
      error? (listEntries directory maxDepth field.source related (depth + 1) children) =
        firstError? directory maxDepth (listChecks field.source (depth + 1) children)) :
    error? (nodeEntries directory maxDepth table columns depth (.embed field children)) =
      firstError? directory maxDepth (nodeChecks table depth (.embed field children)) := by
  rw [nodeEntries, nodeChecks, firstError?_cons]
  by_cases deep : maxDepth ≤ depth
  · have failed : Check.passes directory maxDepth (.nesting depth) = false := by
      simp [Check.passes, deep]
    rw [if_pos deep, failed]
    rfl
  · have room : Check.passes directory maxDepth (.nesting depth) := by simpa [Check.passes] using deep
    rw [if_neg deep, if_pos room]
    exact error?_tableOf_bind fun related known => by rw [error?_bind_pure, inside related known]

theorem error?_listEntries (known : directory.table? table = some columns) :
    error? (listEntries directory maxDepth table columns depth nodes) =
      firstError? directory maxDepth (listChecks table depth nodes) := by
  induction nodes using Node.list_induction generalizing table columns depth with
  | nil => rfl
  | wildcard rest ih =>
    rw [error?_listEntries_cons, listChecks, firstError?_append, ih known]
    rfl
  | column field rest ih =>
    rw [error?_listEntries_cons, listChecks, firstError?_append, ih known,
      error?_nodeEntries_column known]
  | embed field children rest ihChildren ih =>
    rw [error?_listEntries_cons, listChecks, firstError?_append, ih known,
      error?_nodeEntries_embed fun _ related => ihChildren related]

theorem error?_project :
    error? (project directory maxDepth table nodes) =
      firstError? directory maxDepth (checks table nodes) := by
  rw [project, checks]
  exact error?_tableOf_bind fun columns known => by rw [error?_bind_pure, error?_listEntries known]

theorem exists_project_eq_ok_iff :
    (∃ shape, project directory maxDepth table nodes = .ok shape) ↔
      ∀ check ∈ checks table nodes, check.passes directory maxDepth := by
  rw [← firstError?_eq_none_iff, ← error?_project]
  cases project directory maxDepth table nodes <;> simp [error?]

/-- A projection succeeds exactly if all of its checks pass. It fails exactly with the error of the
first one in reading order that does not. -/
theorem project_eq_first_error (directory : Directory) (maxDepth : Nat) (table : String)
    (nodes : List Node) :
    ((∃ shape, project directory maxDepth table nodes = .ok shape) ↔
      ∀ check ∈ checks table nodes, check.passes directory maxDepth) ∧
    ∀ error, project directory maxDepth table nodes = .error error ↔
      ∃ before check after, checks table nodes = before ++ check :: after ∧
        (∀ earlier ∈ before, earlier.passes directory maxDepth) ∧
        check.passes directory maxDepth = false ∧ error = check.error directory maxDepth := by
  refine ⟨exists_project_eq_ok_iff, fun error => ?_⟩
  have failed : project directory maxDepth table nodes = .error error ↔
      firstError? directory maxDepth (checks table nodes) = some error := by
    rw [← error?_project]
    cases project directory maxDepth table nodes <;> simp [error?]
  rw [failed, firstError?, Option.map_eq_some_iff]
  simp only [List.find?_eq_some_iff_append, Bool.not_eq_true', Bool.not_not]
  constructor
  · rintro ⟨check, ⟨fails, before, after, split, earlier⟩, rfl⟩
    exact ⟨before, check, after, split, earlier, fails, rfl⟩
  · rintro ⟨before, check, after, split, earlier, fails, rfl⟩
    exact ⟨check, ⟨fails, before, after, split, earlier⟩, rfl⟩

-- Room is asked for before the table is looked up, and both before the column that comes later.
example : project (.ofTables [("t", [("a", "text")])]) 0 "t"
    [.column (.plain "a"), .embed (.plain "u") [], .column (.plain "b")] = .error (.nestingTooDeep 0) := rfl

end Projection

end SelectShape
