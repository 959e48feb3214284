import SelectShape.Proofs.Projection.Checks
import SelectShape.Proofs.Selection.Nesting

/-!
# The limit on nesting in projections

A select list asks for room at every level from the outermost one down to its depth. So a projection
fails for nesting only where the depth exceeds the limit, and cannot succeed there.
-/
namespace SelectShape.Projection

variable {directory : Directory} {maxDepth : Nat} {table : String} {nodes : List Node}

/-- The levels at which room is asked for are those from `outer` on, as many as the list is deep. -/
theorem nesting_mem_listChecks_iff {outer level : Nat} :
    .nesting level ∈ listChecks table outer nodes ↔
      outer ≤ level ∧ level < outer + Node.maxDepth nodes := by
  induction nodes using Node.list_induction generalizing table outer with
  | nil =>
    simp only [listChecks, Node.maxDepth, List.not_mem_nil, false_iff]
    omega
  | wildcard rest ih =>
    simp only [listChecks, nodeChecks, Node.maxDepth, Node.depth, List.nil_append, ih]
    omega
  | column field rest ih =>
    simp only [listChecks, nodeChecks, Node.maxDepth, Node.depth, List.mem_append, List.mem_singleton,
      reduceCtorEq, false_or, ih]
    omega
  | embed field children rest ihChildren ih =>
    simp only [listChecks, nodeChecks, Node.maxDepth, Node.depth, List.mem_append, List.mem_cons,
      reduceCtorEq, false_or, Check.nesting.injEq, ihChildren, ih]
    omega

theorem exists_check_of_project_eq_error {error : ProjectionError}
    (failed : project directory maxDepth table nodes = .error error) :
    ∃ check ∈ checks table nodes, check.passes directory maxDepth = false ∧
      check.error directory maxDepth = error := by
  have first : firstError? directory maxDepth (checks table nodes) = some error := by
    rw [← error?_project, failed]
    rfl
  obtain ⟨check, found, same⟩ := Option.map_eq_some_iff.mp first
  refine ⟨check, List.mem_of_find?_eq_some found, ?_, same⟩
  simpa using List.find?_some found

/-- The depth of a list that has a shape is within the limit. -/
theorem maxDepth_le_of_project_eq_ok {shape : Shape}
    (returned : project directory maxDepth table nodes = .ok shape) :
    Node.maxDepth nodes ≤ maxDepth := by
  have passes := exists_project_eq_ok_iff.mp ⟨shape, returned⟩
  apply Nat.le_of_not_lt
  intro deep
  -- Room for the level of the limit is asked for, and there is none.
  have asked : .nesting maxDepth ∈ checks table nodes := by
    apply List.mem_cons_of_mem
    apply nesting_mem_listChecks_iff.mpr
    omega
  have room := passes _ asked
  simp [Check.passes] at room

/-- A list whose projection fails for nesting is deeper than the limit, which the error names. -/
theorem lt_maxDepth_of_project_eq_error {limit : Nat}
    (failed : project directory maxDepth table nodes = .error (.nestingTooDeep limit)) :
    limit = maxDepth ∧ maxDepth < Node.maxDepth nodes := by
  obtain ⟨check, asked, fails, named⟩ := exists_check_of_project_eq_error failed
  cases check with
  | known other => cases named
  | column other name => cases named
  | nesting outer =>
    cases named
    refine ⟨rfl, ?_⟩
    have reached : maxDepth ≤ outer := by simpa [Check.passes] using fails
    have within : .nesting outer ∈ listChecks table 0 nodes := by simpa [checks] using asked
    have bound := (nesting_mem_listChecks_iff.mp within).2
    omega

/-- Nothing that a parser has accepted is too deep for a projection whose limit is as wide. -/
theorem project_ne_nestingTooDeep {limits : Limits} {query : String}
    (accepted : parse limits query = .ok nodes) (wide : limits.maxDepth ≤ maxDepth) (limit : Nat) :
    project directory maxDepth table nodes ≠ .error (.nestingTooDeep limit) := by
  intro failed
  have deep := (lt_maxDepth_of_project_eq_error failed).2
  have nested := ((parse_eq_ok_iff limits query nodes).mp accepted).2.2
  omega

end SelectShape.Projection
