import SelectShape.Proofs.Selection.Canonical

/-!
# The limit on nesting in queries

The limit decides only whether one more list may open. So reading under a limit either breaks off where
the limit is reached, or goes on just as under a wider one. Main statement: a lower limit cuts what is too
deep, and changes no other result.
-/
namespace SelectShape

variable {limits wider : Limits} {base : Nat} {goal : Goal}

namespace Reader

theorem openList_widen (wide : limits.maxDepth ≤ wider.maxDepth) (reader : Reader) (field : Field) :
    openList limits base reader field = .fail (.nestingTooDeep limits.maxDepth) ∨
      openList limits base reader field = openList wider base reader field := by
  by_cases deep : limits.maxDepth ≤ base + reader.frames.length
  · left
    rw [openList, if_pos deep]
  · right
    have room : ¬ wider.maxDepth ≤ base + reader.frames.length := by omega
    rw [openList, openList, if_neg deep, if_neg room]

theorem step_widen (wide : limits.maxDepth ≤ wider.maxDepth) (reader : Reader) (next : Located) :
    step limits base goal reader next = .fail (.nestingTooDeep limits.maxDepth) ∨
      step limits base goal reader next = step wider base goal reader next := by
  obtain ⟨frames, nodes, place⟩ := reader
  obtain ⟨token, text⟩ := next
  -- Of all cases, only the one in which a list opens asks for the limits.
  cases place.meets token with
  | opening field opens parenthesis steps =>
    rw [steps, steps]
    exact openList_widen wide _ field
  | inside next moves steps | hollow opened closing steps | behind node ended steps
  | wrong unfinished steps => exact .inr (steps.trans steps.symm)

theorem run_widen (wide : limits.maxDepth ≤ wider.maxDepth) (reader : Reader) (located : List Located) :
    run limits base goal reader located = .error (.nestingTooDeep limits.maxDepth) ∨
      run limits base goal reader located = run wider base goal reader located := by
  induction located generalizing reader with
  | nil => exact .inr rfl
  | cons next rest ih =>
    rcases @step_widen limits wider base goal wide reader next with deep | same
    · left
      rw [run, deep]
    · rw [run, run, same]
      cases step wider base goal reader next with
      | next after => exact ih after
      | stop => exact .inr rfl
      | fail error => exact .inr rfl

end Reader

/-- Parsing under a limit fails for nesting, or returns what it does under a wider limit. -/
theorem parse_widen (wide : limits.maxDepth ≤ wider.maxDepth)
    (sameLength : limits.maxLength = wider.maxLength) (query : String) :
    parse limits query = .error (.nestingTooDeep limits.maxDepth) ∨
      parse limits query = parse wider query := by
  rw [parse, parse, sameLength]
  by_cases long : wider.maxLength < query.utf8ByteSize
  · right
    rw [if_pos long, if_pos long]
  · rw [if_neg long, if_neg long]
    rcases @Reader.run_widen limits wider 0 .list wide .empty (scan false query.toList) with deep | same
    · left
      rw [deep]
    · right
      rw [same]

/-- A text of the grammar that is short enough fails for nesting exactly if its tree is too deep. -/
theorem parse_eq_nestingTooDeep_iff {query : String} {nodes : List Node}
    (derives : Derives query.toList nodes) (short : query.utf8ByteSize ≤ limits.maxLength) :
    parse limits query = .error (.nestingTooDeep limits.maxDepth) ↔
      limits.maxDepth < Node.maxDepth nodes := by
  constructor
  · intro failed
    apply Nat.lt_of_not_le
    intro nested
    have accepted := (parse_eq_ok_iff limits query nodes).mpr ⟨short, derives, nested⟩
    cases failed.symm.trans accepted
  · intro deep
    -- A limit that the tree just reaches is wider, and under it the text is accepted.
    have accepted : parse ⟨Node.maxDepth nodes, limits.maxLength⟩ query = .ok nodes :=
      (parse_eq_ok_iff _ query nodes).mpr ⟨short, derives, le_rfl⟩
    rcases @parse_widen limits ⟨Node.maxDepth nodes, limits.maxLength⟩ deep.le rfl query with
      failed | same
    · exact failed
    · have nested := ((parse_eq_ok_iff limits query nodes).mp (same.trans accepted)).2.2
      exact absurd nested (Nat.not_le_of_lt deep)

theorem Node.lt_maxDepth_iff {nodes : List Node} {bound : Nat} :
    bound < Node.maxDepth nodes ↔ ∃ node ∈ nodes, bound < node.depth := by
  rw [← Nat.not_le, Node.maxDepth_le_iff]
  simp only [not_forall, Nat.not_le, exists_prop]

/-- A lower limit on depth only ever cuts. What is returned under it is returned under a higher one too,
the tree or the error with the text that it carries, but for the failure of the limit itself; and a query
that is read under the higher limit is read the same under the lower one if its tree keeps to it, and else
fails for nesting. -/
theorem parse_depth_cuts (maxLength : Nat) {depth wider : Nat} (wide : depth ≤ wider) (query : String) :
    (parse ⟨depth, maxLength⟩ query ≠ .error (.nestingTooDeep depth) →
      parse ⟨wider, maxLength⟩ query = parse ⟨depth, maxLength⟩ query) ∧
    ∀ nodes, parse ⟨wider, maxLength⟩ query = .ok nodes →
      parse ⟨depth, maxLength⟩ query =
        if ∀ node ∈ nodes, node.depth ≤ depth then .ok nodes else .error (.nestingTooDeep depth) := by
  constructor
  · intro uncut
    rcases @parse_widen ⟨depth, maxLength⟩ ⟨wider, maxLength⟩ wide rfl query with cut | same
    · exact absurd cut uncut
    · exact same.symm
  · intro nodes accepted
    obtain ⟨short, derives, _⟩ := (parse_eq_ok_iff _ query nodes).mp accepted
    split
    next shallow =>
      exact (parse_eq_ok_iff _ query nodes).mpr ⟨short, derives, Node.maxDepth_le_iff.mpr shallow⟩
    next deep =>
      apply (@parse_eq_nestingTooDeep_iff ⟨depth, maxLength⟩ query nodes derives short).mpr
      rwa [← Nat.not_le, Node.maxDepth_le_iff]

/-- One level is room for an error at that level, and for a tree of that depth. Of a tree with two levels
it cuts the second one off, and the error of an empty list there too, which comes after. -/
theorem parse_depth_cuts_one :
    1 ≤ 2 ∧
    parse ⟨2, 9⟩ "a(b c" = .error (.expectedCloseParen "c") ∧
    parse ⟨1, 9⟩ "a(b),c" = .ok [.embed (.plain "a") [.column (.plain "b")], .column (.plain "c")] ∧
    parse ⟨1, 9⟩ "a(b(*))" = .error (.nestingTooDeep 1) ∧
    parse ⟨1, 9⟩ "a(b())" ≠ parse ⟨2, 9⟩ "a(b())" := by
  have wide : 1 ≤ 2 := by decide
  have faulty : parse ⟨1, 9⟩ "a(b c" = .error (.expectedCloseParen "c") := rfl
  have flat : parse ⟨2, 9⟩ "a(b),c" =
      .ok [.embed (.plain "a") [.column (.plain "b")], .column (.plain "c")] := rfl
  have nested : parse ⟨2, 9⟩ "a(b(*))" =
      .ok [.embed (.plain "a") [.embed (.plain "b") [.wildcard]]] := rfl
  refine ⟨wide, ?_, ?_, ?_, by decide +kernel⟩
  · rw [(parse_depth_cuts 9 wide "a(b c").1 (by rw [faulty]; decide), faulty]
  · rw [(parse_depth_cuts 9 wide "a(b),c").2 _ flat, if_pos (by decide)]
  · rw [(parse_depth_cuts 9 wide "a(b(*))").2 _ nested, if_neg (by decide)]

end SelectShape
