import SelectShape.Proofs.Selection.Reading

/-!
# Parsing and the grammar

Main statement: within the limits, parsing accepts the texts that the grammar derives, with the tree they
derive, and there is one such tree.
-/
namespace SelectShape

/-- Parsing succeeds if the text is short enough and reading leaves nothing of it. -/
theorem parse_eq_ok_iff_run {limits : Limits} {query : String} {nodes : List Node} :
    parse limits query = .ok nodes ↔ query.utf8ByteSize ≤ limits.maxLength ∧
      Reader.empty.run limits 0 .list (scan false query.toList) = .ok (nodes, []) := by
  rw [parse]
  by_cases long : limits.maxLength < query.utf8ByteSize
  · simp [long]
  · simp only [if_neg long, not_lt.mp long, true_and]
    cases returned : Reader.empty.run limits 0 .list (scan false query.toList) with
    | error error => simp
    | ok result =>
      obtain ⟨found, rest⟩ := result
      cases rest with
      | nil => simp
      | cons c rest => simp

theorem parse_eq_ok_iff (limits : Limits) (query : String) (nodes : List Node) :
    parse limits query = .ok nodes ↔ query.utf8ByteSize ≤ limits.maxLength ∧
      Derives query.toList nodes ∧ Node.maxDepth nodes ≤ limits.maxDepth := by
  rw [parse_eq_ok_iff_run, Reader.run_eq_ok_iff (located_of_mem_scan false query.toList), derives_iff]
  rfl

/-- A text derives one select list at most. -/
theorem Derives.unique {text : List Char} {nodes others : List Node} (derived : Derives text nodes)
    (again : Derives text others) : nodes = others := by
  -- Limits that are wide enough for both let parsing, which is a function, decide.
  have accepted (list : List Node) (room : list = nodes ∨ list = others) (derives : Derives text list) :
      parse ⟨max (Node.maxDepth nodes) (Node.maxDepth others), (String.ofList text).utf8ByteSize⟩
        (.ofList text) = .ok list := by
    refine (parse_eq_ok_iff _ _ _).mpr ⟨le_rfl, by simpa using derives, ?_⟩
    rcases room with rfl | rfl
    · exact Nat.le_max_left _ _
    · exact Nat.le_max_right _ _
  exact Except.ok.inj ((accepted nodes (.inl rfl) derived).symm.trans (accepted others (.inr rfl) again))

/-- Parsing returns a tree exactly for the texts within the limit on length that derive the tree, when
no related resource of it is nested deeper than the other limit; and no text derives two trees. -/
theorem parse_ok_iff_derives :
    (∀ (limits : Limits) (query : String) (nodes : List Node),
      parse limits query = .ok nodes ↔ query.utf8ByteSize ≤ limits.maxLength ∧
        Derives query.toList nodes ∧ Node.maxDepth nodes ≤ limits.maxDepth) ∧
    ∀ (text : List Char) (nodes others : List Node),
      Derives text nodes → Derives text others → nodes = others :=
  ⟨parse_eq_ok_iff, fun _ _ _ derived again => derived.unique again⟩

/-- A text with blanks at every place where they may stand derives its tree, and no other one. -/
theorem parse_ok_iff_derives_spread :
    Derives " a : b ! h (\tc , * ) \n".toList
      [.embed ⟨"a", "b", some "h"⟩ [.column (.plain "c"), .wildcard]] ∧
    ¬ Derives " a : b ! h (\tc , * ) \n".toList [.column (.plain "a")] := by
  have derived := ((parse_ok_iff_derives.1 ⟨1, 25⟩ " a : b ! h (\tc , * ) \n"
    [.embed ⟨"a", "b", some "h"⟩ [.column (.plain "c"), .wildcard]]).mp rfl).2.1
  refine ⟨derived, fun other => ?_⟩
  have equal := parse_ok_iff_derives.2 _ _ _ derived other
  simp at equal

end SelectShape
