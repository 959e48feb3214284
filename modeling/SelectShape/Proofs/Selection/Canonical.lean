import SelectShape.Selection.Canonical
import SelectShape.Proofs.Selection.Parse

/-!
# Canonical text and parsing

The canonical text of a well-formed tree spells tokens that derive the tree, without any blank. Main
statement: parsing takes canonical text back to its tree exactly if the tree is well-formed and within
the limits.
-/
namespace SelectShape

/-- Without blanks, the characters of tokens spell them. -/
theorem spells_flatMap_chars (ts : List Token) : Spells (ts.flatMap Token.chars) ts := by
  induction ts with
  | nil => exact .nil (List.forall_mem_nil _)
  | cons token ts ih =>
    rw [List.flatMap_cons]
    exact ih.token_cons token

private theorem exists_name_tokens {field : Field} (named : field.Named) (bare : field.hint = none) :
    ∃ ts, DerivesName ts field ∧ ts.flatMap Token.chars = field.chars := by
  obtain ⟨key, source, hint⟩ := field
  obtain ⟨keyName, sourceName, _⟩ := named
  obtain rfl : hint = none := bare
  -- The text leaves the key out where it is that of the source.
  by_cases same : key = source
  · subst same
    exact ⟨_, .plain keyName, by simp [Token.chars, Field.chars, Field.isRenamed]⟩
  · exact ⟨_, .renamed keyName sourceName, by simp [Token.chars, Field.chars, Field.isRenamed, same]⟩

private theorem exists_head_tokens {field : Field} (named : field.Named) :
    ∃ ts, DerivesHead ts field ∧ ts.flatMap Token.chars = field.chars := by
  -- With a hint both names are written, also where they are the same.
  cases hinted : field.hint with
  | none =>
    obtain ⟨ts, derived, spelled⟩ := exists_name_tokens named hinted
    exact ⟨ts, .bare derived, spelled⟩
  | some hint =>
    obtain ⟨key, source, found⟩ := field
    obtain rfl : found = some hint := hinted
    obtain ⟨keyName, sourceName, hintName⟩ := named
    exact ⟨_, .hinted keyName sourceName (hintName hint rfl), by simp [Token.chars, Field.chars]⟩

private theorem exists_list_tokens {nodes : List Node} (nonempty : nodes ≠ [])
    (each : ∀ node ∈ nodes, ∃ ts, DerivesNode ts node ∧ ts.flatMap Token.chars = node.chars) :
    ∃ ts, DerivesNodes ts nodes ∧ ts.flatMap Token.chars = Node.listChars nodes := by
  induction nodes with
  | nil => exact absurd rfl nonempty
  | cons node others ih =>
    obtain ⟨ts, derived, spelled⟩ := each node (by simp)
    cases others with
    | nil => exact ⟨ts, .single derived, by simp [Node.listChars, Node.tailChars, spelled]⟩
    | cons next further =>
      obtain ⟨us, derivedOthers, spelledOthers⟩ :=
        ih (by simp) fun later member => each later (by simp [member])
      refine ⟨ts ++ .mark ',' :: us, .cons derived derivedOthers, ?_⟩
      simp only [Node.listChars] at spelledOthers
      simp [Node.listChars, Node.tailChars, Token.chars, spelled, spelledOthers]

/-- A well-formed node derives from tokens whose characters are its canonical text. -/
theorem Node.WellFormed.exists_tokens {node : Node} (wellFormed : node.WellFormed) :
    ∃ ts, DerivesNode ts node ∧ ts.flatMap Token.chars = node.chars := by
  induction wellFormed with
  | wildcard => exact ⟨_, .wildcard, rfl⟩
  | column named bare =>
    obtain ⟨ts, derived, spelled⟩ := exists_name_tokens named bare
    exact ⟨ts, .column derived, by simpa [Node.chars] using spelled⟩
  | embed named nonempty _ inner =>
    obtain ⟨ts, head, spelledHead⟩ := exists_head_tokens named
    obtain ⟨us, inside, spelledInside⟩ := exists_list_tokens nonempty inner
    refine ⟨_, .embed head (.parens inside), ?_⟩
    simp [Node.chars, Token.chars, spelledHead, spelledInside]

theorem derives_listChars_iff (nodes : List Node) :
    Derives (Node.listChars nodes) nodes ↔ Node.ListWellFormed nodes := by
  constructor
  · rintro ⟨ts, _, derived⟩
    exact derived.wellFormed
  · rintro ⟨nonempty, each⟩
    obtain ⟨ts, derived, spelled⟩ :=
      exists_list_tokens nonempty fun node member => (each node member).exists_tokens
    exact ⟨ts, spelled ▸ spells_flatMap_chars ts, derived⟩

/-- Canonical text is parsed back into its tree exactly if the tree is well-formed, no node is deeper
than the limit, and the text is not longer than the other limit. -/
theorem parse_listText_eq_ok_iff (limits : Limits) (nodes : List Node) :
    parse limits (Node.listText nodes) = .ok nodes ↔ Node.ListWellFormed nodes ∧
      (∀ node ∈ nodes, node.depth ≤ limits.maxDepth) ∧
      (Node.listText nodes).utf8ByteSize ≤ limits.maxLength := by
  have derives : Derives (Node.listText nodes).toList nodes ↔ Node.ListWellFormed nodes := by
    rw [Node.listText, String.toList_ofList]
    exact derives_listChars_iff nodes
  rw [parse_eq_ok_iff, derives, Node.maxDepth_le_iff]
  constructor
  · rintro ⟨short, wellFormed, nested⟩
    exact ⟨wellFormed, nested, short⟩
  · rintro ⟨wellFormed, nested, short⟩
    exact ⟨short, wellFormed, nested⟩

end SelectShape
