import SelectShape.Proofs.Selection.Canonical

/-!
# Canonical text is shortest

Whatever spells a tree and is not its canonical text wastes a byte: on a blank, or on a source that is
the same as the key and need not be written. Main statement: canonical text is the only shortest spelling
of a tree, so the limits that a query passes leave room for its canonical text.
-/
namespace SelectShape

/-- How many bytes a text takes. -/
def byteLength (text : List Char) : Nat := (String.ofList text).utf8ByteSize

/-- A text is the same as the other one, or takes more bytes. -/
def Condenses (text short : List Char) : Prop := text = short ∨ byteLength short < byteLength text

variable {text short further : List Char}

theorem byteLength_append (text further : List Char) :
    byteLength (text ++ further) = byteLength text + byteLength further := by
  rw [byteLength, String.ofList_append, String.utf8ByteSize_append]
  rfl

theorem Condenses.refl (text : List Char) : Condenses text text := .inl rfl

/-- Nothing takes no bytes, and is the only text that does. -/
theorem condenses_nil (text : List Char) : Condenses text [] := by
  by_cases empty : text = []
  · exact .inl empty
  · right
    have positive : 0 < byteLength text := by
      rw [Nat.pos_iff_ne_zero, byteLength, ne_eq, String.utf8ByteSize_eq_zero_iff]
      simpa using empty
    exact positive

theorem Condenses.le (condenses : Condenses text short) : byteLength short ≤ byteLength text := by
  rcases condenses with rfl | shorter
  · exact le_rfl
  · exact shorter.le

theorem Condenses.trans (first : Condenses text short) (second : Condenses short further) :
    Condenses text further := by
  rcases first with rfl | shorter
  · exact second
  · exact .inr (Nat.lt_of_le_of_lt second.le shorter)

theorem Condenses.append {other shortOther : List Char} (first : Condenses text short)
    (second : Condenses other shortOther) : Condenses (text ++ other) (short ++ shortOther) := by
  -- As soon as one part is shorter, the whole is.
  have bounds := And.intro first.le second.le
  simp only [Condenses, byteLength_append]
  rcases first with rfl | shorter
  · rcases second with rfl | shorter
    · exact .inl rfl
    · exact .inr (by omega)
  · exact .inr (by omega)

/-- Blanks are wasted. -/
theorem Spells.condenses {ts : List Token} (spells : Spells text ts) :
    Condenses text (ts.flatMap Token.chars) := by
  induction spells with
  | nil blanks => exact condenses_nil _
  | @cons lead text ts token blanks others ih =>
    rw [List.flatMap_cons]
    exact (condenses_nil lead).append ((Condenses.refl token.chars).append ih)

/-! ### Derived tokens -/

theorem Node.listChars_cons {nodes : List Node} (node : Node) (nonempty : nodes ≠ []) :
    Node.listChars (node :: nodes) = node.chars ++ ',' :: Node.listChars nodes := by
  cases nodes with
  | nil => exact absurd rfl nonempty
  | cons next rest => simp [Node.listChars, Node.tailChars]

theorem DerivesName.condenses {ts : List Token} {field : Field} (derived : DerivesName ts field) :
    Condenses (ts.flatMap Token.chars) field.chars := by
  cases derived with
  | @plain key name =>
    have same : [Token.word key].flatMap Token.chars = (Field.plain key).chars := by
      simp [Token.chars, Field.plain, Field.chars, Field.isRenamed]
    exact .inl same
  | @renamed key source name original =>
    have written : [Token.word key, .mark ':', .word source].flatMap Token.chars =
        key.toList ++ ':' :: source.toList := by
      simp [Token.chars]
    rw [written]
    by_cases same : key = source
    · -- The canonical text stops after the key.
      have kept : (Field.renamed key source).chars = key.toList ++ [] := by
        simp [Field.renamed, Field.chars, Field.isRenamed, same]
      rw [kept]
      exact (Condenses.refl _).append (condenses_nil _)
    · left
      simp [Field.renamed, Field.chars, Field.isRenamed, same]

theorem DerivesHead.condenses {ts : List Token} {field : Field} (derived : DerivesHead ts field) :
    Condenses (ts.flatMap Token.chars) field.chars := by
  cases derived with
  | bare name => exact name.condenses
  | hinted name original foreignKey =>
    left
    simp [Token.chars, Field.chars]

mutual

theorem DerivesNode.condenses : DerivesNode ts node →
    Condenses (ts.flatMap Token.chars) (Node.chars node)
  | .wildcard => .inl rfl
  | .column name => name.condenses
  | .embed head embedded => by
    rw [List.flatMap_append, Node.chars, List.append_assoc]
    exact head.condenses.append embedded.condenses

theorem DerivesEmbedded.condenses : DerivesEmbedded ts nodes →
    Condenses (ts.flatMap Token.chars) ('(' :: Node.listChars nodes ++ [')'])
  | .parens inside => by
    rw [List.flatMap_cons, List.flatMap_append]
    exact (Condenses.refl ['(']).append (inside.condenses.append (.refl [')']))

/-- The characters of derived tokens are the canonical text, or more. -/
theorem DerivesNodes.condenses : DerivesNodes ts nodes →
    Condenses (ts.flatMap Token.chars) (Node.listChars nodes)
  | .single only => by
    simpa [Node.listChars, Node.tailChars] using only.condenses
  | .cons first others => by
    rw [List.flatMap_append, List.flatMap_cons, Node.listChars_cons _ others.wellFormed.1]
    exact first.condenses.append ((Condenses.refl [',']).append others.condenses)

end

/-- A text that derives a tree is its canonical text or takes more bytes. -/
theorem Derives.condenses {nodes : List Node} (derives : Derives text nodes) :
    Condenses text (Node.listChars nodes) := by
  obtain ⟨ts, spells, derived⟩ := derives
  exact spells.condenses.trans derived.condenses

/-- Every tree that parsing returns is well-formed and within the limit on depth, and its canonical text is
shorter than the query or the query itself. So under the same limits that text is parsed back into the
tree. -/
theorem parse_ok_shortest {limits : Limits} {query : String} {nodes : List Node}
    (returned : parse limits query = .ok nodes) :
    Node.ListWellFormed nodes ∧ (∀ node ∈ nodes, node.depth ≤ limits.maxDepth) ∧
      (query = Node.listText nodes ∨ (Node.listText nodes).utf8ByteSize < query.utf8ByteSize) ∧
      parse limits (Node.listText nodes) = .ok nodes := by
  obtain ⟨short, derives, nested⟩ := (parse_eq_ok_iff limits query nodes).mp returned
  have wellFormed : Node.ListWellFormed nodes := by
    obtain ⟨ts, _, derived⟩ := derives
    exact derived.wellFormed
  have condenses := derives.condenses
  have bytes : byteLength query.toList = query.utf8ByteSize := by
    rw [byteLength, String.ofList_toList]
  have room : (Node.listText nodes).utf8ByteSize ≤ limits.maxLength :=
    Nat.le_trans (bytes ▸ condenses.le) short
  have again : parse limits (Node.listText nodes) = .ok nodes := by
    refine (parse_eq_ok_iff limits _ nodes).mpr ⟨room, ?_, nested⟩
    rw [Node.listText, String.toList_ofList]
    exact (derives_listChars_iff nodes).mpr wellFormed
  refine ⟨wellFormed, Node.maxDepth_le_iff.mp nested, ?_, again⟩
  rcases condenses with same | shorter
  · left
    rw [Node.listText, ← same, String.ofList_toList]
  · right
    rwa [bytes] at shorter

/-- Two renames and a blank are wasted; the rename before a hint is not. -/
theorem parse_ok_shortest_renamed :
    parse ⟨1, 15⟩ "a:a, b:b!h(c:c)" = .ok [.column (.plain "a"),
      .embed ⟨"b", "b", some "h"⟩ [.column (.plain "c")]] ∧
    Node.listText [.column (.plain "a"), .embed ⟨"b", "b", some "h"⟩ [.column (.plain "c")]] =
      "a,b:b!h(c)" ∧
    parse ⟨1, 15⟩ "a,b:b!h(c)" = .ok [.column (.plain "a"),
      .embed ⟨"b", "b", some "h"⟩ [.column (.plain "c")]] := by
  have returned : parse ⟨1, 15⟩ "a:a, b:b!h(c:c)" = .ok [.column (.plain "a"),
      .embed ⟨"b", "b", some "h"⟩ [.column (.plain "c")]] := rfl
  exact ⟨returned, rfl, (parse_ok_shortest returned).2.2.2⟩

end SelectShape
