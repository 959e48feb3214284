import SelectShape.Selection.Basic
import SelectShape.Proofs.Selection.Token

/-!
# The grammar of select lists

```text
nodes    := node ( ',' node )*
node     := '*'
          | ident embedded?
          | ident ':' ident embedded?
          | ident ':' ident '!' ident embedded
embedded := '(' nodes ')'
ident    := one or more of [0-9A-Za-z_]
```

Derivations are over tokens, and a text derives a select list if it spells tokens that do. Main
statements: what is derived is well-formed, and a text derives a select list exactly if the tokens that
scanning finds in it do.
-/
namespace SelectShape

/-- `ident | ident ':' ident`. A single identifier names the key and the source. -/
inductive DerivesName : List Token → Field → Prop
  | plain (name : IsName key) : DerivesName [.word key] (.plain key)
  | renamed (name : IsName key) (original : IsName source) :
      DerivesName [.word key, .mark ':', .word source] (.renamed key source)

/-- What may stand before a select list in parentheses: `ident | ident ':' ident`, the latter also with
`'!' ident`. -/
inductive DerivesHead : List Token → Field → Prop
  | bare (name : DerivesName ts field) : DerivesHead ts field
  | hinted (name : IsName key) (original : IsName source) (foreignKey : IsName hint) :
      DerivesHead [.word key, .mark ':', .word source, .mark '!', .word hint]
        ⟨key, source, some hint⟩

mutual

/-- Tokens derive a node: `'*' | ident embedded? | ident ':' ident embedded? |
ident ':' ident '!' ident embedded`. -/
inductive DerivesNode : List Token → Node → Prop
  | wildcard : DerivesNode [.mark '*'] .wildcard
  | column (name : DerivesName ts field) : DerivesNode ts (.column field)
  | embed (head : DerivesHead ts field) (embedded : DerivesEmbedded us children) :
      DerivesNode (ts ++ us) (.embed field children)

/-- Tokens derive the select list of a related resource: `'(' nodes ')'`. -/
inductive DerivesEmbedded : List Token → List Node → Prop
  | parens (inside : DerivesNodes ts nodes) :
      DerivesEmbedded (.mark '(' :: (ts ++ [.mark ')'])) nodes

/-- Tokens derive a select list: `node ( ',' node )*`. -/
inductive DerivesNodes : List Token → List Node → Prop
  | single (only : DerivesNode ts node) : DerivesNodes ts [node]
  | cons (first : DerivesNode ts node) (others : DerivesNodes us nodes) :
      DerivesNodes (ts ++ .mark ',' :: us) (node :: nodes)

end

/-- A text derives a select list, with arbitrary runs of blanks before, between and after tokens. -/
def Derives (text : List Char) (nodes : List Node) : Prop :=
  ∃ ts, Spells text ts ∧ DerivesNodes ts nodes

/-! ### Well-formed trees -/

/-- Every name of the field is one or more of `[0-9A-Za-z_]`. -/
def Field.Named (field : Field) : Prop :=
  IsName field.key ∧ IsName field.source ∧ ∀ hint ∈ field.hint, IsName hint

/-- Names are one or more of `[0-9A-Za-z_]`, a hint comes with children only, and a related resource
selects something. -/
inductive Node.WellFormed : Node → Prop
  | wildcard : WellFormed .wildcard
  | column (named : field.Named) (bare : field.hint = none) : WellFormed (.column field)
  | embed (named : field.Named) (nonempty : children ≠ [])
      (inner : ∀ child ∈ children, child.WellFormed) : WellFormed (.embed field children)

/-- A select list is well-formed if it is not empty and all of its nodes are well-formed. -/
def Node.ListWellFormed (nodes : List Node) : Prop :=
  nodes ≠ [] ∧ ∀ node ∈ nodes, node.WellFormed

theorem DerivesName.named (derived : DerivesName ts field) : field.Named ∧ field.hint = none := by
  cases derived with
  | plain name => exact ⟨⟨name, name, by simp [Field.plain]⟩, rfl⟩
  | renamed name original => exact ⟨⟨name, original, by simp [Field.renamed]⟩, rfl⟩

theorem DerivesHead.named (derived : DerivesHead ts field) : field.Named := by
  cases derived with
  | bare name => exact name.named.1
  | hinted name original foreignKey => exact ⟨name, original, by simpa using foreignKey⟩

mutual

theorem DerivesNode.wellFormed : DerivesNode ts node → node.WellFormed
  | .wildcard => .wildcard
  | .column name => .column name.named.1 name.named.2
  | .embed head embedded => .embed head.named embedded.wellFormed.1 embedded.wellFormed.2

theorem DerivesEmbedded.wellFormed : DerivesEmbedded ts nodes → Node.ListWellFormed nodes
  | .parens inside => inside.wellFormed

/-- The grammar derives well-formed lists only. -/
theorem DerivesNodes.wellFormed : DerivesNodes ts nodes → Node.ListWellFormed nodes
  | .single only => ⟨by simp, by simpa using only.wellFormed⟩
  | .cons first others =>
    ⟨by simp, List.forall_mem_cons.mpr ⟨first.wellFormed, others.wellFormed.2⟩⟩

end

/-! ### Derivations in scanned texts -/

theorem Separated.append_mark (left : Separated ts) (right : Separated us) (symbol : Char) :
    Separated (ts ++ .mark symbol :: us) := by
  refine List.isChain_append.mpr ⟨left, List.isChain_cons.mpr ⟨?_, right⟩, ?_⟩
  · intro token _
    exact .inl rfl
  · -- Whatever comes before, the neighbour on the right is the mark.
    intro before _ after first
    have same : after = .mark symbol := by simpa using first.symm
    exact .inr (by rw [same]; rfl)

theorem separated_word (name : String) : Separated [.word name] := List.isChain_singleton _

theorem Separated.last_mark (left : Separated ts) (symbol : Char) :
    Separated (ts ++ [.mark symbol]) := left.append_mark List.isChain_nil symbol

theorem DerivesName.separated (derived : DerivesName ts field) :
    (∀ token ∈ ts, token.Valid) ∧ Separated ts := by
  cases derived with
  | plain name => exact ⟨List.forall_mem_singleton.mpr name, separated_word _⟩
  | renamed name original =>
    refine ⟨?_, (separated_word _).append_mark (separated_word _) ':'⟩
    simp only [List.forall_mem_cons]
    exact ⟨name, ⟨by decide, by decide⟩, original, by simp⟩

theorem DerivesHead.separated (derived : DerivesHead ts field) :
    (∀ token ∈ ts, token.Valid) ∧ Separated ts := by
  cases derived with
  | bare name => exact name.separated
  | @hinted key source hint name original foreignKey =>
    obtain ⟨valid, separated⟩ := (DerivesName.renamed name original).separated
    refine ⟨?_, separated.append_mark (separated_word hint) '!'⟩
    simp only [List.forall_mem_cons] at valid ⊢
    exact ⟨valid.1, valid.2.1, valid.2.2.1, ⟨by decide, by decide⟩, foreignKey, by simp⟩

mutual

theorem DerivesNode.separated : DerivesNode ts node → (∀ token ∈ ts, token.Valid) ∧ Separated ts
  | .wildcard => ⟨by simp only [List.forall_mem_singleton]; exact ⟨by decide, by decide⟩,
      List.isChain_singleton _⟩
  | .column name => name.separated
  | .embed head embedded => by
    -- The opening parenthesis keeps the last word of the head apart from the list inside.
    obtain ⟨headValid, headSeparated⟩ := head.separated
    obtain ⟨us, rfl, embeddedValid, embeddedSeparated⟩ := embedded.separated
    refine ⟨?_, headSeparated.append_mark embeddedSeparated '('⟩
    simp only [List.forall_mem_append, List.forall_mem_cons]
    exact ⟨headValid, ⟨by decide, by decide⟩, embeddedValid⟩

theorem DerivesEmbedded.separated : DerivesEmbedded ts nodes →
    ∃ us, ts = .mark '(' :: us ∧ (∀ token ∈ us, token.Valid) ∧ Separated us
  | .parens inside => by
    obtain ⟨insideValid, insideSeparated⟩ := inside.separated
    refine ⟨_, rfl, ?_, insideSeparated.last_mark ')'⟩
    simp only [List.forall_mem_append, List.forall_mem_singleton]
    exact ⟨insideValid, by decide, by decide⟩

/-- Derived tokens are valid, and marks stand between their words. -/
theorem DerivesNodes.separated :
    DerivesNodes ts nodes → (∀ token ∈ ts, token.Valid) ∧ Separated ts
  | .single only => only.separated
  | .cons first others => by
    obtain ⟨firstValid, firstSeparated⟩ := first.separated
    obtain ⟨othersValid, othersSeparated⟩ := others.separated
    refine ⟨?_, firstSeparated.append_mark othersSeparated ','⟩
    simp only [List.forall_mem_append, List.forall_mem_cons]
    exact ⟨firstValid, ⟨by decide, by decide⟩, othersValid⟩

end

/-- A text derives a select list if the tokens found by scanning do. -/
theorem derives_iff (text : List Char) (nodes : List Node) :
    Derives text nodes ↔ DerivesNodes (tokens text) nodes := by
  constructor
  · rintro ⟨ts, spells, derived⟩
    rw [spells.tokens_eq derived.separated.1 derived.separated.2]
    exact derived
  · intro derived
    exact ⟨tokens text, spells_tokens text, derived⟩

end SelectShape
