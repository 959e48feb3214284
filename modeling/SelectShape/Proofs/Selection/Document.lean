import SelectShape.Proofs.Json.Layout
import SelectShape.Selection.Document

/-!
# Select lists in documents

A node is written with those of its parts that are present, and the parts that are left out are read as
absent. Main statement: a select list is read back, from whatever layout of what is written of it, as it
was and with any texts in it, if it does not nest too deep for a document.
-/
namespace SelectShape.Node

variable {nodes : List Node} {key source : String} {hint : Option String}
  {fields : List (String × Json)}

/-- What is written of a field and of the children that it has, if any. -/
def partsJson (field : Field) (children : Option Json) : List (String × Json) :=
  headJson field ++ (children.map ("children", ·)).toList

theorem toJson_column (field : Field) : toJson (.column field) = .object (partsJson field none) := by
  rw [toJson, partsJson, Option.map_none, Option.toList_none, List.append_nil]

theorem toJson_embed (field : Field) (children : List Node) :
    toJson (.embed field children) =
      .object (partsJson field (some (.array (itemsToJson children)))) := by
  rw [toJson, partsJson, Option.map_some, Option.toList_some]

/-! ## Reading what was written -/

/-- The node that an object describes, of which the parts other than the children are given. -/
theorem ofJson?_of_parts (nested : Bool) (kindOnce : Json.namesOnce ["kind"] fields)
    (eachOnce : Json.namesOnce fieldNames fields) (kind : fields.lookup "kind" = some (.string "field"))
    (keyed : fields.lookup "name" = some (.string key))
    (sourced : fields.lookup "source_column" = some (.string source))
    (hinted : Json.optional? Json.string? (fields.lookup "hint") = some hint) :
    ofJson? nested (.object fields) = (childrenOf? fields).map (assemble key source hint) := by
  have named : Kind.ofJson? nested (.string "field") = some .field := rfl
  rw [ofJson?, if_pos kindOnce, kind, keyed, sourced, hinted]
  simp only [bind, Option.bind, named, if_pos eachOnce, Json.string?]
  cases childrenOf? fields <;> rfl

theorem ofJson?_partsJson (nested : Bool) (field : Field) (children : Option Json) :
    ofJson? nested (.object (partsJson field children)) =
      (childrenOf? (partsJson field children)).map (assemble field.key field.source field.hint) := by
  obtain ⟨key, source, hint⟩ := field
  cases hint <;> cases children <;> exact ofJson?_of_parts nested rfl rfl rfl rfl rfl rfl

theorem childrenOf?_partsJson_none (field : Field) :
    childrenOf? (partsJson field none) = some none := by
  obtain ⟨key, source, hint⟩ := field
  cases hint <;> rfl

theorem childrenOf?_partsJson_array (field : Field) (items : List Json) :
    childrenOf? (partsJson field (some (.array items))) = (itemsOfJson? true items).map some := by
  obtain ⟨key, source, hint⟩ := field
  cases hint <;> rfl

mutual

theorem ofJson?_toJson (nested : Bool) : (node : Node) → ofJson? nested node.toJson = some node
  | .wildcard => rfl
  | .column field => by
    rw [toJson_column, ofJson?_partsJson, childrenOf?_partsJson_none]
    rfl
  | .embed field children => by
    rw [toJson_embed, ofJson?_partsJson, childrenOf?_partsJson_array,
      itemsOfJson?_itemsToJson true children]
    rfl

theorem itemsOfJson?_itemsToJson (nested : Bool) : (nodes : List Node) →
    itemsOfJson? nested (itemsToJson nodes) = some nodes
  | [] => rfl
  | node :: rest => by
    simp [itemsToJson, itemsOfJson?, ofJson?_toJson nested node, itemsOfJson?_itemsToJson nested rest]

end

/-! ## Texts -/

theorem textual_partsJson (field : Field) {children : Option Json}
    (each : ∀ json ∈ children, json.Textual) :
    ∀ part ∈ partsJson field children, part.2.Textual := by
  intro part member
  rcases List.mem_append.mp member with head | child
  · rcases List.mem_append.mp head with fixed | hinted
    · simp only [List.mem_cons, List.not_mem_nil, or_false] at fixed
      rcases fixed with rfl | rfl | rfl <;> exact .string _
    · obtain ⟨hint, _, rfl⟩ := Option.map_eq_some_iff.mp (Option.mem_toList.mp hinted)
      exact .string hint
  · obtain ⟨json, present, rfl⟩ := Option.map_eq_some_iff.mp (Option.mem_toList.mp child)
    exact each json present

mutual

theorem textual_toJson : (node : Node) → node.toJson.Textual
  | .wildcard => .object (List.forall_mem_singleton.mpr (.string _))
  | .column field => by
    rw [toJson_column]
    apply Json.Textual.object
    apply textual_partsJson
    intro json absent
    cases absent
  | .embed field children => by
    rw [toJson_embed]
    apply Json.Textual.object
    apply textual_partsJson
    intro json present
    cases present
    exact .array (textual_itemsToJson children)

theorem textual_itemsToJson : (nodes : List Node) → ∀ item ∈ itemsToJson nodes, item.Textual
  | [] => List.forall_mem_nil _
  | node :: rest => by
    rw [itemsToJson, List.forall_mem_cons]
    exact ⟨textual_toJson node, textual_itemsToJson rest⟩

end

theorem textual_listToJson (nodes : List Node) : (listToJson nodes).Textual :=
  .array (textual_itemsToJson nodes)

/-! ## Heights -/

theorem fieldsHeight_partsJson (field : Field) (children : Option Json) :
    Json.fieldsHeight (partsJson field children) = (children.map Json.height).getD 0 := by
  obtain ⟨key, source, hint⟩ := field
  cases hint <;> cases children <;> simp [partsJson, headJson, Json.fieldsHeight, Json.height]

-- Each level of resources is an object, and an array within it.
mutual

theorem height_toJson_le : (node : Node) → node.toJson.height ≤ 2 * node.depth + 1
  | .wildcard => Nat.le_refl 1
  | .column field => by
    rw [toJson_column, Json.height, fieldsHeight_partsJson]
    exact Nat.le_refl 1
  | .embed field children => by
    have inside := itemsHeight_itemsToJson_le children
    rw [toJson_embed, Json.height, fieldsHeight_partsJson, Option.map_some, Option.getD_some,
      Json.height, depth]
    omega

theorem itemsHeight_itemsToJson_le : (nodes : List Node) →
    Json.itemsHeight (itemsToJson nodes) ≤ 2 * maxDepth nodes + 1
  | [] => Nat.zero_le _
  | node :: rest => by
    have first := height_toJson_le node
    have others := itemsHeight_itemsToJson_le rest
    rw [itemsToJson, Json.itemsHeight, maxDepth]
    omega

end

theorem height_listToJson_le (nodes : List Node) : (listToJson nodes).height ≤ 2 * maxDepth nodes + 2 :=
  Nat.succ_le_succ (itemsHeight_itemsToJson_le nodes)

/-! ## Documents -/

/-- A list of sixty-two levels at most is read back from any text that spells what is written of it. -/
theorem listOfDocument?_of_spells {text : List Char} (spells : Json.SpellsPart text (listToJson nodes))
    (shallow : maxDepth nodes ≤ 62) : listOfDocument? (.ofList text) = some nodes := by
  have low : (listToJson nodes).height ≤ Json.heightLimit := by
    have height := height_listToJson_le nodes
    have limit : Json.heightLimit = 127 := rfl
    omega
  have sound := (textual_listToJson nodes).isSound low
  have read : listOfJson? (listToJson nodes) = some nodes := itemsOfJson?_itemsToJson false nodes
  simp [listOfDocument?, Json.parse_of_spells spells, sound, read]

end SelectShape.Node
