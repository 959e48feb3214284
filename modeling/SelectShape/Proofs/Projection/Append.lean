import SelectShape.Proofs.Projection.Chains

/-!
# Projecting lists one after the other

Main statement: the projection of two lists, one after the other, is that of the first and that of the
second merged, in this order also where they fail. Hence a related resource that is selected twice in
succession may as well be selected once, with both select lists one after the other.
-/
namespace SelectShape

/-- A related resource that stands twice in succession is selected once, with both select lists. -/
inductive Node.Join : List Node → List Node → Prop
  | embed (before after : List Node) (field : Field) (children others : List Node) :
      Join (before ++ .embed field children :: .embed field others :: after)
        (before ++ .embed field (children ++ others) :: after)

namespace Projection

variable {directory : Directory} {maxDepth depth : Nat} {table : String} {columns : Table}
  {nodes others children : List Node}

/-- The shape of a list that stands `depth` related resources deep. -/
def listShape (directory : Directory) (maxDepth : Nat) (table : String) (columns : Table) (depth : Nat)
    (nodes : List Node) : Except ProjectionError Shape := do
  let entries ← listEntries directory maxDepth table columns depth nodes
  return Shape.ofPairs entries

theorem listEntries_append :
    listEntries directory maxDepth table columns depth (nodes ++ others) = (do
      let first ← listEntries directory maxDepth table columns depth nodes
      let second ← listEntries directory maxDepth table columns depth others
      return first ++ second) := by
  induction nodes with
  | nil =>
    rw [List.nil_append, listEntries]
    cases listEntries directory maxDepth table columns depth others <;> rfl
  | cons node rest ih =>
    rw [List.cons_append, listEntries, listEntries, ih]
    cases nodeEntries directory maxDepth table columns depth node with
    | error error => rfl
    | ok own =>
      cases listEntries directory maxDepth table columns depth rest with
      | error error => rfl
      | ok first =>
        cases listEntries directory maxDepth table columns depth others with
        | error error => rfl
        | ok second => exact congrArg Except.ok (List.append_assoc own first second).symm

theorem listShape_append (known : directory.table? table = some columns) :
    listShape directory maxDepth table columns depth (nodes ++ others) = (do
      let shape ← listShape directory maxDepth table columns depth nodes
      let other ← listShape directory maxDepth table columns depth others
      return shape.merge other) := by
  rw [listShape, listShape, listShape, listEntries_append]
  cases first : listEntries directory maxDepth table columns depth nodes with
  | error error => rfl
  | ok entries =>
    cases second : listEntries directory maxDepth table columns depth others with
    | error error => rfl
    | ok added =>
      exact congrArg Except.ok (Shape.ofPairs_append (listEntries_matches known first).1
        (listEntries_matches known second).1)

theorem listShape_embed (field : Field) :
    listShape directory maxDepth table columns depth [.embed field children] =
      if maxDepth ≤ depth then .error (.nestingTooDeep maxDepth)
      else do
        let related ← tableOf directory field.source
        let shape ← listShape directory maxDepth field.source related (depth + 1) children
        return [(field.key, .relation (cardinalityOf directory table field) shape)] := by
  rw [listShape, listEntries, listEntries, nodeEntries]
  split
  next => rfl
  next =>
    cases tableOf directory field.source with
    | error error => rfl
    | ok related =>
      simp only [listShape, bind, Except.bind]
      cases listEntries directory maxDepth field.source related (depth + 1) children <;> rfl

theorem project_eq_listShape : project directory maxDepth table nodes = (do
    let columns ← tableOf directory table
    listShape directory maxDepth table columns 0 nodes) := rfl

/-- Two lists have the same shape, or fail alike, wherever they stand. -/
def SameShape (directory : Directory) (maxDepth : Nat) (nodes others : List Node) : Prop :=
  ∀ table columns depth, directory.table? table = some columns →
    listShape directory maxDepth table columns depth nodes =
      listShape directory maxDepth table columns depth others

theorem SameShape.around (same : SameShape directory maxDepth nodes others) (before after : List Node) :
    SameShape directory maxDepth (before ++ (nodes ++ after)) (before ++ (others ++ after)) := by
  intro table columns depth known
  rw [listShape_append known, listShape_append known, listShape_append known, listShape_append known,
    same table columns depth known]

theorem SameShape.embed (same : SameShape directory maxDepth children others) (field : Field) :
    SameShape directory maxDepth [.embed field children] [.embed field others] := by
  intro table columns depth _
  rw [listShape_embed, listShape_embed]
  split
  next => rfl
  next =>
    cases found : tableOf directory field.source with
    | error error => rfl
    | ok related =>
      simp only [bind, Except.bind]
      rw [same field.source related (depth + 1) (tableOf_eq_ok_iff.mp found)]

/-- A change that does not show at its own level does not show at all. -/
theorem sameShape_of_atSomeLevel {change : List Node → List Node → Prop}
    (hidden : ∀ nodes others, change nodes others → SameShape directory maxDepth nodes others)
    (changed : Node.AtSomeLevel change nodes others) : SameShape directory maxDepth nodes others := by
  induction changed with
  | here change => exact hidden _ _ change
  | inside before after field _ ih => exact (ih.embed field).around before after

theorem SameShape.project_eq (same : SameShape directory maxDepth nodes others) (table : String) :
    project directory maxDepth table nodes = project directory maxDepth table others := by
  rw [project_eq_listShape, project_eq_listShape]
  cases found : tableOf directory table with
  | error error => rfl
  | ok columns => exact same table columns 0 (tableOf_eq_ok_iff.mp found)

theorem sameShape_embed_append (field : Field) (children others : List Node) :
    SameShape directory maxDepth [.embed field children, .embed field others]
      [.embed field (children ++ others)] := by
  intro table columns depth known
  have split : [Node.embed field children, .embed field others] =
    [.embed field children] ++ [.embed field others] := rfl
  rw [split, listShape_append known, listShape_embed, listShape_embed, listShape_embed]
  by_cases deep : maxDepth ≤ depth
  · simp only [if_pos deep]
    rfl
  · simp only [if_neg deep]
    cases found : tableOf directory field.source with
    | error error => rfl
    | ok related =>
      simp only [bind, Except.bind]
      rw [listShape_append (tableOf_eq_ok_iff.mp found)]
      cases listShape directory maxDepth field.source related (depth + 1) children with
      | error error => rfl
      | ok shape =>
        cases listShape directory maxDepth field.source related (depth + 1) others with
        | error error => rfl
        | ok other =>
          -- One key and one cardinality, so merging goes on inside.
          have merged := FieldShape.merge_relation (cardinalityOf directory table field)
            (cardinalityOf directory table field) shape other
          rw [Cardinality.merge_self] at merged
          simp [bind, Except.bind, pure, Except.pure, Shape.merge, Entries.put, merged]

theorem sameShape_of_join (joined : Node.Join nodes others) :
    SameShape directory maxDepth nodes others := by
  cases joined with
  | embed before after field children others =>
    exact (sameShape_embed_append field children others).around before after

/-- Projecting is a homomorphism from lists, one after the other, to shapes, merged: the first error of
the two decides, and else the shapes come to the shape of both. Selecting a related resource twice in
succession, at any level, is the same as selecting it once with both select lists. -/
theorem project_append :
    (∀ (directory : Directory) (maxDepth : Nat) (table : String) (nodes others : List Node),
      project directory maxDepth table (nodes ++ others) = (do
        let shape ← project directory maxDepth table nodes
        let other ← project directory maxDepth table others
        return shape.merge other)) ∧
    ∀ (directory : Directory) (maxDepth : Nat) (table : String) (nodes others : List Node),
      Node.AtSomeLevel Node.Join nodes others →
        project directory maxDepth table nodes = project directory maxDepth table others := by
  constructor
  · intro directory maxDepth table nodes others
    rw [project_eq_listShape, project_eq_listShape, project_eq_listShape]
    cases found : tableOf directory table with
    | error error => rfl
    | ok columns => exact listShape_append (tableOf_eq_ok_iff.mp found)
  · intro directory maxDepth table nodes others joined
    exact (sameShape_of_atSomeLevel (fun _ _ => sameShape_of_join) joined).project_eq table

/-- A resource within a resource is selected twice under one key, next to a column of another key. -/
theorem project_append_nested :
    Node.AtSomeLevel Node.Join
      [.embed ⟨"x", "u", none⟩ [.embed (.plain "t") [.column (.plain "a")],
        .embed (.plain "t") [.column (.plain "b")], .column (.plain "id")]]
      [.embed ⟨"x", "u", none⟩ [.embed (.plain "t") [.column (.plain "a"), .column (.plain "b")],
        .column (.plain "id")]] ∧
    project (.ofTables [("t", [("a", "text"), ("b", "date")]), ("u", [("id", "int")])]) 2 "t"
      [.embed ⟨"x", "u", none⟩ [.embed (.plain "t") [.column (.plain "a")],
        .embed (.plain "t") [.column (.plain "b")], .column (.plain "id")]] =
      .ok [("x", .relation .oneOrMany [
        ("t", .relation .oneOrMany [("a", .scalar "text"), ("b", .scalar "date")]),
        ("id", .scalar "int")])] := by
  have joined : Node.AtSomeLevel Node.Join
      [.embed ⟨"x", "u", none⟩ [.embed (.plain "t") [.column (.plain "a")],
        .embed (.plain "t") [.column (.plain "b")], .column (.plain "id")]]
      [.embed ⟨"x", "u", none⟩ [.embed (.plain "t") [.column (.plain "a"), .column (.plain "b")],
        .column (.plain "id")]] :=
    .inside [] [] ⟨"x", "u", none⟩ (.here (.embed [] [.column (.plain "id")] (.plain "t")
      [.column (.plain "a")] [.column (.plain "b")]))
  refine ⟨joined, (project_append.2 _ 2 "t" _ _ joined).trans ?_⟩
  rfl

end Projection

end SelectShape
