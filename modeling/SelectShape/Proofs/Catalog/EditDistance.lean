import Mathlib.Order.Bounds.Defs
import SelectShape.Catalog.Suggestion

/-!
# The least number of edits

An edit inserts, deletes or replaces one character anywhere in a text. Main statement: the distance that
is computed row by row is the least number of edits, one after another, that turn one text into the
other. It is attained, since every entry of a row is put down to an edit at the front, and no edits come
to less, since a single one changes the distance to any text by one at most.
-/
namespace SelectShape.EditDistance

/-- One character is inserted, deleted or replaced. -/
inductive Edit : List Char → List Char → Prop
  | insert (front : List Char) (c : Char) (rest : List Char) : Edit (front ++ rest) (front ++ c :: rest)
  | delete (front : List Char) (c : Char) (rest : List Char) : Edit (front ++ c :: rest) (front ++ rest)
  | replace (front : List Char) (c d : Char) (rest : List Char) :
      Edit (front ++ c :: rest) (front ++ d :: rest)

/-- So many edits, one after another, turn a text into another one. -/
inductive Edits : Nat → List Char → List Char → Prop
  | none : Edits 0 text text
  | cons (first : Edit text between) (others : Edits count between target) :
      Edits (count + 1) text target

/-- The distance that stands first in a row. -/
def distance (text target : List Char) : Nat := (row target text).headD 0

variable {text other target : List Char} {c b : Char} {count others : Nat}

/-! ### Rows -/

/-- The row of a target holds the distance to it, before the row of the target without its first
character. -/
theorem row_cons (b : Char) (target text : List Char) :
    row (b :: target) text = distance text (b :: target) :: row target text := by
  induction text with
  | nil => rfl
  | cons c text ih =>
    rw [distance, row, ih]
    rfl

@[simp]
theorem distance_nil (target : List Char) : distance [] target = target.length := by
  cases target <;> rfl

theorem distance_cons_nil (c : Char) (text : List Char) :
    distance (c :: text) [] = distance text [] + 1 := by
  rw [distance, row, consRow, distance]
  rfl

@[simp]
theorem distance_to_nil (text : List Char) : distance text [] = text.length := by
  induction text with
  | nil => rfl
  | cons c text ih => rw [distance_cons_nil, ih, List.length_cons]

/-- The first characters are matched with each other, or one of them is deleted or inserted. -/
theorem distance_cons_cons (c b : Char) (text target : List Char) :
    distance (c :: text) (b :: target) =
      min (distance text target + if c = b then 0 else 1)
        (min (distance text (b :: target) + 1) (distance (c :: text) target + 1)) := by
  rw [distance, row, row_cons]
  rfl

/-! ### Edits that attain the distance -/

theorem Edit.cons (c : Char) (edit : Edit text other) : Edit (c :: text) (c :: other) := by
  cases edit with
  | insert front d rest => exact .insert (c :: front) d rest
  | delete front d rest => exact .delete (c :: front) d rest
  | replace front d e rest => exact .replace (c :: front) d e rest

theorem Edits.behind (c : Char) (edits : Edits count text target) :
    Edits count (c :: text) (c :: target) := by
  induction edits with
  | none => exact .none
  | cons first _ ih => exact .cons (first.cons c) ih

theorem Edits.min (edits : Edits count text target) (again : Edits others text target) :
    Edits (min count others) text target := by
  rcases Nat.le_total count others with less | less
  · rwa [Nat.min_eq_left less]
  · rwa [Nat.min_eq_right less]

theorem edits_nil (target : List Char) : Edits target.length [] target := by
  induction target with
  | nil => exact .none
  | cons b target ih => exact .cons (.insert [] b []) (ih.behind b)

theorem edits_to_nil (text : List Char) : Edits text.length text [] := by
  induction text with
  | nil => exact .none
  | cons c text ih => exact .cons (.delete [] c text) ih

theorem edits_matched (edits : Edits count text target) (c b : Char) :
    Edits (count + if c = b then 0 else 1) (c :: text) (b :: target) := by
  split
  next same =>
    subst same
    exact edits.behind c
  next => exact .cons (.replace [] c b text) (edits.behind b)

theorem edits_distance (text target : List Char) : Edits (distance text target) text target := by
  induction text generalizing target with
  | nil =>
    rw [distance_nil]
    exact edits_nil target
  | cons c text ih =>
    induction target with
    | nil =>
      rw [distance_to_nil]
      exact edits_to_nil (c :: text)
    | cons b target ihTarget =>
      have matched := edits_matched (ih target) c b
      have deleted : Edits (distance text (b :: target) + 1) (c :: text) (b :: target) :=
        .cons (.delete [] c text) (ih (b :: target))
      have inserted : Edits (distance (c :: text) target + 1) (c :: text) (b :: target) :=
        .cons (.insert [] b (c :: text)) (ihTarget.behind b)
      rw [distance_cons_cons]
      exact matched.min (deleted.min inserted)

/-! ### No edits come to less -/

theorem distance_self (text : List Char) : distance text text = 0 := by
  induction text with
  | nil => rfl
  | cons c text ih => simp [distance_cons_cons, ih]

theorem distance_cons_left_le (c : Char) (text target : List Char) :
    distance (c :: text) target ≤ distance text target + 1 := by
  cases target with
  | nil => simp
  | cons b target =>
    rw [distance_cons_cons]
    omega

theorem distance_cons_right_le (b : Char) (text target : List Char) :
    distance text (b :: target) ≤ distance text target + 1 := by
  cases text with
  | nil => simp
  | cons c text =>
    rw [distance_cons_cons]
    omega

theorem distance_le_cons_left (c : Char) (text target : List Char) :
    distance text target ≤ distance (c :: text) target + 1 := by
  induction target with
  | nil => simp; omega
  | cons b target ih =>
    have longer := distance_cons_right_le b text target
    rw [distance_cons_cons]
    split <;> omega

theorem distance_replace_le (c d : Char) (text target : List Char) :
    distance (c :: text) target ≤ distance (d :: text) target + 1 := by
  induction target with
  | nil => simp
  | cons b target ih =>
    rw [distance_cons_cons, distance_cons_cons]
    split <;> split <;> omega

/-- Texts whose distances differ by one at most do so with a character in front of both. -/
theorem distance_cons_le_of_forall (near : ∀ target, distance text target ≤ distance other target + 1)
    (c : Char) (target : List Char) :
    distance (c :: text) target ≤ distance (c :: other) target + 1 := by
  induction target with
  | nil =>
    rw [distance_cons_nil, distance_cons_nil]
    exact Nat.succ_le_succ (near [])
  | cons b target ih =>
    have matched := near target
    have deleted := near (b :: target)
    rw [distance_cons_cons, distance_cons_cons]
    omega

theorem distance_append_le_of_forall (near : ∀ target, distance text target ≤ distance other target + 1)
    (lead target : List Char) :
    distance (lead ++ text) target ≤ distance (lead ++ other) target + 1 := by
  induction lead generalizing target with
  | nil => exact near target
  | cons c lead ih => exact distance_cons_le_of_forall ih c target

/-- An edit brings a text nearer to any other by one at most. -/
theorem Edit.distance_le (edit : Edit text other) (target : List Char) :
    distance text target ≤ distance other target + 1 := by
  cases edit with
  | insert front c rest => exact distance_append_le_of_forall (distance_le_cons_left c rest) front target
  | delete front c rest => exact distance_append_le_of_forall (distance_cons_left_le c rest) front target
  | replace front c d rest =>
    exact distance_append_le_of_forall (distance_replace_le c d rest) front target

theorem Edits.distance_le (edits : Edits count text target) : distance text target ≤ count := by
  induction edits with
  | none => exact Nat.le_of_eq (distance_self _)
  | @cons text between count target first others ih =>
    have near := first.distance_le target
    omega

/-- The distance of two names is the least number of edits that turn one into the other. -/
theorem isLeast_editDistance (name other : String) :
    IsLeast {count | Edits count name.toList other.toList} (editDistance name other) :=
  ⟨edits_distance name.toList other.toList, fun _ edits => edits.distance_le⟩

end SelectShape.EditDistance
