import Mathlib.Data.List.Induction
import Mathlib.Data.Option.Defs
import SelectShape.Catalog.Suggestion

/-!
# The closest name

Going through the candidates keeps the first of the closest ones so far that are within tolerance. How
far away the suggestion is, if there is one, therefore depends on which candidates there are, and not on
their order.
-/
namespace SelectShape.Suggestion

/-- A candidate within tolerance is closer than all before it, and as close as any after it. -/
inductive Closest (name : String) : List String → String → Prop
  | intro (before after : List String) (within : editDistance name found ≤ tolerance name)
      (first : ∀ other ∈ before, editDistance name found < editDistance name other)
      (least : ∀ other ∈ after, editDistance name found ≤ editDistance name other) :
      Closest name (before ++ found :: after) found

/-- What is kept after some candidates. -/
inductive Best (name : String) (candidates : List String) : Option (Nat × String) → Prop
  | nothing (far : ∀ other ∈ candidates, tolerance name < editDistance name other) :
      Best name candidates none
  | kept (closest : Closest name candidates found) :
      Best name candidates (some (editDistance name found, found))

variable {name found next : String} {candidates others : List String} {best : Option (Nat × String)}

theorem Closest.mem (closest : Closest name candidates found) : found ∈ candidates := by
  cases closest with
  | intro before after => simp

theorem Closest.within (closest : Closest name candidates found) :
    editDistance name found ≤ tolerance name := by
  cases closest with
  | intro before after within => exact within

theorem Closest.le (closest : Closest name candidates found) :
    ∀ other ∈ candidates, editDistance name found ≤ editDistance name other := by
  cases closest with
  | intro before after _ first least =>
    intro other member
    rcases List.mem_append.mp member with early | late
    · exact Nat.le_of_lt (first other early)
    · rcases List.mem_cons.mp late with rfl | later
      · exact Nat.le_refl _
      · exact least other later

/-- A further candidate that is closer than all takes over. -/
theorem closest_append_singleton (within : editDistance name next ≤ tolerance name)
    (first : ∀ other ∈ candidates, editDistance name next < editDistance name other) :
    Closest name (candidates ++ [next]) next :=
  .intro candidates [] within first (List.forall_mem_nil _)

theorem Closest.append_singleton (closest : Closest name candidates found)
    (behind : editDistance name found ≤ editDistance name next) :
    Closest name (candidates ++ [next]) found := by
  cases closest with
  | intro before after within first least =>
    rw [List.append_assoc, List.cons_append]
    refine .intro before (after ++ [next]) within first ?_
    intro other member
    rcases List.mem_append.mp member with early | last
    · exact least other early
    · rw [List.mem_singleton.mp last]
      exact behind

theorem Best.append_singleton (before : Best name candidates best) :
    Best name (candidates ++ [next]) (better name best next) := by
  cases before with
  | nothing far =>
    by_cases within : editDistance name next ≤ tolerance name
    · have taken : Suggestion.better name none next =
          some (editDistance name next, next) := by
        simp [Suggestion.better, within]
      rw [taken]
      apply Best.kept
      apply closest_append_singleton within
      intro other member
      have beyond := far other member
      omega
    · have left : Suggestion.better name none next = none := by simp [Suggestion.better, within]
      rw [left]
      apply Best.nothing
      intro other member
      rcases List.mem_append.mp member with early | last
      · exact far other early
      · rw [List.mem_singleton.mp last]
        omega
  | @kept found closest =>
    by_cases closer : editDistance name next < editDistance name found
    · have within := closest.within
      have taken : Suggestion.better name (some (editDistance name found, found)) next =
          some (editDistance name next, next) := by
        simp only [Suggestion.better, Option.all_some, closer, decide_true, Bool.and_true]
        exact if_pos (decide_eq_true (by omega))
      rw [taken]
      apply Best.kept
      apply closest_append_singleton (by omega)
      intro other member
      have bound := closest.le other member
      omega
    · have left : Suggestion.better name (some (editDistance name found, found)) next =
          some (editDistance name found, found) := by
        simp [Suggestion.better, closer]
      rw [left]
      exact .kept (closest.append_singleton (by omega))

theorem best_foldl (name : String) (candidates : List String) :
    Best name candidates (candidates.foldl (better name) none) := by
  induction candidates using List.reverseRecOn with
  | nil => exact .nothing (List.forall_mem_nil _)
  | append_singleton candidates next ih =>
    rw [List.foldl_append]
    exact ih.append_singleton

/-- Two suggestions for a name are equally far away, or there is none in either case. -/
def Alike (name : String) : Option String → Option String → Prop :=
  Option.Rel fun first second => editDistance name first = editDistance name second

/-- The same candidates in another order lead to a suggestion that is as close. -/
theorem closest?_alike (name : String) (same : ∀ other, other ∈ candidates ↔ other ∈ others) :
    Alike name (closest? name candidates) (closest? name others) := by
  have first := best_foldl name candidates
  have second := best_foldl name others
  rw [closest?, closest?]
  generalize candidates.foldl (better name) none = best at first
  generalize others.foldl (better name) none = bestOthers at second
  cases first with
  | nothing far =>
    cases second with
    | nothing => exact .none
    | @kept found closest =>
      have beyond := far found ((same found).mpr closest.mem)
      have within := closest.within
      omega
  | @kept found closest =>
    cases second with
    | nothing far =>
      have beyond := far found ((same found).mp closest.mem)
      have within := closest.within
      omega
    | @kept again closestOthers =>
      -- Each is a candidate of the other list, so neither is farther away.
      have forth := closest.le again ((same again).mpr closestOthers.mem)
      have back := closestOthers.le found ((same found).mp closest.mem)
      exact .some (Nat.le_antisymm forth back)

end SelectShape.Suggestion
