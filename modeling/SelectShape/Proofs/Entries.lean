import Mathlib.Data.List.Nodup
import Mathlib.Data.List.Perm.Subperm
import SelectShape.Entries

/-!
# Laws of keyed values

What putting does, told by the keys, in order, and by the value under each key: entries with keys of
their own are equal if they agree in both. From these readings come the laws of putting all of some
entries into others, for a way of combining values that satisfies them on the values that occur.
-/
namespace SelectShape

namespace Entries

variable {combine : α → α → α} {entries added : Entries α} {key : String} {value : α}

@[simp]
theorem get?_nil : get? ([] : Entries α) key = none := rfl

theorem get?_cons (first : String) :
    get? ((first, value) :: entries) key = if first = key then some value else get? entries key := by
  rw [get?, List.lookup_cons]
  by_cases same : first = key
  · simp [same]
  · rw [beq_false_of_ne (Ne.symm same), if_neg same]
    rfl

@[simp]
theorem keys_nil : keys ([] : Entries α) = [] := rfl

@[simp]
theorem keys_cons (field : String × α) : keys (field :: entries) = field.1 :: keys entries := rfl

theorem get?_eq_none_iff : entries.get? key = none ↔ key ∉ entries.keys := by
  induction entries with
  | nil => simp
  | cons field rest ih =>
    obtain ⟨first, value⟩ := field
    by_cases same : first = key
    · simp [get?_cons, same]
    · simp [get?_cons, same, ih, Ne.symm same]

theorem mem_of_get? (found : entries.get? key = some value) : (key, value) ∈ entries := by
  induction entries with
  | nil => simp at found
  | cons field rest ih =>
    obtain ⟨first, present⟩ := field
    rw [get?_cons] at found
    split at found
    next same =>
      obtain rfl := Option.some.inj found
      rw [same]
      exact List.mem_cons_self
    next => exact List.mem_cons_of_mem _ (ih found)

theorem mem_keys_of_get? (found : entries.get? key = some value) : key ∈ entries.keys :=
  List.mem_map_of_mem (mem_of_get? found)

theorem get?_of_mem (unique : entries.keys.Nodup) (member : (key, value) ∈ entries) :
    entries.get? key = some value := by
  induction entries with
  | nil => simp at member
  | cons field rest ih =>
    obtain ⟨first, present⟩ := field
    rw [keys_cons, List.nodup_cons] at unique
    rcases List.mem_cons.mp member with same | later
    · cases same
      simp [get?_cons]
    · have other : first ≠ key := by
        rintro rfl
        exact unique.1 (List.mem_map.mpr ⟨_, later, rfl⟩)
      rw [get?_cons, if_neg other]
      exact ih unique.2 later

theorem length_eq_of_mem_keys_iff {left right : Entries α} (unique : left.keys.Nodup)
    (uniqueRight : right.keys.Nodup) (same : ∀ key, key ∈ left.keys ↔ key ∈ right.keys) :
    left.length = right.length := by
  have permuted : left.keys.Perm right.keys := (List.perm_ext_iff_of_nodup unique uniqueRight).mpr same
  simpa [keys] using permuted.length_eq

/-- The values of the pairs that have a key, in order. -/
def valuesUnder (pairs : List (String × α)) (key : String) : List α :=
  pairs.filterMap fun pair => if pair.1 = key then some pair.2 else none

theorem valuesUnder_cons (first : String) (pairs : List (String × α)) :
    valuesUnder ((first, value) :: pairs) key =
      if first = key then value :: valuesUnder pairs key else valuesUnder pairs key := by
  by_cases same : first = key <;> simp [valuesUnder, same]

theorem valuesUnder_eq_toList (unique : entries.keys.Nodup) (key : String) :
    valuesUnder entries key = (entries.get? key).toList := by
  induction entries with
  | nil => rfl
  | cons field rest ih =>
    obtain ⟨first, value⟩ := field
    rw [keys_cons, List.nodup_cons] at unique
    rw [valuesUnder_cons, get?_cons, ih unique.2]
    split
    next same =>
      subst same
      rw [get?_eq_none_iff.mpr unique.1]
      rfl
    next => rfl

/-- Entries with keys of their own are determined by their keys, in order, and the value under each. -/
theorem ext_keys_get? {left right : Entries α} (keys : left.keys = right.keys)
    (unique : left.keys.Nodup) (values : ∀ key, left.get? key = right.get? key) : left = right := by
  induction left generalizing right with
  | nil => exact (List.map_eq_nil_iff.mp keys.symm).symm
  | cons field rest ih =>
    cases right with
    | nil => simp at keys
    | cons other further =>
      obtain ⟨first, value⟩ := field
      obtain ⟨second, counterpart⟩ := other
      simp only [keys_cons, List.cons.injEq] at keys unique
      obtain ⟨rfl, keys⟩ := keys
      rw [List.nodup_cons] at unique
      have equal := values first
      simp only [get?_cons, if_pos, Option.some.injEq] at equal
      rw [equal, ih keys unique.2]
      intro key
      have read := values key
      simp only [get?_cons] at read
      split at read
      next same =>
        -- The head's key stands in neither rest.
        rw [← same, get?_eq_none_iff.mpr unique.1, get?_eq_none_iff.mpr (keys ▸ unique.1)]
      next => exact read

/-! ## Putting one value -/

theorem keys_put (combine : α → α → α) (entries : Entries α) (key : String) (value : α) :
    (put combine entries key value).keys =
      if key ∈ entries.keys then entries.keys else entries.keys ++ [key] := by
  induction entries with
  | nil => simp [put, keys]
  | cons field rest ih =>
    obtain ⟨first, present⟩ := field
    by_cases same : first = key
    · simp [put, same]
    · rw [put, if_neg same, keys_cons, ih]
      by_cases later : key ∈ Entries.keys rest <;> simp [later, Ne.symm same]

theorem get?_put_self (combine : α → α → α) (entries : Entries α) (key : String) (value : α) :
    (put combine entries key value).get? key =
      Option.merge combine (entries.get? key) (some value) := by
  induction entries with
  | nil => simp [put, get?_cons]
  | cons field rest ih =>
    obtain ⟨first, present⟩ := field
    by_cases same : first = key
    · simp [put, get?_cons, same]
    · simp [put, get?_cons, same, ih]

theorem get?_put_other (combine : α → α → α) (entries : Entries α) (value : α) {key other : String}
    (differ : other ≠ key) : (put combine entries key value).get? other = entries.get? other := by
  induction entries with
  | nil => simp [put, get?_cons, Ne.symm differ]
  | cons field rest ih =>
    obtain ⟨first, present⟩ := field
    by_cases same : first = key
    · simp [put, get?_cons, same, Ne.symm differ]
    · simp [put, get?_cons, same, ih]

/-- What stands under other keys stays as it is, and where it is. -/
theorem getElem?_put_other (combine : α → α → α) (entries : Entries α) (value : α) {key other : String}
    (differ : other ≠ key) (position : Nat) (present : α) :
    (put combine entries key value)[position]? = some (other, present) ↔
      entries[position]? = some (other, present) := by
  induction entries generalizing position with
  | nil => cases position <;> simp [put, Ne.symm differ]
  | cons field rest ih =>
    obtain ⟨first, held⟩ := field
    rw [put]
    split
    next same =>
      -- The key itself is at the front, so neither side finds another one there.
      subst same
      cases position <;> simp [Ne.symm differ]
    next =>
      cases position with
      | zero => rfl
      | succ position => exact ih position

theorem nodup_keys_put (unique : entries.keys.Nodup) :
    (put combine entries key value).keys.Nodup := by
  rw [keys_put]
  split
  next => exact unique
  next new => exact List.nodup_append.mpr ⟨unique, by simp, by
    rintro present member _ single rfl
    rw [List.mem_singleton.mp single] at member
    exact new member⟩

theorem forall_put {P : α → Prop} (keep : ∀ a b, P a → P b → P (combine a b))
    (old : ∀ field ∈ entries, P field.2) (new : P value) :
    ∀ field ∈ put combine entries key value, P field.2 := by
  induction entries with
  | nil => simpa [put] using new
  | cons field rest ih =>
    obtain ⟨first, present⟩ := field
    obtain ⟨head, later⟩ := List.forall_mem_cons.mp old
    rw [put]
    split
    next => exact List.forall_mem_cons.mpr ⟨keep _ _ head new, later⟩
    next => exact List.forall_mem_cons.mpr ⟨head, ih later⟩

theorem put_congr {other : α → α → α}
    (agree : ∀ {present}, (key, present) ∈ entries → combine present value = other present value) :
    put combine entries key value = put other entries key value := by
  induction entries with
  | nil => rfl
  | cons field rest ih =>
    obtain ⟨first, present⟩ := field
    rw [put, put]
    split
    next same =>
      subst same
      rw [agree List.mem_cons_self]
    next => rw [ih fun member => agree (List.mem_cons_of_mem _ member)]

/-! ## Putting all -/

@[simp]
theorem putAll_nil (combine : α → α → α) (entries : Entries α) : putAll combine entries [] = entries :=
  rfl

@[simp]
theorem putAll_cons (combine : α → α → α) (entries added : Entries α) (field : String × α) :
    putAll combine entries (field :: added) =
      putAll combine (put combine entries field.1 field.2) added := rfl

theorem putAll_append (combine : α → α → α) (entries added others : Entries α) :
    putAll combine entries (added ++ others) = putAll combine (putAll combine entries added) others :=
  List.foldl_append

theorem nodup_keys_putAll (unique : entries.keys.Nodup) :
    (putAll combine entries added).keys.Nodup := by
  induction added generalizing entries with
  | nil => exact unique
  | cons field rest ih => exact ih (nodup_keys_put unique)

/-- New keys come after those that are there, each once, in the order in which they are put first. -/
theorem keys_putAll_eq_append_eraseDups (combine : α → α → α) (entries added : Entries α) :
    (putAll combine entries added).keys =
      entries.keys ++ (added.keys.filter fun key => key ∉ entries.keys).eraseDups := by
  induction added generalizing entries with
  | nil => simp
  | cons field rest ih =>
    rw [putAll_cons, ih, keys_put, keys_cons]
    by_cases present : field.1 ∈ entries.keys
    · simp [present]
    · -- What is new after the key just put was new before it, and is another key.
      have later : ((keys rest).filter fun key => key ∉ entries.keys ++ [field.1]) =
          ((keys rest).filter fun key => key ∉ entries.keys).filter fun key => !key == field.1 := by
        rw [List.filter_filter]
        refine List.filter_congr fun key _ => ?_
        by_cases same : key = field.1 <;> simp [same]
      rw [if_neg present, List.filter_cons_of_pos (by simpa using present), List.eraseDups_cons, later,
        List.append_assoc]
      rfl

/-- Each key is there once, in the place where it first occurs among the pairs. -/
theorem keys_nil_putAll (combine : α → α → α) (pairs : List (String × α)) :
    (putAll combine [] pairs).keys = (pairs.map (·.1)).eraseDups := by
  rw [keys_putAll_eq_append_eraseDups]
  simp [keys]

private theorem eraseDups_eq_self {list : List String} (unique : list.Nodup) : list.eraseDups = list := by
  induction list with
  | nil => rfl
  | cons first rest ih =>
    obtain ⟨absent, unique⟩ := List.nodup_cons.mp unique
    have kept : (rest.filter fun key => !key == first) = rest := by
      rw [List.filter_eq_self]
      rintro key member
      simpa using fun same : key = first => absent (same ▸ member)
    rw [List.eraseDups_cons, kept, ih unique]

/-- New keys come after those that are there, in the order of the entries put. -/
theorem keys_putAll (combine : α → α → α) (entries : Entries α) (unique : added.keys.Nodup) :
    (putAll combine entries added).keys =
      entries.keys ++ added.keys.filter fun key => key ∉ entries.keys := by
  rw [keys_putAll_eq_append_eraseDups, eraseDups_eq_self (unique.filter _)]

/-- The values put under a key are combined, one after another, with what is there. -/
theorem get?_putAll_eq_foldl (combine : α → α → α) (entries added : Entries α) (key : String) :
    (putAll combine entries added).get? key =
      (valuesUnder added key).foldl (fun present value => Option.merge combine present (some value))
        (entries.get? key) := by
  induction added generalizing entries with
  | nil => rfl
  | cons field rest ih =>
    obtain ⟨first, value⟩ := field
    rw [putAll_cons, ih, valuesUnder_cons]
    by_cases same : first = key
    · subst same
      rw [get?_put_self, if_pos rfl, List.foldl_cons]
    · rw [get?_put_other _ _ _ (Ne.symm same), if_neg same]

theorem get?_putAll (combine : α → α → α) (entries : Entries α) (unique : added.keys.Nodup)
    (key : String) :
    (putAll combine entries added).get? key =
      Option.merge combine (entries.get? key) (added.get? key) := by
  rw [get?_putAll_eq_foldl, valuesUnder_eq_toList unique]
  cases added.get? key <;> simp

theorem mem_keys_putAll (combine : α → α → α) (entries added : Entries α) (key : String) :
    key ∈ (putAll combine entries added).keys ↔ key ∈ entries.keys ∨ key ∈ added.keys := by
  induction added generalizing entries with
  | nil => simp
  | cons field rest ih =>
    rw [putAll_cons, ih, keys_put, keys_cons, List.mem_cons, ← or_assoc]
    split
    next present =>
      have absorbed : key = field.1 → key ∈ entries.keys := fun same => same ▸ present
      tauto
    next => simp

/-- A condition on values that combining keeps holds of all values if it does before. -/
theorem forall_putAll {P : α → Prop} (keep : ∀ a b, P a → P b → P (combine a b))
    (old : ∀ field ∈ entries, P field.2) (new : ∀ field ∈ added, P field.2) :
    ∀ field ∈ putAll combine entries added, P field.2 := by
  induction added generalizing entries with
  | nil => exact old
  | cons field rest ih =>
    obtain ⟨head, later⟩ := List.forall_mem_cons.mp new
    exact ih (forall_put keep old head) later

/-- Two ways of combining that agree on the values that occur put alike. The condition that says which
values occur is kept by combining. -/
theorem putAll_congr {P : α → Prop} {other : α → α → α}
    (agree : ∀ a b, P a → P b → combine a b = other a b)
    (keep : ∀ a b, P a → P b → P (other a b)) (old : ∀ field ∈ entries, P field.2)
    (new : ∀ field ∈ added, P field.2) :
    putAll combine entries added = putAll other entries added := by
  induction added generalizing entries with
  | nil => rfl
  | cons field rest ih =>
    obtain ⟨head, later⟩ := List.forall_mem_cons.mp new
    rw [putAll_cons, putAll_cons, put_congr fun present => agree _ _ (old _ present) head]
    exact ih (forall_put keep old head) later

/-! ## Laws of putting all -/

theorem nil_putAll (combine : α → α → α) (unique : added.keys.Nodup) :
    putAll combine [] added = added := by
  refine ext_keys_get? ?_ (nodup_keys_putAll List.nodup_nil) fun key => ?_
  · simp [keys_putAll combine [] unique]
  · simp [get?_putAll combine [] unique]

theorem putAll_self (unique : entries.keys.Nodup)
    (idem : ∀ field ∈ entries, combine field.2 field.2 = field.2) :
    putAll combine entries entries = entries := by
  refine ext_keys_get? ?_ (nodup_keys_putAll unique) fun key => ?_
  · have none_new : (entries.keys.filter fun key => key ∉ entries.keys) = [] := by simp
    rw [keys_putAll combine entries unique, none_new, List.append_nil]
  · rw [get?_putAll combine entries unique]
    cases found : entries.get? key with
    | none => rfl
    | some value => exact congrArg some (idem _ (mem_of_get? found))

theorem putAll_assoc {others : Entries α} (unique : entries.keys.Nodup)
    (uniqueAdded : added.keys.Nodup) (uniqueOthers : others.keys.Nodup)
    (assoc : ∀ key a b c, entries.get? key = some a → added.get? key = some b →
      others.get? key = some c → combine (combine a b) c = combine a (combine b c)) :
    putAll combine (putAll combine entries added) others =
      putAll combine entries (putAll combine added others) := by
  have uniqueBoth : (putAll combine added others).keys.Nodup := nodup_keys_putAll uniqueAdded
  refine ext_keys_get? ?_ (nodup_keys_putAll (nodup_keys_putAll unique)) fun key => ?_
  · -- Either way a key of `others` is new if neither of the first two has it.
    rw [keys_putAll _ _ uniqueOthers, keys_putAll _ _ uniqueAdded, keys_putAll _ _ uniqueBoth,
      keys_putAll _ _ uniqueOthers, List.filter_append, List.filter_filter, List.append_assoc]
    refine congrArg _ (congrArg _ (List.filter_congr fun key _ => ?_))
    by_cases old : key ∈ entries.keys <;> simp [old]
  · -- Only a key that all three have asks for the law of the values.
    rw [get?_putAll _ _ uniqueOthers, get?_putAll _ _ uniqueAdded, get?_putAll _ _ uniqueBoth,
      get?_putAll _ _ uniqueOthers]
    cases first : entries.get? key <;> cases second : added.get? key <;>
      cases third : others.get? key <;> simp [Option.merge]
    exact assoc key _ _ _ first second third

theorem length_putAll_comm (combine : α → α → α) (unique : entries.keys.Nodup)
    (uniqueAdded : added.keys.Nodup) :
    (putAll combine entries added).length = (putAll combine added entries).length := by
  refine length_eq_of_mem_keys_iff (nodup_keys_putAll unique) (nodup_keys_putAll uniqueAdded) fun key => ?_
  rw [mem_keys_putAll, mem_keys_putAll, or_comm]

/-! ## Entries of pairs -/

theorem nodup_keys_ofPairs {pairs : List (String × α)} : (ofPairs pairs).keys.Nodup :=
  nodup_keys_putAll .nil

theorem keys_ofPairs (pairs : List (String × α)) :
    (ofPairs pairs).keys = (pairs.map (·.1)).eraseDups := keys_nil_putAll _ pairs

theorem get?_putAll_latest (entries added : Entries α) (key : String) :
    (putAll (fun _ new => new) entries added).get? key =
      (added.reverse.lookup key).or (entries.get? key) := by
  induction added generalizing entries with
  | nil => rfl
  | cons field rest ih =>
    obtain ⟨first, value⟩ := field
    rw [putAll_cons, ih, List.reverse_cons, List.lookup_append, Option.or_assoc]
    congr 1
    by_cases same : key = first
    · subst same
      rw [get?_put_self]
      cases entries.get? key <;> simp
    · rw [get?_put_other _ _ _ same]
      simp [List.lookup_cons, beq_false_of_ne same]

/-- Under each key stands its last value among the pairs. -/
theorem get?_ofPairs (pairs : List (String × α)) (key : String) :
    (ofPairs pairs).get? key = pairs.reverse.lookup key := by
  rw [ofPairs, get?_putAll_latest, get?_nil, Option.or_none]

theorem forall_ofPairs {P : α → Prop} {pairs : List (String × α)} (each : ∀ pair ∈ pairs, P pair.2) :
    ∀ field ∈ ofPairs pairs, P field.2 :=
  forall_putAll (fun _ _ _ new => new) (List.forall_mem_nil _) each

theorem ofPairs_eq_self (unique : entries.keys.Nodup) : ofPairs entries = entries :=
  nil_putAll _ unique

theorem exists_of_mem_mapValues? {read : α → Option β} {pairs : List (String × α)}
    {values : List (String × β)} (returned : mapValues? read pairs = some values) :
    ∀ field ∈ values, ∃ given, read given = some field.2 := by
  induction pairs generalizing values with
  | nil =>
    cases returned
    exact List.forall_mem_nil _
  | cons pair rest ih =>
    obtain ⟨key, given⟩ := pair
    simp only [mapValues?, Option.bind_eq_bind, Option.pure_def, Option.bind_eq_some_iff,
      Option.some.injEq] at returned
    obtain ⟨value, own, others, later, rfl⟩ := returned
    exact List.forall_mem_cons.mpr ⟨⟨given, own⟩, ih later⟩

/-! ## Equality up to order -/

theorem same_iff {equal : α → α → Bool} {left right : Entries α} :
    left.same equal right ↔ left.length = right.length ∧ ∀ field ∈ left,
      ∃ counterpart, right.get? field.1 = some counterpart ∧ equal field.2 counterpart := by
  simp [same, Option.any_eq_true]

theorem perm_keys_of_same {equal : α → α → Bool} {left right : Entries α} (unique : left.keys.Nodup)
    (same : left.same equal right) : left.keys.Perm right.keys := by
  obtain ⟨lengths, counterparts⟩ := same_iff.mp same
  have subset : left.keys ⊆ right.keys := by
    intro key member
    obtain ⟨field, among, rfl⟩ := List.mem_map.mp member
    obtain ⟨counterpart, found, _⟩ := counterparts field among
    exact mem_keys_of_get? found
  -- As many keys on both sides, all different on the left, so none on the right is left over.
  apply (List.subperm_of_subset unique subset).perm_of_length_le
  simp only [keys, List.length_map, lengths, Nat.le_refl]

/-- Under every key, equal entries have equal values or none on both sides. -/
theorem get?_of_same {equal : α → α → Bool} {left right : Entries α} (unique : left.keys.Nodup)
    (same : left.same equal right) (key : String) :
    (left.get? key = none ∧ right.get? key = none) ∨
      ∃ value counterpart, left.get? key = some value ∧ right.get? key = some counterpart ∧
        equal value counterpart := by
  cases found : left.get? key with
  | none =>
    have absent : key ∉ right.keys := fun member =>
      get?_eq_none_iff.mp found ((perm_keys_of_same unique same).mem_iff.mpr member)
    exact .inl ⟨rfl, get?_eq_none_iff.mpr absent⟩
  | some value =>
    obtain ⟨counterpart, again, equals⟩ := (same_iff.mp same).2 _ (mem_of_get? found)
    exact .inr ⟨value, counterpart, rfl, again, equals⟩

/-! ## Values read anew -/

/-- The entries with every value replaced by what a function makes of it. -/
def mapValues (f : α → β) (entries : Entries α) : Entries β :=
  entries.map fun field => (field.1, f field.2)

@[simp]
theorem keys_mapValues (f : α → β) (entries : Entries α) : (entries.mapValues f).keys = entries.keys := by
  simp [mapValues, keys]

@[simp]
theorem get?_mapValues (f : α → β) (entries : Entries α) (key : String) :
    (entries.mapValues f).get? key = (entries.get? key).map f := by
  induction entries with
  | nil => rfl
  | cons field rest ih =>
    obtain ⟨first, value⟩ := field
    have step : mapValues f ((first, value) :: rest) = (first, f value) :: mapValues f rest := rfl
    rw [step, get?_cons, get?_cons, ih]
    split <;> rfl

theorem mapValues_eq_self {f : α → α} (fixed : ∀ field ∈ entries, f field.2 = field.2) :
    entries.mapValues f = entries := by
  have each : ∀ field ∈ entries, (field.1, f field.2) = field :=
    fun field member => Prod.ext rfl (fixed field member)
  exact (List.map_congr_left each).trans (List.map_id entries)

/-- Values that are read back from what is written of them are read back from what is written of all. -/
theorem mapValues?_mapValues {write : α → γ} {read : γ → Option β} {f : α → β}
    (each : ∀ value, read (write value) = some (f value)) (entries : Entries α) :
    mapValues? read (entries.mapValues write) = some (entries.mapValues f) := by
  induction entries with
  | nil => rfl
  | cons field rest ih =>
    have later : mapValues? read (mapValues write rest) = some (mapValues f rest) := ih
    simp only [mapValues, List.map_cons] at later ⊢
    simp [mapValues?, each, later]

/-- Putting commutes with a function on values that commutes with combining. -/
theorem mapValues_putAll {f : α → β} {other : β → β → β} (unique : entries.keys.Nodup)
    (uniqueAdded : added.keys.Nodup)
    (values : ∀ key a b, entries.get? key = some a → added.get? key = some b →
      f (combine a b) = other (f a) (f b)) :
    (putAll combine entries added).mapValues f =
      putAll other (entries.mapValues f) (added.mapValues f) := by
  have uniqueMapped : (added.mapValues f).keys.Nodup := by rwa [keys_mapValues]
  apply ext_keys_get?
  · rw [keys_mapValues, keys_putAll _ _ uniqueAdded, keys_putAll _ _ uniqueMapped, keys_mapValues,
      keys_mapValues]
  · rw [keys_mapValues]
    exact nodup_keys_putAll unique
  · intro key
    rw [get?_mapValues, get?_putAll _ _ uniqueAdded, get?_putAll _ _ uniqueMapped, get?_mapValues,
      get?_mapValues]
    -- Values are combined under shared keys only.
    cases first : entries.get? key with
    | none => simp
    | some a =>
      cases second : added.get? key with
      | none => rfl
      | some b => exact congrArg some (values key a b first second)

end Entries

end SelectShape
