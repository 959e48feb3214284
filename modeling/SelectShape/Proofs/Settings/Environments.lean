import Mathlib.Data.List.Induction
import Mathlib.Data.Nat.Digits.Defs
import SelectShape.Proofs.Settings.Sources

/-!
# Environments one after another

Settings may be overridden again and again. An environment with a value that is no limit is followed up
to this value, and what it has overridden before stays. Main statement: the texts that are limits, what
one environment does to settings, and what a run of environments leaves: for either limit, the last one
that was accepted.
-/
namespace SelectShape

/-- A text spells a limit: ASCII digits, one or more, that denote a 64-bit word, perhaps a plus in front of
them, and white space around both. -/
def SpellsLimit (text : List Char) (limit : Nat) : Prop :=
  ∃ lead sign digits trail, text = lead ++ ((sign ++ digits) ++ trail) ∧
    (∀ c ∈ lead, isWhiteSpace c = true) ∧ (∀ c ∈ trail, isWhiteSpace c = true) ∧
    (sign = [] ∨ sign = ['+']) ∧ digits ≠ [] ∧ (∀ c ∈ digits, c.isDigit = true) ∧
    limit = Nat.ofDigits 10 (digits.reverse.map fun c => c.toNat - '0'.toNat) ∧ limit < 2 ^ 64

/-! ### Texts of limits -/

theorem dropWhile_append_of_stop {p : Char → Bool} {lead text : List Char}
    (inside : ∀ c ∈ lead, p c = true) (stop : ∀ c ∈ text.head?, p c = false) :
    (lead ++ text).dropWhile p = text := by
  rw [List.dropWhile_append_of_pos inside]
  cases text with
  | nil => rfl
  | cons c rest => exact List.dropWhile_cons_of_neg (by simp [stop c (by simp)])

theorem trimmed_append {lead core trail : List Char} (before : ∀ c ∈ lead, isWhiteSpace c = true)
    (after : ∀ c ∈ trail, isWhiteSpace c = true) (nonempty : core ≠ [])
    (clean : ∀ c ∈ core, isWhiteSpace c = false) : trimmed (lead ++ (core ++ trail)) = core := by
  have front : (lead ++ (core ++ trail)).dropWhile isWhiteSpace = core ++ trail := by
    apply dropWhile_append_of_stop before
    intro c first
    rw [List.head?_append, List.head?_eq_some_head nonempty, Option.some_or] at first
    obtain rfl := Option.some.inj first
    exact clean _ (List.head_mem nonempty)
  have back : (core ++ trail).reverse.dropWhile isWhiteSpace = core.reverse := by
    rw [List.reverse_append]
    apply dropWhile_append_of_stop fun c member => after c (List.mem_reverse.mp member)
    exact fun c first => clean c (List.mem_reverse.mp (List.mem_of_mem_head? first))
  rw [trimmed, front, back, List.reverse_reverse]

theorem exists_trimmed (text : List Char) :
    ∃ lead trail, text = lead ++ (trimmed text ++ trail) ∧ (∀ c ∈ lead, isWhiteSpace c = true) ∧
      ∀ c ∈ trail, isWhiteSpace c = true := by
  have back := List.takeWhile_append_dropWhile (p := isWhiteSpace)
    (l := (text.dropWhile isWhiteSpace).reverse)
  refine ⟨text.takeWhile isWhiteSpace,
    ((text.dropWhile isWhiteSpace).reverse.takeWhile isWhiteSpace).reverse, ?_, ?_, ?_⟩
  · rw [trimmed, ← List.reverse_append, back, List.reverse_reverse, List.takeWhile_append_dropWhile]
  · exact fun c member => List.mem_takeWhile_imp member
  · exact fun c member => List.mem_takeWhile_imp (List.mem_reverse.mp member)

namespace Digits

/-- The number is the one that the digits denote in base ten. -/
theorem value_eq_ofDigits (digits : List Char) :
    value digits = Nat.ofDigits 10 (digits.reverse.map fun c => c.toNat - '0'.toNat) := by
  induction digits using List.reverseRecOn with
  | nil => rfl
  | append_singleton digits c ih =>
    rw [value, List.foldl_append, ← value, ih, List.reverse_append, List.map_append, Nat.ofDigits_append]
    simp
    omega

theorem word?_eq_some_iff {digits : List Char} {limit : Nat} :
    word? digits = some limit ↔ digits ≠ [] ∧ (∀ c ∈ digits, c.isDigit = true) ∧
      limit = value digits ∧ limit < 2 ^ 64 := by
  have bound : wordLimit = 2 ^ 64 := rfl
  rw [word?, bound]
  by_cases digital : digits ≠ [] ∧ ∀ c ∈ digits, c.isDigit = true
  · have accepted : ¬ (digits.isEmpty || !digits.all Char.isDigit) = true := by
      simpa [List.isEmpty_iff, digital.1] using digital.2
    rw [if_neg accepted]
    rw [Option.ite_none_right_eq_some, Option.some.injEq]
    constructor
    · rintro ⟨short, rfl⟩
      exact ⟨digital.1, digital.2, rfl, short⟩
    · rintro ⟨-, -, rfl, short⟩
      exact ⟨short, rfl⟩
  · have refused : (digits.isEmpty || !digits.all Char.isDigit) = true := by
      by_contra accepted
      apply digital
      simpa [List.isEmpty_iff] using accepted
    rw [if_pos refused]
    constructor
    · intro none
      cases none
    · rintro ⟨nonempty, digits, -⟩
      exact absurd ⟨nonempty, digits⟩ digital

theorem signedWord?_eq_some_iff {text : List Char} {limit : Nat} :
    signedWord? text = some limit ↔
      ∃ sign digits, text = sign ++ digits ∧ (sign = [] ∨ sign = ['+']) ∧ word? digits = some limit := by
  constructor
  · intro denotes
    rw [signedWord?.eq_def] at denotes
    split at denotes
    next digits => exact ⟨['+'], digits, rfl, .inr rfl, denotes⟩
    next => exact ⟨[], text, rfl, .inl rfl, denotes⟩
  · rintro ⟨sign, digits, rfl, rfl | rfl, word⟩
    · rw [List.nil_append, signedWord?.eq_def]
      split
      next rest =>
        -- A plus is no digit.
        have digit := isDigit_of_word? word '+' (by simp)
        exact absurd digit (by decide)
      next => exact word
    · exact word

end Digits

namespace Settings

/-- The values that are limits are the texts that spell them. -/
theorem limit?_eq_some_iff {value : String} {limit : Nat} :
    limit? value = some limit ↔ SpellsLimit value.toList limit := by
  rw [limit?]
  constructor
  · intro denotes
    obtain ⟨lead, trail, text, before, after⟩ := exists_trimmed value.toList
    obtain ⟨sign, digits, core, signed, word⟩ := Digits.signedWord?_eq_some_iff.mp denotes
    obtain ⟨nonempty, digital, denoted, short⟩ := Digits.word?_eq_some_iff.mp word
    rw [core] at text
    exact ⟨lead, sign, digits, trail, text, before, after, signed, nonempty, digital,
      denoted.trans (Digits.value_eq_ofDigits digits), short⟩
  · rintro ⟨lead, sign, digits, trail, text, before, after, signed, nonempty, digital, denoted, short⟩
    have word : Digits.word? digits = some limit :=
      Digits.word?_eq_some_iff.mpr
        ⟨nonempty, digital, denoted.trans (Digits.value_eq_ofDigits digits).symm, short⟩
    have denotes : Digits.signedWord? (sign ++ digits) = some limit :=
      Digits.signedWord?_eq_some_iff.mpr ⟨sign, digits, rfl, signed, word⟩
    have clean := Digits.isWhiteSpace_of_signedWord? denotes
    rw [text, trimmed_append before after (by simp [nonempty]) clean]
    exact denotes

/-! ### One environment -/

/-- The limit that a variable is set to. -/
def accepted? (name : String) (environment : String → Option String) : Option Nat :=
  (environment name).bind limit?

/-- The variable is set, but to no limit. -/
def refuses (name : String) (environment : String → Option String) : Bool :=
  (environment name).any fun value => (limit? value).isNone

variable {environment : String → Option String} {name : String}

theorem refuses_iff :
    refuses name environment = true ↔ ∃ value, environment name = some value ∧ limit? value = none := by
  simp [refuses, Option.any_eq_true]

theorem overrideLimit_of_not_refuses (accepted : refuses name environment = false) (present : Nat) :
    override.overrideLimit environment name present =
      .ok ((accepted? name environment).getD present) := by
  rw [override.overrideLimit, accepted?]
  cases set : environment name with
  | none => rfl
  | some value =>
    cases read : limit? value with
    | none => simp [refuses, set, read] at accepted
    | some limit => simp [read]

theorem overrideLimit_of_refuses (refused : refuses name environment = true) (present : Nat) :
    ∃ value, environment name = some value ∧ limit? value = none ∧
      override.overrideLimit environment name present = .error (.limit name value) := by
  obtain ⟨value, set, none⟩ := refuses_iff.mp refused
  refine ⟨value, set, none, ?_⟩
  simp only [override.overrideLimit, set, none]

/-- What an environment does to settings: everything it says if both of its variables are accepted, what it
says of depth if only the one for length is refused, and else nothing. -/
theorem override_cases (environment : String → Option String) (settings : Settings) :
    (refuses depthVariable environment = true ∧ (settings.override environment).1 = settings ∧
      ∃ value, environment depthVariable = some value ∧ limit? value = none ∧
        (settings.override environment).2 = some (.limit depthVariable value)) ∨
    (refuses depthVariable environment = false ∧ refuses lengthVariable environment = true ∧
      (settings.override environment).1 = { settings with limits := { settings.limits with
        maxDepth := (accepted? depthVariable environment).getD settings.limits.maxDepth } } ∧
      ∃ value, environment lengthVariable = some value ∧ limit? value = none ∧
        (settings.override environment).2 = some (.limit lengthVariable value)) ∨
    (refuses depthVariable environment = false ∧ refuses lengthVariable environment = false ∧
      settings.override environment = ({ settings with limits :=
        ⟨(accepted? depthVariable environment).getD settings.limits.maxDepth,
          (accepted? lengthVariable environment).getD settings.limits.maxLength⟩ }, none)) := by
  cases depth : refuses depthVariable environment with
  | true =>
    obtain ⟨value, set, none, failed⟩ := overrideLimit_of_refuses depth settings.limits.maxDepth
    have overridden : settings.override environment = (settings, some (.limit depthVariable value)) := by
      simp only [override, failed]
    exact .inl ⟨rfl, congrArg Prod.fst overridden, value, set, none, congrArg Prod.snd overridden⟩
  | false =>
    have first := overrideLimit_of_not_refuses depth settings.limits.maxDepth
    cases length : refuses lengthVariable environment with
    | true =>
      obtain ⟨value, set, none, failed⟩ := overrideLimit_of_refuses length settings.limits.maxLength
      have overridden : settings.override environment = ({ settings with limits := { settings.limits with
          maxDepth := (accepted? depthVariable environment).getD settings.limits.maxDepth } },
          some (.limit lengthVariable value)) := by
        simp only [override, first, failed]
      exact .inr (.inl ⟨rfl, rfl, congrArg Prod.fst overridden, value, set, none,
        congrArg Prod.snd overridden⟩)
    | false =>
      have second := overrideLimit_of_not_refuses length settings.limits.maxLength
      refine .inr (.inr ⟨rfl, rfl, ?_⟩)
      simp only [override, first, second]

/-! ### Runs of environments -/

/-- Settings with what each of some environments overrides, also of those that are not followed to their
ends. -/
def overrideAll (settings : Settings) (environments : List (String → Option String)) : Settings :=
  environments.foldl (fun settings environment => (settings.override environment).1) settings

/-- The last limit on depth that was accepted. -/
def lastDepth? (environments : List (String → Option String)) : Option Nat :=
  environments.reverse.findSome? (accepted? depthVariable)

/-- The last limit on length that was accepted, of the environments that did not refuse a limit on depth. -/
def lastLength? (environments : List (String → Option String)) : Option Nat :=
  (environments.filter fun environment => !refuses depthVariable environment).reverse.findSome?
    (accepted? lengthVariable)

theorem accepted?_of_refuses (refused : refuses name environment = true) :
    accepted? name environment = none := by
  obtain ⟨value, set, none⟩ := refuses_iff.mp refused
  simp [accepted?, set, none]

theorem overrideAll_append_singleton (settings : Settings)
    (environments : List (String → Option String)) :
    settings.overrideAll (environments ++ [environment]) =
      ((settings.overrideAll environments).override environment).1 := by
  rw [overrideAll, List.foldl_append]
  rfl

theorem lastDepth?_append_singleton (environments : List (String → Option String)) (present : Nat) :
    (lastDepth? (environments ++ [environment])).getD present =
      (accepted? depthVariable environment).getD ((lastDepth? environments).getD present) := by
  rw [lastDepth?, List.reverse_append, List.reverse_singleton, List.singleton_append,
    List.findSome?_cons]
  cases accepted? depthVariable environment <;> rfl

theorem lastLength?_append_singleton (environments : List (String → Option String)) (present : Nat) :
    (lastLength? (environments ++ [environment])).getD present =
      if refuses depthVariable environment then (lastLength? environments).getD present
      else (accepted? lengthVariable environment).getD ((lastLength? environments).getD present) := by
  rw [lastLength?, List.filter_append]
  cases refused : refuses depthVariable environment with
  | true => simp [refused, lastLength?]
  | false =>
    have kept : [environment].filter (fun environment => !refuses depthVariable environment) =
        [environment] := by simp [refused]
    rw [kept, List.reverse_append, List.reverse_singleton, List.singleton_append, List.findSome?_cons]
    cases accepted? lengthVariable environment <;> rfl

/-- What is left after a run of environments are the last limits that were accepted. -/
theorem overrideAll_eq (settings : Settings) (environments : List (String → Option String)) :
    settings.overrideAll environments =
      ⟨⟨(lastDepth? environments).getD settings.limits.maxDepth,
        (lastLength? environments).getD settings.limits.maxLength⟩, settings.schema⟩ := by
  induction environments using List.reverseRecOn with
  | nil => rfl
  | append_singleton environments environment ih =>
    rw [overrideAll_append_singleton, ih, lastDepth?_append_singleton, lastLength?_append_singleton]
    rcases override_cases environment ⟨⟨(lastDepth? environments).getD settings.limits.maxDepth,
        (lastLength? environments).getD settings.limits.maxLength⟩, settings.schema⟩ with
      ⟨refused, unchanged, _⟩ | ⟨accepted, refused, changed, _⟩ | ⟨accepted, also, changed⟩
    · rw [unchanged, if_pos refused, accepted?_of_refuses refused, Option.getD_none]
    · rw [changed, if_neg (by simp [accepted]), accepted?_of_refuses refused, Option.getD_none]
    · rw [changed, if_neg (by simp [accepted])]

/-- Environments and the limits they set. A value is accepted exactly if it spells a limit, which it then
sets. An environment fails exactly if one of its variables is set to something else. If that is the one
for depth, settings stay as they are, and if it is the one for length alone, a limit on depth may be
overridden and nothing else. After a run of environments, settings have the last limit on depth that was
accepted, and the last limit on length that was accepted where none on depth was refused; what none of
them sets, and the catalog, is as before. -/
theorem override_environments (settings : Settings) :
    (∀ (value : String) (limit : Nat),
      limit? value = some limit ↔ SpellsLimit value.toList limit) ∧
    (∀ environment, (settings.override environment).2 ≠ none ↔
      ∃ name ∈ [depthVariable, lengthVariable], ∃ value, environment name = some value ∧
        limit? value = none) ∧
    (∀ environment, refuses depthVariable environment = true →
      (settings.override environment).1 = settings) ∧
    (∀ environment, refuses depthVariable environment = false →
      refuses lengthVariable environment = true →
      (settings.override environment).1 = { settings with limits := { settings.limits with
        maxDepth := (accepted? depthVariable environment).getD settings.limits.maxDepth } }) ∧
    ∀ environments, settings.overrideAll environments =
      ⟨⟨(lastDepth? environments).getD settings.limits.maxDepth,
        (lastLength? environments).getD settings.limits.maxLength⟩, settings.schema⟩ := by
  refine ⟨fun _ _ => limit?_eq_some_iff, fun environment => ?_, fun environment refused => ?_,
    fun environment accepted refused => ?_, overrideAll_eq settings⟩
  · simp only [List.mem_cons, List.not_mem_nil, or_false, exists_eq_or_imp, exists_eq_left,
      ← refuses_iff]
    rcases override_cases environment settings with
      ⟨refused, _, value, _, _, failed⟩ | ⟨accepted, refused, _, value, _, _, failed⟩ |
      ⟨accepted, also, changed⟩
    · simp [failed, refused]
    · simp [failed, refused]
    · simp [changed, accepted, also]
  · rcases override_cases environment settings with
      ⟨_, unchanged, _⟩ | ⟨accepted, _⟩ | ⟨accepted, _⟩
    · exact unchanged
    · cases refused.symm.trans accepted
    · cases refused.symm.trans accepted
  · rcases override_cases environment settings with
      ⟨other, _⟩ | ⟨_, _, changed, _⟩ | ⟨_, other, _⟩
    · cases other.symm.trans accepted
    · exact changed
    · cases other.symm.trans refused

/-- Three environments: both limits, spelled with a plus, leading zeros and white space; a depth that is a
power of two too large, for which a length beside it does not count; and a depth with a length that is
negative. -/
def sampleEnvironments : List (String → Option String) :=
  [fun name => if name = depthVariable then some "+007" else if name = lengthVariable then
      some " 18446744073709551615\u3000" else none,
    fun name => if name = depthVariable then some "18446744073709551616" else if name = lengthVariable
      then some "5" else none,
    fun name => if name = depthVariable then some "9\n" else if name = lengthVariable then some "-0"
      else none]

theorem override_environments_half :
    standard.overrideAll sampleEnvironments = ⟨⟨9, 18446744073709551615⟩, none⟩ ∧
    SpellsLimit "+007".toList 7 ∧ ¬ SpellsLimit "18446744073709551616".toList 0 ∧
    ∃ first second third, sampleEnvironments = [first, second, third] ∧
      (refuses depthVariable second = true ∧ (standard.override second).1 = standard) ∧
      refuses depthVariable third = false ∧ refuses lengthVariable third = true ∧
      (standard.override third).1 = ⟨⟨9, 65536⟩, none⟩ := by
  obtain ⟨spelled, _, depth, length, run⟩ := override_environments standard
  refine ⟨(run sampleEnvironments).trans (by decide +kernel), (spelled "+007" 7).mp (by decide +kernel),
    fun wraps => ?_, _, _, _, rfl, ⟨by decide +kernel, depth _ (by decide +kernel)⟩, by decide +kernel,
    by decide +kernel, (length _ (by decide +kernel) (by decide +kernel)).trans (by decide +kernel)⟩
  have accepted := (spelled "18446744073709551616" 0).mpr wraps
  exact absurd accepted (by decide +kernel)

end Settings

end SelectShape
