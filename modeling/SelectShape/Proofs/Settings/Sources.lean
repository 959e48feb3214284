import Mathlib.Data.List.TakeWhile
import SelectShape.CommandLine.Arguments
import SelectShape.Settings.Document

/-!
# What settings are made of

Settings come from a document, where whatever it leaves out has a standard value, and from variables of
the environment, which override the limits among them. Main statements: what a document says and the
standard values make up its settings, and an environment with limits in its variables puts each of these
in the place of the one that was there.
-/
namespace SelectShape

/-- A variable that is not set sets no limit, and one that is set sets the limit that its value denotes. -/
inductive VariableSets (denoted : String → Option Nat) : Option String → Option Nat → Prop
  | unset : VariableSets denoted none none
  | set (value : String) (denotes : denoted value = some limit) :
      VariableSets denoted (some value) (some limit)

/-! ### Limits in variables -/

theorem trimmed_eq_self {text : List Char} (clean : ∀ c ∈ text, isWhiteSpace c = false) :
    trimmed text = text := by
  have front : text.dropWhile isWhiteSpace = text :=
    List.dropWhile_eq_self_iff.mpr fun _ => Bool.eq_false_iff.mp (clean _ (List.getElem_mem _))
  have back : text.reverse.dropWhile isWhiteSpace = text.reverse :=
    List.dropWhile_eq_self_iff.mpr fun _ =>
      Bool.eq_false_iff.mp (clean _ (List.mem_reverse.mp (List.getElem_mem _)))
  rw [trimmed, front, back, List.reverse_reverse]

theorem isWhiteSpace_of_isDigit {c : Char} (digit : c.isDigit) : isWhiteSpace c = false := by
  have range : 48 ≤ c.toNat ∧ c.toNat ≤ 57 := by
    simpa [Char.isDigit, UInt32.le_iff_toNat_le] using digit
  simp only [isWhiteSpace, Bool.or_eq_false_iff, Bool.and_eq_false_iff, decide_eq_false_iff_not,
    beq_eq_false_iff_ne]
  omega

namespace Digits

theorem isDigit_of_word? {digits : List Char} {limit : Nat} (word : word? digits = some limit) :
    ∀ c ∈ digits, c.isDigit := by
  simp only [word?] at word
  split at word
  · cases word
  next digital =>
    simp only [Bool.or_eq_true, Bool.not_eq_true', not_or, Bool.not_eq_false] at digital
    exact List.all_eq_true.mp digital.2

theorem isWhiteSpace_of_signedWord? {text : List Char} {limit : Nat}
    (word : signedWord? text = some limit) : ∀ c ∈ text, isWhiteSpace c = false := by
  intro c member
  simp only [signedWord?] at word
  split at word
  next digits =>
    rcases List.mem_cons.mp member with rfl | later
    · rfl
    · exact isWhiteSpace_of_isDigit (isDigit_of_word? word c later)
  · exact isWhiteSpace_of_isDigit (isDigit_of_word? word c member)

end Digits

/-- What the command line takes for a limit denotes the same limit in the environment. -/
theorem Settings.limit?_of_option {value : String} {limit : Nat}
    (denotes : CommandLine.limit? value = some limit) : Settings.limit? value = some limit := by
  rw [Settings.limit?, trimmed_eq_self (Digits.isWhiteSpace_of_signedWord? denotes)]
  exact denotes

namespace VariableSets

variable {denoted other : String → Option Nat} {value : Option String} {limit : Option Nat}

theorem imp (sets : VariableSets denoted value limit)
    (also : ∀ text limit, denoted text = some limit → other text = some limit) :
    VariableSets other value limit := by
  cases sets with
  | unset => exact .unset
  | set text denotes => exact .set text (also text _ denotes)

end VariableSets

namespace Settings

theorem overrideLimit_of_sets {environment : String → Option String} {name : String}
    {limit : Option Nat} (sets : VariableSets limit? (environment name) limit) (present : Nat) :
    override.overrideLimit environment name present = .ok (limit.getD present) := by
  unfold override.overrideLimit
  generalize environment name = value at sets
  cases sets with
  | unset => rfl
  | set text denotes => simp only [denotes, Option.getD_some]

/-- Limits in the variables take the places of those that were there. -/
theorem override_of_sets {environment : String → Option String} {depth length : Option Nat}
    (depthSet : VariableSets limit? (environment depthVariable) depth)
    (lengthSet : VariableSets limit? (environment lengthVariable) length) (settings : Settings) :
    settings.override environment =
      ({ settings with
          limits := ⟨depth.getD settings.limits.maxDepth, length.getD settings.limits.maxLength⟩ },
        none) := by
  simp only [override, overrideLimit_of_sets depthSet, overrideLimit_of_sets lengthSet]

/-! ### Settings in documents -/

/-- What a document says about settings. -/
structure Declaration where
  maxDepth : Option Nat
  maxLength : Option Nat
  schema : Option String
  deriving DecidableEq, Repr

namespace Declaration

def empty : Declaration := ⟨none, none, none⟩

/-- Settings with standard values for what is not declared. -/
def settings (declaration : Declaration) : Settings :=
  ⟨⟨declaration.maxDepth.getD Limits.standard.maxDepth,
    declaration.maxLength.getD Limits.standard.maxLength⟩, declaration.schema⟩

/-- The value of a key that may be missing. -/
def field? (read : Toml → Option α) : Option Toml → Option (Option α)
  | none => some none
  | some value => (read value).map some

def ofTomlText? (text : String) : Option Declaration := do
  let fields ← Toml.parse text
  let depth ← field? limitOfToml? (fields.lookup "max_depth")
  let length ← field? limitOfToml? (fields.lookup "max_length")
  let schema ← field? Toml.string? (fields.lookup "schema")
  return ⟨depth, length, schema⟩

end Declaration

theorem getD_map_limitOfToml? (value : Option Toml) (standard : Nat) :
    (value.map limitOfToml?).getD (some standard) =
      (Declaration.field? limitOfToml? value).map (·.getD standard) := by
  cases value with
  | none => rfl
  | some value => cases read : limitOfToml? value <;> simp [Declaration.field?, read]

/-- The settings in a document are what it declares, and standard values for the rest. -/
theorem ofTomlText?_eq (text : String) :
    ofTomlText? text = (Declaration.ofTomlText? text).map Declaration.settings := by
  simp only [ofTomlText?, Declaration.ofTomlText?]
  cases Toml.parse text with
  | none => rfl
  | some fields =>
    simp only [Option.bind_eq_bind, Option.bind_some, getD_map_limitOfToml?]
    cases Declaration.field? limitOfToml? (fields.lookup "max_depth") with
    | none => rfl
    | some depth =>
      cases Declaration.field? limitOfToml? (fields.lookup "max_length") with
      | none => rfl
      | some length =>
        cases fields.lookup "schema" with
        | none => rfl
        | some schema =>
          cases read : schema.string? <;> simp [Declaration.field?, read, Declaration.settings, standard]

end Settings

end SelectShape
