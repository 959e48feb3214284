import SelectShape.Selection.Token
import Mathlib.Data.List.Chain
import Mathlib.Data.List.TakeWhile

/-!
# Texts and their tokens

Spelling is the reverse of scanning: a text spells tokens if it consists of their characters, with blanks
wherever one likes. Main statements: every text spells its tokens, and scanning a spelling gives the
tokens back unless two words among them stand side by side.
-/
namespace SelectShape

/-- One or more of `[0-9A-Za-z_]`. -/
def IsName (name : String) : Prop := name ≠ "" ∧ ∀ c ∈ name.toList, isWordChar c = true

instance : DecidablePred IsName := fun _ => decidable_of_iff _ (and_congr_right fun _ => List.all_eq_true)

/-- A run of blanks, which may be empty. -/
def Blanks (text : List Char) : Prop := ∀ c ∈ text, isBlank c = true

namespace Token

/-- The characters of a token. -/
def chars : Token → List Char
  | .word text => text.toList
  | .mark symbol => [symbol]

/-- A word is a name; a mark neither belongs to a word nor is blank. -/
def Valid : Token → Prop
  | .word text => IsName text
  | .mark symbol => isWordChar symbol = false ∧ isBlank symbol = false

/-- The token is a word. -/
def isWord : Token → Bool
  | .word _ => true
  | .mark _ => false

end Token

/-- A text spells tokens: their characters in order, with arbitrary runs of blanks before, between and
after them. -/
inductive Spells : List Char → List Token → Prop
  | nil (blanks : Blanks text) : Spells text []
  | cons (blanks : Blanks lead) (others : Spells text ts) :
      Spells (lead ++ (token.chars ++ text)) (token :: ts)

/-- No two words stand side by side. -/
def Separated (ts : List Token) : Prop :=
  ts.IsChain fun before after => before.isWord = false ∨ after.isWord = false

/-- The text does not go on with a character of a word. -/
def EndsWord (text : List Char) : Prop := ∀ c ∈ text.head?, isWordChar c = false

theorem isWordChar_of_isBlank {c : Char} (blank : isBlank c = true) : isWordChar c = false := by
  simp only [isBlank, Bool.or_eq_true, beq_iff_eq] at blank
  rcases blank with ((rfl | rfl) | rfl) | rfl <;> decide

/-! ### Scanning -/

@[simp] theorem tokens_nil : tokens [] = [] := rfl

theorem tokens_cons_blank {c : Char} (blank : isBlank c = true) (text : List Char) :
    tokens (c :: text) = tokens text := by
  simp [tokens, scan, isWordChar_of_isBlank blank, blank]

theorem tokens_cons_mark {c : Char} (outside : isWordChar c = false) (visible : isBlank c = false)
    (text : List Char) : tokens (c :: text) = .mark c :: tokens text := by
  simp [tokens, scan, outside, visible]

/-- Within a word, scanning goes on behind it. -/
theorem scan_within (text : List Char) : scan true text = scan false (text.dropWhile isWordChar) := by
  induction text with
  | nil => rfl
  | cons c text ih =>
    by_cases inside : isWordChar c = true
    · simpa [scan, inside] using ih
    · simp [scan, inside]

theorem tokens_cons_word {c : Char} (inside : isWordChar c = true) (text : List Char) :
    tokens (c :: text) =
      .word (.ofList (c :: text.takeWhile isWordChar)) :: tokens (text.dropWhile isWordChar) := by
  simp [tokens, scan, inside, scan_within]

theorem tokens_blanks_append {lead : List Char} (blanks : Blanks lead) (text : List Char) :
    tokens (lead ++ text) = tokens text := by
  induction lead with
  | nil => rfl
  | cons c lead ih =>
    have blank : isBlank c = true := blanks c (by simp)
    have others : Blanks lead := fun d member => blanks d (by simp [member])
    rw [List.cons_append, tokens_cons_blank blank, ih others]

/-- The longest run of word characters is a name that ends there, neither less nor more. -/
theorem takeWhile_name_append {name : String} (valid : IsName name) {text : List Char}
    (ends : EndsWord text) : (name.toList ++ text).takeWhile isWordChar = name.toList := by
  rw [List.takeWhile_append_of_pos valid.2]
  cases text with
  | nil => simp
  | cons c text => simp [ends c (by simp)]

theorem tokens_name_append {name : String} (valid : IsName name) {text : List Char}
    (ends : EndsWord text) : tokens (name.toList ++ text) = .word name :: tokens text := by
  have taken := takeWhile_name_append valid ends
  obtain ⟨nonempty, inside⟩ := valid
  have dropped : (name.toList ++ text).dropWhile isWordChar = text := by
    rw [List.dropWhile_append_of_pos inside]
    cases text with
    | nil => simp
    | cons c text => simp [ends c (by simp)]
  cases chars : name.toList with
  | nil => exact absurd (String.toList_eq_nil_iff.mp chars) nonempty
  | cons c rest =>
    have first : isWordChar c = true := inside c (by simp [chars])
    rw [chars, List.cons_append, List.takeWhile_cons_of_pos first] at taken
    rw [chars, List.cons_append, List.dropWhile_cons_of_pos first] at dropped
    rw [List.cons_append, tokens_cons_word first, taken, dropped, ← chars, String.ofList_toList]

theorem tokens_token_append {token : Token} (valid : token.Valid) {text : List Char}
    (ends : token.isWord = true → EndsWord text) :
    tokens (token.chars ++ text) = token :: tokens text := by
  cases token with
  | word name => exact tokens_name_append valid (ends rfl)
  | mark symbol => exact tokens_cons_mark valid.1 valid.2 text

/-- What scanning keeps of a text: valid tokens, each with the text that starts at it. -/
theorem located_of_mem_scan (inWord : Bool) (text : List Char) (located : Located)
    (member : located ∈ scan inWord text) : located.token.Valid ∧ located.text ≠ [] := by
  -- Only a word that begins and a mark add a token; inside a word and at blanks there is none.
  fun_induction scan inWord text with
  | case1 => simp at member
  | case2 c rest inside ih => exact ih member
  | case3 inWord c rest inside outer ih =>
    rcases List.mem_cons.mp member with rfl | later
    · refine ⟨⟨by simp, ?_⟩, by simp⟩
      intro d among
      rw [String.toList_ofList] at among
      rcases List.mem_cons.mp among with rfl | further
      · exact inside
      · exact List.mem_takeWhile_imp further
    · exact ih later
  | case4 inWord c rest outside blank ih => exact ih member
  | case5 inWord c rest outside visible ih =>
    rcases List.mem_cons.mp member with rfl | later
    · exact ⟨⟨by simpa using outside, by simpa using visible⟩, by simp⟩
    · exact ih later

/-! ### Spelling -/

theorem Spells.blank_cons {c : Char} (blank : isBlank c = true) {text : List Char} {ts : List Token}
    (spells : Spells text ts) : Spells (c :: text) ts := by
  cases spells with
  | nil blanks => exact .nil (List.forall_mem_cons.mpr ⟨blank, blanks⟩)
  | cons blanks others =>
    rw [← List.cons_append]
    exact .cons (List.forall_mem_cons.mpr ⟨blank, blanks⟩) others

theorem Spells.blanks_append {lead text : List Char} {ts : List Token} (blanks : Blanks lead)
    (spells : Spells text ts) : Spells (lead ++ text) ts := by
  induction lead with
  | nil => exact spells
  | cons c lead ih =>
    obtain ⟨blank, others⟩ := List.forall_mem_cons.mp blanks
    exact (ih others).blank_cons blank

/-- Texts one after the other spell the tokens of both. -/
theorem Spells.append {text further : List Char} {ts us : List Token} (spells : Spells text ts)
    (others : Spells further us) : Spells (text ++ further) (ts ++ us) := by
  induction spells with
  | nil blanks => exact others.blanks_append blanks
  | cons blanks _ ih => simpa using Spells.cons blanks ih

theorem Spells.token_cons (token : Token) {text : List Char} {ts : List Token}
    (others : Spells text ts) : Spells (token.chars ++ text) (token :: ts) :=
  .cons (List.forall_mem_nil _) others

/-- Every text spells its tokens. -/
theorem spells_tokens (text : List Char) : Spells text (tokens text) := by
  -- By the length of the text, since a word takes all of its characters away at once.
  induction length : text.length using Nat.strongRecOn generalizing text with
  | ind n ih =>
    cases text with
    | nil => exact .nil (by simp [Blanks])
    | cons c text =>
      simp only [List.length_cons] at length
      by_cases inside : isWordChar c = true
      · have shorter := (List.dropWhile_suffix (l := text) isWordChar).length_le
        have others := ih _ (by omega) (text.dropWhile isWordChar) rfl
        have spells := others.token_cons (.word (.ofList (c :: text.takeWhile isWordChar)))
        rw [tokens_cons_word inside]
        simpa [Token.chars, List.takeWhile_append_dropWhile] using spells
      · have others := ih _ (by omega) text rfl
        by_cases blank : isBlank c = true
        · rw [tokens_cons_blank blank]
          exact others.blank_cons blank
        · rw [tokens_cons_mark (by simpa using inside) (by simpa using blank)]
          exact others.token_cons (.mark c)

theorem Spells.endsWord {text : List Char} {ts : List Token} (spells : Spells text ts)
    (valid : ∀ token ∈ ts, token.Valid) (mark : ∀ token ∈ ts.head?, token.isWord = false) :
    EndsWord text := by
  intro c first
  -- The first character is a blank or the symbol of a mark, and neither belongs to a word.
  cases spells with
  | nil blanks => exact isWordChar_of_isBlank (blanks c (List.mem_of_mem_head? first))
  | @cons lead text ts token blanks others =>
    cases lead with
    | cons b lead =>
      have same : c = b := by simpa using first.symm
      exact isWordChar_of_isBlank (blanks c (by simp [same]))
    | nil =>
      cases token with
      | word name => simpa [Token.isWord] using mark (.word name) (by simp)
      | mark symbol =>
        have same : c = symbol := by simpa [Token.chars] using first.symm
        rw [same]
        exact (valid (.mark symbol) (by simp)).1

/-- Scanning gives back the tokens that a text spells. -/
theorem Spells.tokens_eq {text : List Char} {ts : List Token} (spells : Spells text ts)
    (valid : ∀ token ∈ ts, token.Valid) (separated : Separated ts) : tokens text = ts := by
  induction spells with
  | nil blanks => simpa using tokens_blanks_append blanks []
  | @cons lead text ts token blanks others ih =>
    obtain ⟨here, later⟩ := List.isChain_cons.mp separated
    have laterValid : ∀ token ∈ ts, token.Valid := fun t member => valid t (by simp [member])
    rw [tokens_blanks_append blanks, tokens_token_append (valid token (by simp)), ih laterValid later]
    -- A word ends where it should, because a blank or a mark comes after it.
    intro word
    refine others.endsWord laterValid fun next following => ?_
    simpa [word] using here next following

end SelectShape
