import SelectShape.Proofs.Selection.Token

/-!
# Dividing a text between tokens

Where no word goes on, a text may be divided: its tokens are those of the first part and those of the
second. Main statement: scanning divides a text so at every token that it finds, and the kind of that
token is known from its first character.
-/
namespace SelectShape

/-- The last character of a text belongs to a word. `inWord` tells it of the character before. -/
def endsInWord (inWord : Bool) : List Char → Bool
  | [] => inWord
  | c :: rest => endsInWord (isWordChar c) rest

/-- No word goes on from one text into the other. -/
def Parted (inWord : Bool) (front text : List Char) : Prop :=
  endsInWord inWord front = true → EndsWord text

theorem parted_cons {inWord : Bool} {c : Char} {front text : List Char} :
    Parted inWord (c :: front) text ↔ Parted (isWordChar c) front text := .rfl

/-- The symbol of a mark; words have none. -/
def Token.symbol? : Token → Option Char
  | .word _ => none
  | .mark symbol => some symbol

theorem takeWhile_append_of_parted {front text : List Char} (parted : Parted true front text) :
    (front ++ text).takeWhile isWordChar = front.takeWhile isWordChar := by
  induction front with
  | nil =>
    cases text with
    | nil => rfl
    | cons c rest => simp [parted rfl c (by simp)]
  | cons c front ih =>
    by_cases inside : isWordChar c = true
    · rw [List.cons_append, List.takeWhile_cons_of_pos inside, List.takeWhile_cons_of_pos inside]
      exact congrArg _ (ih (inside ▸ parted_cons.mp parted))
    · rw [List.cons_append, List.takeWhile_cons_of_neg inside, List.takeWhile_cons_of_neg inside]

/-- Scanning a text that goes on scans its first part as if it ended there, but for the longer texts that
stand with the tokens, and then the rest. -/
theorem exists_scan_append {inWord : Bool} {front text : List Char}
    (parted : Parted inWord front text) :
    ∃ located, scan inWord (front ++ text) = located ++ scan false text ∧
      located.map (·.token) = (scan inWord front).map (·.token) := by
  induction front generalizing inWord with
  | nil =>
    refine ⟨[], ?_, rfl⟩
    cases inWord with
    | false => rfl
    | true =>
      -- What follows does not go on with the word, so nothing of it is skipped.
      cases text with
      | nil => rfl
      | cons c rest => simp [scan, parted rfl c (by simp)]
  | cons c front ih =>
    have later := parted_cons.mp parted
    by_cases inside : isWordChar c = true
    · rw [inside] at later
      obtain ⟨located, scanned, same⟩ := ih later
      cases inWord with
      | true => exact ⟨located, by simpa [scan, inside] using scanned, by simpa [scan, inside] using same⟩
      | false =>
        refine ⟨⟨.word (.ofList (c :: front.takeWhile isWordChar)), c :: (front ++ text)⟩ :: located, ?_, ?_⟩
        · simpa [scan, inside, takeWhile_append_of_parted later] using scanned
        · simpa [scan, inside] using same
    · rw [Bool.not_eq_true] at inside
      rw [inside] at later
      obtain ⟨located, scanned, same⟩ := ih later
      by_cases blank : isBlank c = true
      · exact ⟨located, by simpa [scan, inside, blank] using scanned,
          by simpa [scan, inside, blank] using same⟩
      · refine ⟨⟨.mark c, c :: (front ++ text)⟩ :: located, ?_, ?_⟩
        · simpa [scan, inside, blank] using scanned
        · simpa [scan, inside, blank] using same

theorem map_token_scan_append {inWord : Bool} {front text : List Char}
    (parted : Parted inWord front text) :
    (scan inWord (front ++ text)).map (·.token) =
      (scan inWord front).map (·.token) ++ tokens text := by
  obtain ⟨located, scanned, same⟩ := exists_scan_append parted
  rw [scanned, List.map_append, same]
  rfl

theorem tokens_append {front text : List Char} (parted : Parted false front text) :
    tokens (front ++ text) = tokens front ++ tokens text := map_token_scan_append parted

/-- A visible character begins a token: a word if it belongs to words, else the mark that it is. -/
theorem exists_tokens_cons {c : Char} (visible : isBlank c = false) (rest : List Char) :
    ∃ token others, tokens (c :: rest) = token :: others ∧
      token.symbol? = if isWordChar c then none else some c := by
  by_cases inside : isWordChar c = true
  · exact ⟨_, _, tokens_cons_word inside rest, by simp [Token.symbol?, inside]⟩
  · exact ⟨_, _, tokens_cons_mark (by simpa using inside) visible rest, by simp [Token.symbol?, inside]⟩

theorem exists_front_of_scan {inWord : Bool} {text : List Char} {before after : List Located}
    {next : Located} (divided : scan inWord text = before ++ next :: after) :
    ∃ front c rest, text = front ++ c :: rest ∧ next.text = c :: rest ∧ isBlank c = false ∧
      Parted inWord front (c :: rest) ∧ scan false (c :: rest) = next :: after := by
  fun_induction scan inWord text generalizing before with
  | case1 => simp at divided
  | case2 c rest inside ih =>
    obtain ⟨front, d, more, rfl, located, visible, parted, scanned⟩ := ih divided
    exact ⟨c :: front, d, more, rfl, located, visible, parted_cons.mpr (inside ▸ parted), scanned⟩
  | case3 inWord c rest inside outer ih =>
    cases before with
    | nil =>
      obtain ⟨rfl, rfl⟩ := List.cons.inj divided
      refine ⟨[], c, rest, rfl, rfl, ?_, fun ends => absurd ends outer, by simp [scan, inside]⟩
      by_contra blank
      rw [isWordChar_of_isBlank (by simpa using blank)] at inside
      cases inside
    | cons first before =>
      obtain ⟨front, d, more, rfl, located, visible, parted, scanned⟩ := ih (List.cons.inj divided).2
      exact ⟨c :: front, d, more, rfl, located, visible, parted_cons.mpr (inside ▸ parted), scanned⟩
  | case4 inWord c rest outside blank ih =>
    obtain ⟨front, d, more, rfl, located, visible, parted, scanned⟩ := ih divided
    rw [← Bool.eq_false_iff.mpr outside] at parted
    exact ⟨c :: front, d, more, rfl, located, visible, parted_cons.mpr parted, scanned⟩
  | case5 inWord c rest outside visible ih =>
    cases before with
    | nil =>
      obtain ⟨rfl, rfl⟩ := List.cons.inj divided
      refine ⟨[], c, rest, rfl, rfl, by simpa using visible, fun _ d first => ?_,
        by simp [scan, outside, visible]⟩
      obtain rfl : c = d := by simpa using first
      simpa using outside
    | cons first before =>
      obtain ⟨front, d, more, rfl, located, shown, parted, scanned⟩ := ih (List.cons.inj divided).2
      rw [← Bool.eq_false_iff.mpr outside] at parted
      exact ⟨c :: front, d, more, rfl, located, shown, parted_cons.mpr parted, scanned⟩

/-- A text can be divided at each of its tokens. The tokens in front of the place are those of the
first part, and whatever follows the first character there, a token of the same kind begins with it. -/
theorem exists_front_of_mem_scan {text : List Char} {before after : List Located} {next : Located}
    (divided : scan false text = before ++ next :: after) :
    ∃ front c rest, text = front ++ c :: rest ∧ next.text = c :: rest ∧ isBlank c = false ∧
      before.map (·.token) = tokens front ∧
      next.token.symbol? = (if isWordChar c then none else some c) ∧
      ∀ more, tokens (front ++ c :: more) = tokens front ++ tokens (c :: more) := by
  obtain ⟨front, c, rest, rfl, located, visible, parted, scanned⟩ := exists_front_of_scan divided
  have here : tokens (c :: rest) = next.token :: after.map (·.token) := by simp [tokens, scanned]
  have whole : tokens (front ++ c :: rest) = before.map (·.token) ++ tokens (c :: rest) := by
    rw [here, tokens, divided, List.map_append, List.map_cons]
  obtain ⟨token, others, first, kind⟩ := exists_tokens_cons visible rest
  obtain ⟨rfl, _⟩ := List.cons.inj (first.symm.trans here)
  rw [tokens_append parted] at whole
  exact ⟨front, c, rest, rfl, located, visible, (List.append_cancel_right whole).symm, kind,
    fun _ => tokens_append parted⟩

end SelectShape
