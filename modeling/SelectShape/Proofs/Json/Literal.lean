import SelectShape.Json.Parse
import SelectShape.Json.Render

/-!
# String literals

A literal is read piece by piece as it is written, character by character: each character has one way of
being escaped, and the piece that this reads as stands for the character alone.
-/
namespace SelectShape.Json

variable {c letter : Char} {rest : List Char} {piece : Piece} {pieces : List Piece}

/-- A character is escaped by a letter, as the code of a control, or not at all. -/
theorem escape_cases (c : Char) :
    (∃ letter, shortEscape? letter = some c ∧ escape c = ['\\', letter]) ∨
    (c.toNat < 32 ∧
      escape c = ['\\', 'u', '0', '0', hexDigit (c.toNat / 16), hexDigit (c.toNat % 16)]) ∨
    (c ≠ '"' ∧ c ≠ '\\' ∧ 32 ≤ c.toNat ∧ escape c = [c]) := by
  by_cases quote : c = '"'
  · subst quote
    exact .inl ⟨'"', rfl, rfl⟩
  by_cases backslash : c = '\\'
  · subst backslash
    exact .inl ⟨'\\', rfl, rfl⟩
  by_cases line : c = '\n'
  · subst line
    exact .inl ⟨'n', rfl, rfl⟩
  by_cases carriage : c = '\r'
  · subst carriage
    exact .inl ⟨'r', rfl, rfl⟩
  by_cases tab : c = '\t'
  · subst tab
    exact .inl ⟨'t', rfl, rfl⟩
  by_cases back : c.toNat = 8
  · obtain rfl : c = Char.ofNat 8 := by rw [← back, Char.ofNat_toNat]
    exact .inl ⟨'b', rfl, rfl⟩
  by_cases form : c.toNat = 12
  · obtain rfl : c = Char.ofNat 12 := by rw [← form, Char.ofNat_toNat]
    exact .inl ⟨'f', rfl, rfl⟩
  have others : escape c = if c.toNat < 32 then
      ['\\', 'u', '0', '0', hexDigit (c.toNat / 16), hexDigit (c.toNat % 16)] else [c] := by
    simp [escape, quote, backslash, line, carriage, tab, back, form]
  by_cases control : c.toNat < 32
  · exact .inr (.inl ⟨control, others.trans (if_pos control)⟩)
  · exact .inr (.inr ⟨quote, backslash, Nat.not_lt.mp control, others.trans (if_neg control)⟩)

/-! ## Reading one piece -/

theorem pieces?_letter (short : shortEscape? letter = some c) :
    pieces? ('\\' :: letter :: rest) =
      (pieces? rest).map fun read => (.char c :: read.1, read.2) := by
  have notUnit : letter ≠ 'u' := by
    rintro rfl
    cases short
  rw [pieces?, short]
  · cases pieces? rest <;> rfl
  · intro _ _ _ _ _ same
    exact absurd same notUnit

theorem hexValue?_hexDigit {n : Nat} (small : n < 16) : hexValue? (hexDigit n) = some n := by
  have each : ∀ n : Fin 16, hexValue? (hexDigit n) = some n.val := by decide
  exact each ⟨n, small⟩

theorem unit?_control (control : c.toNat < 32) :
    unit? '0' '0' (hexDigit (c.toNat / 16)) (hexDigit (c.toNat % 16)) = some c.toNat := by
  have zero : hexValue? '0' = some 0 := by decide
  have high : hexValue? (hexDigit (c.toNat / 16)) = some (c.toNat / 16) :=
    hexValue?_hexDigit (by omega)
  have low : hexValue? (hexDigit (c.toNat % 16)) = some (c.toNat % 16) :=
    hexValue?_hexDigit (by omega)
  simp only [unit?, zero, high, low, bind, Option.bind, pure, Option.some.injEq]
  omega

theorem pieces?_control (control : c.toNat < 32) :
    pieces? ('\\' :: 'u' :: '0' :: '0' :: hexDigit (c.toNat / 16) :: hexDigit (c.toNat % 16) :: rest) =
      (pieces? rest).map fun read => (.unit c.toNat :: read.1, read.2) := by
  rw [pieces?, unit?_control control]
  cases pieces? rest <;> rfl

theorem pieces?_plain (quote : c ≠ '"') (backslash : c ≠ '\\') (printed : 32 ≤ c.toNat) :
    pieces? (c :: rest) = (pieces? rest).map fun read => (.char c :: read.1, read.2) := by
  have kept : ¬ (c.toNat < 32 || c = '\\') := by
    simpa [backslash] using printed
  rw [pieces?, if_neg kept]
  · cases pieces? rest <;> rfl
  · exact quote
  · intro _ _ _ _ _ same
    exact absurd same backslash
  · intro _ _ same
    exact absurd same backslash

/-! ## Whole literals -/

/-- A piece that stands for one character by itself: the character, or the code of a control. -/
inductive Piece.Stands : Piece → Char → Prop
  | char (c : Char) : Stands (.char c) c
  | control {c : Char} (control : c.toNat < 32) : Stands (.unit c.toNat) c

theorem joined?_cons (stands : piece.Stands c) :
    joined? (piece :: pieces) = (joined? pieces).map (c :: ·) := by
  cases stands with
  | char => rw [joined?]
  | control control =>
    -- The code of a control is no half of a surrogate pair, whatever follows.
    have notHigh : isHigh c.toNat = false := by
      simp only [isHigh, Bool.and_eq_false_imp, decide_eq_true_eq, decide_eq_false_iff_not]
      omega
    have notLow : isLow c.toNat = false := by
      simp only [isLow, Bool.and_eq_false_imp, decide_eq_true_eq, decide_eq_false_iff_not]
      omega
    rcases pieces with _ | ⟨_ | _, pieces⟩ <;> simp [joined?, notHigh, notLow]

theorem exists_piece (c : Char) : ∃ piece : Piece, piece.Stands c ∧ ∀ rest,
    pieces? (escape c ++ rest) = (pieces? rest).map fun read => (piece :: read.1, read.2) := by
  rcases escape_cases c with ⟨letter, short, escaped⟩ | ⟨control, escaped⟩ |
    ⟨quote, backslash, printed, escaped⟩
  · refine ⟨.char c, .char c, fun rest => ?_⟩
    rw [escaped]
    exact pieces?_letter short
  · refine ⟨.unit c.toNat, .control control, fun rest => ?_⟩
    rw [escaped]
    exact pieces?_control control
  · refine ⟨.char c, .char c, fun rest => ?_⟩
    rw [escaped]
    exact pieces?_plain quote backslash printed

theorem exists_pieces (chars rest : List Char) : ∃ pieces, joined? pieces = some chars ∧
    pieces? (chars.flatMap escape ++ '"' :: rest) = some (pieces, rest) := by
  induction chars with
  | nil => exact ⟨[], by rw [joined?], by rw [List.flatMap_nil, List.nil_append, pieces?]⟩
  | cons c chars ih =>
    obtain ⟨piece, stands, read⟩ := exists_piece c
    obtain ⟨pieces, joined, readAll⟩ := ih
    refine ⟨piece :: pieces, ?_, ?_⟩
    · rw [joined?_cons stands, joined, Option.map_some]
    · rw [List.flatMap_cons, List.append_assoc, read, readAll, Option.map_some]

/-- The literal of a text is read as that text, whatever follows. -/
theorem literal?_escaped (text : String) (rest : List Char) :
    literal? (text.toList.flatMap escape ++ '"' :: rest) = some (.string text, rest) := by
  obtain ⟨pieces, joined, read⟩ := exists_pieces text.toList rest
  simp [literal?, read, joined]

end SelectShape.Json
