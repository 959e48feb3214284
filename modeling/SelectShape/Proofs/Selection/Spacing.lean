import SelectShape.Proofs.Selection.Reader
import SelectShape.Proofs.Selection.Token

/-!
# Blanks between tokens

Texts with the same tokens are read alike, token by token, and only what an error carries of the text can
tell them apart. Main statement: parsing does not depend on blanks between tokens, neither in the tree it
returns nor in the kind of an error and the tokens that are left at it.
-/
namespace SelectShape

/-- Two errors are of the same kind, with the same limit, and there are the same tokens in the texts that
they carry. -/
inductive ParseError.Alike : ParseError → ParseError → Prop
  | emptyInput : Alike .emptyInput .emptyInput
  | expectedIdentifier (same : tokens rest.toList = tokens other.toList) :
      Alike (.expectedIdentifier rest) (.expectedIdentifier other)
  | expectedCloseParen (same : tokens rest.toList = tokens other.toList) :
      Alike (.expectedCloseParen rest) (.expectedCloseParen other)
  | emptyEmbedding : Alike .emptyEmbedding .emptyEmbedding
  | missingEmbedding (same : tokens rest.toList = tokens other.toList) :
      Alike (.missingEmbedding rest) (.missingEmbedding other)
  | trailingInput (same : tokens rest.toList = tokens other.toList) :
      Alike (.trailingInput rest) (.trailingInput other)
  | nestingTooDeep (limit : Nat) : Alike (.nestingTooDeep limit) (.nestingTooDeep limit)
  | inputTooLong (length limit : Nat) : Alike (.inputTooLong length limit) (.inputTooLong length limit)

/-- Two texts, both empty or neither, have the same tokens. -/
structure SameTokens (text other : List Char) : Prop where
  equal : tokens text = tokens other
  ended : text = [] ↔ other = []

/-- The same token, and texts from there on that have the same tokens. -/
structure Located.Alike (located other : Located) : Prop where
  token : located.token = other.token
  text : SameTokens located.text other.text

/-- What two tokens do to readers is the same, or they fail alike. -/
inductive Step.Alike : Step → Step → Prop
  | next (reader : Reader) : Alike (.next reader) (.next reader)
  | stop : Alike .stop .stop
  | fail (errors : error.Alike other) : Alike (.fail error) (.fail other)

/-- Two readings return related results, or fail alike. -/
inductive OutcomesAlike (related : α → α → Prop) : Except ParseError α → Except ParseError α → Prop
  | ok (results : related result other) : OutcomesAlike related (.ok result) (.ok other)
  | error (errors : error.Alike other) : OutcomesAlike related (.error error) (.error other)

variable {limits : Limits} {base : Nat} {goal : Goal}

theorem ParseError.Alike.refl (error : ParseError) : error.Alike error := by
  cases error <;> constructor <;> rfl

/-! ### Single tokens -/

theorem SameTokens.ofList {text other : List Char} (same : SameTokens text other) :
    tokens (String.ofList text).toList = tokens (String.ofList other).toList := by
  rw [String.toList_ofList, String.toList_ofList, same.equal]

theorem Place.incomplete_alike {text other : List Char} (same : SameTokens text other) (place : Place) :
    (place.incomplete (.ofList text)).Alike (place.incomplete (.ofList other)) := by
  -- Where a node must begin the error is another one if nothing is left, which it is for both or neither.
  have fresh : (incomplete (.ofList text) .start).Alike (incomplete (.ofList other) .start) := by
    by_cases ended : text = []
    · rw [ended, same.ended.mp ended]
      exact .emptyInput
    · have further : other ≠ [] := fun nothing => ended (same.ended.mpr nothing)
      simpa [incomplete, ended, further] using ParseError.Alike.expectedIdentifier same.ofList
  match place with
  | .start | .opened => exact fresh
  | .renaming _ | .hinting _ _ => exact .expectedIdentifier same.ofList
  | .hinted _ _ _ => exact .missingEmbedding same.ofList
  | .named _ | .renamed _ _ | .complete _ => exact .expectedCloseParen same.ofList

namespace Reader

theorem afterNode_alike (reader : Reader) (node : Node) {token : Token} {text other : List Char}
    (same : SameTokens text other) :
    (afterNode goal reader node ⟨token, text⟩).Alike (afterNode goal reader node ⟨token, other⟩) := by
  obtain ⟨frames, nodes, place⟩ := reader
  simp only [afterNode]
  split
  · split
    · exact .next _
    · exact .stop
  · exact .stop
  · exact .next _
  · exact .next _
  · exact .fail (.expectedCloseParen same.ofList)

theorem step_alike (reader : Reader) {located other : Located} (alike : located.Alike other) :
    (reader.step limits base goal located).Alike (reader.step limits base goal other) := by
  obtain ⟨token, text⟩ := located
  obtain ⟨_, otherText⟩ := other
  obtain ⟨rfl, same⟩ := alike
  obtain ⟨frames, nodes, place⟩ := reader
  dsimp only at same
  -- Which case it is, is up to the place and the token, and they are the same.
  cases place.meets token with
  | inside next moves steps =>
    rw [steps, steps]
    exact .next _
  | hollow opened closing steps =>
    rw [steps, steps]
    exact .fail .emptyEmbedding
  | opening field opens parenthesis steps =>
    rw [steps, steps, openList]
    split
    · exact .fail (.nestingTooDeep _)
    · exact .next _
  | behind node ended steps =>
    rw [steps, steps]
    exact afterNode_alike _ _ same
  | wrong unfinished steps =>
    rw [steps, steps]
    exact .fail (Place.incomplete_alike same place)

end Reader

/-! ### All tokens of a text -/

/-- With each token stands a text that starts at it, and goes on with the tokens that follow. -/
def Placed : List Located → Prop
  | [] => True
  | located :: more =>
    located.text ≠ [] ∧ tokens located.text = located.token :: more.map (·.token) ∧ Placed more

theorem placed_scan (inWord : Bool) (text : List Char) : Placed (scan inWord text) := by
  fun_induction scan inWord text with
  | case1 => trivial
  | case2 c rest inside ih => exact ih
  | case3 inWord c rest inside outer ih => exact ⟨by simp, by simp [tokens, scan, inside], ih⟩
  | case4 inWord c rest outside blank ih => exact ih
  | case5 inWord c rest outside visible ih =>
    exact ⟨by simp, by simp [tokens, scan, outside, visible], ih⟩

theorem located_alike {located other : Located} {more further : List Located}
    (placed : Placed (located :: more)) (placedOther : Placed (other :: further))
    (same : (located :: more).map (·.token) = (other :: further).map (·.token)) :
    located.Alike other := by
  obtain ⟨visible, starts, _⟩ := placed
  obtain ⟨visibleOther, startsOther, _⟩ := placedOther
  have equal : tokens located.text = tokens other.text := starts.trans (same.trans startsOther.symm)
  exact ⟨(List.cons.inj same).1, equal, iff_of_false visible visibleOther⟩

/-- What a reader returns: the same nodes, and texts left over that have the same tokens. -/
def ResultsAlike (result other : List Node × List Char) : Prop :=
  result.1 = other.1 ∧ SameTokens result.2 other.2

namespace Reader

theorem finish_alike (reader : Reader) {text other : List Char} (same : SameTokens text other) :
    OutcomesAlike ResultsAlike (reader.finish.map (·, text)) (reader.finish.map (·, other)) := by
  cases reader.finish with
  | ok nodes => exact .ok ⟨rfl, same⟩
  | error error => exact .error (.refl error)

theorem run_alike {located others : List Located} (placed : Placed located) (placedOthers : Placed others)
    (same : located.map (·.token) = others.map (·.token)) (reader : Reader) :
    OutcomesAlike ResultsAlike (reader.run limits base goal located)
      (reader.run limits base goal others) := by
  induction located generalizing others reader with
  | nil =>
    obtain rfl := List.map_eq_nil_iff.mp same.symm
    exact reader.finish_alike ⟨rfl, .rfl⟩
  | cons first more ih =>
    cases others with
    | nil => cases same
    | cons second further =>
      have alike := located_alike placed placedOthers same
      have steps : (reader.step limits base goal first).Alike (reader.step limits base goal second) :=
        reader.step_alike alike
      simp only [run]
      -- Both steps are of the same kind, and a reader that goes on is the same one.
      generalize reader.step limits base goal first = step,
        reader.step limits base goal second = other at steps
      cases steps with
      | next reader => exact ih placed.2.2 placedOthers.2.2 (List.cons.inj same).2 reader
      | stop => exact reader.finish_alike alike.text
      | fail errors => exact .error errors

end Reader

theorem parse_alike {query other : String} (same : tokens query.toList = tokens other.toList)
    (short : query.utf8ByteSize ≤ limits.maxLength) (shortOther : other.utf8ByteSize ≤ limits.maxLength) :
    OutcomesAlike Eq (parse limits query) (parse limits other) := by
  have runs : OutcomesAlike ResultsAlike
      (Reader.empty.run limits 0 .list (scan false query.toList))
      (Reader.empty.run limits 0 .list (scan false other.toList)) :=
    Reader.empty.run_alike (placed_scan false query.toList) (placed_scan false other.toList) same
  rw [parse, parse, if_neg (Nat.not_lt.mpr short), if_neg (Nat.not_lt.mpr shortOther)]
  generalize Reader.empty.run limits 0 .list (scan false query.toList) = first,
    Reader.empty.run limits 0 .list (scan false other.toList) = second at runs
  cases runs with
  | error errors => exact .error errors
  | @ok result counterpart results =>
    obtain ⟨nodes, rest⟩ := result
    obtain ⟨_, further⟩ := counterpart
    obtain ⟨rfl, left⟩ := results
    dsimp only at left
    -- What is left at the end is an error, in both texts or in neither.
    by_cases ended : rest = []
    · rw [ended, left.ended.mp ended]
      exact .ok rfl
    · obtain ⟨c, more, rfl⟩ := List.exists_cons_of_ne_nil ended
      obtain ⟨d, furtherMore, rfl⟩ :=
        List.exists_cons_of_ne_nil fun nothing => ended (left.ended.mpr nothing)
      exact .error (.trailingInput left.ofList)

/-- Parsing within the limit on length returns the same tree for texts with the same tokens, and fails
for both or for neither: with errors of the same kind, with the same limit, that carry texts with the same
tokens. -/
theorem parse_same_tokens {limits : Limits} {query other : String}
    (same : tokens query.toList = tokens other.toList)
    (short : query.utf8ByteSize ≤ limits.maxLength) (shortOther : other.utf8ByteSize ≤ limits.maxLength) :
    (∀ nodes, parse limits query = .ok nodes ↔ parse limits other = .ok nodes) ∧
    ∀ error, parse limits query = .error error →
      ∃ counterpart, parse limits other = .error counterpart ∧ error.Alike counterpart := by
  have outcomes := parse_alike same short shortOther
  generalize parse limits query = first, parse limits other = second at outcomes
  cases outcomes with
  | ok results =>
    obtain rfl := results
    exact ⟨fun _ => .rfl, fun error failed => nomatch failed⟩
  | error errors =>
    refine ⟨fun _ => by simp, fun error failed => ?_⟩
    cases failed
    exact ⟨_, rfl, errors⟩

/-- A nested query in two layouts, at fault where a comma follows a hint. -/
theorem parse_same_tokens_nested :
    tokens "a(b,c:d!e,f)".toList = tokens " a ( b ,\tc : d ! e , f )\n".toList ∧
    parse ⟨1, 30⟩ "a(b,c:d!e,f)" = .error (.missingEmbedding ",f)") ∧
    ∃ rest, parse ⟨1, 30⟩ " a ( b ,\tc : d ! e , f )\n" = .error (.missingEmbedding rest) ∧
      tokens rest.toList = [.mark ',', .word "f", .mark ')'] := by
  have same : tokens "a(b,c:d!e,f)".toList = tokens " a ( b ,\tc : d ! e , f )\n".toList := by decide
  have returned : parse ⟨1, 30⟩ "a(b,c:d!e,f)" = .error (.missingEmbedding ",f)") := rfl
  obtain ⟨_, again, alike⟩ := (parse_same_tokens same (by decide) (by decide)).2 _ returned
  cases alike with
  | @missingEmbedding _ rest left => exact ⟨same, returned, rest, again, left.symm.trans (by decide)⟩

end SelectShape
