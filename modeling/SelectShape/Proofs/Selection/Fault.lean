import SelectShape.Proofs.Selection.Viable

/-!
# Where parsing fails

Main statement: a query that is refused within the limits either ends where it could still be completed,
or is at fault at the first character that no query goes on with, and the error carries the text from
this character on.
-/
namespace SelectShape

/-- The text that an error carries. -/
def ParseError.rest? : ParseError → Option String
  | .expectedIdentifier rest | .expectedCloseParen rest | .missingEmbedding rest
  | .trailingInput rest => some rest
  | _ => none

/-- Why a text is refused that is within the limits, and what the error says of it. -/
inductive Fault (text : List Char) : ParseError → Prop
  -- The text ends too early.
  | early (viable : Viable text) (incomplete : ¬ Accepted text)
      (carries : error = .emptyInput ∨ error.rest? = some "") : Fault text error
  -- No query goes on with the character `c`.
  | wrong (divided : text = front ++ c :: rest) (viable : Viable front) (visible : isBlank c = false)
      (stuck : ¬ Viable (front ++ [c])) (carries : error.rest? = some (.ofList (c :: rest))) :
      Fault text error
  -- A related resource is closed before it selects anything.
  | hollow (divided : text = head ++ '(' :: (blanks ++ ')' :: rest)) (blank : Blanks blanks)
      (viable : Viable (head ++ '(' :: blanks)) (stuck : ¬ Viable (head ++ '(' :: (blanks ++ [')']))) :
      Fault text .emptyEmbedding

variable {limits : Limits} {base : Nat} {goal : Goal}

/-! ### Errors of a reader -/

namespace Reader

theorem finish_eq_error {reader : Reader} {error : ParseError} (failed : reader.finish = .error error) :
    error = .emptyInput ∨ error.rest? = some "" := by
  obtain ⟨frames, nodes, place⟩ := reader
  unfold finish at failed
  split at failed
  · cases failed
  · cases failed
    cases place <;> simp [Place.incomplete, ParseError.rest?]

private theorem frames_eq_nil_of_afterNode {reader : Reader} {node : Node} {next : Located}
    (stopped : afterNode goal reader node next = .stop) : reader.frames = [] := by
  obtain ⟨frames, nodes, place⟩ := reader
  simp only [afterNode] at stopped
  split at stopped
  · rfl
  · rfl
  all_goals cases stopped

private theorem eq_of_afterNode_eq_fail {reader : Reader} {node : Node} {next : Located}
    {error : ParseError} (failed : afterNode goal reader node next = .fail error) :
    error = .expectedCloseParen (.ofList next.text) := by
  obtain ⟨frames, nodes, place⟩ := reader
  simp only [afterNode] at failed
  split at failed
  · split at failed <;> cases failed
  · cases failed
  · cases failed
  · cases failed
  · cases failed
    rfl

private theorem rest?_incomplete (place : Place) {text : List Char} (nonempty : text ≠ []) :
    (place.incomplete (.ofList text)).rest? = some (.ofList text) := by
  cases place <;> simp [Place.incomplete, ParseError.rest?, nonempty]

/-- Reading stops after a complete node only, outside of all related resources. -/
theorem finish_of_stop {reader : Reader} {next : Located}
    (stopped : step limits base goal reader next = .stop) : ∃ nodes, reader.finish = .ok nodes := by
  obtain ⟨frames, nodes, place⟩ := reader
  obtain ⟨token, text⟩ := next
  cases place.meets token with
  | behind node ended steps =>
    rw [steps] at stopped
    exact ⟨_, finish_eq_ok_iff.mpr ⟨node, ended, frames_eq_nil_of_afterNode stopped, rfl⟩⟩
  | opening field opens parenthesis steps =>
    rw [steps, openList] at stopped
    split at stopped <;> cases stopped
  | inside place moves steps | hollow opened closing steps | wrong unfinished steps =>
    cases steps.symm.trans stopped

/-- The error of a step is about nesting, about an empty resource, or carries the text from the token
on. -/
theorem step_eq_fail {reader : Reader} {next : Located} {error : ParseError}
    (failed : step limits base goal reader next = .fail error) (nonempty : next.text ≠ []) :
    error = .nestingTooDeep limits.maxDepth ∨
      (error = .emptyEmbedding ∧ reader.place = .opened ∧ next.token = .mark ')') ∨
      error.rest? = some (.ofList next.text) := by
  obtain ⟨frames, nodes, place⟩ := reader
  obtain ⟨token, text⟩ := next
  cases place.meets token with
  | inside next moves steps => cases steps.symm.trans failed
  | hollow opened closing steps =>
    cases steps.symm.trans failed
    exact .inr (.inl ⟨rfl, opened, closing⟩)
  | opening field opens parenthesis steps =>
    rw [steps, openList] at failed
    split at failed
    · cases failed
      exact .inl rfl
    · cases failed
  | behind node ended steps =>
    rw [steps] at failed
    obtain rfl := eq_of_afterNode_eq_fail failed
    exact .inr (.inr rfl)
  | wrong unfinished steps =>
    cases steps.symm.trans failed
    exact .inr (.inr (rest?_incomplete place nonempty))

/-- What a token does under other limits it does under these, unless it nests too deep. -/
theorem step_eq_next_or_fail {wider : Limits} {reader after : Reader} {next : Located}
    (move : Advances wider base goal reader next.token after) :
    step limits base goal reader next = .next after ∨
      step limits base goal reader next = .fail (.nestingTooDeep limits.maxDepth) := by
  obtain ⟨token, text⟩ := next
  cases move with
  | wildcard fresh => exact .inl (step_eq_next_iff.mpr (.wildcard fresh))
  | name fresh => exact .inl (step_eq_next_iff.mpr (.name fresh))
  | rename => exact .inl (step_eq_next_iff.mpr .rename)
  | original => exact .inl (step_eq_next_iff.mpr .original)
  | bang => exact .inl (step_eq_next_iff.mpr .bang)
  | hint => exact .inl (step_eq_next_iff.mpr .hint)
  | comma ended more => exact .inl (step_eq_next_iff.mpr (.comma ended more))
  | close ended => exact .inl (step_eq_next_iff.mpr (.close ended))
  | descend opens room =>
    rw [step_of_field? opens, openList]
    split
    · exact .inr rfl
    · exact .inl rfl

theorem stuck_of_stop {reader : Reader} {next : Located}
    (stopped : step limits 0 .list reader next = .stop) : reader.Stuck next.token := by
  intro wider after move
  rcases step_eq_next_or_fail move with moved | deep
  · cases stopped.symm.trans moved
  · cases stopped.symm.trans deep

theorem stuck_of_fail {reader : Reader} {next : Located} {error : ParseError}
    (failed : step limits 0 .list reader next = .fail error)
    (other : error ≠ .nestingTooDeep limits.maxDepth) : reader.Stuck next.token := by
  intro wider after move
  rcases step_eq_next_or_fail move with moved | deep
  · cases failed.symm.trans moved
  · exact other (Step.fail.inj (failed.symm.trans deep))

end Reader

/-- Just inside a related resource, its parenthesis is the last token that has been read. -/
theorem Runs.of_opened {reader after : Reader} {ts : List Token}
    (runs : Runs limits base goal reader ts after) (opened : after.place = .opened) :
    (ts = [] ∧ reader = after) ∨ ∃ us, ts = us ++ [.mark '('] := by
  induction runs with
  | done => exact .inl ⟨rfl, rfl⟩
  | @next reader token between us after move _ ih =>
    rcases ih opened with ⟨rfl, rfl⟩ | ⟨us, rfl⟩
    · -- The move is the last one, and only a parenthesis leads to such a place.
      right
      cases move with
      | descend opens room => exact ⟨[], rfl⟩
      | _ => cases opened
    · exact .inr ⟨token :: us, rfl⟩

theorem Spells.exists_last_mark {text : List Char} {ts : List Token} {symbol : Char}
    (spells : Spells text (ts ++ [.mark symbol])) :
    ∃ head blanks, text = head ++ symbol :: blanks ∧ Blanks blanks := by
  induction ts generalizing text with
  | nil =>
    cases spells with
    | @cons lead rest _ _ _ others =>
      cases others with
      | nil blanks => exact ⟨lead, rest, rfl, blanks⟩
  | cons token ts ih =>
    cases spells with
    | @cons lead rest _ _ _ others =>
      obtain ⟨head, blanks, rfl, blank⟩ := ih others
      exact ⟨lead ++ (token.chars ++ head), blanks, by simp, blank⟩

/-! ### Errors of parsing -/

section

variable {text : List Char} {before more : List Located} {next : Located} {reader : Reader}
  {error : ParseError}

/-- A text that has been read to its end is at fault if the reader must not finish there. -/
theorem fault_of_finish (runs : Runs limits 0 .list .empty (tokens text) reader)
    (failed : reader.finish = .error error) : Fault text error := by
  have incomplete : ¬ Accepted text := by
    intro accepted
    obtain ⟨wider, after, nodes, again, finished⟩ := accepted_iff_runs.mp accepted
    -- Under any limits reading comes to the same reader.
    obtain rfl := runs.unique again
    cases failed.symm.trans finished
  exact .early (viable_of_runs runs) incomplete (Reader.finish_eq_error failed)

/-- An error that carries the text from a token on is at fault if the reader is stuck there. -/
theorem fault_of_carried (divided : scan false text = before ++ next :: more)
    (runs : Runs limits 0 .list .empty (before.map (·.token)) reader) (stuck : reader.Stuck next.token)
    (carried : error.rest? = some (.ofList next.text)) : Fault text error := by
  obtain ⟨front, c, rest, same, located, visible, _, _, viable, dead⟩ :=
    exists_front_of_stuck divided runs stuck
  rw [located] at carried
  exact .wrong same viable visible dead carried

/-- A parenthesis that closes a related resource directly after its opening one is at fault. -/
theorem fault_of_closed (divided : scan false text = before ++ next :: more)
    (runs : Runs limits 0 .list .empty (before.map (·.token)) reader) (stuck : reader.Stuck next.token)
    (opened : reader.place = .opened) (closing : next.token = .mark ')') :
    Fault text .emptyEmbedding := by
  obtain ⟨front, c, rest, same, _, _, read, kind, viable, dead⟩ :=
    exists_front_of_stuck divided runs stuck
  obtain rfl : ')' = c := by
    rw [closing, Token.symbol?] at kind
    split at kind
    · cases kind
    · exact Option.some.inj kind
  -- The last token before is the parenthesis that opens, and only blanks come after it.
  obtain ⟨us, last⟩ : ∃ us, tokens front = us ++ [.mark '('] := by
    rw [read] at runs
    rcases runs.of_opened opened with ⟨_, rfl⟩ | last
    · cases opened
    · exact last
  have spells := spells_tokens front
  rw [last] at spells
  obtain ⟨head, blanks, rfl, blank⟩ := spells.exists_last_mark
  exact .hollow (by simpa using same) blank viable (by simpa using dead)

end

/-- A query is refused because of a limit, or for a fault of its own. -/
theorem parse_fault {query : String} {error : ParseError}
    (returned : parse limits query = .error error) :
    (∃ length, error = .inputTooLong length limits.maxLength) ∨
      error = .nestingTooDeep limits.maxDepth ∨ Fault query.toList error := by
  rw [parse] at returned
  split at returned
  · cases returned
    exact .inl ⟨_, rfl⟩
  right
  have texts (next : Located) (member : next ∈ scan false query.toList) : next.text ≠ [] :=
    (located_of_mem_scan false query.toList next member).2
  obtain ⟨before, back, reader, divided, runs, halts⟩ :=
    @Reader.exists_halt limits 0 .list .empty (scan false query.toList)
  generalize Reader.empty.run limits 0 .list (scan false query.toList) = outcome at halts returned
  cases halts with
  | ended =>
    right
    rw [List.append_nil] at divided
    rw [← divided] at runs
    cases finished : reader.finish with
    | ok nodes => simp [finished, Except.map] at returned
    | error found =>
      obtain rfl : found = error := by simpa [finished, Except.map] using returned
      exact fault_of_finish runs finished
  | @stopped next more stop =>
    right
    obtain ⟨nodes, finished⟩ := Reader.finish_of_stop stop
    have nonempty := texts next (by simp [divided])
    refine fault_of_carried divided runs (Reader.stuck_of_stop stop) ?_
    simp only [finished, Except.map] at returned
    cases returned
    rfl
  | @failed next found more fail =>
    obtain rfl : found = error := by simpa using returned
    have nonempty := texts next (by simp [divided])
    rcases Reader.step_eq_fail fail nonempty with deep | ⟨rfl, opened, closing⟩ | carried
    · exact .inl deep
    · right
      exact fault_of_closed divided runs (Reader.stuck_of_fail fail (by simp)) opened closing
    · right
      have other : found ≠ .nestingTooDeep limits.maxDepth := by
        rintro rfl
        cases carried
      exact fault_of_carried divided runs (Reader.stuck_of_fail fail other) carried

/-- An error points at the earliest place. Text that it carries starts at a visible character which
no query goes on with, while one begins with all that stands before. An error at the end of the text is
about one that can be completed and must be. An empty resource is reported at its closing parenthesis.
So a text that a query begins with is refused at its end, if not for a limit. -/
theorem parse_error_earliest {query : String} {error : ParseError}
    (returned : parse limits query = .error error) :
    (∀ rest, error.rest? = some rest → rest ≠ "" → ∃ front c more, rest.toList = c :: more ∧
      query.toList = front ++ rest.toList ∧ Viable front ∧ isBlank c = false ∧ ¬ Viable (front ++ [c])) ∧
    (error = .emptyInput ∨ error.rest? = some "" → Viable query.toList ∧ ¬ Accepted query.toList) ∧
    (error = .emptyEmbedding → ∃ head blanks rest, query.toList = head ++ '(' :: (blanks ++ ')' :: rest) ∧
      Blanks blanks ∧ Viable (head ++ '(' :: blanks) ∧ ¬ Viable (head ++ '(' :: (blanks ++ [')']))) ∧
    (Viable query.toList → error = .emptyInput ∨ error.rest? = some "" ∨
      error = .nestingTooDeep limits.maxDepth ∨ ∃ length, error = .inputTooLong length limits.maxLength) := by
  rcases parse_fault returned with ⟨length, rfl⟩ | rfl | fault
  · simp [ParseError.rest?]
  · simp [ParseError.rest?]
  cases fault with
  | early viable incomplete carries =>
    refine ⟨fun rest carried visible => ?_, fun _ => ⟨viable, incomplete⟩, ?_, ?_⟩
    · rcases carries with rfl | carries
      · cases carried
      · exact absurd (Option.some.inj (carried.symm.trans carries)) visible
    · rintro rfl
      simp [ParseError.rest?] at carries
    · intro _
      exact carries.elim .inl fun carries => .inr (.inl carries)
  | @wrong front c more _ divided viable visible stuck carries =>
    have wordless : String.ofList (c :: more) ≠ "" := by simp
    refine ⟨fun rest carried _ => ?_, ?_, ?_, fun whole => ?_⟩
    · obtain rfl := Option.some.inj (carries.symm.trans carried)
      exact ⟨front, c, more, by simp, by simpa using divided, viable, visible, stuck⟩
    · rintro (rfl | empty)
      · cases carries
      · exact absurd (Option.some.inj (carries.symm.trans empty)) wordless
    · rintro rfl
      cases carries
    · rw [divided, ← List.singleton_append, ← List.append_assoc] at whole
      exact absurd whole.of_append stuck
  | @hollow head blanks rest divided blank viable stuck =>
    refine ⟨by simp [ParseError.rest?], by simp [ParseError.rest?], fun _ => ?_, fun whole => ?_⟩
    · exact ⟨head, blanks, rest, divided, blank, viable, stuck⟩
    · have parts : query.toList = head ++ '(' :: (blanks ++ [')']) ++ rest := by simp [divided]
      rw [parts] at whole
      exact absurd whole.of_append stuck

/-- In the second entry of a nested list a hint is followed by a comma, and that is where the error is. -/
theorem parse_error_earliest_nested :
    parse ⟨2, 20⟩ "a(*, b : c ! d , e)" = .error (.missingEmbedding ", e)") ∧
    ∃ front, "a(*, b : c ! d , e)".toList = front ++ ", e)".toList ∧ Viable front ∧
      ¬ Viable (front ++ [',']) := by
  have returned : parse ⟨2, 20⟩ "a(*, b : c ! d , e)" = .error (.missingEmbedding ", e)") := rfl
  obtain ⟨front, c, more, text, divided, viable, _, stuck⟩ :=
    (parse_error_earliest returned).1 ", e)" rfl (by decide)
  obtain ⟨rfl, _⟩ := List.cons.inj text
  exact ⟨returned, front, divided, viable, stuck⟩

end SelectShape
