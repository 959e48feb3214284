import SelectShape.Proofs.Success
import SelectShape.Selection.Parse
import Mathlib.Data.List.Basic

/-!
# How a reader moves

`Advances` lists what a token can do to a reader that goes on, and `Runs` strings such moves together.
Main statements: the step function advances a reader exactly so, a run is a string of moves up to a reader
that halts, and limits decide only how far it goes.
-/
namespace SelectShape

/-- A token advances a reader to another one. A node begins at a fresh place, a word or a mark leads on
inside it, a parenthesis opens a select list where room for one more level is left, and a comma or a
closing parenthesis follows a node. -/
inductive Advances (limits : Limits) (base : Nat) (goal : Goal) : Reader → Token → Reader → Prop
  | wildcard (fresh : place = .start ∨ place = .opened) :
      Advances limits base goal ⟨frames, nodes, place⟩ (.mark '*')
        ⟨frames, nodes, .complete .wildcard⟩
  | name (fresh : place = .start ∨ place = .opened) :
      Advances limits base goal ⟨frames, nodes, place⟩ (.word key) ⟨frames, nodes, .named key⟩
  | rename :
      Advances limits base goal ⟨frames, nodes, .named key⟩ (.mark ':')
        ⟨frames, nodes, .renaming key⟩
  | original :
      Advances limits base goal ⟨frames, nodes, .renaming key⟩ (.word source)
        ⟨frames, nodes, .renamed key source⟩
  | bang :
      Advances limits base goal ⟨frames, nodes, .renamed key source⟩ (.mark '!')
        ⟨frames, nodes, .hinting key source⟩
  | hint :
      Advances limits base goal ⟨frames, nodes, .hinting key source⟩ (.word hint)
        ⟨frames, nodes, .hinted key source hint⟩
  | descend (opens : place.field? = some field) (room : base + frames.length < limits.maxDepth) :
      Advances limits base goal ⟨frames, nodes, place⟩ (.mark '(')
        ⟨⟨nodes, field⟩ :: frames, [], .opened⟩
  | comma (ended : place.node? = some node) (more : frames = [] → goal = .list) :
      Advances limits base goal ⟨frames, nodes, place⟩ (.mark ',') ⟨frames, node :: nodes, .start⟩
  | close (ended : place.node? = some node) :
      Advances limits base goal ⟨frame :: frames, nodes, place⟩ (.mark ')')
        ⟨frames, frame.before, .complete (.embed frame.field (node :: nodes).reverse)⟩

/-- Tokens advance a reader one after another. -/
inductive Runs (limits : Limits) (base : Nat) (goal : Goal) : Reader → List Token → Reader → Prop
  | done : Runs limits base goal reader [] reader
  | next (move : Advances limits base goal reader token between)
      (others : Runs limits base goal between ts after) :
      Runs limits base goal reader (token :: ts) after

variable {limits : Limits} {base : Nat} {goal : Goal}

/-! ### Steps -/

/-- What a place makes of a token, whatever the limits and whatever else the reader holds: the token leads
on inside a node, closes a related resource that selects nothing, opens a select list, comes behind a node,
which is for the list around it to deal with, or is wrong. -/
inductive Place.Meets (place : Place) (token : Token) : Prop
  | inside (next : Place)
      (moves : ∀ {limits base goal frames nodes},
        Advances limits base goal ⟨frames, nodes, place⟩ token ⟨frames, nodes, next⟩)
      (steps : ∀ {limits base goal frames nodes text},
        Reader.step limits base goal ⟨frames, nodes, place⟩ ⟨token, text⟩ = .next ⟨frames, nodes, next⟩)
  | hollow (opened : place = .opened) (closing : token = .mark ')')
      (steps : ∀ {limits base goal frames nodes text},
        Reader.step limits base goal ⟨frames, nodes, place⟩ ⟨token, text⟩ = .fail .emptyEmbedding)
  | opening (field : Field) (opens : place.field? = some field) (parenthesis : token = .mark '(')
      (steps : ∀ {limits base goal frames nodes text},
        Reader.step limits base goal ⟨frames, nodes, place⟩ ⟨token, text⟩ =
          Reader.openList limits base ⟨frames, nodes, place⟩ field)
  | behind (node : Node) (ended : place.node? = some node)
      (steps : ∀ {limits base goal frames nodes text},
        Reader.step limits base goal ⟨frames, nodes, place⟩ ⟨token, text⟩ =
          Reader.afterNode goal ⟨frames, nodes, place⟩ node ⟨token, text⟩)
  | wrong (unfinished : place.node? = none)
      (steps : ∀ {limits base goal frames nodes text},
        Reader.step limits base goal ⟨frames, nodes, place⟩ ⟨token, text⟩ =
          .fail (place.incomplete (.ofList text)))

theorem Place.meets : (place : Place) → (token : Token) → place.Meets token
  | .start, .word key => .inside (.named key) (.name (.inl rfl)) rfl
  | .start, .mark c => by
    by_cases star : c = '*'
    · subst star
      exact .inside (.complete .wildcard) (.wildcard (.inl rfl)) rfl
    · exact .wrong rfl (by simp [Reader.step, field?, node?, star])
  | .opened, .word key => .inside (.named key) (.name (.inr rfl)) rfl
  | .opened, .mark c => by
    by_cases star : c = '*'
    · subst star
      exact .inside (.complete .wildcard) (.wildcard (.inr rfl)) rfl
    by_cases closing : c = ')'
    · subst closing
      exact .hollow rfl rfl rfl
    · exact .wrong rfl (by simp [Reader.step, field?, node?, star, closing])
  | .named key, .word _ => .behind (.column (.plain key)) rfl rfl
  | .named key, .mark c => by
    by_cases colon : c = ':'
    · subst colon
      exact .inside (.renaming key) .rename rfl
    by_cases parenthesis : c = '('
    · subst parenthesis
      exact .opening (.plain key) rfl rfl rfl
    · exact .behind (.column (.plain key)) rfl
        (by simp [Reader.step, field?, node?, colon, parenthesis])
  | .renaming key, .word source => .inside (.renamed key source) .original rfl
  | .renaming _, .mark _ => .wrong rfl rfl
  | .renamed key source, .word _ => .behind (.column (.renamed key source)) rfl rfl
  | .renamed key source, .mark c => by
    by_cases bang : c = '!'
    · subst bang
      exact .inside (.hinting key source) .bang rfl
    by_cases parenthesis : c = '('
    · subst parenthesis
      exact .opening (.renamed key source) rfl rfl rfl
    · exact .behind (.column (.renamed key source)) rfl
        (by simp [Reader.step, field?, node?, bang, parenthesis])
  | .hinting key source, .word hint => .inside (.hinted key source hint) .hint rfl
  | .hinting _ _, .mark _ => .wrong rfl rfl
  | .hinted _ _ _, .word _ => .wrong rfl rfl
  | .hinted key source hint, .mark c => by
    by_cases parenthesis : c = '('
    · subst parenthesis
      exact .opening ⟨key, source, some hint⟩ rfl rfl rfl
    · exact .wrong rfl (by simp [Reader.step, field?, node?, parenthesis])
  | .complete node, _ => .behind node rfl rfl

namespace Reader

private theorem advances_of_afterNode {reader after : Reader} {node : Node} {located : Located}
    (ended : reader.place.node? = some node)
    (returned : afterNode goal reader node located = .next after) (limits : Limits) (base : Nat) :
    Advances limits base goal reader located.token after := by
  obtain ⟨frames, nodes, place⟩ := reader
  obtain ⟨token, text⟩ := located
  simp only [afterNode] at returned
  -- Without a frame only a comma goes on, with one also a closing parenthesis.
  split at returned
  · split at returned
    next list =>
      cases returned
      exact .comma ended fun _ => list
    · cases returned
  · cases returned
  · cases returned
    exact .comma ended (by simp)
  · cases returned
    exact .close ended
  · cases returned

private theorem advances_of_step {reader after : Reader} {located : Located}
    (returned : step limits base goal reader located = .next after) :
    Advances limits base goal reader located.token after := by
  obtain ⟨frames, nodes, place⟩ := reader
  obtain ⟨token, text⟩ := located
  cases place.meets token with
  | inside next moves steps =>
    rw [steps] at returned
    cases returned
    exact moves
  | hollow opened closing steps =>
    rw [steps] at returned
    cases returned
  | opening field opens parenthesis steps =>
    rw [steps, openList] at returned
    split at returned
    · cases returned
    next room =>
      cases returned
      subst parenthesis
      exact .descend opens (Nat.lt_of_not_le room)
  | behind node ended steps =>
    rw [steps] at returned
    exact advances_of_afterNode ended returned limits base
  | wrong unfinished steps =>
    rw [steps] at returned
    cases returned

theorem step_of_field? {reader : Reader} {field : Field} (opens : reader.place.field? = some field)
    (text : List Char) :
    step limits base goal reader ⟨.mark '(', text⟩ = openList limits base reader field := by
  obtain ⟨frames, nodes, place⟩ := reader
  cases place <;> cases opens <;> rfl

theorem step_of_node? {reader : Reader} {node : Node} (ended : reader.place.node? = some node)
    {symbol : Char} (follows : symbol = ',' ∨ symbol = ')') (text : List Char) :
    step limits base goal reader ⟨.mark symbol, text⟩ =
      afterNode goal reader node ⟨.mark symbol, text⟩ := by
  obtain ⟨frames, nodes, place⟩ := reader
  rcases follows with rfl | rfl <;> cases place <;> cases ended <;> rfl

private theorem step_of_advances {reader after : Reader} {located : Located}
    (move : Advances limits base goal reader located.token after) :
    step limits base goal reader located = .next after := by
  obtain ⟨token, text⟩ := located
  cases move with
  | wildcard fresh | name fresh => rcases fresh with rfl | rfl <;> rfl
  | rename | original | bang | hint => rfl
  | descend opens room =>
    rw [step_of_field? opens]
    exact if_neg (by simpa using room)
  | comma ended more =>
    rw [step_of_node? ended (.inl rfl)]
    simp only [afterNode]
    split <;> simp_all
  | close ended => exact step_of_node? ended (.inr rfl) text

/-- The step function goes on exactly where a token advances the reader, and as it does. -/
theorem step_eq_next_iff {reader after : Reader} {located : Located} :
    step limits base goal reader located = .next after ↔
      Advances limits base goal reader located.token after :=
  ⟨advances_of_step, step_of_advances⟩

/-- A reader may finish after a complete node when no related resource is open. -/
theorem finish_eq_ok_iff {reader : Reader} {nodes : List Node} :
    reader.finish = .ok nodes ↔ ∃ node, reader.place.node? = some node ∧ reader.frames = [] ∧
      nodes = (node :: reader.nodes).reverse := by
  constructor
  · intro returned
    unfold finish at returned
    split at returned
    next node ended closed =>
      cases returned
      exact ⟨node, ended, closed, rfl⟩
    · cases returned
  · rintro ⟨node, ended, closed, rfl⟩
    simp [finish, ended, closed]

/-! ### Runs -/

theorem run_of_runs {reader after : Reader} {front : List Located} (rest : List Located)
    (runs : Runs limits base goal reader (front.map (·.token)) after) :
    run limits base goal reader (front ++ rest) = run limits base goal after rest := by
  induction front generalizing reader with
  | nil => cases runs; rfl
  | cons located front ih =>
    cases runs with
    | next move others => simp only [List.cons_append, run, step_eq_next_iff.mpr move, ih others]

/-- What a reader makes of the tokens that it does not go on with: they are over, the next one is not part
of what is read, or it is wrong. -/
inductive Halts (limits : Limits) (base : Nat) (goal : Goal) (reader : Reader) :
    List Located → Except ParseError (List Node × List Char) → Prop
  | ended : Halts limits base goal reader [] (reader.finish.map (·, []))
  | stopped (stop : step limits base goal reader next = .stop) :
      Halts limits base goal reader (next :: more) (reader.finish.map (·, next.text))
  | failed (fail : step limits base goal reader next = .fail error) :
      Halts limits base goal reader (next :: more) (.error error)

/-- A run is a string of moves up to a reader that halts. -/
theorem exists_halt (reader : Reader) (located : List Located) :
    ∃ front back after, located = front ++ back ∧
      Runs limits base goal reader (front.map (·.token)) after ∧
      Halts limits base goal after back (run limits base goal reader located) := by
  induction located generalizing reader with
  | nil => exact ⟨[], [], reader, rfl, .done, .ended⟩
  | cons next more ih =>
    simp only [run]
    split
    next between moved =>
      obtain ⟨front, back, after, rfl, runs, halts⟩ := ih between
      exact ⟨next :: front, back, after, rfl, .next (step_eq_next_iff.mp moved) runs, halts⟩
    next stop => exact ⟨[], next :: more, reader, rfl, .done, .stopped stop⟩
    next error fail => exact ⟨[], next :: more, reader, rfl, .done, .failed fail⟩

/-- Reading comes to the end of the tokens exactly if they advance the reader to one that may finish. -/
theorem run_eq_ok_nil_iff {reader : Reader} {located : List Located} {nodes : List Node}
    (texts : ∀ next ∈ located, next.text ≠ []) :
    run limits base goal reader located = .ok (nodes, []) ↔
      ∃ after, Runs limits base goal reader (located.map (·.token)) after ∧ after.finish = .ok nodes := by
  constructor
  · intro returned
    obtain ⟨front, back, after, rfl, runs, halts⟩ := @exists_halt limits base goal reader located
    rw [returned] at halts
    generalize result : (Except.ok (nodes, []) : Except ParseError (List Node × List Char)) = outcome
      at halts
    -- No text is left over, so the run did not stop before the end of the tokens.
    cases halts with
    | ended =>
      obtain ⟨_, finished, same⟩ := map_eq_ok_iff.mp result.symm
      cases same
      exact ⟨after, by simpa using runs, finished⟩
    | stopped stop =>
      obtain ⟨_, _, same⟩ := map_eq_ok_iff.mp result.symm
      exact absurd (Prod.mk.inj same).2 (texts _ (by simp))
    | failed fail => cases result
  · rintro ⟨after, runs, finished⟩
    have whole := run_of_runs [] runs
    rw [List.append_nil] at whole
    rw [whole, run, finished]
    rfl

end Reader

theorem Runs.append {reader between after : Reader} {ts us : List Token}
    (first : Runs limits base goal reader ts between)
    (last : Runs limits base goal between us after) :
    Runs limits base goal reader (ts ++ us) after := by
  induction first with
  | done => exact last
  | next move _ ih => exact .next move (ih last)

theorem runs_append_iff {reader after : Reader} {ts us : List Token} :
    Runs limits base goal reader (ts ++ us) after ↔
      ∃ between, Runs limits base goal reader ts between ∧ Runs limits base goal between us after := by
  constructor
  · intro runs
    induction ts generalizing reader with
    | nil => exact ⟨reader, .done, runs⟩
    | cons token ts ih =>
      cases runs with
      | next move others =>
        obtain ⟨between, first, last⟩ := ih others
        exact ⟨between, .next move first, last⟩
  · rintro ⟨between, first, last⟩
    exact first.append last

/-! ### Other limits -/

variable {wider : Limits}

theorem Advances.widen {reader after : Reader} {token : Token}
    (move : Advances limits base goal reader token after) (wide : limits.maxDepth ≤ wider.maxDepth) :
    Advances wider base goal reader token after := by
  cases move with
  | wildcard fresh => exact .wildcard fresh
  | name fresh => exact .name fresh
  | rename => exact .rename
  | original => exact .original
  | bang => exact .bang
  | hint => exact .hint
  | descend opens room => exact .descend opens (Nat.lt_of_lt_of_le room wide)
  | comma ended more => exact .comma ended more
  | close ended => exact .close ended

theorem Runs.widen {reader after : Reader} {ts : List Token}
    (runs : Runs limits base goal reader ts after) (wide : limits.maxDepth ≤ wider.maxDepth) :
    Runs wider base goal reader ts after := by
  induction runs with
  | done => exact .done
  | next move _ ih => exact .next (move.widen wide) ih

/-- Where a token advances a reader to does not depend on the limits. -/
theorem Advances.unique {reader after again : Reader} {token : Token}
    (move : Advances limits base goal reader token after)
    (other : Advances wider base goal reader token again) : after = again := by
  -- Under the wider one of both limits, the step function makes either move.
  have first : Advances ⟨max limits.maxDepth wider.maxDepth, 0⟩ base goal reader token after :=
    move.widen (Nat.le_max_left _ _)
  have second : Advances ⟨max limits.maxDepth wider.maxDepth, 0⟩ base goal reader token again :=
    other.widen (Nat.le_max_right _ _)
  have moved : Reader.step ⟨max limits.maxDepth wider.maxDepth, 0⟩ base goal reader ⟨token, []⟩ =
      .next after := Reader.step_eq_next_iff.mpr first
  rw [Reader.step_eq_next_iff.mpr second] at moved
  exact (Step.next.inj moved).symm

theorem Runs.unique {reader after again : Reader} {ts : List Token}
    (runs : Runs limits base goal reader ts after) (others : Runs wider base goal reader ts again) :
    after = again := by
  induction runs with
  | done => cases others; rfl
  | next move _ ih =>
    cases others with
    | next other later =>
      obtain rfl := move.unique other
      exact ih later

end SelectShape
