import SelectShape.Proofs.Selection.Parse
import SelectShape.Proofs.Selection.Position

/-!
# Texts that can be completed

A text is viable if a query begins with it that is accepted under some limits. Main statements: a text
whose tokens a reader can go through is viable, since a reader can be led to the end from every place;
and with one more character it is not, if no token that begins with the character advances the reader.
-/
namespace SelectShape

/-- Parsing accepts the text under some limits. -/
def Accepted (text : List Char) : Prop := ∃ limits nodes, parse limits (.ofList text) = .ok nodes

/-- An accepted text begins with the text. -/
def Viable (text : List Char) : Prop := ∃ rest, Accepted (text ++ rest)

theorem Viable.of_append {text rest : List Char} (viable : Viable (text ++ rest)) : Viable text := by
  obtain ⟨further, accepted⟩ := viable
  exact ⟨rest ++ further, by rwa [← List.append_assoc]⟩

variable {limits : Limits} {base : Nat} {goal : Goal}

theorem accepted_iff_runs {text : List Char} :
    Accepted text ↔ ∃ limits after nodes,
      Runs limits 0 .list .empty (tokens text) after ∧ after.finish = .ok nodes := by
  have reading (limits : Limits) (nodes : List Node) :
      Reader.empty.run limits 0 .list (scan false text) = .ok (nodes, []) ↔
        ∃ after, Runs limits 0 .list .empty (tokens text) after ∧ after.finish = .ok nodes :=
    Reader.run_eq_ok_nil_iff fun next member => (located_of_mem_scan false text next member).2
  constructor
  · rintro ⟨limits, nodes, returned⟩
    rw [parse_eq_ok_iff_run, String.toList_ofList, reading] at returned
    obtain ⟨_, after, runs, finished⟩ := returned
    exact ⟨limits, after, nodes, runs, finished⟩
  · rintro ⟨limits, after, nodes, runs, finished⟩
    refine ⟨⟨limits.maxDepth, (String.ofList text).utf8ByteSize⟩, nodes, ?_⟩
    rw [parse_eq_ok_iff_run, String.toList_ofList, reading]
    exact ⟨le_rfl, after, runs.widen le_rfl, finished⟩

/-! ### Completing what has been read -/

/-- Tokens that bring a node to its end. -/
def Place.completion : Place → List Token
  | .start | .opened => [.mark '*']
  | .renaming _ => [.word "a"]
  | .hinting _ _ => [.word "a", .mark '(', .mark '*', .mark ')']
  | .hinted _ _ _ => [.mark '(', .mark '*', .mark ')']
  | .named _ | .renamed _ _ | .complete _ => []

/-- Tokens that bring a node to its end and then close every related resource. -/
def Reader.completion (reader : Reader) : List Token :=
  reader.place.completion ++ List.replicate reader.frames.length (.mark ')')

theorem Place.completion_runs (place : Place) {frames : List Frame} (nodes : List Node)
    (room : base + frames.length < limits.maxDepth) :
    ∃ last node, last.node? = some node ∧
      Runs limits base goal ⟨frames, nodes, place⟩ place.completion ⟨frames, nodes, last⟩ := by
  have resource {place : Place} {field : Field} (opens : place.field? = some field) :
      Runs limits base goal ⟨frames, nodes, place⟩ [.mark '(', .mark '*', .mark ')']
        ⟨frames, nodes, .complete (.embed field [.wildcard])⟩ :=
    .next (.descend opens room) (.next (.wildcard (.inr rfl)) (.next (.close rfl) .done))
  match place with
  | .start => exact ⟨_, _, rfl, .next (.wildcard (.inl rfl)) .done⟩
  | .opened => exact ⟨_, _, rfl, .next (.wildcard (.inr rfl)) .done⟩
  | .renaming key => exact ⟨_, _, rfl, .next .original .done⟩
  | .hinting key source => exact ⟨_, _, rfl, .next .hint (resource rfl)⟩
  | .hinted key source hint => exact ⟨_, _, rfl, resource rfl⟩
  | .named key => exact ⟨_, _, rfl, .done⟩
  | .renamed key source => exact ⟨_, _, rfl, .done⟩
  | .complete node => exact ⟨_, _, rfl, .done⟩

theorem closing_runs (frames : List Frame) {nodes : List Node} {place : Place} {node : Node}
    (ended : place.node? = some node) :
    ∃ after result, Runs limits base goal ⟨frames, nodes, place⟩
      (List.replicate frames.length (.mark ')')) after ∧ after.finish = .ok result := by
  induction frames generalizing nodes place node with
  | nil => exact ⟨_, _, .done, Reader.finish_eq_ok_iff.mpr ⟨node, ended, rfl, rfl⟩⟩
  | cons frame frames ih =>
    have closed : Advances limits base goal ⟨frame :: frames, nodes, place⟩ (.mark ')')
        ⟨frames, frame.before, .complete (.embed frame.field (node :: nodes).reverse)⟩ := .close ended
    have complete : Place.node? (.complete (.embed frame.field (node :: nodes).reverse)) =
      some (.embed frame.field (node :: nodes).reverse) := rfl
    obtain ⟨after, result, runs, finished⟩ := ih complete
    exact ⟨after, result, .next closed runs, finished⟩

/-- Every reader can be led to the end, where the limit leaves room for one more level. -/
theorem Reader.completion_runs (reader : Reader) (room : base + reader.frames.length < limits.maxDepth) :
    ∃ after result, Runs limits base goal reader reader.completion after ∧
      after.finish = .ok result := by
  obtain ⟨frames, nodes, place⟩ := reader
  obtain ⟨last, node, ended, first⟩ := place.completion_runs nodes room
  obtain ⟨after, result, closing, finished⟩ := closing_runs frames ended
  exact ⟨after, result, first.append closing, finished⟩

theorem Reader.completion_valid (reader : Reader) : ∀ token ∈ reader.completion, token.Valid := by
  have name : (Token.word "a").Valid := ⟨by decide, List.forall_mem_singleton.mpr rfl⟩
  have marks : (Token.mark '(').Valid ∧ (Token.mark '*').Valid ∧ (Token.mark ')').Valid :=
    ⟨⟨by decide, by decide⟩, ⟨by decide, by decide⟩, by decide, by decide⟩
  obtain ⟨frames, nodes, place⟩ := reader
  refine List.forall_mem_append.mpr ⟨?_, fun token member => ?_⟩
  · cases place <;> simp [Place.completion, marks, name]
  · rw [List.eq_of_mem_replicate member]
    exact marks.2.2

/-- A blank before each token keeps them apart. -/
theorem tokens_spaced {ts : List Token} (valid : ∀ token ∈ ts, token.Valid) :
    tokens (ts.flatMap fun token => ' ' :: token.chars) = ts := by
  induction ts with
  | nil => rfl
  | cons token ts ih =>
    obtain ⟨head, later⟩ := List.forall_mem_cons.mp valid
    rw [List.flatMap_cons, List.cons_append, tokens_cons_blank (by decide), tokens_token_append head,
      ih later]
    intro _ c first
    cases ts with
    | nil => simp at first
    | cons next ts =>
      obtain rfl : ' ' = c := by simpa using first
      decide

theorem viable_of_runs {text : List Char} {reader : Reader}
    (runs : Runs limits 0 .list .empty (tokens text) reader) : Viable text := by
  -- Room for what has been read already, and for one more level.
  let wider : Limits := ⟨max limits.maxDepth (reader.frames.length + 1), 0⟩
  have room : 0 + reader.frames.length < wider.maxDepth :=
    Nat.lt_of_lt_of_le (by omega) (Nat.le_max_right _ _)
  obtain ⟨after, nodes, completed, finished⟩ := reader.completion_runs room
  have whole := (runs.widen (Nat.le_max_left _ _)).append completed
  have parted : Parted false text (reader.completion.flatMap fun token => ' ' :: token.chars) := by
    intro _ c first
    cases rest : reader.completion with
    | nil => simp [rest] at first
    | cons token ts =>
      obtain rfl : ' ' = c := by simpa [rest] using first
      decide
  refine ⟨reader.completion.flatMap fun token => ' ' :: token.chars, accepted_iff_runs.mpr ?_⟩
  rw [tokens_append parted, tokens_spaced reader.completion_valid]
  exact ⟨wider, after, nodes, whole, finished⟩

/-! ### Where nothing can follow -/

/-- Whether a token advances a reader depends on its kind, not on which word it is. -/
theorem Advances.of_symbol? {reader after : Reader} {token other : Token}
    (move : Advances limits base goal reader token after) (kind : token.symbol? = other.symbol?) :
    ∃ again, Advances limits base goal reader other again := by
  cases token with
  | mark symbol =>
    obtain rfl : .mark symbol = other := by cases other <;> simp_all [Token.symbol?]
    exact ⟨after, move⟩
  | word text =>
    cases other with
    | mark symbol => cases kind
    | word again =>
      cases move with
      | name fresh => exact ⟨_, .name fresh⟩
      | original => exact ⟨_, .original⟩
      | hint => exact ⟨_, .hint⟩

def Reader.Stuck (reader : Reader) (token : Token) : Prop :=
  ∀ limits after, ¬ Advances limits 0 .list reader token after

theorem not_viable_of_stuck {front : List Char} {c : Char} {reader : Reader} {token : Token}
    (runs : Runs limits 0 .list .empty (tokens front) reader) (stuck : reader.Stuck token)
    (visible : isBlank c = false) (kind : token.symbol? = if isWordChar c then none else some c)
    (divided : ∀ more, tokens (front ++ c :: more) = tokens front ++ tokens (c :: more)) :
    ¬ Viable (front ++ [c]) := by
  rintro ⟨more, accepted⟩
  rw [List.append_assoc] at accepted
  obtain ⟨wider, after, nodes, whole, _⟩ := accepted_iff_runs.mp accepted
  obtain ⟨first, others, same, begins⟩ := exists_tokens_cons visible more
  rw [List.singleton_append, divided, same, runs_append_iff] at whole
  -- Whatever follows, reading comes to the same reader and then to a token of the same kind.
  obtain ⟨between, again, last⟩ := whole
  obtain rfl := runs.unique again
  cases last with
  | next move _ =>
    obtain ⟨further, impossible⟩ := move.of_symbol? (begins.trans kind.symm)
    exact stuck wider further impossible

/-- A reader that is stuck at a token marks a place: the text is viable up to the token, and not with
the first character of the token. -/
theorem exists_front_of_stuck {text : List Char} {before more : List Located} {next : Located}
    {reader : Reader} (divided : scan false text = before ++ next :: more)
    (runs : Runs limits 0 .list .empty (before.map (·.token)) reader) (stuck : reader.Stuck next.token) :
    ∃ front c rest, text = front ++ c :: rest ∧ next.text = c :: rest ∧ isBlank c = false ∧
      before.map (·.token) = tokens front ∧ next.token.symbol? = (if isWordChar c then none else some c) ∧
      Viable front ∧ ¬ Viable (front ++ [c]) := by
  obtain ⟨front, c, rest, same, located, visible, read, kind, parted⟩ := exists_front_of_mem_scan divided
  rw [read] at runs
  have dead := not_viable_of_stuck runs stuck visible kind parted
  exact ⟨front, c, rest, same, located, visible, read, kind, viable_of_runs runs, dead⟩

end SelectShape
