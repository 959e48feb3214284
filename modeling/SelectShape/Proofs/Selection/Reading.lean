import SelectShape.Proofs.Selection.Grammar
import SelectShape.Proofs.Selection.Reader

/-!
# What a reader has read

A reader keeps trees, not tokens. `Read` says which tokens it may have come from: each of its parts is
put down to a derivation of the grammar, or to the beginning of one. Main statement: reading a text with
no related resource open returns what its tokens derive, as long as it is nested within the limit.
-/
namespace SelectShape

variable {limits : Limits} {base : Nat} {goal : Goal}

/-- The tokens of the node that a place is in. -/
inductive ReadPlace : Place → List Token → Prop
  | start : ReadPlace .start []
  | opened : ReadPlace .opened []
  | named (name : IsName key) : ReadPlace (.named key) [.word key]
  | colon (name : IsName key) : ReadPlace (.renaming key) [.word key, .mark ':']
  | renamed (name : IsName key) (original : IsName source) :
      ReadPlace (.renamed key source) [.word key, .mark ':', .word source]
  | bang (name : IsName key) (original : IsName source) :
      ReadPlace (.hinting key source) [.word key, .mark ':', .word source, .mark '!']
  | hinted (name : IsName key) (original : IsName source) (foreignKey : IsName hint) :
      ReadPlace (.hinted key source hint)
        [.word key, .mark ':', .word source, .mark '!', .word hint]
  | complete (derived : DerivesNode ts node) : ReadPlace (.complete node) ts

/-- The tokens of finished nodes, latest first, with a comma after each. -/
inductive ReadNodes : List Node → List Token → Prop
  | nil : ReadNodes [] []
  | cons (before : ReadNodes nodes ts) (last : DerivesNode us node) :
      ReadNodes (node :: nodes) (ts ++ (us ++ [.mark ',']))

/-- The tokens up to the parenthesis that opened the innermost frame. -/
inductive ReadFrames : List Frame → List Token → Prop
  | nil : ReadFrames [] []
  | cons (outer : ReadFrames frames ts) (before : ReadNodes frame.before us)
      (head : DerivesHead vs frame.field) :
      ReadFrames (frame :: frames) (ts ++ (us ++ (vs ++ [.mark '('])))

/-- The tokens that a reader may have come from. -/
inductive Read : Reader → List Token → Prop
  | intro (outer : ReadFrames frames ts) (before : ReadNodes nodes us)
      (inside : ReadPlace place vs) : Read ⟨frames, nodes, place⟩ (ts ++ (us ++ vs))

/-! ### Soundness -/

theorem ReadPlace.derivesNode (inside : ReadPlace place ts) (ended : place.node? = some node) :
    DerivesNode ts node := by
  cases inside with
  | start | opened | colon | bang | hinted => cases ended
  | named name => cases ended; exact .column (.plain name)
  | renamed name original => cases ended; exact .column (.renamed name original)
  | complete derived => cases ended; exact derived

theorem ReadPlace.derivesHead (inside : ReadPlace place ts) (opens : place.field? = some field) :
    DerivesHead ts field := by
  cases inside with
  | start | opened | colon | bang | complete => cases opens
  | named name => cases opens; exact .bare (.plain name)
  | renamed name original => cases opens; exact .bare (.renamed name original)
  | hinted name original foreignKey => cases opens; exact .hinted name original foreignKey

/-- A list goes on from the nodes that were finished before it. -/
theorem ReadNodes.append (before : ReadNodes nodes ts) (others : DerivesNodes us list) :
    DerivesNodes (ts ++ us) (nodes.reverse ++ list) := by
  -- The latest node stands first, so each step moves one node over to the front of `list`.
  induction before generalizing us list with
  | nil => exact others
  | @cons nodes ts vs node _ last ih =>
    have longer : DerivesNodes (vs ++ .mark ',' :: us) (node :: list) := .cons last others
    simpa using ih longer

theorem ReadNodes.derivesNodes (before : ReadNodes nodes ts) (last : DerivesNode us node) :
    DerivesNodes (ts ++ us) (node :: nodes).reverse := by
  simpa using before.append (.single last)

/-- One token more has been read after a move. -/
theorem Read.advance (read : Read reader ts) (valid : token.Valid)
    (move : Advances limits base goal reader token after) : Read after (ts ++ [token]) := by
  cases read with
  | @intro frames ts nodes us place vs outer before inside =>
    cases move with
    -- At a fresh place nothing of the node has been read yet.
    | wildcard fresh =>
      obtain rfl : vs = [] := by rcases fresh with rfl | rfl <;> cases inside <;> rfl
      simpa using Read.intro outer before (.complete .wildcard)
    | name fresh =>
      obtain rfl : vs = [] := by rcases fresh with rfl | rfl <;> cases inside <;> rfl
      simpa using Read.intro outer before (.named valid)
    | rename =>
      cases inside with
      | named name => simpa using Read.intro outer before (.colon name)
    | original =>
      cases inside with
      | colon name => simpa using Read.intro outer before (.renamed name valid)
    | bang =>
      cases inside with
      | renamed name original => simpa using Read.intro outer before (.bang name original)
    | hint =>
      cases inside with
      | bang name original => simpa using Read.intro outer before (.hinted name original valid)
    | descend opens room =>
      have deeper : ReadFrames (⟨nodes, _⟩ :: frames) _ :=
        .cons outer before (inside.derivesHead opens)
      simpa using Read.intro deeper .nil .opened
    | comma ended more =>
      simpa using Read.intro outer (.cons before (inside.derivesNode ended)) .start
    | close ended =>
      cases outer with
      | cons outer earlier head =>
        -- The list inside and the head of the frame make up one node of the list around it.
        have children := before.derivesNodes (inside.derivesNode ended)
        have node := DerivesNode.embed head (.parens children)
        simpa using Read.intro outer earlier (.complete node)

/-- With no related resource open, the nodes of a reader derive from all that has been read. -/
theorem Read.derivesNodes (read : Read reader ts) (ended : reader.place.node? = some node)
    (closed : reader.frames = []) : DerivesNodes ts (node :: reader.nodes).reverse := by
  cases read with
  | @intro frames ts nodes us place vs outer before inside =>
    obtain rfl : frames = [] := closed
    cases outer
    exact before.derivesNodes (inside.derivesNode ended)

theorem Read.run (read : Read reader ts) (valid : ∀ token ∈ us, token.Valid)
    (runs : Runs limits base goal reader us after) : Read after (ts ++ us) := by
  induction runs generalizing ts with
  | done => simpa using read
  | @next reader token between us after move _ ih =>
    have here := read.advance (valid token (by simp)) move
    simpa using ih here fun later member => valid later (by simp [member])

/-! ### Nesting -/

theorem Node.maxDepth_le_iff {nodes : List Node} {bound : Nat} :
    Node.maxDepth nodes ≤ bound ↔ ∀ node ∈ nodes, node.depth ≤ bound := by
  induction nodes with
  | nil => simp [Node.maxDepth]
  | cons node nodes ih => rw [Node.maxDepth, Nat.max_le, ih, List.forall_mem_cons]

theorem Node.maxDepth_reverse (nodes : List Node) :
    Node.maxDepth nodes.reverse = Node.maxDepth nodes := by
  apply Nat.le_antisymm
  · rw [Node.maxDepth_le_iff]
    exact fun node member => Node.maxDepth_le_iff.mp le_rfl node (List.mem_reverse.mp member)
  · rw [Node.maxDepth_le_iff]
    exact fun node member => Node.maxDepth_le_iff.mp le_rfl node (List.mem_reverse.mpr member)

/-- The frames were opened within the limit, and what stands before them is nested within it. -/
def FramesWithin (limits : Limits) (base : Nat) : List Frame → Prop
  | [] => True
  | frame :: frames => base + frames.length < limits.maxDepth ∧
      base + frames.length + Node.maxDepth frame.before ≤ limits.maxDepth ∧
      FramesWithin limits base frames

/-- Everything that a reader holds is nested within the limit. -/
structure Within (limits : Limits) (base : Nat) (reader : Reader) : Prop where
  frames : FramesWithin limits base reader.frames
  nodes : base + reader.frames.length + Node.maxDepth reader.nodes ≤ limits.maxDepth
  place : ∀ node, reader.place.node? = some node →
    base + reader.frames.length + node.depth ≤ limits.maxDepth

theorem Within.advance (within : Within limits base reader)
    (move : Advances limits base goal reader token after) : Within limits base after := by
  obtain ⟨outer, finished, inside⟩ := within
  -- The level itself is within the limit, since finished nodes at that level are.
  have room := Nat.le_trans (Nat.le_add_right _ _) finished
  cases move with
  | wildcard fresh | name fresh | original =>
    refine ⟨outer, finished, fun node ended => ?_⟩
    cases ended
    simpa [Node.depth] using room
  | rename | bang | hint =>
    refine ⟨outer, finished, fun node ended => ?_⟩
    cases ended
  | descend opens deeper =>
    refine ⟨⟨deeper, finished, outer⟩, ?_, fun node ended => ?_⟩
    · exact Nat.succ_le_of_lt deeper
    · cases ended
  | comma ended more =>
    refine ⟨outer, ?_, fun node ended => ?_⟩
    · have last := inside _ ended
      simp only [Node.maxDepth] at finished last ⊢
      omega
    · cases ended
  | close ended =>
    obtain ⟨_, before, further⟩ := outer
    refine ⟨further, before, fun node same => ?_⟩
    -- One frame less and one level of nesting more for the node that closes.
    have last := inside _ ended
    cases same
    simp only [Node.depth, Node.maxDepth_reverse, Node.maxDepth, List.length_cons] at finished last ⊢
    omega

theorem Within.run (within : Within limits base reader)
    (runs : Runs limits base goal reader ts after) : Within limits base after := by
  induction runs with
  | done => exact within
  | next move _ ih => exact ih (within.advance move)

/-! ### Completeness -/

theorem DerivesName.runs (derived : DerivesName ts field) (frames : List Frame) (nodes : List Node)
    (fresh : place = .start ∨ place = .opened) :
    ∃ last, last.node? = some (.column field) ∧ last.field? = some field ∧
      Runs limits base goal ⟨frames, nodes, place⟩ ts ⟨frames, nodes, last⟩ := by
  cases derived with
  | plain name => exact ⟨.named _, rfl, rfl, .next (.name fresh) .done⟩
  | renamed name original =>
    exact ⟨.renamed _ _, rfl, rfl, .next (.name fresh) (.next .rename (.next .original .done))⟩

theorem DerivesHead.runs (derived : DerivesHead ts field) (frames : List Frame) (nodes : List Node)
    (fresh : place = .start ∨ place = .opened) :
    ∃ last, last.field? = some field ∧
      Runs limits base goal ⟨frames, nodes, place⟩ ts ⟨frames, nodes, last⟩ := by
  cases derived with
  | bare name =>
    obtain ⟨last, _, opens, runs⟩ := name.runs frames nodes fresh
    exact ⟨last, opens, runs⟩
  | hinted name original foreignKey =>
    exact ⟨.hinted _ _ _, rfl,
      .next (.name fresh) (.next .rename (.next .original (.next .bang (.next .hint .done))))⟩

mutual

/-- A reader at a fresh place reads a derived node, if that is nested within the limit. -/
theorem DerivesNode.runs : DerivesNode ts node → ∀ (frames : List Frame) (nodes : List Node)
    {place : Place}, place = .start ∨ place = .opened →
    base + frames.length + node.depth ≤ limits.maxDepth →
    ∃ last, last.node? = some node ∧
      Runs limits base goal ⟨frames, nodes, place⟩ ts ⟨frames, nodes, last⟩
  | .wildcard, frames, nodes, place, fresh, _ =>
    ⟨.complete .wildcard, rfl, .next (.wildcard fresh) .done⟩
  | .column name, frames, nodes, place, fresh, _ => by
    obtain ⟨last, ended, _, runs⟩ := name.runs frames nodes fresh
    exact ⟨last, ended, runs⟩
  | .embed head embedded, frames, nodes, place, fresh, room => by
    obtain ⟨last, opens, runs⟩ := head.runs frames nodes fresh
    exact ⟨.complete _, rfl, runs.append (embedded.runs frames nodes opens room)⟩

theorem DerivesEmbedded.runs : DerivesEmbedded ts children → ∀ (frames : List Frame)
    (nodes : List Node) {place : Place} {field : Field}, place.field? = some field →
    base + frames.length + (1 + Node.maxDepth children) ≤ limits.maxDepth →
    Runs limits base goal ⟨frames, nodes, place⟩ ts
      ⟨frames, nodes, .complete (.embed field children)⟩
  | .parens inside, frames, nodes, place, field, opens, room => by
    obtain ⟨finished, last, node, ended, same, runs⟩ :=
      inside.runs (⟨nodes, field⟩ :: frames) [] (.inr rfl) (by simp)
        (by simp only [List.length_cons]; omega)
    have closing : Advances limits base goal ⟨⟨nodes, field⟩ :: frames, finished, last⟩ (.mark ')')
        ⟨frames, nodes, .complete (.embed field (node :: finished).reverse)⟩ := .close ended
    rw [same] at closing
    exact .next (.descend opens (by omega)) (runs.append (.next closing .done))

/-- A reader at a fresh place reads a derived list up to its last node. -/
theorem DerivesNodes.runs : DerivesNodes ts list → ∀ (frames : List Frame) (nodes : List Node)
    {place : Place}, place = .start ∨ place = .opened → (frames = [] → goal = .list) →
    base + frames.length + Node.maxDepth list ≤ limits.maxDepth →
    ∃ finished last node, last.node? = some node ∧
      (node :: finished).reverse = nodes.reverse ++ list ∧
      Runs limits base goal ⟨frames, nodes, place⟩ ts ⟨frames, finished, last⟩
  | .single only, frames, nodes, place, fresh, _, room => by
    obtain ⟨last, ended, runs⟩ :=
      only.runs frames nodes fresh (by simpa [Node.maxDepth] using room)
    exact ⟨nodes, last, _, ended, by simp, runs⟩
  | .cons first others, frames, nodes, place, fresh, more, room => by
    simp only [Node.maxDepth] at room
    obtain ⟨between, between_ended, first_runs⟩ := first.runs frames nodes fresh (by omega)
    obtain ⟨finished, last, node, ended, same, runs⟩ :=
      others.runs frames (_ :: nodes) (.inl rfl) more (by omega)
    exact ⟨finished, last, node, ended, by simpa using same,
      first_runs.append (.next (.comma between_ended more) runs)⟩

end

/-! ### Whole texts -/

/-- Reading a list of valid tokens to its end returns what they derive within the limit. -/
theorem Reader.run_eq_ok_iff {located : List Located} {nodes : List Node}
    (valid : ∀ next ∈ located, next.token.Valid ∧ next.text ≠ []) :
    Reader.empty.run limits 0 .list located = .ok (nodes, []) ↔
      DerivesNodes (located.map (·.token)) nodes ∧ Node.maxDepth nodes ≤ limits.maxDepth := by
  rw [run_eq_ok_nil_iff fun next among => (valid next among).2]
  constructor
  · rintro ⟨after, runs, finished⟩
    have tokensValid : ∀ token ∈ located.map (·.token), token.Valid := by
      intro token member
      obtain ⟨next, among, rfl⟩ := List.mem_map.mp member
      exact (valid next among).1
    -- What the reader came from and how deep it went, both carried along the run.
    have read : Read after (located.map (·.token)) := by
      simpa using (Read.intro .nil .nil .start).run tokensValid runs
    have initial : Within limits 0 empty :=
      ⟨trivial, by simp [empty, Node.maxDepth], by simp [empty, Place.node?]⟩
    have within := initial.run runs
    obtain ⟨node, ended, closed, rfl⟩ := finish_eq_ok_iff.mp finished
    refine ⟨read.derivesNodes ended closed, ?_⟩
    have finishedDepth := within.nodes
    have lastDepth := within.place node ended
    simp only [closed, List.length_nil] at finishedDepth lastDepth
    simp only [Node.maxDepth_reverse, Node.maxDepth]
    omega
  · rintro ⟨derived, room⟩
    -- The derivation leads to a place where the list may finish, with every token used up.
    obtain ⟨finished, last, node, ended, same, runs⟩ :=
      derived.runs [] [] (.inl rfl) (fun _ => rfl) (show 0 + 0 + _ ≤ limits.maxDepth by simpa using room)
    exact ⟨_, runs, finish_eq_ok_iff.mpr ⟨node, ended, rfl, by simpa using same.symm⟩⟩

end SelectShape
