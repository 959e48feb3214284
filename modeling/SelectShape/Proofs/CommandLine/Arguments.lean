import SelectShape.Proofs.Settings.Sources
import SelectShape.Proofs.Success

/-!
# Values of options

Reading arguments keeps a value only where an option of its name accepts it. Main statement: the variable
for the limit on depth gives a command line that limit where no option does, and changes nothing else of
what is asked for.
-/
namespace SelectShape.CommandLine

variable {options : List OptionSpec} {given next : Given} {option : OptionSpec}

/-- Every value is one that some option of its name accepts. -/
def Given.Accepted (options : List OptionSpec) (given : Given) : Prop :=
  ∀ name value, (name, value) ∈ given.options →
    ∃ option ∈ options, option.name = name ∧ option.accepts.all (· value)

/-- Every limit on depth is one. -/
def Given.DepthDenotes (given : Given) : Prop :=
  ∀ value, given.value? .maxDepth = some value → (limit? value).isSome

/-! ### What is kept of one argument -/

namespace Given

theorem nothing_accepted : nothing.Accepted options := fun _ _ member => by cases member

theorem Accepted.add (accepted : given.Accepted options) (member : option ∈ options) {value : String}
    (added : given.add option value = .ok next) : next.Accepted options := by
  unfold Given.add at added
  split at added
  · cases added
  next fits =>
    simp only [Bool.or_eq_true, Bool.not_eq_true', not_or, Bool.not_eq_false] at fits
    split at added
    · cases added
    · split at added
      · cases added
      · obtain rfl := Except.ok.inj added
        intro name text stored
        rcases List.mem_cons.mp stored with same | earlier
        · obtain ⟨rfl, rfl⟩ := Prod.mk.inj same
          exact ⟨option, member, rfl, fits.2⟩
        · exact accepted name text earlier

theorem Accepted.addWord (accepted : given.Accepted options) {limit : Nat} {word : String}
    (added : given.addWord limit word = .ok next) : next.Accepted options := by
  unfold Given.addWord at added
  split at added
  · obtain rfl := Except.ok.inj added
    exact accepted
  · cases added

theorem Accepted.addWords (accepted : given.Accepted options) {limit : Nat} {words : List String}
    (added : words.foldlM (·.addWord limit) given = .ok next) : next.Accepted options := by
  induction words generalizing given with
  | nil =>
    obtain rfl := Except.ok.inj added
    exact accepted
  | cons word words ih =>
    obtain ⟨middle, first, rest⟩ := bind_eq_ok_iff.mp added
    exact ih (accepted.addWord first) rest

theorem Accepted.addShort {text : List Char} {pending : Option OptionSpec}
    (accepted : given.Accepted options)
    (added : CommandLine.addShort options given text = .ok (next, pending)) :
    next.Accepted options ∧ ∀ option ∈ pending, option ∈ options := by
  induction text generalizing given with
  | nil =>
    obtain ⟨rfl, rfl⟩ := Prod.mk.inj (Except.ok.inj added)
    exact ⟨accepted, by simp⟩
  | cons c rest ih =>
    unfold CommandLine.addShort at added
    split at added
    · cases added
    next option found =>
      have member := List.mem_of_find?_eq_some found
      split at added
      · obtain ⟨middle, first, later⟩ := bind_eq_ok_iff.mp added
        exact ih (accepted.add member first) later
      · split at added
        · obtain ⟨rfl, rfl⟩ := Prod.mk.inj (Except.ok.inj added)
          exact ⟨accepted, by simpa using member⟩
        all_goals
          obtain ⟨_, stored, same⟩ := map_eq_ok_iff.mp added
          obtain ⟨rfl, rfl⟩ := Prod.mk.inj same
          exact ⟨accepted.add member stored, by simp⟩

theorem Accepted.addLong {text : List Char} {pending : Option OptionSpec}
    (accepted : given.Accepted options)
    (added : CommandLine.addLong options given text = .ok (next, pending)) :
    next.Accepted options ∧ ∀ option ∈ pending, option ∈ options := by
  have store {option : OptionSpec} {value : String} (member : option ∈ options)
      (added : (given.add option value).map (·, none) = .ok (next, pending)) :
      next.Accepted options ∧ ∀ option ∈ pending, option ∈ options := by
    obtain ⟨_, stored, same⟩ := map_eq_ok_iff.mp added
    obtain ⟨rfl, rfl⟩ := Prod.mk.inj same
    exact ⟨accepted.add member stored, by simp⟩
  unfold CommandLine.addLong at added
  simp only at added
  split at added
  · cases added
  next option found _ =>
    have member := List.mem_of_find?_eq_some found
    split at added
    · exact store member added
    · obtain ⟨rfl, rfl⟩ := Prod.mk.inj (Except.ok.inj added)
      exact ⟨accepted, by simpa using member⟩
  next option value found _ =>
    have member := List.mem_of_find?_eq_some found
    split at added
    · cases added
    · exact store member added

theorem Accepted.addDashed {argument : String} {pending : Option OptionSpec}
    (accepted : given.Accepted options)
    (added : CommandLine.addDashed options given argument = .ok (next, pending)) :
    next.Accepted options ∧ ∀ option ∈ pending, option ∈ options := by
  unfold CommandLine.addDashed at added
  split at added
  · exact accepted.addLong added
  · exact accepted.addShort added

end Given

/-! ### What is kept of all arguments -/

theorem readArguments_accepted {limit : Option Nat} {arguments : List String}
    {command : Option (String × List String)} (accepted : given.Accepted options)
    (returned : readArguments options limit given arguments = .ok (next, command)) :
    next.Accepted options := by
  fun_induction readArguments options limit given arguments with
  | case1 limit given =>
    obtain ⟨rfl, _⟩ := Prod.mk.inj (Except.ok.inj returned)
    exact accepted
  | case2 limit given rest =>
    obtain ⟨_, added, same⟩ := bind_eq_ok_iff.mp returned
    obtain ⟨rfl, _⟩ := Prod.mk.inj (Except.ok.inj same)
    exact accepted.addWords added
  | case4 limit given argument _ _ middle rest added ih =>
    exact ih (accepted.addDashed added).1 returned
  | case6 limit given argument _ _ middle option value rest added _ ih =>
    obtain ⟨kept, member⟩ := accepted.addDashed added
    obtain ⟨last, stored, returned⟩ := bind_eq_ok_iff.mp returned
    exact ih last (kept.add (member option rfl) stored) returned
  | case8 given argument rest =>
    obtain ⟨rfl, _⟩ := Prod.mk.inj (Except.ok.inj returned)
    exact accepted
  | case9 given argument rest _ _ limit ih =>
    obtain ⟨middle, added, returned⟩ := bind_eq_ok_iff.mp returned
    exact ih middle (accepted.addWord added) returned
  | case3 | case5 | case7 => cases returned

/-- Options that take a limit on depth take nothing else. -/
def TakesDepth (options : List OptionSpec) : Prop :=
  ∀ option ∈ options, option.name = .maxDepth → option.accepts = some fun text => (limit? text).isSome

theorem Given.Accepted.depthDenotes (accepted : given.Accepted options) (takes : TakesDepth options) :
    given.DepthDenotes := by
  intro value found
  obtain ⟨before, after, stored, -⟩ := List.lookup_eq_some_iff.mp found
  obtain ⟨option, member, name, fits⟩ := accepted .maxDepth value (by simp [stored])
  simpa [takes option member name] using fits

theorem takesDepth_of_other (other : ∀ option ∈ options, option.name ≠ .maxDepth) :
    TakesDepth options :=
  fun option member name => absurd name (other option member)

theorem TakesDepth.append {others : List OptionSpec} (takes : TakesDepth options)
    (further : TakesDepth others) : TakesDepth (options ++ others) := by
  intro option member
  rcases List.mem_append.mp member with member | member
  · exact takes option member
  · exact further option member

theorem commonOptions_takesDepth : TakesDepth commonOptions := by
  intro option member name
  simp only [commonOptions, List.mem_cons, List.not_mem_nil, or_false] at member
  rcases member with rfl | rfl | rfl | rfl
  case inr.inl => rfl
  all_goals cases name

theorem readInner_depthDenotes {own : List OptionSpec} {count : Nat} {arguments : List String}
    (other : ∀ option ∈ own, option.name ≠ .maxDepth)
    (returned : readInner own count arguments = .ok given) : given.DepthDenotes := by
  obtain ⟨⟨result, _⟩, read, returned⟩ := bind_eq_ok_iff.mp returned
  dsimp only at returned
  split at returned
  · obtain rfl := Except.ok.inj returned
    exact (readArguments_accepted Given.nothing_accepted read).depthDenotes
      ((takesDepth_of_other other).append commonOptions_takesDepth)
  · cases returned

theorem readCommand_depthDenotes {name : String} {arguments : List String} {command : Command}
    (returned : readCommand name arguments = .ok (command, given)) : given.DepthDenotes := by
  -- All commands but the projection, which needs a table, take what is read as it is.
  have finished {own : List OptionSpec} {count : Nat} {make : Given → Command}
      (other : ∀ option ∈ own, option.name ≠ .maxDepth)
      (returned : (readInner own count arguments >>= fun given => pure (make given, given)) =
        .ok (command, given)) : given.DepthDenotes := by
    obtain ⟨inner, read, returned⟩ := bind_eq_ok_iff.mp returned
    obtain ⟨_, rfl⟩ := Prod.mk.inj (Except.ok.inj returned)
    exact readInner_depthDenotes other read
  unfold readCommand at returned
  split at returned
  · exact finished (by simp [formatOption]) returned
  · exact finished (by simp) returned
  · obtain ⟨inner, read, returned⟩ := bind_eq_ok_iff.mp returned
    dsimp only at returned
    split at returned
    · obtain ⟨_, rfl⟩ := Prod.mk.inj (Except.ok.inj returned)
      exact readInner_depthDenotes (by simp [formatOption]) read
    · cases returned
  · exact finished (by simp) returned
  · split at returned
    · cases returned
    · split at returned <;> cases returned
    · cases returned
  · cases returned

/-! ### The limit on depth -/

theorem depthOf_of_sets {value : Option String} {depth : Option Nat}
    (sets : VariableSets limit? value depth) (outer : Given) {inner : Given}
    (denotes : inner.DepthDenotes) :
    depthOf outer inner value = (depthOf outer inner none).map (·.or depth) := by
  -- If there is an option in both places the variable is not looked at, so it must not show.
  unfold depthOf
  cases innerValue : inner.value? .maxDepth with
  | none => cases sets <;> simp_all [Except.map]
  | some text =>
    obtain ⟨limit, denoted⟩ := Option.isSome_iff_exists.mp (denotes text innerValue)
    cases outer.value? .maxDepth <;> cases sets <;> simp_all [Except.map]

/-- A limit on depth in the variable is used where no option gives one, and nothing else depends on the
variable. -/
theorem readInvocation_of_sets {value : Option String} {depth : Option Nat}
    (sets : VariableSets limit? value depth) (arguments : List String) :
    readInvocation value arguments =
      (readInvocation none arguments).map fun invocation =>
        { invocation with maxDepth := invocation.maxDepth.or depth } := by
  unfold readInvocation
  cases readArguments outerOptions none .nothing arguments with
  | error halt => rfl
  | ok result =>
    match result with
    | (_, none) => rfl
    | (outer, some (name, rest)) =>
      simp only [bind, Except.bind]
      cases inside : readCommand name rest with
      | error halt => rfl
      | ok result =>
        obtain ⟨command, inner⟩ := result
        simp only [depthOf_of_sets sets outer (readCommand_depthDenotes inside)]
        cases depthOf outer inner none <;> rfl

/-! ### Arguments without a dash -/

theorem isDashed_eq (argument : String) :
    isDashed argument = (argument.toList.head? == some '-' && argument != "-") := by
  have front : argument.startsWith "-" = (argument.toList.head? == some '-') := by
    rw [Bool.eq_iff_iff, String.startsWith_string_iff, beq_iff_eq]
    exact List.singleton_prefix_iff_head?_eq_some
  rw [isDashed, front]

theorem ne_dashes_of_plain {argument : String} (plain : isDashed argument = false) :
    argument ≠ "--" := by
  rintro rfl
  rw [isDashed_eq] at plain
  cases plain

theorem readArguments_command {name : String} (plain : isDashed name = false) (rest : List String) :
    readArguments options none given (name :: rest) = .ok (given, some (name, rest)) := by
  rw [readArguments.eq_def]
  simp only [plain, ne_dashes_of_plain plain, if_false, Bool.false_eq_true]

theorem readArguments_word {word : String} (plain : isDashed word = false) (limit : Nat)
    (rest : List String) :
    readArguments options (some limit) given (word :: rest) =
      given.addWord limit word >>= (readArguments options (some limit) · rest) := by
  rw [readArguments.eq_def]
  simp only [plain, ne_dashes_of_plain plain, if_false, Bool.false_eq_true]

/-- What a command line asks for that starts with the command to parse. -/
theorem readInvocation_parse {arguments : List String} {query : String}
    {stored : List (OptionName × String)}
    (read : readArguments ([formatOption ["query", "json"]] ++ commonOptions) (some 1) .nothing
      arguments = .ok (⟨stored, [query]⟩, none)) :
    readInvocation none ("parse" :: arguments) =
      .ok {
        settingsFile := stored.lookup .config
        maxDepth := (stored.lookup .maxDepth).bind limit?
        verbose := (stored.lookup .verbose).isSome
        command := .parse query (if stored.lookup .format = some "json" then .json else .query) } := by
  have depth : depthOf .nothing ⟨stored, [query]⟩ none = .ok ((stored.lookup .maxDepth).bind limit?) := by
    simp only [depthOf, Given.value?, Given.nothing]
    cases stored.lookup .maxDepth <;> simp
  rw [readInvocation, readArguments_command (isDashed_eq "parse")]
  simp only [readCommand, bind, Except.bind, readInner, read, List.length_singleton, if_true, pure,
    Except.pure, depth]
  simp only [Given.value?, Given.nothing, List.lookup_nil, Option.or_none, Option.isSome_none,
    Bool.or_false]
  rfl

end SelectShape.CommandLine
