import SelectShape.Select
import SelectShape.Proofs.CommandLine.Limits
import SelectShape.Proofs.Projection.Nesting

/-!
# One limit on nesting

Parsing counts levels on the way down, projecting does on its own, and the depth of a tree is counted on
the way up. Main statement: all three draw the line at the same level, so whatever is parsed first, within
a library call or a run of the program, is never found too deep afterwards.
-/
namespace SelectShape.CommandLine

variable {host : Host Id} {settings : Settings}

theorem select_ne_nestingTooDeep {directory : Directory} {table query : String} (limit : Nat) :
    select directory table query ≠ .error (.projection (.nestingTooDeep limit)) := by
  intro failed
  unfold select at failed
  split at failed
  · cases failed
  next nodes accepted =>
    split at failed
    next cause refused =>
      cases failed
      exact Projection.project_ne_nestingTooDeep accepted le_rfl limit refused
    · cases failed

/-- What a command line prints and the fault it ends in, where it asks for a command. -/
def attempt? (host : Host Id) (arguments : List String) : Option Printed :=
  match readInvocation (host.lookup Settings.depthVariable) arguments with
  | .error _ => none
  | .ok invocation =>
    match (settingsOf host invocation : Except Fault Settings) with
    | .error fault => some ("", some fault)
    | .ok settings => some (runCommand host (usesColours host) settings invocation.command)

theorem run_eq_of_attempt? {arguments : List String} {result : Printed}
    (attempted : attempt? host arguments = some result) :
    run host arguments = (.ofPrinted (usesColours host) result : Outcome) := by
  unfold attempt? at attempted
  split at attempted
  · cases attempted
  next invocation asks =>
    split at attempted
    next fault refused =>
      cases attempted
      simp only [run, bind, pure, asks, refused]
      rfl
    next settings found =>
      cases attempted
      simp only [run, bind, pure, asks, found]
      generalize runCommand host (usesColours host) settings invocation.command = result
      obtain ⟨stdout, _ | fault⟩ := result <;> rfl

theorem printed_fault_iff {result : Except Fault String} {fault : Fault} :
    (printed result).2 = some fault ↔ result = .error fault := by
  cases result <;> simp [printed]

theorem runParse_error {limits : Limits} {query : String} {format : TreeFormat} {fault : Fault}
    (failed : runParse limits query format = .error fault) : ∃ cause, fault = .query cause := by
  unfold runParse at failed
  cases parsed : parse limits query with
  | error cause =>
    rw [parsed] at failed
    cases failed
    exact ⟨cause, rfl⟩
  | ok nodes =>
    rw [parsed] at failed
    cases format <;> cases failed

/-- The projection of a run comes after its parser, under the same limit. -/
theorem runProject_ne_nestingTooDeep (query table : String) (schema : Option String)
    (format : ShapeFormat) (limit : Nat) :
    runProject host settings query table schema format ≠
      (.error (.projection (.nestingTooDeep limit)) : Except Fault String) := by
  intro failed
  simp only [runProject, bind, pure] at failed
  split at failed
  · cases failed
  split at failed
  · cases failed
  next catalog _ =>
    -- The catalog is there, so the query is parsed, and then it is projected.
    cases parsed : parse settings.limits query with
    | error cause =>
      rw [parsed] at failed
      cases failed
    | ok nodes =>
      rw [parsed] at failed
      cases projected : project (.ofCatalog catalog) settings.limits.maxDepth table nodes with
      | error cause =>
        simp only [projected, Except.bind, Except.mapError] at failed
        cases failed
        exact Projection.project_ne_nestingTooDeep parsed le_rfl limit projected
      | ok shape =>
        simp only [projected, Except.bind, Except.mapError] at failed
        cases format <;> cases failed

theorem runCommand_fault_ne_nestingTooDeep (colours : Bool) (command : Command) (limit : Nat) :
    (runCommand host colours settings command : Printed).2 ≠
      some (.projection (.nestingTooDeep limit)) := by
  intro failed
  cases command with
  | parse query format =>
    obtain ⟨cause, named⟩ := runParse_error (printed_fault_iff.mp failed)
    cases named
  | explain query =>
    simp only [runCommand, pure, runExplain] at failed
    split at failed <;> cases failed
  | project query table schema format =>
    exact runProject_ne_nestingTooDeep query table schema format limit (printed_fault_iff.mp failed)
  | reference => cases failed

theorem settingsOf_error {invocation : Invocation} {fault : Fault}
    (failed : settingsOf host invocation = (.error fault : Except Fault Settings)) :
    ∃ cause, fault = .settings cause ∨ ∃ path, fault = .settingsFile path cause := by
  simp only [settingsOf, bind, pure] at failed
  split at failed
  next path _ =>
    cases loaded : (Settings.load host path : Except Failure Settings) with
    | error cause =>
      rw [loaded] at failed
      cases failed
      exact ⟨cause, .inr ⟨path, rfl⟩⟩
    | ok settings =>
      rw [loaded] at failed
      cases failed
  next =>
    cases found : (findSettings host : Except Failure Settings) with
    | error cause =>
      rw [found] at failed
      cases failed
      exact ⟨cause, .inl rfl⟩
    | ok settings =>
      rw [found] at failed
      cases failed

theorem attempt?_fault_ne_nestingTooDeep {arguments : List String} {result : Printed}
    (attempted : attempt? host arguments = some result) (limit : Nat) :
    result.2 ≠ some (.projection (.nestingTooDeep limit)) := by
  intro failed
  unfold attempt? at attempted
  split at attempted
  · cases attempted
  split at attempted
  next fault refused =>
    cases attempted
    cases failed
    obtain ⟨cause, named | ⟨path, named⟩⟩ := settingsOf_error refused
    · cases named
    · cases named
  next settings _ =>
    cases attempted
    exact runCommand_fault_ne_nestingTooDeep _ _ limit failed

/-- Parsing, projecting and the depth of nodes put the limit at the same level. Canonical text that is
short enough fails for nesting exactly if a node is deeper than the limit. A list with a shape has no such
node, and one whose projection fails for nesting has. So what was parsed within a limit never fails for
nesting in a projection within the same or a wider limit, in particular not in a run of the program. -/
theorem nesting_limits_agree :
    (∀ (limits : Limits) (nodes : List Node), Node.ListWellFormed nodes →
      (Node.listText nodes).utf8ByteSize ≤ limits.maxLength →
        (parse limits (Node.listText nodes) = .error (.nestingTooDeep limits.maxDepth) ↔
          ∃ node ∈ nodes, limits.maxDepth < node.depth)) ∧
    (∀ (directory : Directory) (maxDepth : Nat) (table : String) (nodes : List Node),
      (∀ shape, project directory maxDepth table nodes = .ok shape →
        ¬ ∃ node ∈ nodes, maxDepth < node.depth) ∧
      ∀ limit, project directory maxDepth table nodes = .error (.nestingTooDeep limit) →
        limit = maxDepth ∧ ∃ node ∈ nodes, maxDepth < node.depth) ∧
    (∀ (directory : Directory) (limits : Limits) (maxDepth : Nat) (table query : String)
      (nodes : List Node), parse limits query = .ok nodes → limits.maxDepth ≤ maxDepth →
        ∀ limit, project directory maxDepth table nodes ≠ .error (.nestingTooDeep limit)) ∧
    (∀ (directory : Directory) (table query : String) (limit : Nat),
      select directory table query ≠ .error (.projection (.nestingTooDeep limit))) ∧
    ∀ (host : Host Id) (arguments : List String) (result : Printed),
      attempt? host arguments = some result →
        run host arguments = (.ofPrinted (usesColours host) result : Outcome) ∧
        ∀ limit, result.2 ≠ some (.projection (.nestingTooDeep limit)) := by
  refine ⟨?_, ?_, ?_, ?_, ?_⟩
  · intro limits nodes wellFormed short
    have derives : Derives (Node.listText nodes).toList nodes := by
      rw [Node.listText, String.toList_ofList]
      exact (derives_listChars_iff nodes).mpr wellFormed
    rw [parse_eq_nestingTooDeep_iff derives short, Node.lt_maxDepth_iff]
  · intro directory maxDepth table nodes
    simp only [← Node.lt_maxDepth_iff, Nat.not_lt]
    constructor
    · intro shape returned
      exact Projection.maxDepth_le_of_project_eq_ok returned
    · intro limit failed
      exact Projection.lt_maxDepth_of_project_eq_error failed
  · intro directory limits maxDepth table query nodes accepted wide limit
    exact Projection.project_ne_nestingTooDeep accepted wide limit
  · intro directory table query limit
    exact select_ne_nestingTooDeep limit
  · intro host arguments result attempted
    exact ⟨run_eq_of_attempt? attempted, attempt?_fault_ne_nestingTooDeep attempted⟩

/-- A machine without files and variables. -/
def bareHost : Host Id where
  lookup _ := none
  isPresent _ := false
  read _ := .error .notFound
  isTerminal := false

/-- A resource within a resource exceeds a limit of one level, in its text and in a projection, and keeps
to one of two levels. A run with the first limit ends in the error of its parser. -/
theorem nesting_limits_agree_boundary :
    parse ⟨1, 7⟩ "a(b(*))" = .error (.nestingTooDeep 1) ∧
    (1 = 1 ∧ ∃ node ∈ [Node.embed (.plain "a") [.embed (.plain "b") [.wildcard]]], 1 < node.depth) ∧
    (¬ ∃ node ∈ [Node.embed (.plain "a") [.embed (.plain "b") [.wildcard]]], 2 < node.depth) ∧
    project (.ofTables [("t", []), ("a", [])]) 2 "t"
      [.embed (.plain "a") [.embed (.plain "b") [.wildcard]]] ≠ .error (.nestingTooDeep 2) ∧
    run bareHost ["parse", "a(b(*))", "--max-depth=1"] =
      (⟨1, "", "Error: embedded resources nested deeper than 1 levels\n"⟩ : Outcome) := by
  have named (name : String) (valid : IsName name) : (Field.plain name).Named :=
    ⟨valid, valid, by simp [Field.plain]⟩
  have inner : Node.WellFormed (.embed (.plain "b") [.wildcard]) :=
    .embed (named "b" ⟨by decide, List.forall_mem_singleton.mpr rfl⟩) (by simp) (by simpa using .wildcard)
  have outer : Node.WellFormed (.embed (.plain "a") [.embed (.plain "b") [.wildcard]]) :=
    .embed (named "a" ⟨by decide, List.forall_mem_singleton.mpr rfl⟩) (by simp) (by simpa using inner)
  have wellFormed : Node.ListWellFormed [.embed (.plain "a") [.embed (.plain "b") [.wildcard]]] :=
    ⟨by simp, by simpa using outer⟩
  have failed : project (.ofTables [("t", []), ("a", []), ("b", [])]) 1 "t"
      [.embed (.plain "a") [.embed (.plain "b") [.wildcard]]] = .error (.nestingTooDeep 1) := rfl
  have returned : project (.ofTables [("t", []), ("a", []), ("b", [])]) 2 "t"
      [.embed (.plain "a") [.embed (.plain "b") [.wildcard]]] =
      .ok [("a", .relation .oneOrMany [("b", .relation .oneOrMany [])])] := rfl
  have accepted : parse ⟨2, 7⟩ "a(b(*))" =
      .ok [.embed (.plain "a") [.embed (.plain "b") [.wildcard]]] := rfl
  have option : readArguments ([formatOption ["query", "json"]] ++ commonOptions) (some 1)
      ⟨[], ["a(b(*))"]⟩ ["--max-depth=1"] = .ok (⟨[(.maxDepth, "1")], ["a(b(*))"]⟩, none) := by
    rw [readArguments.eq_def]
    simp only [isDashed_eq]
    rfl
  have read : readArguments ([formatOption ["query", "json"]] ++ commonOptions) (some 1) .nothing
      ["a(b(*))", "--max-depth=1"] = .ok (⟨[(.maxDepth, "1")], ["a(b(*))"]⟩, none) := by
    rw [readArguments_word (isDashed_eq "a(b(*))")]
    exact option
  have attempted : attempt? bareHost ["parse", "a(b(*))", "--max-depth=1"] =
      some ("", some (.query (.nestingTooDeep 1))) := by
    have unset : bareHost.lookup Settings.depthVariable = none := rfl
    rw [attempt?, unset, readInvocation_parse read]
    rfl
  obtain ⟨text, projection, parsed, _, runs⟩ := nesting_limits_agree
  refine ⟨?_, (projection _ 1 "t" _).2 1 failed, (projection _ 2 "t" _).1 _ returned, ?_, ?_⟩
  · exact (text ⟨1, 7⟩ _ wellFormed (by decide +kernel)).mpr ⟨_, List.mem_singleton_self _, by decide⟩
  · exact parsed _ ⟨2, 7⟩ 2 "t" _ _ accepted le_rfl 2
  · exact (runs bareHost _ _ attempted).1

end SelectShape.CommandLine
