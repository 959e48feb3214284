import SelectShape.Proofs.CommandLine.Nesting
import SelectShape.Proofs.Selection.Document

/-!
# Printed trees

A run that prints the tree of a query as a document prints all of it. Main statement: a select list that
nests no deeper than the standard allows is read back from its documents, and so is the tree of every query
within the standard limits from what a run prints of it.
-/
namespace SelectShape.CommandLine

variable {host : Host Id} {arguments : List String} {limits : Limits} {query : String}
  {nodes : List Node}

/-- A command line asks for the tree of a query in a format, and settings with these limits are found. -/
def Prints (host : Host Id) (arguments : List String) (query : String) (format : TreeFormat)
    (limits : Limits) : Prop :=
  ∃ invocation settings,
    readInvocation (host.lookup Settings.depthVariable) arguments = .ok invocation ∧
    invocation.command = .parse query format ∧
    settingsOf host invocation = (.ok settings : Except Fault Settings) ∧ settings.limits = limits

theorem run_of_prints (prints : Prints host arguments query .json limits)
    (accepted : parse limits query = .ok nodes) :
    run host arguments = (⟨0, (Node.listToJson nodes).pretty ++ "\n", ""⟩ : Outcome) := by
  obtain ⟨invocation, settings, asks, command, found, rfl⟩ := prints
  have printed : runParse settings.limits query .json = .ok (Node.listToJson nodes).pretty := by
    rw [runParse, accepted]
    rfl
  have attempted : attempt? host arguments = some ((Node.listToJson nodes).pretty ++ "\n", none) := by
    simp only [attempt?, asks, found, command, runCommand, pure, printed]
    rfl
  exact run_eq_of_attempt? attempted

/-- The line break after a document is part of no value. -/
theorem listOfDocument?_line (shallow : Node.maxDepth nodes ≤ 62) :
    Node.listOfDocument? ((Node.listToJson nodes).pretty ++ "\n") = some nodes := by
  have spells := Json.spells_prettyChars (Node.textual_listToJson nodes) 0
  have part : Json.SpellsPart (((Node.listToJson nodes).prettyChars 0) ++ ['\n'])
      (Node.listToJson nodes) :=
    .padded Json.spaces_nil spells (List.forall_mem_singleton.mpr rfl)
  have text : (Node.listToJson nodes).pretty ++ "\n" =
      .ofList ((Node.listToJson nodes).prettyChars 0 ++ ['\n']) := by
    rw [String.ofList_append]
    rfl
  rw [text]
  exact Node.listOfDocument?_of_spells part shallow

/-! ### The plain command line -/

/-- No select list begins with a dash, so no query is taken for an option. -/
theorem isDashed_of_accepted (accepted : parse limits query = .ok nodes) : isDashed query = false := by
  rw [isDashed_eq, Bool.and_eq_false_imp, beq_iff_eq]
  intro dash
  obtain ⟨rest, text⟩ := List.head?_eq_some_iff.mp dash
  have ran := (parse_eq_ok_iff_run.mp accepted).2
  obtain ⟨error, failed⟩ :
      ∃ error, Reader.empty.run limits 0 .list (scan false ('-' :: rest)) = .error error := ⟨_, rfl⟩
  rw [text, failed] at ran
  cases ran

theorem readInvocation_json (plain : isDashed query = false) :
    readInvocation none ["parse", query, "--format", "json"] =
      .ok ⟨none, none, false, .parse query .json⟩ := by
  have option : readArguments ([formatOption ["query", "json"]] ++ commonOptions) (some 1)
      ⟨[], [query]⟩ ["--format", "json"] = .ok (⟨[(.format, "json")], [query]⟩, none) := by
    rw [readArguments.eq_def]
    simp only [isDashed_eq]
    rfl
  have read : readArguments ([formatOption ["query", "json"]] ++ commonOptions) (some 1) .nothing
      [query, "--format", "json"] = .ok (⟨[(.format, "json")], [query]⟩, none) := by
    rw [readArguments_word plain]
    exact option
  exact readInvocation_parse read

theorem prints_bareHost (accepted : parse .standard query = .ok nodes) :
    Prints bareHost ["parse", query, "--format", "json"] query .json .standard := by
  have unset : bareHost.lookup Settings.depthVariable = none := rfl
  refine ⟨⟨none, none, false, .parse query .json⟩, .standard, ?_, rfl, rfl, rfl⟩
  rw [unset]
  exact readInvocation_json (isDashed_of_accepted accepted)

/-- A select list of up to thirty-two levels, with any texts in it, is read back as it was from what is
written of it in either layout. So a run that prints the tree of a query as a document, under limits no
narrower than the standard ones, prints what is read back as the tree, if the query keeps to the standard
limits; and where nothing is set, every such query can be asked for on the command line. -/
theorem trees_read_back :
    (∀ nodes : List Node, Node.maxDepth nodes ≤ 32 →
      Node.listOfDocument? (Node.listToJson nodes).compact = some nodes ∧
      Node.listOfDocument? (Node.listToJson nodes).pretty = some nodes) ∧
    (∀ (query : String) (nodes : List Node), parse .standard query = .ok nodes →
      ∀ (host : Host Id) (arguments : List String) (limits : Limits),
        Prints host arguments query .json limits → Limits.standard.maxDepth ≤ limits.maxDepth →
          Limits.standard.maxLength ≤ limits.maxLength →
            ∃ text, run host arguments = (⟨0, text, ""⟩ : Outcome) ∧
              Node.listOfDocument? text = some nodes) ∧
    ∀ (query : String) (nodes : List Node), parse .standard query = .ok nodes →
      Prints bareHost ["parse", query, "--format", "json"] query .json .standard := by
  refine ⟨?_, ?_, fun query nodes accepted => prints_bareHost accepted⟩
  · intro nodes shallow
    have textual := Node.textual_listToJson nodes
    have room : Node.maxDepth nodes ≤ 62 := by omega
    exact ⟨Node.listOfDocument?_of_spells textual.spellsPart_chars room,
      Node.listOfDocument?_of_spells textual.spellsPart_prettyChars room⟩
  · intro query nodes accepted host arguments limits prints deep long
    obtain ⟨short, derives, shallow⟩ := (parse_eq_ok_iff .standard query nodes).mp accepted
    have read : parse limits query = .ok nodes :=
      (parse_eq_ok_iff limits query nodes).mpr ⟨short.trans long, derives, shallow.trans deep⟩
    have standard : Limits.standard.maxDepth = 32 := rfl
    exact ⟨_, run_of_prints prints read, listOfDocument?_line (by omega)⟩

/-- Fields that differ only in what they leave out: a hint that is absent or empty, children that are absent
or none. No query spells them, or the key with a quote, a backslash and a control. -/
def unspelledNodes : List Node :=
  [.column ⟨"a\"\\\u0001é", "", none⟩, .column ⟨"a\"\\\u0001é", "", some ""⟩,
    .embed ⟨"a\"\\\u0001é", "", none⟩ [], .embed ⟨"a\"\\\u0001é", "", some ""⟩ [],
    .embed ⟨"x", "u", some "h"⟩ [.embed (.plain "t") [.wildcard]]]

theorem trees_read_back_unspelled :
    Node.maxDepth unspelledNodes ≤ 32 ∧
    Node.listOfDocument? (Node.listToJson unspelledNodes).compact = some unspelledNodes ∧
    Node.listOfDocument? (Node.listToJson unspelledNodes).pretty = some unspelledNodes ∧
    parse .standard " x : u!h(t( * )) " =
      .ok [.embed ⟨"x", "u", some "h"⟩ [.embed (.plain "t") [.wildcard]]] ∧
    ∃ text, run bareHost ["parse", " x : u!h(t( * )) ", "--format", "json"] = (⟨0, text, ""⟩ : Outcome) ∧
      Node.listOfDocument? text =
        some [.embed ⟨"x", "u", some "h"⟩ [.embed (.plain "t") [.wildcard]]] := by
  have shallow : Node.maxDepth unspelledNodes ≤ 32 := by decide
  have accepted : parse .standard " x : u!h(t( * )) " =
      .ok [.embed ⟨"x", "u", some "h"⟩ [.embed (.plain "t") [.wildcard]]] := rfl
  obtain ⟨documents, runs, prints⟩ := trees_read_back
  obtain ⟨compact, pretty⟩ := documents unspelledNodes shallow
  exact ⟨shallow, compact, pretty, accepted,
    runs _ _ accepted bareHost _ .standard (prints _ _ accepted) le_rfl le_rfl⟩

end SelectShape.CommandLine
