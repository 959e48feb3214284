import SelectShape.CommandLine.Run
import SelectShape.Proofs.CommandLine.Arguments

/-!
# The limits of a run

The limits have up to four sources each, and the order in which they are asked is meant to be the same
wherever the settings file comes from. Main statement: a run carries its command out with the limits that
this order gives, but for the variable for the limit on length, which is not asked where the command line
names the settings file.
-/
namespace SelectShape.CommandLine

/-- What a run leaves behind when its command has been carried out. -/
def Outcome.ofPrinted (colours : Bool) : Printed → Outcome
  | (stdout, none) => ⟨0, stdout, ""⟩
  | (stdout, some fault) =>
    ⟨1, stdout, (Style.bold .red).paint colours "Error:" ++ " " ++ fault.message ++ "\n"⟩

/-- The file that a run takes settings from: the one that the command line names, or else the first one
that is present where settings are looked for. -/
def settingsPath? (host : Host Id) (invocation : Invocation) : Option String :=
  invocation.settingsFile.or
    (firstPresent host (settingsPaths (host.lookup "XDG_CONFIG_HOME") (host.lookup "HOME")))

/-- A file declares what its text does, and no file declares nothing. -/
inductive Declares (host : Host Id) : Option String → Settings.Declaration → Prop
  | missing : Declares host none .empty
  | file (read : host.read path = .ok text)
      (declared : Settings.Declaration.ofTomlText? text = some declaration) :
      Declares host (some path) declaration

/-- Where the limits of a run come from. -/
structure Sources where
  -- What the command line gives for the limit on depth.
  option : Option Nat
  -- What the variables set.
  depth : Option Nat
  length : Option Nat
  file : Settings.Declaration
  deriving DecidableEq, Repr

namespace Sources

/-- An option goes before a variable, a variable before the file, and the file before the standard. -/
def limits (sources : Sources) : Limits :=
  ⟨((sources.option.or sources.depth).or sources.file.maxDepth).getD 32,
    (sources.length.or sources.file.maxLength).getD 65536⟩

/-- The sources that a run asks: not the variable for the limit on length, if the command line names the
settings file. -/
def asked (invocation : Invocation) (sources : Sources) : Sources :=
  if invocation.settingsFile.isSome then { sources with length := none } else sources

/-- The sources are those of a run, and each is valid. -/
structure Valid (host : Host Id) (invocation : Invocation) (sources : Sources) : Prop where
  option : sources.option = invocation.maxDepth
  depth : VariableSets limit? (host.lookup Settings.depthVariable) sources.depth
  length : VariableSets Settings.limit? (host.lookup Settings.lengthVariable) sources.length
  file : Declares host (settingsPath? host invocation) sources.file

variable {host : Host Id} {invocation : Invocation} {sources : Sources}

/-- To name the settings file that a run takes anyway leaves its sources as they are. -/
theorem Valid.named (valid : Valid host invocation sources) {path : String}
    (found : settingsPath? host invocation = some path) :
    Valid host { invocation with settingsFile := some path } sources :=
  have file : Declares host (some path) sources.file := found ▸ valid.file
  { valid with file }

theorem asked_maxDepth (invocation : Invocation) (sources : Sources) :
    (sources.asked invocation).limits.maxDepth = sources.limits.maxDepth := by
  unfold asked
  split <;> rfl

theorem asked_maxLength_iff (invocation : Invocation) (sources : Sources) :
    (sources.asked invocation).limits.maxLength = sources.limits.maxLength ↔
      invocation.settingsFile = none ∨ sources.length = none ∨
        sources.length = some (sources.file.maxLength.getD 65536) := by
  unfold asked
  cases invocation.settingsFile <;> cases length : sources.length <;> simp [limits, length, eq_comm]

end Sources

variable {host : Host Id} {invocation : Invocation} {sources : Sources}

/-! ### Settings -/

theorem load_of_declares {path : String} {declaration : Settings.Declaration}
    (declares : Declares host (some path) declaration) :
    Settings.load host path = (.ok declaration.settings : Except Failure Settings) := by
  cases declares with
  | file read declared =>
    simp only [Settings.load, bind, pure, read, Settings.ofTomlText?_eq, declared, Option.map_some,
      Option.elim_some]

theorem settings_of_declares_none {declaration : Settings.Declaration}
    (declares : Declares host none declaration) : declaration.settings = Settings.standard := by
  cases declares
  rfl

/-- Any environment with the variables of the host in it gives the limits of all sources but options. -/
theorem override_of_valid (valid : sources.Valid host invocation) {environment : String → Option String}
    (sameDepth : environment Settings.depthVariable = host.lookup Settings.depthVariable)
    (sameLength : environment Settings.lengthVariable = host.lookup Settings.lengthVariable) :
    sources.file.settings.override environment =
      (⟨{ sources with option := none }.limits, sources.file.schema⟩, none) := by
  have depthSet : VariableSets Settings.limit? (environment Settings.depthVariable) sources.depth :=
    sameDepth ▸ valid.depth.imp fun _ _ => Settings.limit?_of_option
  have lengthSet : VariableSets Settings.limit? (environment Settings.lengthVariable) sources.length :=
    sameLength ▸ valid.length
  rw [Settings.override_of_sets depthSet lengthSet]
  simp only [Sources.limits, Option.none_or, Option.getD_or]
  rfl

theorem findSettings_of_valid (valid : sources.Valid host invocation)
    (unnamed : invocation.settingsFile = none) :
    findSettings host = (.ok ⟨{ sources with option := none }.limits, sources.file.schema⟩ :
      Except Failure Settings) := by
  have file := valid.file
  simp only [settingsPath?, unnamed, Option.none_or] at file
  simp only [findSettings, bind, pure]
  generalize firstPresent host (settingsPaths (host.lookup "XDG_CONFIG_HOME") (host.lookup "HOME")) = path
    at file
  cases path with
  | none =>
    simp only [← settings_of_declares_none file]
    rw [override_of_valid valid] <;> rfl
  | some path =>
    simp only [load_of_declares file]
    rw [override_of_valid valid] <;> rfl

/-- The settings of a run, with the limits of the sources that it asks. -/
theorem settingsOf_of_valid (valid : sources.Valid host invocation) :
    settingsOf host { invocation with maxDepth := invocation.maxDepth.or sources.depth } =
      (.ok ⟨(sources.asked invocation).limits, sources.file.schema⟩ : Except Fault Settings) := by
  cases named : invocation.settingsFile with
  | none =>
    simp only [settingsOf, bind, pure, findSettings_of_valid valid named, ← valid.option, Sources.asked,
      named, Except.mapError, Except.map]
    obtain ⟨option, depth, length, file⟩ := sources
    cases option <;> cases depth <;> rfl
  | some path =>
    have declares : Declares host (some path) sources.file := by
      simpa only [settingsPath?, named, Option.some_or] using valid.file
    simp only [settingsOf, bind, pure, load_of_declares declares, ← valid.option, Sources.asked,
      named, Except.mapError, Except.map]
    obtain ⟨option, depth, length, file⟩ := sources
    cases option <;> cases depth <;> rfl

/-! ### Runs -/

/-- A run carries its command out with the limits of the sources that it asks. -/
theorem run_eq {arguments : List String} (asks : readInvocation none arguments = .ok invocation)
    (valid : sources.Valid host invocation) :
    run host arguments =
      (.ofPrinted (usesColours host) (runCommand host (usesColours host)
        ⟨(sources.asked invocation).limits, sources.file.schema⟩ invocation.command) : Outcome) := by
  have invoked := readInvocation_of_sets valid.depth arguments
  rw [asks] at invoked
  simp only [run, bind, pure, invoked, Except.map, settingsOf_of_valid valid]
  generalize runCommand host (usesColours host) ⟨(sources.asked invocation).limits, sources.file.schema⟩
    invocation.command = printed
  obtain ⟨stdout, _ | fault⟩ := printed <;> rfl

/-- A machine with settings in the working directory that allow a hundred bytes, and a variable that
allows three. -/
def sampleHost : Host Id where
  lookup name := if name = Settings.lengthVariable then some "3" else none
  isPresent path := path == "postgrest-select.toml"
  read path := if path = "postgrest-select.toml" then .ok "max_length = 100" else .error .notFound
  isTerminal := false

theorem sampleHost_valid : Sources.Valid sampleHost ⟨none, none, false, .parse "abcd" .query⟩
    ⟨none, none, some 3, ⟨none, some 100, none⟩⟩ where
  option := rfl
  depth := .unset
  length := .set "3" (by decide)
  file := .file rfl (by decide +kernel)

/-- A run with valid sources carries its command out with the limits of those that it asks. The limit on
depth is always the one that the order of all sources gives. The limit on length is too if the command
line names no settings file, if the variable for it is not set, or if what it sets holds without it, and
not otherwise. -/
theorem run_limits {arguments : List String} (asks : readInvocation none arguments = .ok invocation)
    (valid : sources.Valid host invocation) :
    run host arguments =
      (.ofPrinted (usesColours host) (runCommand host (usesColours host)
        ⟨(sources.asked invocation).limits, sources.file.schema⟩ invocation.command) : Outcome) ∧
    (sources.asked invocation).limits.maxDepth = sources.limits.maxDepth ∧
    ((sources.asked invocation).limits.maxLength = sources.limits.maxLength ↔
      invocation.settingsFile = none ∨ sources.length = none ∨
        sources.length = some (sources.file.maxLength.getD 65536)) :=
  ⟨run_eq asks valid, sources.asked_maxDepth invocation, sources.asked_maxLength_iff invocation⟩

/-- A query of four bytes where settings are found, and three bytes are allowed. -/
theorem run_limits_found :
    readInvocation none ["parse", "abcd"] = .ok ⟨none, none, false, .parse "abcd" .query⟩ ∧
    run sampleHost ["parse", "abcd"] =
      (⟨1, "", "Error: query is 4 bytes, limit is 3\n"⟩ : Outcome) := by
  have asks : readInvocation none ["parse", "abcd"] =
      .ok ⟨none, none, false, .parse "abcd" .query⟩ :=
    readInvocation_parse (readArguments_word (isDashed_eq "abcd") 1 [])
  exact ⟨asks, (run_limits asks sampleHost_valid).1⟩

/-- The same query is read if the command line names the file that would be found: not all runs follow
the order of their sources. -/
theorem run_named_file :
    ¬ ∀ (host : Host Id) (arguments : List String) (invocation : Invocation) (sources : Sources),
      readInvocation none arguments = .ok invocation → sources.Valid host invocation →
        run host arguments =
          (.ofPrinted (usesColours host) (runCommand host (usesColours host)
            ⟨sources.limits, sources.file.schema⟩ invocation.command) : Outcome) := by
  intro follows
  have option : readArguments ([formatOption ["query", "json"]] ++ commonOptions) (some 1)
      ⟨[], ["abcd"]⟩ ["--config", "postgrest-select.toml"] =
        .ok (⟨[(.config, "postgrest-select.toml")], ["abcd"]⟩, none) := by
    rw [readArguments.eq_def]
    simp only [isDashed_eq]
    rfl
  have read : readArguments ([formatOption ["query", "json"]] ++ commonOptions) (some 1) .nothing
      ["abcd", "--config", "postgrest-select.toml"] =
        .ok (⟨[(.config, "postgrest-select.toml")], ["abcd"]⟩, none) := by
    rw [readArguments_word (isDashed_eq "abcd")]
    exact option
  have found : settingsPath? sampleHost ⟨none, none, false, .parse "abcd" .query⟩ =
      some "postgrest-select.toml" := rfl
  have valid := sampleHost_valid.named found
  have asks := readInvocation_parse read
  have same := (run_eq asks valid).symm.trans (follows _ _ _ _ asks valid)
  have code : 0 = 1 := congrArg Outcome.code same
  exact Nat.zero_ne_one code

end SelectShape.CommandLine
