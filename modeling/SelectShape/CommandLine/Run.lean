import SelectShape.Blank
import SelectShape.CommandLine.Arguments
import SelectShape.CommandLine.Report
import SelectShape.Host
import SelectShape.Projection.Basic
import SelectShape.Selection.Canonical
import SelectShape.Selection.Document
import SelectShape.Selection.Parse
import SelectShape.Shape.Document
import SelectShape.Shape.TypeText

/-!
# Running a command line

Settings are found first; of two faults in settings, catalog, query and projection the earlier one in
this order is reported. What has been printed before a fault stays printed.
-/
namespace SelectShape.CommandLine

/-- What a run leaves behind. -/
structure Outcome where
  code : Nat
  stdout : String
  stderr : String
  deriving DecidableEq, Repr

/-- Why a command fails. -/
inductive Fault where
  -- The settings that were found are refused.
  | settings (cause : Failure)
  -- The settings in the file that the command line names are refused.
  | settingsFile (path : String) (cause : Failure)
  | noCatalog
  | catalog (cause : Failure)
  | query (cause : ParseError)
  | projection (cause : ProjectionError)
  deriving DecidableEq, Repr

/-- The text of a failure and of its causes. -/
def chain : Failure → String
  | .reading cause => (Failure.reading cause).message ++ ": " ++ cause.message
  | failure => failure.message

def Fault.message : Fault → String
  | .settings cause | .catalog cause => chain cause
  | .settingsFile path cause => "loading config " ++ path ++ ": " ++ chain cause
  | .noCatalog => "no schema given: pass --schema or set `schema` in the config file"
  | .query cause => cause.message
  | .projection cause => cause.message

/-- The user's directory for configuration: one that a variable names by an absolute path, else one in
the home directory. Only the variable for the home directory is asked: where it is unset or empty, the
home directory that the database of users has is left out. -/
def configDirectory? (named home : Option String) : Option String :=
  (named.filter (·.startsWith "/")).or
    ((home.filter (!·.isEmpty)).map (· ++ "/.config"))

/-- The places where settings are looked for: the working directory, then the user's directory for
configuration. -/
def settingsPaths (named home : Option String) : List String :=
  "postgrest-select.toml"
    :: ((configDirectory? named home).map (· ++ "/postgrest-select/config.toml")).toList

def firstPresent [Monad m] (host : Host m) : List String → m (Option String)
  | [] => return none
  | path :: rest => do
    if ← host.isPresent path then return some path
    else firstPresent host rest

/-- The settings that are found, with the limits that the environment overrides. -/
def findSettings [Monad m] (host : Host m) : m (Except Failure Settings) := do
  let paths := settingsPaths (← host.lookup "XDG_CONFIG_HOME") (← host.lookup "HOME")
  let found ← match ← firstPresent host paths with
    | some path => Settings.load host path
    | none => pure (.ok .standard)
  match found with
  | .error cause => return .error cause
  | .ok settings =>
    let depth ← host.lookup Settings.depthVariable
    let length ← host.lookup Settings.lengthVariable
    let environment := fun name =>
      if name = Settings.depthVariable then depth
      else if name = Settings.lengthVariable then length
      else none
    match settings.override environment with
    | (settings, none) => return .ok settings
    | (_, some fault) => return .error (.settings fault)

/-- The settings of a run. A file that the command line names is taken as it is, without the overrides
of the environment; a limit on depth from the command line comes last. -/
def settingsOf [Monad m] (host : Host m) (invocation : Invocation) : m (Except Fault Settings) := do
  let settings ← match invocation.settingsFile with
    | some path => do pure ((← Settings.load host path).mapError (.settingsFile path))
    | none => do pure ((← findSettings host).mapError .settings)
  return settings.map fun settings =>
    match invocation.maxDepth with
    | some depth => { settings with limits := { settings.limits with maxDepth := depth } }
    | none => settings

/-- What is printed, and the fault after it if there is one. -/
abbrev Printed := String × Option Fault

/-- The output of a computation that prints only its result. -/
def printed : Except Fault String → Printed
  | .ok text => (text ++ "\n", none)
  | .error fault => ("", some fault)

def runParse (limits : Limits) (query : String) (format : TreeFormat) : Except Fault String := do
  let nodes ← (parse limits query).mapError .query
  match format with
  | .query => return Node.listText nodes
  | .json => return (Node.listToJson nodes).pretty

/-- Describe every node of a query. The query itself is printed before it is read. -/
def runExplain (colours : Bool) (limits : Limits) (query : String) : Printed :=
  let title := (Style.bold .green).paint colours
  let opening := [Style.dimmed.paint colours "Query:" ++ " "
    ++ (Style.plain .yellow).paint colours (.ofList (trimmed query.toList)), ""]
  match parse limits query with
  | .error cause => (linesText opening, some (.query cause))
  | .ok nodes =>
    let closing := ["", title "Canonical:" ++ " "
      ++ (Style.plain .white).paint colours (Node.listText nodes)]
    (linesText (opening ++ title "Parsed Structure:" :: describeNodes colours 1 nodes ++ closing),
      none)

def runProject [Monad m] (host : Host m) (settings : Settings) (query table : String)
    (schema : Option String) (format : ShapeFormat) : m (Except Fault String) := do
  match schema.or settings.schema with
  | none => return .error .noCatalog
  | some path =>
    match ← Catalog.load host path with
    | .error cause => return .error (.catalog cause)
    | .ok catalog =>
      return do
        let nodes ← (parse settings.limits query).mapError .query
        let shape ← (project (.ofCatalog catalog) settings.limits.maxDepth table nodes).mapError
          .projection
        match format with
        | .types => return shape.typeText (.lines 0)
        | .json => return shape.toJson.pretty

def runCommand [Monad m] (host : Host m) (colours : Bool) (settings : Settings) :
    Command → m Printed
  | .parse query format => return printed (runParse settings.limits query format)
  | .explain query => return runExplain colours settings.limits query
  | .project query table schema format => do
    return printed (← runProject host settings query table schema format)
  | .reference => return (linesText (referenceLines colours), none)

/-- Colours are used where a variable forces them, and else on a terminal unless a variable forbids
them. -/
def usesColours [Monad m] (host : Host m) : m Bool := do
  match ← host.lookup "CLICOLOR_FORCE", ← host.lookup "NO_COLOR" with
  | some "0", some _ | none, some _ => return false
  | some "0", none | none, none =>
    return (← host.lookup "CLICOLOR") != some "0" && (← host.isTerminal)
  | some _, _ => return true

def versionText : String := "postgrest-select 0.1.0\n"

/-- An abbreviated text for help, with or without a subcommand, and for a command line that cannot be read.
It has no line about the program, no examples and no subcommand for help; it does not list what a
subcommand takes, nor say which argument is wrong. -/
def usageText : String :=
  linesText
    ["Usage: postgrest-select [OPTIONS] <COMMAND>", "",
      "Commands:",
      "  parse    Parse a query and print it back",
      "  explain  Parse a query and describe every node",
      "  project  Compute the response shape of a query against a schema catalog",
      "  syntax   Show the syntax reference", "",
      "Options:",
      "  -c, --config <CONFIG>        Config file",
      "      --max-depth <MAX_DEPTH>  Maximum nesting of embedded resources",
      "  -v, --verbose                Verbose output",
      "  -h, --help                   Print help",
      "  -V, --version                Print version"]

/-- Run a command line. `--verbose` and the variable that sets the level of logging ask for log lines on
standard error, such as the one for settings that have been loaded. Log lines are left out: the option is
read and changes nothing, and standard error has the text of a fault only. -/
def run [Monad m] (host : Host m) (arguments : List String) : m Outcome := do
  match readInvocation (← host.lookup Settings.depthVariable) arguments with
  | .error .version => return ⟨0, versionText, ""⟩
  | .error .help => return ⟨0, usageText, ""⟩
  | .error .usage => return ⟨2, "", usageText⟩
  | .ok invocation =>
    let colours ← usesColours host
    let (stdout, fault) ← match ← settingsOf host invocation with
      | .error fault => pure ("", some fault)
      | .ok settings => runCommand host colours settings invocation.command
    match fault with
    | none => return ⟨0, stdout, ""⟩
    | some fault =>
      return ⟨1, stdout, (Style.bold .red).paint colours "Error:" ++ " " ++ fault.message ++ "\n"⟩

end SelectShape.CommandLine
