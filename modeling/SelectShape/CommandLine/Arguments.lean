import SelectShape.Digits

/-!
# Arguments of the command line

Options stand as `--name value`, `--name=value`, `-n value`, `-nvalue` or `-n=value`, short flags may
share a dash, and after `--` nothing is an option. An option is given once at most before the command
and once after it. Arguments are looked at in order, and the first one that settles the matter (a fault,
or a wish for the version or for help) ends the reading.
-/
namespace SelectShape.CommandLine

inductive TreeFormat where
  | query
  | json
  deriving DecidableEq, Repr

inductive ShapeFormat where
  | types
  | json
  deriving DecidableEq, Repr

/-- What is to be done. -/
inductive Command where
  -- Print a query as it was understood.
  | parse (query : String) (format : TreeFormat)
  -- Describe every node of a query.
  | explain (query : String)
  -- Print the shape of a query on a table.
  | project (query table : String) (schema : Option String) (format : ShapeFormat)
  -- Print what queries may contain.
  | reference
  deriving DecidableEq, Repr

/-- What a command line asks for. -/
structure Invocation where
  -- The file to take settings from, instead of looking for one.
  settingsFile : Option String
  -- The limit on depth, over that of the settings.
  maxDepth : Option Nat
  verbose : Bool
  command : Command
  deriving DecidableEq, Repr

/-- Why arguments lead to no command. -/
inductive Halt where
  | version
  | help
  -- The arguments are not understood.
  | usage
  deriving DecidableEq, Repr

/-- What an option is about. -/
inductive OptionName where
  | config
  | maxDepth
  | verbose
  | help
  | version
  | format
  | table
  | schema
  deriving DecidableEq, Repr

/-- How an option is written, and which values it takes; a flag takes none. -/
structure OptionSpec where
  name : OptionName
  long : String
  short : Option Char
  accepts : Option (String → Bool)

/-- A path has at least one character. -/
def isPath (text : String) : Bool := !text.isEmpty

/-- A limit is a 64-bit word, without white space around it. -/
def limit? (text : String) : Option Nat := Digits.signedWord? text.toList

def commonOptions : List OptionSpec :=
  [⟨.config, "config", some 'c', some isPath⟩,
    ⟨.maxDepth, "max-depth", none, some fun text => (limit? text).isSome⟩,
    ⟨.verbose, "verbose", some 'v', none⟩,
    ⟨.help, "help", some 'h', none⟩]

def outerOptions : List OptionSpec :=
  commonOptions ++ [⟨.version, "version", some 'V', none⟩]

/-- An option for one of several formats. -/
def formatOption (formats : List String) : OptionSpec :=
  ⟨.format, "format", some 'f', some formats.contains⟩

/-- What stands before the command, or after it. -/
structure Given where
  options : List (OptionName × String)
  -- Arguments that are no options, in order.
  words : List String
  deriving DecidableEq, Repr

namespace Given

def nothing : Given := ⟨[], []⟩

def value? (given : Given) (name : OptionName) : Option String := given.options.lookup name

/-- Add an option with its value, the empty text for a flag. -/
def add (given : Given) (option : OptionSpec) (value : String) : Except Halt Given :=
  if (given.value? option.name).isSome || !(option.accepts.all (· value)) then .error .usage
  else if option.name = .version then .error .version
  else if option.name = .help then .error .help
  else .ok { given with options := (option.name, value) :: given.options }

/-- Add a word, of which at most `limit` are allowed. -/
def addWord (given : Given) (limit : Nat) (word : String) : Except Halt Given :=
  if given.words.length < limit then .ok { given with words := given.words ++ [word] }
  else .error .usage

end Given

/-- The argument is read as options: it starts with a dash and goes on. -/
def isDashed (argument : String) : Bool :=
  argument.startsWith "-" && argument != "-"

/-- A name and the value after an equals sign, if there is one. -/
def splitEquals (text : List Char) : String × Option String :=
  let value := match text.dropWhile (· != '=') with
    | [] => none
    | _ :: value => some (String.ofList value)
  (.ofList (text.takeWhile (· != '=')), value)

/-- Add the short options of one argument; the one among them that still needs a value, if any. -/
def addShort (options : List OptionSpec) (given : Given) :
    List Char → Except Halt (Given × Option OptionSpec)
  | [] => .ok (given, none)
  | c :: rest =>
    match options.find? (·.short == some c), rest with
    | none, _ => .error .usage
    | some option, rest =>
      if option.accepts.isNone then do addShort options (← given.add option "") rest
      else
        match rest with
        | [] => .ok (given, some option)
        | '=' :: value | value => (given.add option (.ofList value)).map (·, none)

/-- Add the option of one argument with two dashes; the option, if it still needs a value. -/
def addLong (options : List OptionSpec) (given : Given) (text : List Char) :
    Except Halt (Given × Option OptionSpec) :=
  let (name, value) := splitEquals text
  match options.find? (·.long == name), value with
  | none, _ => .error .usage
  | some option, none =>
    if option.accepts.isNone then (given.add option "").map (·, none)
    else .ok (given, some option)
  | some option, some value =>
    if option.accepts.isNone then .error .usage else (given.add option value).map (·, none)

/-- Add the options of one argument that starts with a dash; the option, if one still needs a value. -/
def addDashed (options : List OptionSpec) (given : Given) (argument : String) :
    Except Halt (Given × Option OptionSpec) :=
  match argument.toList with
  | '-' :: '-' :: text => addLong options given text
  | text => addShort options given (text.drop 1)

/-- Read arguments to their end, or up to the first word where `limit` is `none`. The word and what
follows it are returned in the second case. -/
def readArguments (options : List OptionSpec) (limit : Option Nat) (given : Given) :
    List String → Except Halt (Given × Option (String × List String))
  | [] => .ok (given, none)
  | argument :: rest =>
    if argument = "--" then do
      let given ← rest.foldlM (·.addWord (limit.getD 0)) given
      return (given, none)
    else if isDashed argument then
      match addDashed options given argument, rest with
      | .error halt, _ => .error halt
      | .ok (given, none), rest => readArguments options limit given rest
      | .ok (given, some option), value :: rest =>
        if isDashed value then .error .usage
        else do readArguments options limit (← given.add option value) rest
      | .ok (_, some _), [] => .error .usage
    else
      match limit with
      | none => .ok (given, some (argument, rest))
      | some limit => do readArguments options (some limit) (← given.addWord limit argument) rest

/-- Read the arguments after a command, with options of its own and exactly `count` words. -/
def readInner (own : List OptionSpec) (count : Nat) (arguments : List String) : Except Halt Given := do
  let (given, _) ← readArguments (own ++ commonOptions) (some count) .nothing arguments
  if given.words.length = count then .ok given else .error .usage

/-- The command of a given name, and what is given after it. -/
def readCommand (name : String) (arguments : List String) : Except Halt (Command × Given) :=
  match name with
  | "parse" => do
    let given ← readInner [formatOption ["query", "json"]] 1 arguments
    let format := if given.value? .format = some "json" then TreeFormat.json else .query
    return (.parse (given.words.headD "") format, given)
  | "explain" => do
    let given ← readInner [] 1 arguments
    return (.explain (given.words.headD ""), given)
  | "project" => do
    let own : List OptionSpec :=
      [⟨.table, "table", some 't', some fun _ => true⟩,
        ⟨.schema, "schema", some 's', some isPath⟩, formatOption ["ts", "json"]]
    let given ← readInner own 1 arguments
    let format := if given.value? .format = some "json" then ShapeFormat.json else .types
    match given.value? .table with
    | some table =>
      return (.project (given.words.headD "") table (given.value? .schema) format, given)
    | none => .error .usage
  | "syntax" => do
    let given ← readInner [] 0 arguments
    return (.reference, given)
  | "help" =>
    match arguments with
    | [] => .error .help
    | [command] =>
      if ["parse", "explain", "project", "syntax", "help"].contains command then .error .help
      else .error .usage
    | _ => .error .usage
  | _ => .error .usage

/-- The limit on depth: the one given after the command, before it, or in the variable. The variable
must hold a limit unless both places give one. -/
def depthOf (outer inner : Given) (variableValue : Option String) : Except Halt (Option Nat) :=
  match inner.value? .maxDepth, outer.value? .maxDepth with
  | some depth, some _ => .ok (limit? depth)
  | inner, outer =>
    match variableValue.map limit? with
    | some none => .error .usage
    | present => .ok (((inner.or outer).bind limit?).or (present.bind id))

/-- What a command line asks for, given the value of the variable for the limit on depth. -/
def readInvocation (variableValue : Option String) (arguments : List String) :
    Except Halt Invocation := do
  match ← readArguments outerOptions none .nothing arguments with
  | (_, none) => .error .usage
  | (outer, some (name, rest)) =>
    let (command, inner) ← readCommand name rest
    let maxDepth ← depthOf outer inner variableValue
    return {
      settingsFile := (inner.value? .config).or (outer.value? .config)
      maxDepth
      verbose := (inner.value? .verbose).isSome || (outer.value? .verbose).isSome
      command }

end SelectShape.CommandLine
