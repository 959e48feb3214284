import SelectShape.Catalog.Document
import SelectShape.Failure
import SelectShape.Settings.Document

/-!
# Loading from files

What a program asks of the machine it runs on, in any monad: the machine itself, or a tree of files and
a list of variables in which no answer changes. Catalogs and settings are loaded through it.
-/
namespace SelectShape

/-- What a program asks of the machine it runs on. -/
structure Host (m : Type → Type) where
  -- The value of a variable of the environment.
  lookup : String → m (Option String)
  -- A path leads to a file or a directory.
  isPresent : String → m Bool
  -- The text of a file.
  read : String → m (Except ReadFailure String)
  -- Output goes to a terminal.
  isTerminal : m Bool

/-- A machine with the given files, working directory and environment, whose output goes to no
terminal. -/
def Host.fixed (files : FileTree) (workingDirectory : List String)
    (environment : List (String × String)) : Host Id where
  lookup name := environment.lookup name
  isPresent path := (files.resolve workingDirectory path).isOk
  read path := files.read workingDirectory path
  isTerminal := false

/-- The catalog in the text of a file, of which the path says the format. -/
def Catalog.ofFileText (path text : String) : Except CatalogFault Catalog :=
  match fileExtension? path with
  | some "toml" => (ofTomlText? text).elim (.error .toml) .ok
  | some "json" => (ofJsonText? text).elim (.error .json) .ok
  | extension => .error (.unsupportedFormat (extension.getD ""))

/-- Load a catalog. The file is read before its format is looked at. -/
def Catalog.load [Monad m] (host : Host m) (path : String) : m (Except Failure Catalog) := do
  match ← host.read path with
  | .error cause => return .error (.catalog (.unreadable path cause))
  | .ok text =>
    match ofFileText path text with
    | .error cause => return .error (.catalog cause)
    | .ok catalog => return .ok catalog

def Settings.load [Monad m] (host : Host m) (path : String) : m (Except Failure Settings) := do
  match ← host.read path with
  | .error cause => return .error (.reading cause)
  | .ok text => return (ofTomlText? text).elim (.error (.settings .document)) .ok

end SelectShape
