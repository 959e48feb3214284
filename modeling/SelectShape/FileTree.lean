import SelectShape.Entries

/-!
# Files

A tree of files and directories, from its root, in which paths are looked up, and why reading a file can
fail. A path without a slash in front starts from a working directory.
-/
namespace SelectShape

/-- Why a file cannot be read as text. -/
inductive ReadFailure where
  -- The path contains the character with code zero.
  | zeroInPath
  -- The path or a name in it is longer than a system allows.
  | nameTooLong
  | notFound
  | isDirectory
  | notDirectory
  | notText
  -- Another failure that the system describes.
  | system (description : String)
  deriving DecidableEq, Repr

def ReadFailure.message : ReadFailure → String
  | .zeroInPath => "file name contained an unexpected NUL byte"
  | .nameTooLong => "File name too long (os error 36)"
  | .notFound => "No such file or directory (os error 2)"
  | .isDirectory => "Is a directory (os error 21)"
  | .notDirectory => "Not a directory (os error 20)"
  | .notText => "stream did not contain valid UTF-8"
  | .system description => description

/-- How many bytes a path may have. -/
def pathLimit : Nat := 4095

/-- How many bytes a name in a path may have. -/
def nameLimit : Nat := 255

/-- Why a path leads nowhere, whatever the files are. -/
def pathFault? (path : String) : Option ReadFailure :=
  if path.contains '\x00' then some .zeroInPath
  else if pathLimit < path.utf8ByteSize then some .nameTooLong
  else if path.isEmpty then some .notFound
  else none

/-- The names in a path. -/
def pathNames (path : String) : List String := path.splitOn "/"

/-- The part of a file's name after its last dot; none if only the name's first character is a dot. -/
def fileExtension? (path : String) : Option String :=
  let reversed := ((pathNames path).getLast?.getD "").toList.reverse
  match reversed.dropWhile (· != '.') with
  | [] | [_] => none
  | _ => some (.ofList (reversed.takeWhile (· != '.')).reverse)

/-- A file or a directory. -/
inductive FileTree where
  | file (content : ByteArray)
  | directory (entries : List (String × FileTree))

namespace FileTree

def find? (tree : FileTree) : List String → Option FileTree
  | [] => some tree
  | name :: path =>
    match tree with
    | .file _ => none
    | .directory entries => (entries.lookup name).bind (find? · path)

def entries : FileTree → List (String × FileTree)
  | .file _ => []
  | .directory entries => entries

/-- The tree with `leaf` at a path of names, and directories on the way to it. A directory that is
there keeps its entries. -/
def plant (leaf : FileTree) : List String → FileTree → FileTree
  | [], tree =>
    match leaf, tree with
    | .directory [], .directory entries => .directory entries
    | leaf, _ => leaf
  | name :: path, tree =>
    let inner := ((entries tree).lookup name).getD (.directory [])
    .directory (Entries.put (fun _ new => new) (entries tree) name (plant leaf path inner))

/-- Follow names below the directory at `place`; the place they lead to. Above the root is the root. -/
def follow (root : FileTree) (place : List String) : List String → Except ReadFailure (List String)
  | [] => .ok place
  | name :: rest =>
    match root.find? place with
    | some (.directory entries) =>
      if name = "" || name = "." then follow root place rest
      else if name = ".." then follow root place.dropLast rest
      else if nameLimit < name.utf8ByteSize then .error .nameTooLong
      else if (entries.lookup name).isSome then follow root (place ++ [name]) rest
      else .error .notFound
    | some (.file _) => .error .notDirectory
    | none => .error .notFound

/-- What a path leads to, if it starts from the root or from the working directory. -/
def resolve (root : FileTree) (workingDirectory : List String) (path : String) :
    Except ReadFailure FileTree :=
  match pathFault? path with
  | some fault => .error fault
  | none => do
    let start := if path.startsWith "/" then [] else workingDirectory
    let place ← follow root start (pathNames path)
    (root.find? place).elim (.error .notFound) .ok

def read (root : FileTree) (workingDirectory : List String) (path : String) :
    Except ReadFailure String := do
  match ← root.resolve workingDirectory path with
  | .directory _ => .error .isDirectory
  | .file content => (String.fromUTF8? content).elim (.error .notText) .ok

end FileTree

end SelectShape
