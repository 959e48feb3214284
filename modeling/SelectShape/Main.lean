import SelectShape.CommandLine.Run

/-!
# The program

The command line on the machine it runs on.
-/
namespace SelectShape

/-- The failure that the system numbers so. Its number is the code or the code with the other sign. -/
def ReadFailure.ofCode (code : UInt32) (details : String) : ReadFailure :=
  match min code.toNat (UInt32.size - code.toNat) with
  | 2 => .notFound
  | 20 => .notDirectory
  | 21 => .isDirectory
  | 36 => .nameTooLong
  | number => .system (details.capitalize ++ " (os error " ++ toString number ++ ")")

def ReadFailure.ofError : IO.Error → ReadFailure
  | .noFileOrDirectory _ code details => ofCode code details
  | .inappropriateType _ code details | .invalidArgument _ code details
  | .permissionDenied _ code details | .noSuchThing _ code details => ofCode code details
  | error => .system (toString error)

def readText (path : String) : IO (Except ReadFailure String) := do
  match pathFault? path with
  | some fault => return .error fault
  | none =>
    try
      match String.fromUTF8? (← IO.FS.readBinFile path) with
      | some text => return .ok text
      | none => return .error .notText
    catch error => return .error (.ofError error)

/-- This machine. A path that cannot be read is present unless it leads nowhere. -/
def machine : Host IO where
  lookup name := IO.getEnv name
  isPresent path := do
    match ← readText path with
    | .error .zeroInPath | .error .nameTooLong | .error .notFound | .error .notDirectory =>
      return false
    | _ => return true
  read := readText
  isTerminal := do (← IO.getStdout).isTty

end SelectShape

def main (arguments : List String) : IO UInt32 := do
  let outcome ← SelectShape.CommandLine.run SelectShape.machine arguments
  IO.print outcome.stdout
  IO.eprint outcome.stderr
  return outcome.code.toUInt32
