import SelectShape.Toml.Scalar

/-!
# Reading TOML

A document is read into its statements, line by line, and these are carried out.
-/
namespace SelectShape.Toml

/-- How many arrays and tables in braces may stand within each other, and how many parts a dotted key
may have, is below this number. -/
def nestingLimit : Nat := 80

/-- A character of a key without quotes. -/
def isKeyChar (c : Char) : Bool := c.isAlphanum || c == '_' || c == '-'

/-- One part of a key. -/
def simpleKey? (text : List Char) : Option (String × List Char) :=
  match text.takeWhile isKeyChar with
  | [] => shortString? text.length text
  | key => some (.ofList key, text.dropWhile isKeyChar)

/-- The parts of a dotted key, with white space around each. -/
def keyParts? : Nat → List Char → Option (List String × List Char)
  | 0, _ => none
  | parts + 1, text => do
    let (key, rest) ← simpleKey? (skipSpace text)
    match skipSpace rest with
    | '.' :: rest => do
      let (path, rest) ← keyParts? parts rest
      return (key :: path, rest)
    | rest => return ([key], rest)

def key? : List Char → Option (List String × List Char) := keyParts? (nestingLimit - 1)

/-- The text after a comment, if one starts here. -/
def skipComment (text : List Char) : List Char :=
  match text with
  | '#' :: rest => rest.dropWhile isPlain
  | text => text

/-- The text after white space, line ends and comments. -/
def skipGaps : Nat → List Char → List Char
  | 0, text => text
  | budget + 1, text =>
    match skipComment (skipLines text) with
    | [] => []
    | c :: rest =>
      if c == '\n' || c == '\r' then
        if (newline? (c :: rest)).isSome then skipGaps budget (c :: rest) else c :: rest
      else c :: rest

def number? (text : List Char) : Option (Toml × List Char) :=
  match dateTime? text with
  | some found => some found
  | none =>
    match float? text with
    | some found => some found
    | none => integer? text

mutual

/-- The value at the front of a text. `nesting` counts the arrays and tables around it. -/
def value? : Nat → Nat → List Char → Option (Toml × List Char)
  | 0, _, _ => none
  | budget + 1, nesting, '[' :: rest =>
    if nestingLimit ≤ nesting + 1 then none
    else (elements? budget (nesting + 1) rest).map fun (items, rest) => (.array items, rest)
  | budget + 1, nesting, '\x7b' :: rest =>
    if nestingLimit ≤ nesting + 1 then none
    else
      match skipSpace rest with
      | '\x7d' :: rest => some (.table .braces [], rest)
      | rest => do
        let (assignments, rest) ← assignments? budget (nesting + 1) rest
        return (← ofAssignments assignments, rest)
  | _ + 1, _, 't' :: 'r' :: 'u' :: 'e' :: rest => some (.other, rest)
  | _ + 1, _, 'f' :: 'a' :: 'l' :: 's' :: 'e' :: rest => some (.other, rest)
  | budget + 1, _, text =>
    match text.head? with
    | some '"' | some '\'' =>
      (anyString? (budget + 1) text).map fun (text, rest) => (.string text, rest)
    | _ => number? text

/-- The items of an array up to its closing bracket. A comma may follow the last one, and line ends
may stand anywhere between. -/
def elements? : Nat → Nat → List Char → Option (List Toml × List Char)
  | 0, _, _ => none
  | budget + 1, nesting, text =>
    match skipGaps text.length text with
    | ']' :: rest => some ([], rest)
    | text => do
      let (item, rest) ← value? budget nesting text
      match skipGaps rest.length rest with
      | ',' :: rest =>
        let (items, rest) ← elements? budget nesting rest
        return (item :: items, rest)
      | ']' :: rest => return ([item], rest)
      | _ => none

/-- The assignments of a table up to its closing brace; at least one, on one line, without a comma
after the last one. -/
def assignments? : Nat → Nat → List Char → Option (List (List String × Toml) × List Char)
  | 0, _, _ => none
  | budget + 1, nesting, text => do
    let (path, rest) ← key? text
    let (value, rest) ← value? budget nesting (skipSpace (← after? '=' rest))
    match skipSpace rest with
    | ',' :: rest =>
      let (others, rest) ← assignments? budget nesting rest
      return ((path, value) :: others, rest)
    | '\x7d' :: rest => return ([(path, value)], rest)
    | _ => none

end

/-- The text after the end of a line, before which a comment may stand; the end of the text counts. -/
def lineEnd? (text : List Char) : Option (List Char) :=
  match skipComment (skipSpace text) with
  | [] => some []
  | rest => newline? rest

/-- A header whose first bracket has been read. -/
def header? : List Char → Option (Statement × List Char)
  | '[' :: rest => do
    let (path, rest) ← key? rest
    return (.header true path, ← after? ']' (← after? ']' rest))
  | rest => do
    let (path, rest) ← key? rest
    return (.header false path, ← after? ']' rest)

/-- The assignment at the front of a line. -/
def assignment? (budget : Nat) (text : List Char) : Option (Statement × List Char) := do
  let (path, rest) ← key? text
  let (value, rest) ← value? budget 0 (skipSpace (← after? '=' rest))
  return (.assignment path value, rest)

def statements? : Nat → List Char → Option (List Statement)
  | 0, _ => none
  | budget + 1, text =>
    match skipSpace text with
    | [] => some []
    | c :: rest =>
      if c = '#' || c = '\n' || c = '\r' then do
        statements? budget (← lineEnd? (c :: rest))
      else do
        let (statement, rest) ← if c = '[' then header? rest else assignment? budget (c :: rest)
        let others ← statements? budget (← lineEnd? rest)
        return statement :: others

/-- The table that a document describes. A byte order mark may stand in front. -/
def parse (text : String) : Option (Entries Toml) := do
  let chars := match text.toList with
    | '\uFEFF' :: rest => rest
    | chars => chars
  carryOut [] [] (← statements? (2 * chars.length + 2) chars)

end SelectShape.Toml
