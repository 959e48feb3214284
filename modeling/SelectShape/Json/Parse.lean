import SelectShape.Json.Basic

/-!
# Reading JSON

Strict: no trailing commas, comments, leading zeros, raw controls in strings, or text after the value.
Values are read with a budget of steps that the length of the text pays for.
-/
namespace SelectShape.Json

def isSpace (c : Char) : Bool := c == ' ' || c == '\t' || c == '\n' || c == '\r'

def skipSpace (text : List Char) : List Char := text.dropWhile isSpace

/-- What one character or escape of a string literal stands for. -/
inductive Piece where
  | char (c : Char)
  -- A unit written with four hexadecimal digits.
  | unit (code : Nat)
  deriving DecidableEq, Repr

def hexValue? (c : Char) : Option Nat :=
  if c.isDigit then some (c.toNat - '0'.toNat)
  else if 'a' ≤ c && c ≤ 'f' then some (c.toNat - 'a'.toNat + 10)
  else if 'A' ≤ c && c ≤ 'F' then some (c.toNat - 'A'.toNat + 10)
  else none

def unit? (a b c d : Char) : Option Nat := do
  return ((((← hexValue? a) * 16 + (← hexValue? b)) * 16 + (← hexValue? c)) * 16) + (← hexValue? d)

/-- The character that an escape of one letter stands for. -/
def shortEscape? (c : Char) : Option Char :=
  if c = '"' || c = '\\' || c = '/' then some c
  else if c = 'b' then some (.ofNat 8)
  else if c = 'f' then some (.ofNat 12)
  else if c = 'n' then some '\n'
  else if c = 'r' then some '\r'
  else if c = 't' then some '\t'
  else none

/-- The pieces of a literal whose opening quote has been read, and the text after its closing one. -/
def pieces? : List Char → Option (List Piece × List Char)
  | [] => none
  | '"' :: rest => some ([], rest)
  | '\\' :: 'u' :: a :: b :: c :: d :: rest => do
    let code ← unit? a b c d
    let (pieces, rest) ← pieces? rest
    return (.unit code :: pieces, rest)
  | '\\' :: c :: rest => do
    let char ← shortEscape? c
    let (pieces, rest) ← pieces? rest
    return (.char char :: pieces, rest)
  | c :: rest =>
    if c.toNat < 32 || c = '\\' then none
    else do
      let (pieces, rest) ← pieces? rest
      return (.char c :: pieces, rest)

/-- The first half of a surrogate pair. -/
def isHigh (code : Nat) : Bool := 0xD800 ≤ code && code < 0xDC00

/-- The second half of a surrogate pair. -/
def isLow (code : Nat) : Bool := 0xDC00 ≤ code && code < 0xE000

/-- The character that a surrogate pair stands for. -/
def pairChar (high low : Nat) : Char := .ofNat (0x10000 + (high - 0xD800) * 1024 + (low - 0xDC00))

/-- The text that pieces spell; `none` when half of a surrogate pair stands alone. -/
def joined? : List Piece → Option (List Char)
  | [] => some []
  | .char c :: rest => (joined? rest).map (c :: ·)
  | .unit high :: .unit low :: rest =>
    if isHigh high then
      if isLow low then (joined? rest).map (pairChar high low :: ·) else none
    else if isLow high then none
    else (joined? (.unit low :: rest)).map (Char.ofNat high :: ·)
  | .unit code :: rest =>
    if isHigh code || isLow code then none else (joined? rest).map (Char.ofNat code :: ·)

/-- The value of a literal whose opening quote has been read. -/
def literal? (text : List Char) : Option (Json × List Char) :=
  (pieces? text).map fun (pieces, rest) =>
    match joined? pieces with
    | some chars => (.string (.ofList chars), rest)
    | none => (.unreadable, rest)

/-- Leading digits, at least one, and what follows them. -/
def digits? (text : List Char) : Option (List Char × List Char) :=
  match text.takeWhile Char.isDigit with
  | [] => none
  | digits => some (digits, text.dropWhile Char.isDigit)

/-- The integer digits of a number: a zero alone, or a run that starts with another digit. -/
def integer? : List Char → Option (List Char × List Char)
  | '0' :: rest => some (['0'], rest)
  | text => digits? text

/-- The fraction of a number, which may be missing. -/
def fraction? : List Char → Option (List Char × List Char)
  | '.' :: rest => (digits? rest).map fun (digits, rest) => ('.' :: digits, rest)
  | text => some ([], text)

/-- The exponent of a number, which may be missing. -/
def exponent? : List Char → Option (List Char × List Char)
  | e :: rest =>
    if e = 'e' || e = 'E' then
      match rest with
      | sign :: after =>
        if sign = '+' || sign = '-' then
          (digits? after).map fun (digits, rest) => (e :: sign :: digits, rest)
        else (digits? rest).map fun (digits, rest) => (e :: digits, rest)
      | [] => none
    else some ([], e :: rest)
  | [] => some ([], [])

def number? (text : List Char) : Option (Json × List Char) := do
  let (sign, text) := match text with
    | '-' :: rest => (['-'], rest)
    | text => ([], text)
  let (whole, text) ← integer? text
  let (fraction, text) ← fraction? text
  let (exponent, text) ← exponent? text
  return (.number (.ofList (sign ++ whole ++ fraction ++ exponent)), text)

/-- The object of some fields: unreadable as a whole when a key is. -/
def objectOf (key value : Json) (rest : Json) : Json :=
  match key, rest with
  | .string key, .object fields => .object ((key, value) :: fields)
  | _, _ => .unreadable

mutual

/-- The value at the front of a text, which starts with no white space. -/
def value? : Nat → List Char → Option (Json × List Char)
  | 0, _ => none
  | _ + 1, '"' :: rest => literal? rest
  | budget + 1, '[' :: rest =>
    match skipSpace rest with
    | ']' :: rest => some (.array [], rest)
    | rest => (items? budget rest).map fun (items, rest) => (.array items, rest)
  | budget + 1, '\x7b' :: rest =>
    match skipSpace rest with
    | '\x7d' :: rest => some (.object [], rest)
    | rest => fields? budget rest
  | _ + 1, 'n' :: 'u' :: 'l' :: 'l' :: rest => some (.null, rest)
  | _ + 1, 't' :: 'r' :: 'u' :: 'e' :: rest => some (.bool true, rest)
  | _ + 1, 'f' :: 'a' :: 'l' :: 's' :: 'e' :: rest => some (.bool false, rest)
  | _ + 1, text => number? text

/-- The items of an array up to its closing bracket; at least one. -/
def items? : Nat → List Char → Option (List Json × List Char)
  | 0, _ => none
  | budget + 1, text => do
    let (item, rest) ← value? budget text
    match skipSpace rest with
    | ',' :: rest =>
      let (items, rest) ← items? budget (skipSpace rest)
      return (item :: items, rest)
    | ']' :: rest => return ([item], rest)
    | _ => none

/-- The fields of an object up to its closing brace; at least one. -/
def fields? : Nat → List Char → Option (Json × List Char)
  | 0, _ => none
  | budget + 1, '"' :: text => do
    let (key, rest) ← literal? text
    match skipSpace rest with
    | ':' :: rest =>
      let (value, rest) ← value? budget (skipSpace rest)
      match skipSpace rest with
      | ',' :: rest =>
        let (fields, rest) ← fields? budget (skipSpace rest)
        return (objectOf key value fields, rest)
      | '\x7d' :: rest => return (objectOf key value (.object []), rest)
      | _ => none
    | _ => none
  | _ + 1, _ => none

end

/-- The value that a text holds, with white space around it. -/
def parse (text : String) : Option Json :=
  match value? (2 * text.toList.length + 1) (skipSpace text.toList) with
  | some (json, rest) => if (skipSpace rest).isEmpty then some json else none
  | none => none

end SelectShape.Json
