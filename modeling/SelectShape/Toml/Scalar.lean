import SelectShape.Decimal
import SelectShape.Json.Parse
import SelectShape.Toml.Basic

/-!
# Strings, numbers and times of TOML

Readers take the front of a text and return the text that follows. Those of strings go on once for every
character, for which the caller provides a budget of steps.
-/
namespace SelectShape.Toml

def isSpace (c : Char) : Bool := c == ' ' || c == '\t'

def skipSpace (text : List Char) : List Char := text.dropWhile isSpace

/-- A character that may stand within a line: a tab, or no control. -/
def isPlain (c : Char) : Bool := c == '\t' || (32 ≤ c.toNat && c.toNat != 127)

/-- A line end, which may have a carriage return in front, and the text after it. -/
def newline? : List Char → Option (List Char)
  | '\n' :: rest | '\r' :: '\n' :: rest => some rest
  | _ => none

/-- The text after its leading spaces, tabs and line ends. -/
def skipLines : List Char → List Char
  | '\r' :: '\n' :: rest => skipLines rest
  | c :: rest => if isSpace c || c == '\n' then skipLines rest else c :: rest
  | [] => []

/-! ## Strings -/

/-- The character with a code written in hexadecimal digits. -/
def codeChar? (digits : List Char) : Option Char := do
  let code ← digits.foldlM (fun total c => (Json.hexValue? c).map (16 * total + ·)) 0
  if code < 0xD800 || (0xDFFF < code && code < 0x110000) then some (.ofNat code) else none

/-- The character that an escape stands for, its backslash having been read. -/
def escape? : List Char → Option (Char × List Char)
  | 'u' :: a :: b :: c :: d :: rest => (codeChar? [a, b, c, d]).map (·, rest)
  | 'U' :: a :: b :: c :: d :: e :: f :: g :: h :: rest =>
    (codeChar? [a, b, c, d, e, f, g, h]).map (·, rest)
  | '/' :: _ => none
  | c :: rest => (Json.shortEscape? c).map (·, rest)
  | [] => none

def push (c : Char) : Option (List Char × List Char) → Option (List Char × List Char) :=
  Option.map fun (chars, rest) => (c :: chars, rest)

/-- A string of one line up to its closing quote; `escapes` says whether backslashes escape. -/
def short? (quote : Char) (escapes : Bool) : Nat → List Char → Option (List Char × List Char)
  | 0, _ | _, [] => none
  | budget + 1, c :: rest =>
    if c = quote then some ([], rest)
    else if escapes && c == '\\' then do
      let (c, rest) ← escape? rest
      push c (short? quote escapes budget rest)
    else if isPlain c then push c (short? quote escapes budget rest)
    else none

/-- Three closing quotes, with up to two quotes before them that belong to the string. -/
def closing? (quote : Char) (text : List Char) : Option (List Char × List Char) :=
  let run := (text.takeWhile (· == quote)).length
  if run < 3 then none else some (.replicate (min (run - 3) 2) quote, text.drop (min run 5))

/-- A string of several lines up to its closing quotes. A backslash that ends a line skips white space
and line ends, where backslashes escape. -/
def long? (quote : Char) (escapes : Bool) : Nat → List Char → Option (List Char × List Char)
  | 0, _ | _, [] => none
  | budget + 1, c :: rest =>
    if c = quote then
      match closing? quote (c :: rest) with
      | some closed => some closed
      | none => push c (long? quote escapes budget rest)
    else if escapes && c == '\\' then
      match newline? (skipSpace rest) with
      | some rest => long? quote escapes budget (skipLines rest)
      | none => do
        let (c, rest) ← escape? rest
        push c (long? quote escapes budget rest)
    else
      match newline? (c :: rest) with
      | some rest => push '\n' (long? quote escapes budget rest)
      | none => if isPlain c then push c (long? quote escapes budget rest) else none

/-- A string of one line, in either kind of quotes. -/
def shortString? (budget : Nat) : List Char → Option (String × List Char)
  | '"' :: rest => (short? '"' true budget rest).map fun (chars, rest) => (.ofList chars, rest)
  | '\'' :: rest => (short? '\'' false budget rest).map fun (chars, rest) => (.ofList chars, rest)
  | _ => none

/-- The text after a line end, if it starts with one. -/
def dropNewline (text : List Char) : List Char := (newline? text).getD text

/-- A string in any of the four notations. A line end directly after three opening quotes is dropped. -/
def anyString? (budget : Nat) : List Char → Option (String × List Char)
  | '"' :: '"' :: '"' :: rest =>
    (long? '"' true budget (dropNewline rest)).map fun (chars, rest) => (.ofList chars, rest)
  | '\'' :: '\'' :: '\'' :: rest =>
    (long? '\'' false budget (dropNewline rest)).map fun (chars, rest) => (.ofList chars, rest)
  | text => shortString? budget text

/-! ## Numbers -/

/-- Digits of a number and the text after them: a digit, then digits that may have one underscore in
front of each. The underscores are left out. -/
def digitRun? (isDigit : Char → Bool) : List Char → Option (List Char × List Char)
  | [] => none
  | c :: rest => if isDigit c then some (c :: (more rest).1, (more rest).2) else none
where
  -- Further digits.
  more : List Char → List Char × List Char
    | '_' :: c :: rest =>
      if isDigit c then (c :: (more rest).1, (more rest).2) else ([], '_' :: c :: rest)
    | c :: rest => if isDigit c then (c :: (more rest).1, (more rest).2) else ([], c :: rest)
    | [] => ([], [])

/-- A sign, which may be missing; whether it is a minus. -/
def sign : List Char → Bool × List Char
  | '-' :: rest => (true, rest)
  | '+' :: rest => (false, rest)
  | text => (false, text)

/-- The integer digits of a decimal number: a zero alone, or a run that starts with another digit. -/
def decimal? : List Char → Option (List Char × List Char)
  | '0' :: rest => some (['0'], rest)
  | text => digitRun? Char.isDigit text

/-- An integer of 64 bits with sign. -/
def boundedInteger? (value : Int) : Option Toml :=
  if -9223372036854775808 ≤ value && value ≤ 9223372036854775807 then some (.integer value) else none

/-- The digits of an integer in a base that is a power of two, read after its letter. -/
def based? (base : Nat) (text : List Char) : Option (Toml × List Char) := do
  let isDigit := fun c => (Json.hexValue? c).any (· < base)
  let (digits, rest) ← digitRun? isDigit text
  let value := digits.foldl (fun total c => base * total + (Json.hexValue? c).getD 0) 0
  return (← boundedInteger? value, rest)

def integer? : List Char → Option (Toml × List Char)
  | '0' :: 'x' :: rest => based? 16 rest
  | '0' :: 'o' :: rest => based? 8 rest
  | '0' :: 'b' :: rest => based? 2 rest
  | text => do
    let (negative, unsigned) := sign text
    let (digits, rest) ← decimal? unsigned
    let value : Int := Digits.value digits
    return (← boundedInteger? (if negative then -value else value), rest)

def exponent? : List Char → Option (List Char × List Char)
  | e :: rest =>
    if e = 'e' || e = 'E' then do
      let (negative, unsigned) := sign rest
      let (digits, rest) ← digitRun? Char.isDigit unsigned
      return ('e' :: (if negative then '-' :: digits else digits), rest)
    else none
  | [] => none

/-- What makes a number a float: a fraction, an exponent, or both in this order. -/
def floatTail? : List Char → Option (List Char × List Char)
  | '.' :: rest => do
    let (fraction, rest) ← digitRun? Char.isDigit rest
    let (power, rest) := (exponent? rest).getD ([], rest)
    return ('.' :: fraction ++ power, rest)
  | rest => exponent? rest

/-- The float at the front of a text, which is not rounded to positive infinity. Infinity and NaN have
names. -/
def float? (text : List Char) : Option (Toml × List Char) :=
  let (negative, unsigned) := sign text
  match unsigned with
  | 'i' :: 'n' :: 'f' :: rest | 'n' :: 'a' :: 'n' :: rest => some (.other, rest)
  | _ => do
    let (whole, rest) ← decimal? unsigned
    let (tail, rest) ← floatTail? rest
    if negative || (Decimal.ofChars (whole ++ tail)).rounds then some (.other, rest) else none

/-! ## Dates and times

A reader returns the text of what it read in the one spelling that stands for it: capital letters, no
zeros at the end of a fraction, nine digits of a fraction at most, and no negative offset of zero. -/

/-- A number of exactly `count` digits within bounds; its value and its digits. -/
def numeral? (count low high : Nat) (text : List Char) : Option (Nat × List Char × List Char) :=
  let digits := text.take count
  let value := Digits.value digits
  if digits.length = count && digits.all Char.isDigit && low ≤ value && value ≤ high then
    some (value, digits, text.drop count)
  else none

/-- The text after a mark that must stand at its front. -/
def after? (mark : Char) : List Char → Option (List Char)
  | c :: rest => if c = mark then some rest else none
  | [] => none

def monthLength (year month : Nat) : Nat :=
  if month = 2 then
    if year % 4 = 0 && (year % 100 != 0 || year % 400 == 0) then 29 else 28
  else if month = 4 || month = 6 || month = 9 || month = 11 then 30
  else 31

def date? (text : List Char) : Option (List Char × List Char) := do
  let (year, yearDigits, rest) ← numeral? 4 0 9999 text
  let (month, monthDigits, rest) ← numeral? 2 1 12 (← after? '-' rest)
  let (_, dayDigits, rest) ← numeral? 2 1 (monthLength year month) (← after? '-' rest)
  return (yearDigits ++ '-' :: monthDigits ++ '-' :: dayDigits, rest)

/-- The fraction of a second, which may be missing. -/
def secondFraction : List Char → List Char × List Char
  | '.' :: c :: rest =>
    if c.isDigit then
      let digits := (c :: rest.takeWhile Char.isDigit).take 9
      let kept := (digits.reverse.dropWhile (· == '0')).reverse
      (if kept.isEmpty then [] else '.' :: kept, rest.dropWhile Char.isDigit)
    else ([], '.' :: c :: rest)
  | text => ([], text)

/-- A time of day. A minute may have a leap second. -/
def time? (text : List Char) : Option (List Char × List Char) := do
  let (_, hour, rest) ← numeral? 2 0 23 text
  let (_, minute, rest) ← numeral? 2 0 59 (← after? ':' rest)
  let (_, second, rest) ← numeral? 2 0 60 (← after? ':' rest)
  let (fraction, rest) := secondFraction rest
  return (hour ++ ':' :: minute ++ ':' :: second ++ fraction, rest)

/-- An offset from universal time. -/
def offset? : List Char → Option (List Char × List Char)
  | c :: rest =>
    if c = 'Z' || c = 'z' then some (['Z'], rest)
    else if c = '+' || c = '-' then do
      let (hours, hourDigits, rest) ← numeral? 2 0 23 rest
      let (minutes, minuteDigits, rest) ← numeral? 2 0 59 (← after? ':' rest)
      let sign := if hours = 0 && minutes = 0 then '+' else c
      return (sign :: hourDigits ++ ':' :: minuteDigits, rest)
    else none
  | [] => none

/-- A time of day with its offset, after the mark that separates it from a date. -/
def timeAfterDate? : List Char → Option (List Char × List Char)
  | c :: rest =>
    if c = 'T' || c = 't' || c = ' ' then do
      let (time, rest) ← time? rest
      let (offset, rest) := (offset? rest).getD ([], rest)
      return ('T' :: time ++ offset, rest)
    else none
  | [] => none

/-- The date, the time of day, or both at the front of a text. -/
def dateTime? (text : List Char) : Option (Toml × List Char) :=
  match date? text with
  | some (date, rest) =>
    let (time, rest) := (timeAfterDate? rest).getD ([], rest)
    some (.dateTime (.ofList (date ++ time)), rest)
  | none => (time? text).map fun (time, rest) => (.dateTime (.ofList time), rest)

end SelectShape.Toml
