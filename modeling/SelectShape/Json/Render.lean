import SelectShape.Json.Basic

/-!
# Writing JSON

Two layouts: compact, and one value a line with two blanks of indentation for each level.
-/
namespace SelectShape.Json

def hexDigit (n : Nat) : Char := Nat.digitChar n

/-- A character within a string literal. Quotes, backslashes and controls are escaped; all else stands
for itself. -/
def escape (c : Char) : List Char :=
  if c = '"' then ['\\', '"']
  else if c = '\\' then ['\\', '\\']
  else if c = '\n' then ['\\', 'n']
  else if c = '\r' then ['\\', 'r']
  else if c = '\t' then ['\\', 't']
  else if c.toNat = 8 then ['\\', 'b']
  else if c.toNat = 12 then ['\\', 'f']
  else if c.toNat < 32 then ['\\', 'u', '0', '0', hexDigit (c.toNat / 16), hexDigit (c.toNat % 16)]
  else [c]

def quote (text : String) : List Char := '"' :: text.toList.flatMap escape ++ ['"']

/-- A literal with half of a surrogate pair. -/
def halfSurrogate : List Char := "\"\\ud800\"".toList

mutual

/-- A value without blanks. -/
def chars : Json → List Char
  | .null => "null".toList
  | .bool true => "true".toList
  | .bool false => "false".toList
  | .number spelling => spelling.toList
  | .string text => quote text
  | .array items => '[' :: itemChars items ++ [']']
  | .object fields => '\x7b' :: fieldChars fields ++ ['\x7d']
  | .unreadable => halfSurrogate

def itemChars : List Json → List Char
  | [] => []
  | item :: rest => item.chars ++ moreItemChars rest

def moreItemChars : List Json → List Char
  | [] => []
  | item :: rest => ',' :: (item.chars ++ moreItemChars rest)

def fieldChars : List (String × Json) → List Char
  | [] => []
  | (key, value) :: rest => quote key ++ ':' :: (value.chars ++ moreFieldChars rest)

def moreFieldChars : List (String × Json) → List Char
  | [] => []
  | (key, value) :: rest =>
    ',' :: (quote key ++ ':' :: (value.chars ++ moreFieldChars rest))

end

/-- A new line, indented to a level. -/
def lineBreak (level : Nat) : List Char := '\n' :: List.replicate (2 * level) ' '

mutual

/-- A value over several lines, its first line standing at `level`. Empty arrays and objects stay on
one line. -/
def prettyChars (level : Nat) : Json → List Char
  | .array [] => ['[', ']']
  | .array (item :: rest) =>
    '[' :: lineBreak (level + 1) ++ item.prettyChars (level + 1)
      ++ morePrettyItems (level + 1) rest ++ lineBreak level ++ [']']
  | .object [] => ['\x7b', '\x7d']
  | .object ((key, value) :: rest) =>
    '\x7b' :: lineBreak (level + 1) ++ quote key ++ ':' :: ' ' :: value.prettyChars (level + 1)
      ++ morePrettyFields (level + 1) rest ++ lineBreak level ++ ['\x7d']
  | .null => "null".toList
  | .bool true => "true".toList
  | .bool false => "false".toList
  | .number spelling => spelling.toList
  | .string text => quote text
  | .unreadable => halfSurrogate

def morePrettyItems (level : Nat) : List Json → List Char
  | [] => []
  | item :: rest => ',' :: lineBreak level ++ item.prettyChars level ++ morePrettyItems level rest

def morePrettyFields (level : Nat) : List (String × Json) → List Char
  | [] => []
  | (key, value) :: rest =>
    ',' :: lineBreak level ++ quote key ++ ':' :: ' ' :: value.prettyChars level
      ++ morePrettyFields level rest

end

def compact (json : Json) : String := .ofList json.chars

def pretty (json : Json) : String := .ofList (json.prettyChars 0)

end SelectShape.Json
