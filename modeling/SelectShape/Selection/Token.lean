/-!
# Tokens of a select list

Maximal runs of `[0-9A-Za-z_]` are words, blanks only separate, and every other character is a mark of
its own. `scan` keeps with each token the text that starts at it, because an error reports that text.
-/
namespace SelectShape

/-- `[0-9A-Za-z_]`. -/
def isWordChar (c : Char) : Bool := c.isAlphanum || c == '_'

/-- Space, tab, newline or carriage return. -/
def isBlank (c : Char) : Bool := c == ' ' || c == '\t' || c == '\n' || c == '\r'

def skipBlanks (text : List Char) : List Char := text.dropWhile isBlank

/-- The word at the front of a text and what follows it; `none` when no word starts there. -/
def word? (text : List Char) : Option (List Char × List Char) :=
  match text.takeWhile isWordChar with
  | [] => none
  | word => some (word, text.dropWhile isWordChar)

/-- A word, or a single character that is neither of a word nor blank. -/
inductive Token where
  | word (text : String)
  | mark (symbol : Char)
  deriving DecidableEq, Repr

/-- A token with the text that starts at it. -/
structure Located where
  token : Token
  text : List Char
  deriving DecidableEq, Repr

/-- The tokens of a text. `inWord` says that the character before it belongs to a word, which a word
character at the front then continues. -/
def scan (inWord : Bool) : List Char → List Located
  | [] => []
  | c :: rest =>
    if isWordChar c then
      if inWord then scan true rest
      else ⟨.word (.ofList (c :: rest.takeWhile isWordChar)), c :: rest⟩ :: scan true rest
    else if isBlank c then scan false rest
    else ⟨.mark c, c :: rest⟩ :: scan false rest

/-- The tokens of a text, without their places. -/
def tokens (text : List Char) : List Token := (scan false text).map (·.token)

end SelectShape
