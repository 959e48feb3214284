/-!
# Why a query is refused

Reading stops at the first fault. A fault at a place in the text carries the text from there on, of
which the message shows the beginning.
-/
namespace SelectShape

/-- Why a query is refused. -/
inductive ParseError where
  -- The text ends where a node must begin.
  | emptyInput
  -- No identifier starts at `rest`.
  | expectedIdentifier (rest : String)
  -- A related resource is neither continued nor closed at `rest`.
  | expectedCloseParen (rest : String)
  -- A related resource selects nothing.
  | emptyEmbedding
  -- No related resource follows a hint, at `rest`.
  | missingEmbedding (rest : String)
  -- The query is complete before `rest`.
  | trailingInput (rest : String)
  | nestingTooDeep (limit : Nat)
  -- The query has `length` bytes.
  | inputTooLong (length limit : Nat)
  deriving DecidableEq, Repr

namespace ParseError

/-- How many characters of the offending text a message shows. -/
def excerptLength : Nat := 24

/-- The offending text as a message shows it. -/
def excerpt (rest : String) : String :=
  let chars := rest.toList
  if chars.isEmpty then "end of input"
  else if chars.length ≤ excerptLength then "`" ++ rest ++ "`"
  else "`" ++ .ofList (chars.take excerptLength) ++ "…`"

def message : ParseError → String
  | .emptyInput => "unexpected end of input"
  | .expectedIdentifier rest => "expected identifier at " ++ excerpt rest
  | .expectedCloseParen rest => "expected ')' at " ++ excerpt rest
  | .emptyEmbedding => "expected fields after '('"
  | .missingEmbedding rest => "expected embedded resource after hint at " ++ excerpt rest
  | .trailingInput rest => "unexpected trailing input: " ++ excerpt rest
  | .nestingTooDeep limit =>
    "embedded resources nested deeper than " ++ toString limit ++ " levels"
  | .inputTooLong length limit =>
    "query is " ++ toString length ++ " bytes, limit is " ++ toString limit

end ParseError

end SelectShape
