import SelectShape.Selection.Reader

/-!
# Parsing select lists

`parse` reads a whole query. `parseNodes`, `parseNode?` and `parseEmbedded` read from the front of a
text, at a given level of nesting, and return the text that follows; they expect no leading blanks and
leave none behind.
-/
namespace SelectShape

/-- The nodes at the front of a text and the text after them. -/
def parseNodes (limits : Limits) (depth : Nat) (text : List Char) :
    Except ParseError (List Node × List Char) :=
  if text.head?.any isBlank then .error (.expectedIdentifier (.ofList text))
  else Reader.empty.run limits depth .list (scan false text)

/-- The node at the front of a text, as a list of one, and the text after it. -/
def parseNode (limits : Limits) (depth : Nat) (text : List Char) :
    Except ParseError (List Node × List Char) :=
  if text.head?.any isBlank then .error (.expectedIdentifier (.ofList text))
  else Reader.empty.run limits depth .node (scan false text)

/-- What stands where a related resource may begin. -/
inductive Embedded where
  | present (nodes : List Node) (rest : List Char)
  -- No parenthesis opens here; the text is returned as it is.
  | absent (rest : List Char)
  deriving DecidableEq, Repr

/-- The related resource at the front of a text, if one begins there. -/
def parseEmbedded (limits : Limits) (depth : Nat) : List Char → Except ParseError Embedded
  | '(' :: rest =>
    if limits.maxDepth ≤ depth then .error (.nestingTooDeep limits.maxDepth)
    else
      match Reader.run limits (depth + 1) .list ⟨[], [], .opened⟩ (scan false rest) with
      | .ok (nodes, ')' :: rest) => .ok (.present nodes (skipBlanks rest))
      | .ok (_, rest) => .error (.expectedCloseParen (.ofList rest))
      | .error error => .error error
  | text => .ok (.absent text)

/-- The select list that a query spells. The limit on length counts bytes and comes first. -/
def parse (limits : Limits) (query : String) : Except ParseError (List Node) :=
  if limits.maxLength < query.utf8ByteSize then
    .error (.inputTooLong query.utf8ByteSize limits.maxLength)
  else
    match Reader.empty.run limits 0 .list (scan false query.toList) with
    | .ok (nodes, []) => .ok nodes
    | .ok (_, rest) => .error (.trailingInput (.ofList rest))
    | .error error => .error error

end SelectShape
