import SelectShape.Selection.Basic
import SelectShape.Selection.Limits
import SelectShape.Selection.ParseError
import SelectShape.Selection.Token

/-!
# Reading tokens

```text
nodes    := node ( ',' node )*
node     := '*'
          | word embedded?
          | word ':' word embedded?
          | word ':' word '!' word embedded
embedded := '(' nodes ')'
```

A reader goes through the tokens once. It keeps a frame for every related resource that is open, the
nodes finished at the current level, and its place inside the next node; one token of lookahead is
never needed, because the place says which productions remain possible. A token that no production
continues with is an error inside a related resource, and ends the reading outside of all.
-/
namespace SelectShape

/-- How much is read when no related resource is open. -/
inductive Goal where
  -- One node.
  | node
  -- Nodes with commas between them.
  | list
  deriving DecidableEq, Repr

/-- Where a reader stands inside a node. -/
inductive Place where
  -- A node must begin.
  | start
  -- A node must begin, directly after an opening parenthesis.
  | opened
  -- After `key`.
  | named (key : String)
  -- After `key:`.
  | renaming (key : String)
  -- After `key:source`.
  | renamed (key source : String)
  -- After `key:source!`.
  | hinting (key source : String)
  -- After `key:source!hint`.
  | hinted (key source hint : String)
  -- After a wildcard or a closing parenthesis.
  | complete (node : Node)
  deriving DecidableEq, Repr

namespace Place

/-- The node that has been read if it ends here. -/
def node? : Place → Option Node
  | .named key => some (.column (.plain key))
  | .renamed key source => some (.column (.renamed key source))
  | .complete node => some node
  | _ => none

/-- The field whose select list may open here. -/
def field? : Place → Option Field
  | .named key => some (.plain key)
  | .renamed key source => some (.renamed key source)
  | .hinted key source hint => some ⟨key, source, some hint⟩
  | _ => none

/-- Why a node cannot end here, with `rest` still to come. -/
def incomplete (rest : String) : Place → ParseError
  | .renaming _ | .hinting _ _ => .expectedIdentifier rest
  | .hinted _ _ _ => .missingEmbedding rest
  | .start | .opened => if rest.isEmpty then .emptyInput else .expectedIdentifier rest
  | .named _ | .renamed _ _ | .complete _ => .expectedCloseParen rest

end Place

/-- A related resource that is open: the nodes before it, latest first, and its field. -/
structure Frame where
  before : List Node
  field : Field
  deriving DecidableEq, Repr

/-- What has been read so far. -/
structure Reader where
  -- The related resources that are open, innermost first.
  frames : List Frame
  -- The nodes finished at this level, latest first.
  nodes : List Node
  place : Place
  deriving DecidableEq, Repr

/-- What a token does to a reader. -/
inductive Step where
  | next (reader : Reader)
  -- The token is not part of what is read.
  | stop
  | fail (error : ParseError)
  deriving DecidableEq, Repr

namespace Reader

def empty : Reader := ⟨[], [], .start⟩

/-- Open the select list of `field`, unless the limit on nesting is reached. `base` is the level that
reading began at. -/
def openList (limits : Limits) (base : Nat) (reader : Reader) (field : Field) : Step :=
  if limits.maxDepth ≤ base + reader.frames.length then .fail (.nestingTooDeep limits.maxDepth)
  else .next ⟨⟨reader.nodes, field⟩ :: reader.frames, [], .opened⟩

/-- What a token does after a complete node: a comma asks for another one, a closing parenthesis ends
the innermost related resource. -/
def afterNode (goal : Goal) (reader : Reader) (node : Node) (located : Located) : Step :=
  match reader.frames, located.token with
  | [], .mark ',' =>
    if goal = .list then .next ⟨[], node :: reader.nodes, .start⟩ else .stop
  | [], _ => .stop
  | frames@(_ :: _), .mark ',' => .next ⟨frames, node :: reader.nodes, .start⟩
  | frame :: frames, .mark ')' =>
    .next ⟨frames, frame.before, .complete (.embed frame.field (node :: reader.nodes).reverse)⟩
  | _ :: _, _ => .fail (.expectedCloseParen (.ofList located.text))

def step (limits : Limits) (base : Nat) (goal : Goal) (reader : Reader) (located : Located) : Step :=
  match reader.place, located.token with
  | .start, .mark '*' | .opened, .mark '*' => .next { reader with place := .complete .wildcard }
  | .start, .word key | .opened, .word key => .next { reader with place := .named key }
  | .opened, .mark ')' => .fail .emptyEmbedding
  | .named key, .mark ':' => .next { reader with place := .renaming key }
  | .renaming key, .word source => .next { reader with place := .renamed key source }
  | .renamed key source, .mark '!' => .next { reader with place := .hinting key source }
  | .hinting key source, .word hint => .next { reader with place := .hinted key source hint }
  | place, token =>
    match place.field?, place.node?, token with
    | some field, _, .mark '(' => openList limits base reader field
    | _, some node, _ => afterNode goal reader node located
    | _, none, _ => .fail (place.incomplete (.ofList located.text))

/-- The nodes of a reader at which the text ends, or why it must not end there. -/
def finish (reader : Reader) : Except ParseError (List Node) :=
  match reader.place.node?, reader.frames with
  | some node, [] => .ok (node :: reader.nodes).reverse
  | _, _ => .error (reader.place.incomplete "")

/-- Read tokens until one is not part of what is read; the nodes, and the text from that token on. -/
def run (limits : Limits) (base : Nat) (goal : Goal) :
    Reader → List Located → Except ParseError (List Node × List Char)
  | reader, [] => reader.finish.map (·, [])
  | reader, located :: rest =>
    match step limits base goal reader located with
    | .next reader => run limits base goal reader rest
    | .stop => reader.finish.map (·, located.text)
    | .fail error => .error error

end Reader

end SelectShape
