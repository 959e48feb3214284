import SelectShape.CommandLine.Style
import SelectShape.Selection.Basic

/-!
# What the command line prints for readers

The description of a query, node by node, and the reference of what queries may contain. Reports are
lists of lines.
-/
namespace SelectShape.CommandLine

def linesText (lines : List String) : String := String.join (lines.map (· ++ "\n"))

/-- What is said about a field: its key, then its source, its hint, and whether it is embedded. -/
def describeField (colours : Bool) (field : Field) (embedded : Bool) : String :=
  let key := (Style.bold .white).paint colours field.key
  let source := if field.isRenamed then
      [Style.dimmed.paint colours "←" ++ " " ++ (Style.plain .cyan).paint colours field.source]
    else []
  let hint := (field.hint.map fun hint =>
    (Style.plain .magenta).paint colours ("via " ++ hint)).toList
  let mark := if embedded then [Style.dimmed.paint colours "(embedded)"] else []
  " ".intercalate (key :: source ++ hint ++ mark)

/-- The line of a node at a level of indentation. -/
def bullet (level : Nat) (description : String) : String :=
  .ofList (.replicate (2 * level) ' ') ++ "• " ++ description

mutual

def describeNode (colours : Bool) (level : Nat) : Node → List String
  | .wildcard =>
    [bullet level ((Style.bold .cyan).paint colours "*" ++ " "
      ++ Style.dimmed.paint colours "(all columns)")]
  | .column field => [bullet level (describeField colours field false)]
  | .embed field children =>
    bullet level (describeField colours field true) :: describeNodes colours (level + 1) children

def describeNodes (colours : Bool) (level : Nat) : List Node → List String
  | [] => []
  | node :: rest => describeNode colours level node ++ describeNodes colours level rest

end

/-- What queries may contain: the form, its name and its meaning. -/
def forms : List (String × String × String) :=
  [("*", "Wildcard", "Every column of the table"),
    ("col", "Column", "One column, keyed by its name"),
    ("alias:col", "Rename", "One column under another key"),
    ("rel(...)", "Embed", "Fields of a related table"),
    ("alias:rel(...)", "Renamed embed", "Related fields under another key"),
    ("alias:rel!fk(...)", "Hinted embed", "Follow the foreign key named fk"),
    (",", "Separator", "Between sibling fields")]

def referenceRow (colours : Bool) (styles : Style × Style × Style) (row : String × String × String) :
    String :=
  styles.1.paint colours (padded 20 row.1) ++ " "
    ++ styles.2.1.paint colours (padded 15 row.2.1) ++ " " ++ styles.2.2.paint colours row.2.2

def referenceLines (colours : Bool) : List String :=
  let header := Style.bold .white
  [(Style.bold .cyan).paint colours "Select Syntax Reference", "",
    referenceRow colours (header, header, header) ("Form", "Name", "Meaning"),
    Style.dimmed.paint colours (.ofList (.replicate 70 '─'))]
  ++ forms.map (referenceRow colours (.bold .cyan, .plain .yellow, .plain .white))

end SelectShape.CommandLine
