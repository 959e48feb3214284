/-!
# Coloured text

Text in a weight and a colour, by the escape sequences of terminals. Where colours are off it stays as
it is.
-/
namespace SelectShape.CommandLine

/-- The weight of text, if it is not the normal one. -/
inductive Weight where
  | bold
  | dimmed
  deriving DecidableEq, Repr

inductive Colour where
  | red
  | green
  | yellow
  | magenta
  | cyan
  | white
  deriving DecidableEq, Repr

/-- How a piece of text looks. -/
structure Style where
  weight : Option Weight
  colour : Option Colour
  deriving DecidableEq, Repr

namespace Style

def bold (colour : Colour) : Style := ⟨some .bold, some colour⟩

def plain (colour : Colour) : Style := ⟨none, some colour⟩

def dimmed : Style := ⟨some .dimmed, none⟩

/-- The parameters of the sequence that starts a style: its weight, then its colour. -/
def parameters (style : Style) : List String :=
  (style.weight.map fun
    | .bold => "1"
    | .dimmed => "2").toList
  ++ (style.colour.map fun
    | .red => "31"
    | .green => "32"
    | .yellow => "33"
    | .magenta => "35"
    | .cyan => "36"
    | .white => "37").toList

def start (style : Style) : String := "\x1b[" ++ ";".intercalate style.parameters ++ "m"

def reset : String := "\x1b[0m"

/-- Text in a style. A reset within the text starts the style again. -/
def paint (colours : Bool) (style : Style) (text : String) : String :=
  if colours then
    style.start ++ (reset ++ style.start).intercalate (text.splitOn reset) ++ reset
  else text

end Style

/-- Text with blanks after it up to a width in characters. -/
def padded (width : Nat) (text : String) : String :=
  text ++ .ofList (.replicate (width - text.length) ' ')

end SelectShape.CommandLine
