/-
# Styled texts

On a terminal that shows colors a styled text stands between escape sequences; elsewhere it stands
alone. Blanks that fill a column belong to the styled text.
-/
namespace VectorQuery.Text

/-- The look of a text. -/
inductive Style where
  | bold
  | dimmed
  | cyan
  | yellow
  | yellowBold
  | red
  | redBold
  | green
  | greenBold
  | blue
  deriving DecidableEq, Repr

/-- The parameters of a style's escape sequence. -/
def Style.code : Style → String
  | .bold => "1"
  | .dimmed => "2"
  | .cyan => "36"
  | .yellow => "33"
  | .yellowBold => "1;33"
  | .red => "31"
  | .redBold => "1;31"
  | .green => "32"
  | .greenBold => "1;32"
  | .blue => "34"

/-- A text with blanks after it, up to a width in characters. -/
def padRight (width : Nat) (s : String) : String :=
  s ++ .ofList (List.replicate (width - s.length) ' ')

/-- A text with blanks before it, up to a width in characters. -/
def padLeft (width : Nat) (s : String) : String :=
  .ofList (List.replicate (width - s.length) ' ') ++ s

/-- The escape sequence that ends every style. -/
def reset : String := "\x1b[0m"

namespace Style

/-- The escape sequence that starts a style. -/
def start (style : Style) : String := "\x1b[" ++ style.code ++ "m"

/-- A text in a style, in a column of at least `width` characters.  Where the text itself ends all
styles, the style starts anew. -/
def column (style : Style) (color : Bool) (width : Nat) (s : String) : String :=
  if color then
    style.start ++ padRight width ((reset ++ style.start).intercalate (s.splitOn reset)) ++ reset
  else padRight width s

/-- A text in a style. -/
def paint (style : Style) (color : Bool) (s : String) : String := style.column color 0 s

end Style

end VectorQuery.Text
