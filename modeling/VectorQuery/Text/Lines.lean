/-
# Lines

A text is made of lines, each with a line break after it; the last one may lack it.
-/
namespace VectorQuery.Text

/-- Lines, each with a line break after it. -/
def ofLines (lines : List String) : String := String.join (lines.map (· ++ "\n"))

/-- A text cut at its line breaks. -/
def cutLines : List Char → List (List Char)
  | [] => [[]]
  | c :: cs =>
    if c = '\n' then [] :: cutLines cs
    else match cutLines cs with
      | [] => [[c]]
      | line :: lines => (c :: line) :: lines

/-- A line without the carriage return at its end. -/
def dropReturn (line : List Char) : List Char :=
  if line.getLast? = some '\r' then line.dropLast else line

/-- The lines of a text.  A line break may have a carriage return before it. -/
def linesOf (text : List Char) : List (List Char) :=
  let parts := cutLines text
  let ended := parts.dropLast.map dropReturn
  match parts.getLast? with
  | some (c :: cs) => ended ++ [c :: cs]
  | _ => ended

/-- The lines of a text. -/
def lines (text : String) : List String := (linesOf text.toList).map String.ofList

end VectorQuery.Text
