/-
# Outlines

An outline shows a tree one part a line, each part four blanks further in than what it belongs to,
and a comma after each part.
-/
import VectorQuery.Text.Escaped

namespace VectorQuery.Text

/-- A tree to be shown. -/
inductive Outline where
  | leaf (text : String)
  /-- A named part around another one. -/
  | wrap (name : String) (item : Outline)
  /-- A named part with named parts in it. -/
  | record (name : String) (fields : List (String × Outline))
  | list (items : List Outline)

namespace Outline

/-- A line break and the blanks of a line inside of `depth` parts. -/
def newline (depth : Nat) : String := "\n" ++ .ofList (List.replicate (4 * depth) ' ')

/-- Parts between brackets, one a line. -/
def block (opening closing : String) (depth : Nat) (parts : List String) : String :=
  if parts.isEmpty then opening ++ closing
  else
    opening ++ String.join (parts.map fun p => newline (depth + 1) ++ p ++ ",")
      ++ newline depth ++ closing

mutual

/-- A tree inside of `depth` parts. -/
def indented (depth : Nat) : Outline → String
  | .leaf s => s
  | .wrap name item => block (name ++ "(") ")" depth [indented (depth + 1) item]
  | .record name fields => block (name ++ " \x7b") "\x7d" depth (indentedFields (depth + 1) fields)
  | .list items => block "[" "]" depth (indentedItems (depth + 1) items)

/-- The parts of a list. -/
def indentedItems (depth : Nat) : List Outline → List String
  | [] => []
  | o :: os => indented depth o :: indentedItems depth os

/-- Named parts. -/
def indentedFields (depth : Nat) : List (String × Outline) → List String
  | [] => []
  | (name, o) :: fs => (name ++ ": " ++ indented depth o) :: indentedFields depth fs

end

/-- A tree as text. -/
def text (o : Outline) : String := o.indented 0

/-- A text, quoted. -/
def quoted (s : String) : Outline := .leaf (escaped s)

/-- A part that may be missing. -/
def option {α : Type} (write : α → Outline) : Option α → Outline
  | none => .leaf "None"
  | some a => .wrap "Some" (write a)

end Outline

end VectorQuery.Text
