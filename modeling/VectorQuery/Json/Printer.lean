/-
# Writing JSON documents

`Json.compact` writes a document on one line, `Json.pretty` one item a line with two spaces of
indent. Numbers follow the given layouts; a number that is not finite is written `null`.
-/
import VectorQuery.Json.Basic
import VectorQuery.Text.Digits

namespace VectorQuery.Json

/-- A character of a string. -/
def jsonChar (c : Char) : List Char :=
  match c with
  | '"' => ['\\', '"']
  | '\\' => ['\\', '\\']
  | '\n' => ['\\', 'n']
  | '\r' => ['\\', 'r']
  | '\t' => ['\\', 't']
  | '\x08' => ['\\', 'b']
  | '\x0c' => ['\\', 'f']
  | c =>
    if c.toNat < 32 then
      let ds := Text.hexDigits c.toNat
      '\\' :: 'u' :: List.replicate (4 - ds.length) '0' ++ ds
    else [c]

/-- A string between quotes. -/
def quoted (s : String) : String := .ofList ('"' :: s.toList.flatMap jsonChar ++ ['"'])

/-- How numbers are written. -/
structure Numbers where
  real : Double → String
  single : Single → String

/-- Numbers without exponents, single precision ones widened first. -/
def Numbers.plain : Numbers := ⟨Double.text, fun x => Double.text x.toDouble⟩

/-- Numbers with the fewest digits of their own precision, and `.0` on whole ones. -/
def Numbers.document : Numbers :=
  ⟨fun x => (Double.reading x).text .document,
    fun x => (Single.reading x).text .document32⟩

/-- A document that holds no others. -/
def leaf (numbers : Numbers) : Json → String
  | .null => "null"
  | .bool b => if b then "true" else "false"
  | .natural n => toString n
  | .negative n => "-" ++ toString n
  | .real x => if x.isFinite then numbers.real x else "null"
  | .single x => if x.isFinite then numbers.single x else "null"
  | .illegible => "null"
  | .string s => quoted s
  | .array _ => "[]"
  | .object _ => "\x7b\x7d"

mutual

/-- A document on one line. -/
def compact (numbers : Numbers) : Json → String
  | .array items => "[" ++ ",".intercalate (compactItems numbers items) ++ "]"
  | .object fields => "\x7b" ++ ",".intercalate (compactFields numbers fields) ++ "\x7d"
  | j => leaf numbers j

/-- The items of an array, each on one line. -/
def compactItems (numbers : Numbers) : List Json → List String
  | [] => []
  | j :: js => compact numbers j :: compactItems numbers js

/-- The fields of an object, each on one line. -/
def compactFields (numbers : Numbers) : List (String × Json) → List String
  | [] => []
  | (name, j) :: fs => (quoted name ++ ":" ++ compact numbers j) :: compactFields numbers fs

end

/-- A line break and the blanks that indent a line to `depth`. -/
def newline (depth : Nat) : String := "\n" ++ .ofList (List.replicate (2 * depth) ' ')

/-- Parts between brackets, one a line. -/
def block (opening closing : String) (depth : Nat) (parts : List String) : String :=
  if parts.isEmpty then opening ++ closing
  else
    opening ++ newline (depth + 1) ++ ("," ++ newline (depth + 1)).intercalate parts
      ++ newline depth ++ closing

mutual

/-- A document with one item a line, inside of `depth` others. -/
def indented (numbers : Numbers) (depth : Nat) : Json → String
  | .array items => block "[" "]" depth (indentedItems numbers (depth + 1) items)
  | .object fields => block "\x7b" "\x7d" depth (indentedFields numbers (depth + 1) fields)
  | j => leaf numbers j

/-- The items of an array. -/
def indentedItems (numbers : Numbers) (depth : Nat) : List Json → List String
  | [] => []
  | j :: js => indented numbers depth j :: indentedItems numbers depth js

/-- The fields of an object. -/
def indentedFields (numbers : Numbers) (depth : Nat) : List (String × Json) → List String
  | [] => []
  | (name, j) :: fs =>
    (quoted name ++ ": " ++ indented numbers depth j) :: indentedFields numbers depth fs

end

/-- A document with one item a line. -/
def pretty (j : Json) : String := indented .document 0 j

end VectorQuery.Json
