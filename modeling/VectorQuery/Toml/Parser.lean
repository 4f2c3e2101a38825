/-
# Reading settings files

A file is a sequence of lines: a header, a key with a value, or nothing; each may end in a
comment. `Toml.parse` gives the whole file as a document, or nothing when a line has no meaning or
sets something twice.
-/
import VectorQuery.Toml.Number
import VectorQuery.Toml.Table
import VectorQuery.Toml.Text

namespace VectorQuery.Toml

open VectorQuery.Text (Reader)

/-- The most parts of a key, and the most values inside of each other. -/
def depthLimit : Nat := 79

/-- The text after blanks, line breaks and comments. -/
def skipLines (comment : Bool) : List Char → List Char
  | '\r' :: '\n' :: cs => skipLines false cs
  | c :: cs =>
    if c = '\n' then skipLines false cs
    else if comment then if isShown c then skipLines true cs else c :: cs
    else if isBlank c then skipLines false cs
    else if c = '#' then skipLines true cs
    else c :: cs
  | [] => []

/-- The rest of a line: blanks, perhaps a comment, and the line break or the end of the file. -/
def lineEnd : Reader Unit := fun cs =>
  let cs := match skipBlanks cs with
    | '#' :: rest => rest.dropWhile isShown
    | cs => cs
  if cs.isEmpty then some ((), []) else lineBreak cs

mutual

/-- A value with at most `depth` others inside of each other; `fuel` bounds the number of its
parts. -/
def value (depth : Nat) : (fuel : Nat) → Reader Json
  | 0, _ => none
  | fuel + 1, cs =>
    match cs with
    | '[' :: rest =>
      if depth = 0 then none
      else
        match skipLines false rest with
        | ']' :: rest => some (.array [], rest)
        | rest => do
          let (vs, rest) ← items (depth - 1) fuel rest
          some (.array vs, rest)
    | '{' :: rest =>
      if depth = 0 then none
      else
        match skipBlanks rest with
        | '}' :: rest => some (.object [], rest)
        | rest => do
          let (t, rest) ← members (depth - 1) fuel [] rest
          some (t.toJson, rest)
    | '"' :: _ | '\'' :: _ => do
      let (s, rest) ← string cs
      some (.string s, rest)
    | 't' :: _ => Reader.word "true" (.bool true) cs
    | 'f' :: _ => Reader.word "false" (.bool false) cs
    | cs => numberOrDate cs

/-- The items of an array after its bracket, or after a comma. -/
def items (depth : Nat) : (fuel : Nat) → Reader (List Json)
  | 0, _ => none
  | fuel + 1, cs => do
    let (v, rest) ← value depth fuel (skipLines false cs)
    match skipLines false rest with
    | ']' :: rest => some ([v], rest)
    | ',' :: rest =>
      match skipLines false rest with
      | ']' :: rest => some ([v], rest)
      | rest =>
        let (vs, rest) ← items depth fuel rest
        some (v :: vs, rest)
    | _ => none

/-- The settings of a table on one line, after its brace or after a comma. -/
def members (depth : Nat) : (fuel : Nat) → Table → Reader Table
  | 0, _, _ => none
  | fuel + 1, t, cs => do
    let (parts, rest) ← key depthLimit cs
    let ((), rest) ← Reader.char '=' rest
    let (v, rest) ← value depth fuel (skipBlanks rest)
    let t ← t.put (parts.getLast?.getD "") v parts.dropLast
    match skipBlanks rest with
    | '}' :: rest => some (t, rest)
    | ',' :: rest => members depth fuel t rest
    | _ => none

end

/-- What a file says so far. -/
structure Progress where
  /-- All tables. -/
  root : Table
  /-- The header that keys belong to. -/
  header : List String

namespace Progress

/-- A header, after its bracket. -/
def open? (p : Progress) (cs : List Char) : Option (Progress × List Char) := do
  let (many, cs) := match cs with
    | '[' :: rest => (true, rest)
    | cs => (false, cs)
  let (parts, cs) ← key depthLimit cs
  let ((), cs) ← Reader.char ']' cs
  let ((), cs) ← if many then Reader.char ']' cs else some ((), cs)
  let ((), cs) ← lineEnd cs
  let name := parts.getLast?.getD ""
  let start := if many then Table.openItem name else Table.openTable name
  some (⟨← p.root.below start parts.dropLast, parts⟩, cs)

/-- A key and its value. -/
def set? (p : Progress) (cs : List Char) : Option (Progress × List Char) := do
  let (parts, cs) ← key depthLimit cs
  let ((), cs) ← Reader.char '=' cs
  let cs := skipBlanks cs
  let (v, cs) ← value depthLimit (cs.length + 1) cs
  let ((), cs) ← lineEnd cs
  let put := Table.put (parts.getLast?.getD "") v parts.dropLast
  some (⟨← p.root.below put p.header, p.header⟩, cs)

/-- All lines; `fuel` bounds their number. -/
def lines? : (fuel : Nat) → Progress → List Char → Option Progress
  | 0, _, _ => none
  | fuel + 1, p, cs =>
    match skipBlanks cs with
    | [] => some p
    | '[' :: rest => do
      let (p, rest) ← p.open? rest
      lines? fuel p rest
    | c :: rest => do
      if c = '#' || c = '\n' || c = '\r' then
        let ((), rest) ← lineEnd (c :: rest)
        lines? fuel p rest
      else
        let (p, rest) ← p.set? (c :: rest)
        lines? fuel p rest

end Progress

/-- The document that a file is. -/
def parse (text : String) : Option Json := do
  let cs := match text.toList with
    | '\ufeff' :: rest => rest
    | cs => cs
  let p ← Progress.lines? (cs.length + 1) ⟨[], []⟩ cs
  some p.root.toJson

end VectorQuery.Toml
