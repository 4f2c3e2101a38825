/-
# Strings and keys of settings files

Strings stand in single or double quotes, or in three of them over several lines; a key may also
be a bare word, and several keys may stand between dots.
-/
import VectorQuery.Text.Reader

namespace VectorQuery.Toml

open VectorQuery.Text (Reader)

/-- A blank inside of a line. -/
def isBlank (c : Char) : Bool := c == ' ' || c == '\t'

/-- The text after leading blanks. -/
def skipBlanks (cs : List Char) : List Char := cs.dropWhile isBlank

/-- A character that comments and strings may hold: no control character but the tab. -/
def isShown (c : Char) : Bool := c == '\t' || (' ' ≤ c && c != '\x7f')

/-- A line break. -/
def lineBreak : Reader Unit
  | '\n' :: rest => some ((), rest)
  | '\r' :: '\n' :: rest => some ((), rest)
  | _ => none

/-- The character that a one-letter escape stands for. -/
def shortEscape? : Char → Option Char
  | '"' => some '"'
  | '\\' => some '\\'
  | 'b' => some '\x08'
  | 'f' => some '\x0c'
  | 'n' => some '\n'
  | 'r' => some '\r'
  | 't' => some '\t'
  | _ => none

/-- The character of an escape, after its backslash. -/
def escape : Reader Char
  | 'u' :: rest => scalar 4 rest
  | 'U' :: rest => scalar 8 rest
  | c :: rest => do some (← shortEscape? c, rest)
  | [] => none
where
  /-- The character of a code point with `width` digits. -/
  scalar (width : Nat) : Reader Char := fun cs => do
    let (n, rest) ← Reader.hex width 0 cs
    if n.isValidChar then some (Char.ofNat n, rest) else none

/-- A string on one line, after its opening quote.  Escapes stand in double quotes only. -/
def quotedLine (quote : Char) : Nat → Reader (List Char)
  | 0, _ => none
  | _ + 1, [] => none
  | fuel + 1, c :: rest =>
    if c = quote then some ([], rest)
    else if c = '\\' && quote == '"' then do
      let (d, rest) ← escape rest
      let (ds, rest) ← quotedLine quote fuel rest
      some (d :: ds, rest)
    else if isShown c then do
      let (ds, rest) ← quotedLine quote fuel rest
      some (c :: ds, rest)
    else none

/-- The text after an escaped line break: past all blanks and line breaks. -/
def skipBroken : Bool → List Char → Option (List Char)
  | broken, cs@(c :: rest) =>
    match c, rest with
    | '\n', rest => skipBroken true rest
    | '\r', '\n' :: rest => skipBroken true rest
    | c, rest =>
      if isBlank c then skipBroken broken rest else if broken then some cs else none
  | broken, [] => if broken then some [] else none

/-- A string of several lines, after its opening quotes.  Up to two quotes may stand right before
the three that end it. -/
def quotedLines (quote : Char) : Nat → Reader (List Char)
  | 0, _ => none
  | _ + 1, [] => none
  | fuel + 1, c :: rest =>
    if c = quote then
      let run := (c :: rest).takeWhile (· == quote)
      let after := (c :: rest).drop run.length
      if run.length < 3 then do
        let (ds, rest) ← quotedLines quote fuel after
        some (run ++ ds, rest)
      else
        let kept := min (run.length - 3) 2
        some (run.take kept, run.drop (kept + 3) ++ after)
    else if c = '\\' && quote == '"' then
      match escape rest with
      | some (d, rest) => do
        let (ds, rest) ← quotedLines quote fuel rest
        some (d :: ds, rest)
      | none => do quotedLines quote fuel (← skipBroken false rest)
    else
      match lineBreak (c :: rest) with
      | some ((), rest) => do
        let (ds, rest) ← quotedLines quote fuel rest
        some ('\n' :: ds, rest)
      | none =>
        if isShown c then do
          let (ds, rest) ← quotedLines quote fuel rest
          some (c :: ds, rest)
        else none

/-- A string on one line. -/
def line : Reader String
  | c :: rest => do
    if c = '"' || c = '\'' then
      let (cs, rest) ← quotedLine c (rest.length + 1) rest
      some (.ofList cs, rest)
    else none
  | [] => none

/-- A string. -/
def string : Reader String
  | a :: b :: c :: rest => do
    if (a = '"' || a = '\'') && b == a && c == a then
      let rest := match lineBreak rest with
        | some ((), rest) => rest
        | none => rest
      let (cs, rest) ← quotedLines a (rest.length + 1) rest
      some (.ofList cs, rest)
    else line (a :: b :: c :: rest)
  | cs => line cs

/-- A character of a bare key. -/
def isBare (c : Char) : Bool := c.isAlphanum || c == '-' || c == '_'

/-- A key without dots. -/
def simpleKey : Reader String := fun cs =>
  let bare := cs.takeWhile isBare
  if bare.isEmpty then line cs else some (.ofList bare, cs.drop bare.length)

/-- A key: its parts between dots, and blanks around them.  It has at most `fuel` parts. -/
def key : (fuel : Nat) → Reader (List String)
  | 0, _ => none
  | fuel + 1, cs => do
    let (part, rest) ← simpleKey (skipBlanks cs)
    match skipBlanks rest with
    | '.' :: rest =>
      let (parts, rest) ← key fuel rest
      some (part :: parts, rest)
    | rest => some ([part], rest)

end VectorQuery.Toml
