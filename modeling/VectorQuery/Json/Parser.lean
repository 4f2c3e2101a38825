/-
# Reading JSON documents

`Json.parse` accepts exactly the texts of the JSON grammar: no trailing commas, no leading zeros,
no raw control characters in strings, nothing but blanks around the document.  What keeps to the
grammar and has no value is `Json.illegible`, so it harms only a reader that looks at it.
-/
import VectorQuery.Json.Basic
import VectorQuery.Number.Scaled
import VectorQuery.Text.Reader

namespace VectorQuery.Json

open Text (Reader)

/-- A blank of the JSON grammar. -/
def isJsonBlank (c : Char) : Bool := c == ' ' || c == '\t' || c == '\n' || c == '\r'

/-- The text after leading blanks. -/
def skipBlanks (cs : List Char) : List Char := cs.dropWhile isJsonBlank

/-- The second unit of a surrogate pair, as an escape. -/
def lowSurrogate : Reader Nat
  | '\\' :: 'u' :: rest => do
    let (n, rest) ← Reader.hex 4 0 rest
    if 0xDC00 ≤ n ∧ n < 0xE000 then some (n - 0xDC00, rest) else none
  | _ => none

/-- The character of an escape by code unit, after its `\u`.  Units beyond the first plane come in
pairs; half of a pair stands for no character. -/
def unicodeEscape : Reader (Option Char) := fun cs => do
  let (n, rest) ← Reader.hex 4 0 cs
  if 0xD800 ≤ n ∧ n < 0xDC00 then
    match lowSurrogate rest with
    | some (m, rest) => some (some (Char.ofNat (0x10000 + (n - 0xD800) * 0x400 + m)), rest)
    | none => some (none, rest)
  else if 0xDC00 ≤ n ∧ n < 0xE000 then some (none, rest)
  else some (some (Char.ofNat n), rest)

/-- The character that a one-letter escape stands for. -/
def shortEscape? : Char → Option Char
  | '"' => some '"'
  | '\\' => some '\\'
  | '/' => some '/'
  | 'b' => some '\x08'
  | 'f' => some '\x0c'
  | 'n' => some '\n'
  | 'r' => some '\r'
  | 't' => some '\t'
  | _ => none

/-- One more character of a string, every character of which is legible. -/
def extend (c : Option Char) (cs : Option (List Char)) : Option (List Char) :=
  match c, cs with
  | some c, some cs => some (c :: cs)
  | _, _ => none

/-- The characters of a string after its opening quote, if all are legible; `fuel` bounds its
length. -/
def stringChars : Nat → Reader (Option (List Char))
  | 0, _ => none
  | _ + 1, [] => none
  | _ + 1, '"' :: rest => some (some [], rest)
  | fuel + 1, '\\' :: 'u' :: rest => do
    let (c, rest) ← unicodeEscape rest
    let (cs, rest) ← stringChars fuel rest
    some (extend c cs, rest)
  | fuel + 1, '\\' :: e :: rest => do
    let c ← shortEscape? e
    let (cs, rest) ← stringChars fuel rest
    some (extend (some c) cs, rest)
  | fuel + 1, c :: rest =>
    if c.toNat < 32 ∨ c = '\\' then none
    else do
      let (cs, rest) ← stringChars fuel rest
      some (extend (some c) cs, rest)

/-- A string of its characters. -/
def ofChars : Option (List Char) → Json
  | some cs => .string (.ofList cs)
  | none => .illegible

/-- An object of its fields. -/
def ofFields : Option (List (String × Json)) → Json
  | some fields => .object fields
  | none => .illegible

/-- One more field of an object, the name of every field of which is legible. -/
def extendFields (name : Option (List Char)) (value : Json)
    (fields : Option (List (String × Json))) : Option (List (String × Json)) :=
  match name, fields with
  | some name, some fields => some ((.ofList name, value) :: fields)
  | _, _ => none

/-- Decimal digits by their values. -/
def digitValues (cs : List Char) : List Nat := cs.map fun c => c.toNat - '0'.toNat

/-- At least one digit. -/
def digitRun : Reader (List Nat) := fun cs =>
  let ds := cs.takeWhile Char.isDigit
  if ds.isEmpty then none else some (digitValues ds, cs.dropWhile Char.isDigit)

/-- The digits before the point: a lone zero, or digits that start with none. -/
def wholeDigits : Reader (List Nat)
  | '0' :: rest => if rest.head?.any Char.isDigit then none else some ([0], rest)
  | cs => digitRun cs

/-- The digits after a point, if a point comes next. -/
def fractionDigits : Reader (Option (List Nat))
  | '.' :: rest => (digitRun rest).map fun (ds, rest) => (some ds, rest)
  | cs => some (none, cs)

/-- The exponent, if one comes next. -/
def exponentPart : Reader (Option Int)
  | c :: rest =>
    if c = 'e' ∨ c = 'E' then
      let (minus, rest) := match rest with
        | '-' :: rest => (true, rest)
        | '+' :: rest => (false, rest)
        | rest => (false, rest)
      (digitRun rest).map fun (ds, rest) =>
        let n : Nat := ds.foldl (fun n d => 10 * n + d) 0
        (some (if minus then -(n : Int) else n), rest)
    else some (none, c :: rest)
  | [] => some (none, [])

/-- The number that sign, digits and exponent write. -/
def numberOf (isNegative : Bool) (whole : List Nat) (fraction : Option (List Nat))
    (exponent : Option Int) : Json :=
  let signed (x : Double) := if isNegative then -x else x
  match fraction, exponent with
  | none, none =>
    let (n, dropped) := Number.leading whole 0
    if dropped = 0 ∧ !isNegative then .natural n
    else if dropped = 0 ∧ 0 < n ∧ n ≤ 2 ^ 63 then .negative n
    else match Number.scaled n dropped with
      | some x => .real (signed x)
      | none => .illegible
  | fraction, exponent =>
    let ds := fraction.getD []
    let (n, dropped) := Number.leading (whole ++ ds) 0
    match Number.scaled n (exponent.getD 0 + dropped - ds.length) with
    | some x => .real (signed x)
    | none => .illegible

/-- A number. -/
def number : Reader Json := fun cs => do
  let (isNegative, cs) := match cs with
    | '-' :: rest => (true, rest)
    | cs => (false, cs)
  let (whole, cs) ← wholeDigits cs
  let (fraction, cs) ← fractionDigits cs
  let (exponent, cs) ← exponentPart cs
  some (numberOf isNegative whole fraction exponent, cs)

mutual

/-- A document; `fuel` bounds the number of its parts and the length of its strings. -/
def value : Nat → Reader Json
  | 0, _ => none
  | fuel + 1, cs =>
    match skipBlanks cs with
    | '"' :: rest => do
      let (s, rest) ← stringChars fuel rest
      some (ofChars s, rest)
    | '[' :: rest =>
      match skipBlanks rest with
      | ']' :: rest => some (.array [], rest)
      | rest => do
        let (vs, rest) ← items fuel rest
        some (.array vs, rest)
    | '{' :: rest =>
      match skipBlanks rest with
      | '}' :: rest => some (.object [], rest)
      | rest => do
        let (fs, rest) ← members fuel rest
        some (ofFields fs, rest)
    | 'n' :: rest => Reader.word "null" .null ('n' :: rest)
    | 't' :: rest => Reader.word "true" (.bool true) ('t' :: rest)
    | 'f' :: rest => Reader.word "false" (.bool false) ('f' :: rest)
    | cs => number cs

/-- The items of an array after its bracket. -/
def items : Nat → Reader (List Json)
  | 0, _ => none
  | fuel + 1, cs => do
    let (v, rest) ← value fuel cs
    match skipBlanks rest with
    | ',' :: rest =>
      let (vs, rest) ← items fuel rest
      some (v :: vs, rest)
    | ']' :: rest => some ([v], rest)
    | _ => none

/-- The fields of an object after its brace, if their names are legible. -/
def members : Nat → Reader (Option (List (String × Json)))
  | 0, _ => none
  | fuel + 1, cs =>
    match skipBlanks cs with
    | '"' :: rest => do
      let (name, rest) ← stringChars fuel rest
      match skipBlanks rest with
      | ':' :: rest =>
        let (v, rest) ← value fuel rest
        match skipBlanks rest with
        | ',' :: rest =>
          let (fs, rest) ← members fuel rest
          some (extendFields name v fs, rest)
        | '}' :: rest => some (extendFields name v (some []), rest)
        | _ => none
      | _ => none
    | _ => none

end

/-- The document that a text is. -/
def parse (text : String) : Option Json :=
  let cs := text.toList
  match value (cs.length + 2) cs with
  | some (v, rest) => if (skipBlanks rest).isEmpty then some v else none
  | none => none

end VectorQuery.Json
