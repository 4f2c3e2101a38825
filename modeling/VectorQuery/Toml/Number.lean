/-
# Numbers and dates of settings files

Digits may be grouped by underscores, each between two digits.  Whole numbers have 64 bits and a
sign, or a base of sixteen, eight or two.  A date or a time of day is checked and holds no
settings.
-/
import VectorQuery.Instant
import VectorQuery.Json.Basic
import VectorQuery.Number.Double

namespace VectorQuery.Toml

open VectorQuery.Text (Reader)

/-- Digits after the first one, underscores between them. -/
def moreDigits (isDigit : Char → Bool) : Reader (List Char)
  | '_' :: c :: rest => do
    if isDigit c then
      let (ds, rest) ← moreDigits isDigit rest
      some (c :: ds, rest)
    else none
  | c :: rest => do
    if isDigit c then
      let (ds, rest) ← moreDigits isDigit rest
      some (c :: ds, rest)
    else if c = '_' then none
    else some ([], c :: rest)
  | [] => some ([], [])

/-- At least one digit. -/
def digits (isDigit : Char → Bool) : Reader (List Char)
  | c :: rest => do
    if isDigit c then
      let (ds, rest) ← moreDigits isDigit rest
      some (c :: ds, rest)
    else none
  | [] => none

/-- A sign, if one comes next: whether it is a minus. -/
def sign : List Char → Option Bool × List Char
  | '-' :: rest => (some true, rest)
  | '+' :: rest => (some false, rest)
  | cs => (none, cs)

/-- A whole number of 64 bits. -/
def integer? (negative : Bool) (n : Nat) : Option Json :=
  if !negative || n = 0 then if n < 2 ^ 63 then some (.natural n) else none
  else if n ≤ 2 ^ 63 then some (.negative n) else none

/-- A whole number in another base, after its mark. -/
def based (base : Nat) : Reader Json := fun cs => do
  let isDigit (c : Char) : Bool := (Text.hexValue? c).any (· < base)
  let (ds, rest) ← digits isDigit cs
  let n := ds.foldl (fun n d => base * n + (Text.hexValue? d).getD 0) 0
  some (← integer? false n, rest)

/-- The digits before a point: a lone zero, or digits that start with none. -/
def wholeDigits : Reader (List Char)
  | '0' :: rest => some (['0'], rest)
  | cs => digits Char.isDigit cs

/-- The digits after a point, if a point comes next. -/
def fraction : Reader (Option (List Char))
  | '.' :: rest => do
    let (ds, rest) ← digits Char.isDigit rest
    some (some ds, rest)
  | cs => some (none, cs)

/-- The exponent, if one comes next. -/
def exponent : Reader (Option Int)
  | c :: rest => do
    if c = 'e' || c = 'E' then
      let (minus, rest) := sign rest
      let (ds, rest) ← digits Char.isDigit rest
      let n : Int := (Text.decimalValue ds : Nat)
      some (some (if minus = some true then -n else n), rest)
    else some (none, c :: rest)
  | [] => some (none, [])

/-- A number with a fraction or an exponent; it may be infinite only with a minus. -/
def real? (negative : Bool) (whole fraction : List Char) (exponent : Int) : Option Json :=
  let x := Double.ofDecimal (Text.decimalValue (whole ++ fraction)) (exponent - fraction.length)
  if negative then some (.real (-x)) else if x.isInfinite then none else some (.real x)

/-- A decimal number, after its sign. -/
def decimal (negative : Bool) : Reader Json := fun cs => do
  let (whole, cs) ← wholeDigits cs
  let (frac, cs) ← fraction cs
  let (exp, cs) ← exponent cs
  match frac, exp with
  | none, none => some (← integer? negative (Text.decimalValue whole), cs)
  | frac, exp => some (← real? negative whole (frac.getD []) (exp.getD 0), cs)

/-- A number. -/
def number : Reader Json
  | '0' :: 'x' :: rest => based 16 rest
  | '0' :: 'o' :: rest => based 8 rest
  | '0' :: 'b' :: rest => based 2 rest
  | cs =>
    let (minus, cs) := sign cs
    let negative := minus = some true
    let signed (x : Double) : Json := .real (if negative then -x else x)
    match cs with
    | 'i' :: _ => Reader.word "inf" (signed .infinity) cs
    | 'n' :: _ => Reader.word "nan" (signed .undefined) cs
    | cs => decimal negative cs

/-- The digits of a fraction of a second, if a point comes next. -/
def secondFraction : Reader Unit
  | '.' :: rest =>
    let ds := rest.takeWhile Char.isDigit
    if ds.isEmpty then none else some ((), rest.drop ds.length)
  | cs => some ((), cs)

/-- Two digits up to a number. -/
def twoDigits (least most : Nat) : Reader Unit := fun cs => do
  let (n, rest) ← Reader.twoDigits cs
  if least ≤ n && n ≤ most then some ((), rest) else none

/-- A time of day. -/
def time : Reader Unit := fun cs => do
  let ((), cs) ← twoDigits 0 23 cs
  let ((), cs) ← Reader.char ':' cs
  let ((), cs) ← twoDigits 0 59 cs
  let ((), cs) ← Reader.char ':' cs
  let ((), cs) ← twoDigits 0 60 cs
  secondFraction cs

/-- An offset from universal time, if one comes next. -/
def offset : Reader Unit
  | c :: rest => do
    if c = 'Z' || c = 'z' then some ((), rest)
    else if c = '+' || c = '-' then
      let ((), cs) ← twoDigits 0 23 rest
      let ((), cs) ← Reader.char ':' cs
      twoDigits 0 59 cs
    else some ((), c :: rest)
  | [] => some ((), [])

/-- A date, and perhaps a time of day with an offset. -/
def date : Reader Unit := fun cs => do
  let (century, cs) ← Reader.twoDigits cs
  let (year, cs) ← Reader.twoDigits cs
  let ((), cs) ← Reader.char '-' cs
  let (month, cs) ← Reader.twoDigits cs
  let ((), cs) ← Reader.char '-' cs
  let (day, cs) ← Reader.twoDigits cs
  let year : Nat := 100 * century + year
  if 1 ≤ month && month ≤ 12 && 1 ≤ day && day ≤ Instant.monthDays year month then
    match cs with
    | 'T' :: rest | 't' :: rest => do
      let ((), rest) ← time rest
      offset rest
    | ' ' :: h :: rest => do
      if h.isDigit then
        let ((), rest) ← time (h :: rest)
        offset rest
      else some ((), cs)
    | cs => some ((), cs)
  else none

/-- A number, a date or a time of day. -/
def numberOrDate : Reader Json := fun cs =>
  let leading := cs.takeWhile Char.isDigit
  let next := (cs.drop leading.length).head?
  if (leading.length = 4 && next == some '-') then do
    let ((), rest) ← date cs
    some (.object [], rest)
  else if (leading.length = 2 && next == some ':') then do
    let ((), rest) ← time cs
    some (.object [], rest)
  else number cs

end VectorQuery.Toml
