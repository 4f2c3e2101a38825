/-
# Points in time

An instant is a time of day on a calendar date in universal time, to the nanosecond.  It is
written by RFC 3339; reading also accepts a blank for the `T`, blanks between the parts, fewer
digits, and converts any offset to universal time.
-/
import VectorQuery.Text.Letter
import VectorQuery.Text.Reader

namespace VectorQuery

/-- Seconds since the beginning of 1970 and nanoseconds beyond them; a leap second has more than a
second's worth. -/
structure Instant where
  seconds : Int
  nanos : Nat
  deriving DecidableEq, Repr

namespace Instant

/-- A calendar date. -/
structure Date where
  year : Int
  month : Nat
  day : Nat

/-- Days since the beginning of 1970.  Years are counted from March, so leap days come last. -/
def Date.days (d : Date) : Int :=
  let y := if d.month ≤ 2 then d.year - 1 else d.year
  let m := (d.month + 9) % 12
  let era := y.fdiv 400
  let yoe := y - era * 400
  let doy : Int := ((153 * m + 2) / 5 + d.day - 1 : Nat)
  let doe := yoe * 365 + yoe / 4 - yoe / 100 + doy
  era * 146097 + doe - 719468

/-- The date of a number of days since the beginning of 1970. -/
def Date.ofDays (n : Int) : Date :=
  let z := n + 719468
  let era := z.fdiv 146097
  let doe := (z - era * 146097).toNat
  let yoe := (doe - doe / 1460 + doe / 36524 - doe / 146096) / 365
  let doy := doe - (365 * yoe + yoe / 4 - yoe / 100)
  let mp := (5 * doy + 2) / 153
  let month := if mp < 10 then mp + 3 else mp - 9
  let year := (yoe : Int) + era * 400
  ⟨if month ≤ 2 then year + 1 else year, month, doy - (153 * mp + 2) / 5 + 1⟩

/-- A year with a leap day. -/
def isLeap (year : Int) : Bool :=
  year.emod 4 = 0 && (year.emod 100 ≠ 0 || year.emod 400 = 0)

/-- How many days a month has. -/
def monthDays (year : Int) (month : Nat) : Nat :=
  if month = 2 then if isLeap year then 29 else 28
  else if month ∈ [4, 6, 9, 11] then 30
  else 31

/-- A number with at least `width` digits. -/
def padded (width n : Nat) : String :=
  let ds := Nat.toDigits 10 n
  .ofList (List.replicate (width - ds.length) '0' ++ ds)

/-- The fraction of a second in three, six or nine digits, whichever suffice. -/
def fraction (nanos : Nat) : String :=
  if nanos = 0 then ""
  else if nanos % 1000000 = 0 then "." ++ padded 3 (nanos / 1000000)
  else if nanos % 1000 = 0 then "." ++ padded 6 (nanos / 1000)
  else "." ++ padded 9 nanos

/-- A year in four digits; before the year 0 and after 9999 it has a sign, and more digits when it
needs them. -/
def yearText (year : Int) : String :=
  if 0 ≤ year ∧ year ≤ 9999 then padded 4 year.toNat
  else (if year < 0 then "-" else "+") ++ padded 4 year.natAbs

/-- Date and time of day, without an offset. -/
def wallClock (t : Instant) : String :=
  let d := Date.ofDays (t.seconds.fdiv 86400)
  let s := (t.seconds.fmod 86400).toNat
  let extra := t.nanos / 1000000000
  yearText d.year ++ "-" ++ padded 2 d.month ++ "-" ++ padded 2 d.day ++ "T"
    ++ padded 2 (s / 3600) ++ ":" ++ padded 2 (s / 60 % 60) ++ ":" ++ padded 2 (s % 60 + extra)
    ++ fraction (t.nanos % 1000000000)

/-- The instant as snapshot files hold it. -/
def stamp (t : Instant) : String := t.wallClock ++ "Z"

/-- The instant with a numeric offset. -/
def text (t : Instant) : String := t.wallClock ++ "+00:00"

/-! ### Reading -/

open Text (Reader)

/-- The text after leading blanks. -/
def skip (cs : List Char) : List Char := cs.dropWhile Text.isBlank

/-- A number of one to `width` digits, after blanks. -/
def number (width : Nat) : Reader Nat := fun cs =>
  let cs := skip cs
  let ds := (cs.takeWhile Char.isDigit).take width
  if ds.isEmpty then none else some (Text.decimalValue ds, cs.drop ds.length)

/-- A year: four digits at most, or any number with a sign. -/
def year : Reader Int := fun cs =>
  match skip cs with
  | '-' :: rest =>
    if rest.head?.any Char.isDigit then (number rest.length rest).map fun (n, r) => (-(n : Int), r)
    else none
  | '+' :: rest =>
    if rest.head?.any Char.isDigit then (number rest.length rest).map fun (n, r) => ((n : Int), r)
    else none
  | cs => (number 4 cs).map fun (n, r) => ((n : Int), r)

/-- The character `c`, after blanks. -/
def sign (c : Char) : Reader Unit := fun cs => Reader.char c (skip cs)

/-- Years that instants fall in. -/
def holdsYear (y : Int) : Bool := -262143 ≤ y && y ≤ 262142

/-- A calendar date. -/
def date : Reader Date := fun cs => do
  let (y, cs) ← year cs
  let ((), cs) ← sign '-' cs
  let (m, cs) ← number 2 cs
  let ((), cs) ← sign '-' cs
  let (d, cs) ← number 2 cs
  if holdsYear y ∧ 1 ≤ m ∧ m ≤ 12 ∧ 1 ≤ d ∧ d ≤ monthDays y m then
    some (⟨y, m, d⟩, cs)
  else none

/-- The nanoseconds after a point, if a point comes next. -/
def nanosecond : Reader Nat
  | '.' :: cs =>
    let ds := cs.takeWhile Char.isDigit
    if ds.isEmpty then none
    else
      let kept := ds.take 9
      some (Text.decimalValue kept * 10 ^ (9 - kept.length), cs.drop ds.length)
  | cs => some (0, cs)

/-- A time of day: seconds since midnight and nanoseconds. -/
def time : Reader (Nat × Nat) := fun cs => do
  let (h, cs) ← number 2 cs
  let ((), cs) ← sign ':' cs
  let (m, cs) ← number 2 cs
  let ((), cs) ← sign ':' cs
  let (s, cs) ← number 2 cs
  let (n, cs) ← nanosecond cs
  if h < 24 ∧ m < 60 ∧ s ≤ 60 then
    if s = 60 then some ((3600 * h + 60 * m + 59, n + 1000000000), cs)
    else some ((3600 * h + 60 * m + s, n), cs)
  else none

/-- Hours and minutes of an offset, in seconds. -/
def offsetBody : Reader Int := fun cs => do
  let (h, cs) ← Reader.twoDigits cs
  let (m, cs) ← Reader.twoDigits (cs.dropWhile fun c => c == ':' || Text.isBlank c)
  if m < 60 ∧ h < 24 then some (((3600 * h + 60 * m : Nat) : Int), cs) else none

/-- An offset from universal time, in seconds. -/
def offset : Reader Int := fun cs =>
  match skip cs with
  | u :: t :: c :: rest =>
    if [u, t, c].map Char.toUpper = ['U', 'T', 'C'] then some (0, rest)
    else if u = 'Z' ∨ u = 'z' then some (0, t :: c :: rest)
    else if u = '+' then offsetBody (t :: c :: rest)
    else if u = '-' ∨ u = '−' then (offsetBody (t :: c :: rest)).map fun (n, r) => (-n, r)
    else none
  | z :: rest => if z = 'Z' ∨ z = 'z' then some (0, rest) else none
  | [] => none

/-- The instant that a text is. -/
def ofText? (s : String) : Option Instant := do
  let (d, cs) ← date s.toList
  let cs ← match cs with
    | c :: cs => if c = 'T' ∨ c = 't' ∨ c = ' ' then some cs else none
    | [] => none
  let ((seconds, nanos), cs) ← time cs
  let (off, cs) ← offset cs
  let total := d.days * 86400 + seconds - off
  if (skip cs).isEmpty && holdsYear (Date.ofDays (total.fdiv 86400)).year then some ⟨total, nanos⟩
  else none

end Instant

end VectorQuery
