/-
# Decimals of binary numbers

`Binary.shortest` picks, among the decimals that read back as the given number, one with the
fewest digits, and of those the nearest; an exact tie between two nearest goes as `Tie` says.
`Binary.places` rounds the exact value to a set number of decimal places, ties to the even
neighbour.  `Layout` holds every decision about how digits are written down.
-/
import VectorQuery.Number.Binary
import VectorQuery.Number.Rounding

namespace VectorQuery.Number

/-- The decimal `± significand · 10 ^ exponent`. -/
structure Decimal where
  negative : Bool
  significand : Nat
  exponent : Int
  deriving Repr, DecidableEq

/-- Trailing zeros move from the significand into the exponent; `fuel` bounds how many. -/
def trimZeros : Nat → Nat → Int → Nat × Int
  | 0, n, e => (n, e)
  | fuel + 1, n, e => if n ≠ 0 ∧ n % 10 = 0 then trimZeros fuel (n / 10) (e + 1) else (n, e)

/-- A positive rational with the reals that read back as the same binary number around it, all over
one denominator. -/
structure Interval where
  low : Nat
  value : Nat
  high : Nat
  denominator : Nat
  /-- Whether the two ends still read back. -/
  closed : Bool

/-- The reals that round to `b`: half way to both neighbours, ends included for an even mantissa. -/
def Binary.interval (b : Binary) : Interval :=
  let e := b.exponent - 2
  let up := 2 ^ e.toNat
  { low := (4 * b.mantissa - if b.tight then 1 else 2) * up
    value := 4 * b.mantissa * up
    high := (4 * b.mantissa + 2) * up
    denominator := 2 ^ (-e).toNat
    closed := b.mantissa % 2 = 0 }

/-- `n · 10 ^ e / d` reads back. -/
def Interval.holds (i : Interval) (n : Nat) (e : Int) : Bool :=
  let at10 := n * 10 ^ e.toNat * i.denominator
  let scale := 10 ^ (-e).toNat
  if i.closed then i.low * scale ≤ at10 && at10 ≤ i.high * scale
  else i.low * scale < at10 && at10 < i.high * scale

/-- The best decimal of the grid `10 ^ e` that reads back, if one does. -/
def Interval.onGrid? (i : Interval) (tie : Tie) (e : Int) : Option Nat :=
  let numerator := i.value * 10 ^ (-e).toNat
  let denominator := i.denominator * 10 ^ e.toNat
  let below := numerator / denominator
  let nearest := roundQuotient tie numerator denominator
  let other := if nearest = below then below + 1 else below
  if i.holds nearest e then some nearest
  else if i.holds other e then some other
  else none

/-- The exponent `k` with `10 ^ (k - 1) ≤ value < 10 ^ k`, searched upward from a lower estimate. -/
def Interval.magnitude (i : Interval) : Nat → Int → Int
  | 0, k => k
  | fuel + 1, k =>
    if i.value * 10 ^ (-k).toNat < 10 ^ k.toNat * i.denominator then k
    else i.magnitude fuel (k + 1)

/-- The first grid, from coarse to fine, with a decimal that reads back. -/
def Interval.search (i : Interval) (tie : Tie) : Nat → Int → Nat × Int
  | 0, e => (i.value / i.denominator, e)
  | fuel + 1, e =>
    match i.onGrid? tie e with
    | some n => (n, e)
    | none => i.search tie fuel (e - 1)

/-- The shortest decimal that reads back as `b`. -/
def Binary.shortest (tie : Tie) (b : Binary) : Decimal :=
  if b.mantissa = 0 then ⟨b.negative, 0, 0⟩
  else
    let i := b.interval
    let estimate := ((Nat.log2 b.mantissa : Int) + b.exponent) * 30103 / 100000 - 1
    let k := i.magnitude 4 estimate
    let (n, e) := i.search tie 18 (k - 1)
    let (n, e) := trimZeros 20 n e
    ⟨b.negative, n, e⟩

/-- The exact value in units of `10 ^ -places`, rounded, ties to the even neighbour. -/
def Binary.places (places : Nat) (b : Binary) : Nat :=
  roundQuotient .even (b.mantissa * 2 ^ b.exponent.toNat * 10 ^ places) (2 ^ (-b.exponent).toNat)

/-- The decimal digits of `n`, most significant first. -/
def digits (n : Nat) : List Char := Nat.toDigits 10 n

/-- `n` zeros. -/
def zeros (n : Nat) : List Char := List.replicate n '0'

/-- How the digits of a decimal are laid out.  Its point stands after `p` digits when the value is
`0.d₁d₂… · 10 ^ p`. -/
structure Layout where
  /-- The least `p` written without an exponent, if there is one. -/
  least : Option Int
  /-- The greatest `p` written without an exponent, if there is one. -/
  most : Option Int
  /-- Whole numbers keep `.0`. -/
  pointZero : Bool
  tie : Tie

/-- Digits with the point after `p` of them. -/
def positional (pointZero : Bool) (ds : List Char) (p : Int) : List Char :=
  if p ≤ 0 then '0' :: '.' :: zeros (-p).toNat ++ ds
  else
    let n := p.toNat
    if ds.length ≤ n then ds ++ zeros (n - ds.length) ++ (if pointZero then ['.', '0'] else [])
    else ds.take n ++ '.' :: ds.drop n

/-- Digits with one of them before the point, and an exponent. -/
def scientific (ds : List Char) (p : Int) : List Char :=
  let mantissa := match ds with
    | d :: d' :: more => d :: '.' :: d' :: more
    | _ => ds
  mantissa ++ 'e' :: (toString (p - 1)).toList

/-- A decimal written down. -/
def Layout.decimal (l : Layout) (d : Decimal) : String :=
  let sign := if d.negative then ['-'] else []
  if d.significand = 0 then
    .ofList (sign ++ '0' :: if l.pointZero then ['.', '0'] else [])
  else
    let ds := digits d.significand
    let p := ds.length + d.exponent
    let plain := l.least.all (· ≤ p) && l.most.all (p ≤ ·)
    .ofList (sign ++ if plain then positional l.pointZero ds p else scientific ds p)

/-- Numbers in queries, explanations and messages: never an exponent, no `.0`. -/
def Layout.plain : Layout := ⟨none, none, false, .away⟩

/-- Numbers in tree dumps of a query: `.0` kept, an exponent outside `[1e-5, 1e16)`. -/
def Layout.dump : Layout := ⟨some (-4), some 16, true, .away⟩

/-- Double precision numbers in JSON documents. -/
def Layout.document : Layout := ⟨some (-4), some 16, true, .even⟩

/-- Single precision numbers in JSON documents. -/
def Layout.document32 : Layout := ⟨some (-5), some 13, true, .even⟩

/-- A number in a layout, with names for what has no digits. -/
def Reading.text (l : Layout) : Reading → String
  | .undefined => "NaN"
  | .infinite negative => if negative then "-inf" else "inf"
  | .finite b => l.decimal (b.shortest l.tie)

/-- A number with exactly `places` decimal places; `signed` writes a plus as well. -/
def Reading.fixed (signed : Bool) (places : Nat) : Reading → String
  | .undefined => "NaN"
  | .infinite negative => if negative then "-inf" else if signed then "+inf" else "inf"
  | .finite b =>
    let sign := if b.negative then ['-'] else if signed then ['+'] else []
    let ds := digits (b.places places)
    let ds := zeros (places + 1 - ds.length) ++ ds
    let n := ds.length - places
    .ofList (sign ++ if places = 0 then ds else ds.take n ++ '.' :: ds.drop n)

end VectorQuery.Number
