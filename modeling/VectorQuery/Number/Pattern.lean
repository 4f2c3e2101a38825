/-
# Bit patterns of binary formats

A binary format keeps `fractionBits` of fraction and `exponentBits` of exponent.  `Format.nearest`
rounds a quotient to a pattern of the format; patterns of one sign are in the order of their
numbers, so a fraction that rounds up to the next binade just carries into the exponent.
`Reading.pattern?` finds the pattern of a number that the format holds exactly.
-/
import VectorQuery.Number.Binary
import VectorQuery.Number.Rounding

namespace VectorQuery.Number

/-- A binary format. -/
structure Format where
  fractionBits : Nat
  exponentBits : Nat
  deriving Repr, DecidableEq

namespace Format

/-- Sixteen bits. -/
def half : Format := ⟨10, 5⟩

/-- Thirty-two bits. -/
def single : Format := ⟨23, 8⟩

/-- Sixty-four bits. -/
def double : Format := ⟨52, 11⟩

/-- How many bytes a pattern fills. -/
def bytes (f : Format) : Nat := (1 + f.exponentBits + f.fractionBits) / 8

/-- The greatest exponent of a finite number whose point stands after its first bit. -/
def bias (f : Format) : Nat := 2 ^ (f.exponentBits - 1) - 1

/-- A pattern of its parts. -/
def pattern (f : Format) (negative : Bool) (exponent fraction : Nat) : Nat :=
  ((if negative then 2 ^ f.exponentBits else 0) + exponent) * 2 ^ f.fractionBits + fraction

/-- What a pattern stands for. -/
def reading (f : Format) (pattern : Nat) : Reading :=
  let exponents := 2 ^ f.exponentBits
  let top := pattern / 2 ^ f.fractionBits
  .ofFields f.fractionBits f.exponentBits (top / exponents = 1) (top % exponents)
    (pattern % 2 ^ f.fractionBits)

/-- The exponent `k` with `2 ^ k ≤ n / d < 2 ^ (k + 1)`. -/
def leadingExponent (n d : Nat) : Int :=
  let k : Int := (Nat.log2 n : Int) - Nat.log2 d
  if n * 2 ^ (-k).toNat < d * 2 ^ k.toNat then k - 1 else k

/-- The pattern nearest to `± n / d`, ties going to the even pattern; beyond the greatest number
it is infinite. -/
def nearest (f : Format) (negative : Bool) (n d : Nat) : Nat :=
  if n = 0 then f.pattern negative 0 0
  else
    let leading := max (leadingExponent n d) (1 - f.bias)
    let unit := leading - f.fractionBits
    let scaled := roundQuotient .even (n * 2 ^ (-unit).toNat) (d * 2 ^ unit.toNat)
    let magnitude := (leading + f.bias - 1).toNat * 2 ^ f.fractionBits + scaled
    f.pattern negative 0 (min magnitude (f.pattern false (2 ^ f.exponentBits - 1) 0))

/-- The pattern nearest to `± significand · 10 ^ exponent`.  Far outside the range of the widest
format the power of ten need not be formed. -/
def ofDecimal (f : Format) (negative : Bool) (significand : Nat) (exponent : Int) : Nat :=
  let size := (Nat.log2 significand : Int) / 4 + exponent
  if significand = 0 ∨ size + Nat.log2 significand < -400 then f.pattern negative 0 0
  else if 400 < size then f.pattern negative (2 ^ f.exponentBits - 1) 0
  else f.nearest negative (significand * 10 ^ exponent.toNat) (10 ^ (-exponent).toNat)

end Format

/-- `mantissa · 2 ^ exponent` as a natural number, if it is one. -/
def scaleExact? (mantissa : Nat) (exponent : Int) : Option Nat :=
  let unit := 2 ^ (-exponent).toNat
  if mantissa % unit = 0 then some (mantissa / unit * 2 ^ exponent.toNat) else none

/-- The pattern nearest to a finite number. -/
def Binary.nearest (f : Format) (b : Binary) : Nat :=
  f.nearest b.negative (b.mantissa * 2 ^ b.exponent.toNat) (2 ^ (-b.exponent).toNat)

/-- The pattern of a finite number in a format that holds it exactly. -/
def Binary.pattern? (f : Format) (b : Binary) : Option Nat := do
  if b.mantissa = 0 then some (f.pattern b.negative 0 0)
  else
    let leading := b.exponent + Nat.log2 b.mantissa
    if leading > f.bias then none
    else
      let least : Int := 1 - f.bias
      let normal := least ≤ leading
      let unit := (if normal then leading else least) - f.fractionBits
      let scaled ← scaleExact? b.mantissa (b.exponent - unit)
      some (if normal then
          f.pattern b.negative (leading + f.bias).toNat (scaled - 2 ^ f.fractionBits)
        else f.pattern b.negative 0 scaled)

/-- The pattern of a number in a format that holds it exactly. -/
def Reading.pattern? (f : Format) : Reading → Option Nat
  | .undefined => none
  | .infinite negative => some (f.pattern negative (2 ^ f.exponentBits - 1) 0)
  | .finite b => b.pattern? f

end VectorQuery.Number
