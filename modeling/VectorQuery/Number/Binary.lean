/-
# Finite binary numbers, read exactly

A binary floating point number is `± mantissa · 2 ^ exponent` with natural `mantissa`.  Everything
the library writes about numbers starts from this reading, so no text depends on a rounded
intermediate. `Binary.tight` marks the least mantissa of a binade: the reals that round to such a
number reach only half as far below it as above it.
-/
import VectorQuery.Number.Count

namespace VectorQuery.Number

/-- The exact value `± mantissa · 2 ^ exponent`. -/
structure Binary where
  negative : Bool
  mantissa : Nat
  exponent : Int
  /-- The neighbour below is half as far away as the neighbour above. -/
  tight : Bool
  deriving Repr, DecidableEq

/-- What a bit pattern stands for. -/
inductive Reading where
  | undefined
  | infinite (negative : Bool)
  | finite (value : Binary)
  deriving Repr, DecidableEq

/-- The reading of a pattern whose parts are a sign, `exponentBits` of exponent and `fractionBits`
of fraction. -/
def Reading.ofFields (fractionBits exponentBits : Nat) (negative : Bool) (exponent fraction : Nat) :
    Reading :=
  let top := 2 ^ exponentBits - 1
  let least : Int := 2 - 2 ^ (exponentBits - 1) - fractionBits
  if exponent = top then
    if fraction = 0 then .infinite negative else .undefined
  else if exponent = 0 then
    .finite ⟨negative, fraction, least, false⟩
  else
    .finite ⟨negative, 2 ^ fractionBits + fraction, least + (exponent - 1 : Nat),
      fraction = 0 && exponent > 1⟩

/-- The natural number that a reading is, if it is one. -/
def Reading.natural? : Reading → Option Nat
  | .finite b =>
    let scaled := b.mantissa * 2 ^ b.exponent.toNat
    let unit := 2 ^ (-b.exponent).toNat
    if (b.negative && b.mantissa ≠ 0) || scaled % unit ≠ 0 then none else some (scaled / unit)
  | _ => none

end VectorQuery.Number
