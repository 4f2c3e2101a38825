/-
# Numbers of JSON documents

A decimal in a JSON document is read by one scaling step: as many leading digits as fit 64 bits
become a number, which is multiplied or divided by a power of ten.  For numbers of up to fifteen
digits this is the nearest double precision number; for longer ones it may be a neighbour of it.
-/
import VectorQuery.Number.Double

namespace VectorQuery.Number

/-- The power of ten `10 ^ n`, for `n` up to 308. -/
def powerOfTen (n : Nat) : Double := Double.ofDecimal 1 n

/-- Leading digits as a number below `2 ^ 64`, and how many digits are left over. -/
def leading (digits : List Nat) : Nat → Nat × Nat
  | acc =>
    match digits with
    | [] => (acc, 0)
    | d :: ds => if 10 * acc + d < 2 ^ 64 then leading ds (10 * acc + d) else (acc, ds.length + 1)

/-- Divides by powers of ten until the exponent is reached. -/
def scaleDown : Nat → Double → Nat → Double
  | 0, x, _ => x
  | fuel + 1, x, n =>
    if n ≤ 308 then x / powerOfTen n
    else if x == 0.0 then x
    else scaleDown fuel (x / powerOfTen 308) (n - 308)

/-- `significand · 10 ^ exponent` by scaling; nothing when that is out of range. -/
def scaled (significand : Nat) (exponent : Int) : Option Double :=
  let x := Double.ofNat significand
  if exponent < 0 then some (scaleDown 4 x (-exponent).toNat)
  else if exponent ≤ 308 then
    let y := x * powerOfTen exponent.toNat
    if y.isInfinite then none else some y
  else if significand = 0 then some x
  else none

end VectorQuery.Number
