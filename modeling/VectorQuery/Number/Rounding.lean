/-
# Rounding quotients

A quotient of natural numbers is rounded to the nearest natural number; a `Tie` says where an exact
half goes.
-/
import VectorQuery.Number.Count

namespace VectorQuery.Number

/-- Where a value half way between two neighbours goes. -/
inductive Tie where
  | away
  | even
  deriving Repr, DecidableEq

/-- `numerator / denominator` rounded to a natural number, an exact half going as `tie` says. -/
def roundQuotient (tie : Tie) (numerator denominator : Nat) : Nat :=
  let whole := numerator / denominator
  let twice := 2 * (numerator % denominator)
  if twice < denominator then whole
  else if denominator < twice then whole + 1
  else match tie with
    | .away => whole + 1
    | .even => whole + whole % 2

end VectorQuery.Number
