/-
# Quantities

The arithmetic that scores, metadata and budgets are computed with.  Algorithms of the library are
written over `Quantity`, so that one definition runs on floating point numbers and is reasoned
about on exact ones.  A quantity may be undefined (a number that is not equal to itself); `lesser`
and `greater` pass such an operand over, and `rank` orders all quantities, the undefined ones of
negative sign before every number and the others after.
-/
import VectorQuery.Number.Double

namespace VectorQuery

/-- A number type to compute with. -/
class Quantity (α : Type) extends Add α, Sub α, Mul α, Div α, Neg α, LT α, LE α where
  decideLT : (a b : α) → Decidable (a < b)
  decideLE : (a b : α) → Decidable (a ≤ b)
  ofNat : Nat → α
  /-- The width below which two sums count as equal. -/
  tolerance : α
  /-- Greater than every finite quantity, or less than every one. -/
  isInfinite : α → Bool
  /-- A total order that agrees with `<` on defined quantities. -/
  rank : α → α → Ordering
  text : α → String
  /-- With three decimal places and a sign. -/
  signedText : α → String

namespace Quantity

variable {α : Type} [Quantity α]

instance (a b : α) : Decidable (a < b) := decideLT a b

instance (a b : α) : Decidable (a ≤ b) := decideLE a b

/-- The quantity zero. -/
def zero : α := ofNat 0

/-- The quantity one. -/
def one : α := ofNat 1

/-- Greater than every finite quantity, where there is such a one. -/
def infinity : α := one / zero

/-- The quantity equals itself. -/
def isDefined (a : α) : Bool := a ≤ a

/-- The quantity is an ordinary number. -/
def isFinite (a : α) : Bool := isDefined a && !isInfinite a

/-- The smaller of two quantities; an undefined operand is passed over. -/
def lesser (a b : α) : α := if !isDefined a || b < a then b else a

/-- The greater of two quantities; an undefined operand is passed over. -/
def greater (a b : α) : α := if !isDefined a || a < b then b else a

/-- The quantity where it is above zero, and zero elsewhere. -/
def positivePart (a : α) : α := if zero < a then a else zero

/-- The quantity without its sign. -/
def magnitude (a : α) : α := if a < zero then -a else if a ≤ zero then zero else a

/-- The nearest quantity between `low` and `high`. -/
def clamp (low high a : α) : α := if a < low then low else if high < a then high else a

/-- Order of two quantities, if both are defined. -/
def compare? (a b : α) : Option Ordering :=
  if a < b then some .lt else if b < a then some .gt else if a ≤ b then some .eq else none

/-- The sum, from left to right.  It starts from minus zero, so a sum of nothing is minus zero. -/
def sum (as : List α) : α := as.foldl (· + ·) (-zero)

end Quantity

instance : Quantity Double where
  decideLT := inferInstance
  decideLE := inferInstance
  ofNat := Double.ofNat
  tolerance := 1e-9
  isInfinite := Double.isInfinite
  rank a b := compare a.place b.place
  text := Double.text
  signedText := Double.signed 3

instance : Quantity Single where
  decideLT := inferInstance
  decideLE := inferInstance
  ofNat := Single.ofNat
  tolerance := 1e-9
  isInfinite := Single.isInfinite
  rank a b := compare a.place b.place
  text := Single.text
  signedText := Single.signed 3

end VectorQuery
