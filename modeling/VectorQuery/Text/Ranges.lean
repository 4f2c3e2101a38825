/-
# Sets of characters as ascending ranges

A character property of the Unicode standard is kept as its ranges of code points, in ascending
order and apart from each other.  `Ranges.contains` looks a code point up by halving the table.
-/
namespace VectorQuery.Text

/-- Ascending, disjoint ranges of code points, ends included. -/
structure Ranges where
  bounds : Array (Nat × Nat)

/-- The range that could hold `n` lies at an index in `[low, low + width)`. -/
def Ranges.search (r : Ranges) (n : Nat) : Nat → Nat → Nat → Bool
  | 0, _, _ => false
  | fuel + 1, low, width =>
    if width = 0 then false
    else
      let half := width / 2
      match r.bounds[low + half]? with
      | none => false
      | some (first, last) =>
        if n < first then r.search n fuel low half
        else if last < n then r.search n fuel (low + half + 1) (width - half - 1)
        else true

/-- `n` lies in one of the ranges. -/
def Ranges.contains (r : Ranges) (n : Nat) : Bool :=
  r.search n (r.bounds.size + 1) 0 r.bounds.size

end VectorQuery.Text
