/-
# A good selection within budgets

Candidates are taken up in the order of their score per load as long as they fit, and the result is
compared with the best single candidate that fits.
-/
import VectorQuery.Optimization.Candidate

namespace VectorQuery.Greedy

variable {α : Type} [Quantity α]

/-- Score per load; a candidate without load is beyond every ratio. -/
def ratio? (budgets : List (Budget α)) (c : Candidate α) : Option α :=
  let load := c.load budgets
  if Quantity.tolerance < load then
    let ratio := c.score / load
    if Quantity.isInfinite ratio then none else some ratio
  else none

/-- The candidate `a` is tried no later than `b`. -/
def before (budgets : List (Budget α)) (a b : Candidate α) : Bool :=
  match ratio? budgets a, ratio? budgets b with
  | none, none => a.ordinal ≤ b.ordinal
  | none, some _ => true
  | some _, none => false
  | some x, some y => ranksBefore x a.ordinal y b.ordinal

/-- The gainful candidates in the order in which they are tried. -/
def order (budgets : List (Budget α)) (cs : List (Candidate α)) : List (Candidate α) :=
  (Candidate.gainful cs).mergeSort (before budgets)

/-- Takes up every candidate that fits on top of those before. -/
def take (budgets : List (Budget α)) : List α → List (Candidate α) → List (Candidate α)
  | _, [] => []
  | used, c :: cs =>
    if c.fits budgets used then c :: take budgets (List.zipWith (· + ·) used c.weights) cs
    else take budgets used cs

/-- The candidates taken up, or a single one that is worth more than all of them. -/
def solve (budgets : List (Budget α)) (cs : List (Candidate α)) : List (Candidate α) :=
  let picked := take budgets (Budget.unused budgets) (order budgets cs)
  let total := picked.foldl (fun sum c => sum + c.score) Quantity.zero
  match Candidate.best? (cs.filter (·.fitsAlone budgets)) with
  | some single =>
    if total + Quantity.tolerance < single.score || picked.isEmpty then [single] else picked
  | none => picked

end VectorQuery.Greedy
