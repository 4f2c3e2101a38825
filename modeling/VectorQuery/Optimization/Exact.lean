/-
# The best selection within budgets

Branch and bound: candidates that add to the objective are taken up or left out in the order of
their scores, and a branch ends where even all remaining candidates could not reach the best
selection found. Of selections of one value the one that loads the budgets least wins.
-/
import VectorQuery.Optimization.Candidate

namespace VectorQuery

/-- Selected candidates with their total score and load. -/
structure Selection (α : Type) where
  picked : List (Candidate α)
  value : α
  load : α

namespace Selection

variable {α : Type} [Quantity α]

/-- Nothing selected. -/
def empty : Selection α := ⟨[], Quantity.zero, Quantity.sum []⟩

/-- One more candidate selected. -/
def add (budgets : List (Budget α)) (s : Selection α) (c : Candidate α) : Selection α :=
  ⟨s.picked ++ [c], s.value + c.score, s.load + c.load budgets⟩

/-- The selection is of more value than another, or of the same value and less load. -/
def improves (s best : Selection α) : Bool :=
  best.value + Quantity.tolerance < s.value
    || (Quantity.magnitude (s.value - best.value) ≤ Quantity.tolerance
      && s.load < best.load - Quantity.tolerance)

/-- The better of the best selection so far and another one. -/
def orBest (s best : Selection α) : Selection α := if s.improves best then s else best

end Selection

namespace Exact

variable {α : Type} [Quantity α]

/-- Candidates, each with the total score of itself and those after it. -/
def withPotential : List (Candidate α) → List (Candidate α × α)
  | [] => []
  | c :: cs =>
    let rest := withPotential cs
    let after := match rest with
      | [] => Quantity.zero
      | (_, p) :: _ => p
    (c, after + c.score) :: rest

/-- Explores all ways to extend a selection, from what is used of the budgets and the best
selection so far.  What is used is handed on, because taking a candidate up and leaving it out
again rounds. -/
def explore (budgets : List (Budget α)) :
    List (Candidate α × α) → Selection α → List α → Selection α → List α × Selection α
  | [], current, used, best => (used, current.orBest best)
  | (c, potential) :: rest, current, used, best =>
    let best := current.orBest best
    if current.value + potential < best.value - Quantity.tolerance then (used, best)
    else if c.fits budgets used then
      let taken := List.zipWith (· + ·) used c.weights
      let (taken, best) := explore budgets rest (current.add budgets c) taken best
      explore budgets rest current (List.zipWith (· - ·) taken c.weights) best
    else explore budgets rest current used best

/-- The best selection.  Without a candidate that adds to the objective it is the best one that
fits. -/
def solve (budgets : List (Budget α)) (cs : List (Candidate α)) : List (Candidate α) :=
  match Candidate.ranked (Candidate.gainful cs) with
  | [] => (Candidate.best? (cs.filter (·.fitsAlone budgets))).toList
  | order =>
    (explore budgets (withPotential order) .empty (Budget.unused budgets) .empty).2.picked

end Exact

end VectorQuery
