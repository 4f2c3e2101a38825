/-
# Candidates of an optimization

A candidate carries a number in every field of the objective and of the budgets.  Its raw value is
the weighted sum of the objective's fields; its score is oriented so that more is always better.
-/
import VectorQuery.Entity.Condition
import VectorQuery.Optimization.Budget
import VectorQuery.Query.Basic
import VectorQuery.Ranking

namespace VectorQuery

/-- What an optimization asks for. -/
structure OptimizationRequest (α : Type) where
  direction : Direction
  objective : Objective α
  filters : List (Comparison α)
  budgets : List (Budget α)

/-- An entity that an optimization may select. -/
structure Candidate (α : Type) where
  ordinal : Nat
  entity : Entity α
  /-- The value of the objective. -/
  raw : α
  /-- The value, oriented so that more is better. -/
  score : α
  /-- What the entity uses of each budget. -/
  weights : List α

variable {α : Type} [Quantity α]

/-- The factor that orients a value so that more is better. -/
def Direction.sign : Direction → α
  | .maximize => Quantity.one
  | .minimize => -Quantity.one

/-- A value oriented so that more is better. -/
def Direction.orient (d : Direction) (x : α) : α := d.sign * x

/-- The weighted sum of an entity's fields, if all of them are numbers. -/
def Objective.value? (o : Objective α) (e : Entity α) : Option α :=
  o.terms.foldlM (fun sum t => (e.number? t.field).map fun x => sum + t.weight * x) Quantity.zero

/-- The candidate that an entity is, if it carries all numbers that the request reads. -/
def OptimizationRequest.candidate? (r : OptimizationRequest α) (ordinal : Nat) (e : Entity α) :
    Option (Candidate α) := do
  let raw ← r.objective.value? e
  let weights ← r.budgets.mapM fun b => e.number? b.field
  some ⟨ordinal, e, raw, r.direction.orient raw, weights⟩

/-- The entity satisfies every filter of the request. -/
def OptimizationRequest.passes (r : OptimizationRequest α) (e : Entity α) : Bool :=
  r.filters.all fun c => c.holds e

namespace Candidate

/-- Candidates ranked by score. -/
def ranked (cs : List (Candidate α)) : List (Candidate α) := rankedBy score ordinal cs

/-- The candidate of the greatest score. -/
def best? (cs : List (Candidate α)) : Option (Candidate α) := (ranked cs).head?

/-- Candidates that add to the objective. -/
def gainful (cs : List (Candidate α)) : List (Candidate α) := cs.filter (Quantity.zero < ·.score)

/-- The candidate fits the budgets on top of what is used. -/
def fits (budgets : List (Budget α)) (used : List α) (c : Candidate α) : Bool :=
  Budget.fits budgets used c.weights

/-- The candidate fits the budgets alone. -/
def fitsAlone (budgets : List (Budget α)) (c : Candidate α) : Bool :=
  c.fits budgets (Budget.unused budgets)

/-- What the candidate uses, in units of the limits. -/
def load (budgets : List (Budget α)) (c : Candidate α) : α := Budget.load budgets c.weights

/-- What a selection uses of each budget. -/
def used (budgets : List (Budget α)) (cs : List (Candidate α)) : List α :=
  (List.range budgets.length).map fun j => Quantity.sum (cs.filterMap (·.weights[j]?))

end Candidate

end VectorQuery
