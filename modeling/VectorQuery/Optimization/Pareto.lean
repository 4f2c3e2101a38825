/-
# The Pareto frontier of the candidates

Candidates are compared in every field of the objective, each in the direction in which its weight
drives it, and in every field of the budgets, where less is better.  A candidate is on the
frontier when no other is at least as good in every field and better in one.
-/
import VectorQuery.Optimization.Candidate

namespace VectorQuery

/-- A field in which candidates are compared. -/
structure Dimension where
  field : String
  /-- More is better. -/
  rising : Bool
  deriving DecidableEq, Repr

namespace Dimension

/-- A dimension as it is written. -/
def text (d : Dimension) : String := (if d.rising then "+" else "-") ++ d.field

/-- Adds a dimension, unless its field has one. -/
def add (ds : List Dimension) (d : Dimension) : List Dimension :=
  if ds.any (·.field = d.field) then ds else ds ++ [d]

variable {α : Type} [Quantity α]

/-- The fields in which the candidates of a request are compared. -/
def ofRequest (r : OptimizationRequest α) : List Dimension :=
  let terms := r.objective.terms.map fun t =>
    Dimension.mk t.field (Quantity.zero ≤ r.direction.orient t.weight)
  let budgets := r.budgets.map fun b => Dimension.mk b.field false
  (terms ++ budgets).foldl add []

/-- The value of an entity in a dimension, oriented so that more is better. -/
def value? (d : Dimension) (e : Entity α) : Option α :=
  (e.number? d.field).map fun x => if d.rising then x else -x

end Dimension

namespace Pareto

variable {α : Type} [Quantity α]

/-- The values `a` are at least as good as `b` everywhere, and better somewhere. -/
def dominates (a b : List α) : Bool :=
  (a.zip b).all (fun (x, y) => y ≤ x) && (a.zip b).any fun (x, y) => y < x

/-- The candidates with their values in all dimensions, ranked. -/
def points (ds : List Dimension) (cs : List (Candidate α)) : List (Candidate α × List α) :=
  (Candidate.ranked cs).filterMap fun c =>
    (ds.mapM (Dimension.value? · c.entity)).map fun v => (c, v)

/-- The candidates on the frontier and those dominated by another, both ranked. -/
def split (ds : List Dimension) (cs : List (Candidate α)) :
    List (Candidate α) × List (Candidate α) :=
  let ps := points ds cs
  let (dominated, frontier) := ps.partition fun (_, v) => ps.any fun (_, w) => dominates w v
  (frontier.map (·.1), dominated.map (·.1))

end Pareto

end VectorQuery
