/-
# Optimization

A request is answered by a selection of candidates: all that add to the objective when there are
no budgets, the best selection within the budgets when there are few candidates, a good one when
there are many.  Constraints that leave no choice are relaxed, with a warning for each.
-/
import VectorQuery.Optimization.Alternative
import VectorQuery.Optimization.Exact
import VectorQuery.Optimization.Greedy
import VectorQuery.Optimization.Pareto
import VectorQuery.Query.Printer

namespace VectorQuery

/-- How a selection was found. -/
inductive Solver where
  /-- There was nothing to select from. -/
  | none
  /-- There were no budgets. -/
  | ranking
  | exact
  | greedy
  deriving DecidableEq, Repr

/-- The name of a solver. -/
def Solver.name : Solver → String
  | .none => "none"
  | .ranking => "ranking"
  | .exact => "exact"
  | .greedy => "greedy"

/-- Why a request cannot be met as it is. -/
inductive OptimizationWarning (α : Type) where
  /-- No entity carries all the numbers that the request reads. -/
  | noCandidate (objective : Objective α)
  /-- A filter was dropped, as no candidate satisfies all of them. -/
  | filter (condition : Comparison α)
  /-- A budget that no candidate fits was raised to a limit. -/
  | tight (budget : Budget α) (limit : α)
  /-- A budget was raised to a limit, as no candidate fits all of them. -/
  | conflict (budget : Budget α) (limit : α)

variable {α : Type} [Quantity α]

/-- A warning in words. -/
def OptimizationWarning.text : OptimizationWarning α → String
  | .noCandidate o =>
    "no candidate carries numeric values for every field of `" ++ o.canonical ++ "`"
  | .filter c => "constraint `" ++ c.canonical ++ "` relaxed: no candidate satisfies it"
  | .tight b limit =>
    "constraint `" ++ b.text ++ "` relaxed to " ++ Quantity.text limit
      ++ ": no single candidate fits"
  | .conflict b limit =>
    "constraint `" ++ b.text ++ "` relaxed to " ++ Quantity.text limit
      ++ ": no candidate fits every budget"

/-- The answer to an optimization request. -/
structure Optimization (α : Type) where
  /-- The candidates selected, ranked. -/
  selected : List (Candidate α)
  /-- The candidates considered, by ordinal. -/
  considered : List (Candidate α)
  /-- The total raw value of the selection. -/
  value : α
  warnings : List (OptimizationWarning α)
  solver : Solver
  alternatives : List (Alternative α)
  dimensions : List Dimension
  frontier : List (Candidate α)
  dominated : List (Candidate α)
  /-- The budgets that the selection keeps, with what it uses of each. -/
  usage : List (Budget α × α)

/-- The request was met as it is. -/
def Optimization.feasible (o : Optimization α) : Bool := o.warnings.isEmpty

namespace Optimization

/-! ### Relaxing -/

/-- The least of some numbers, infinite when none of them is defined. -/
def least (xs : List α) : α :=
  match xs.filter Quantity.isDefined with
  | [] => Quantity.infinity
  | y :: ys => ys.foldl Quantity.lesser y

/-- The candidate of the least load. -/
def lightest? (budgets : List (Budget α)) : List (Candidate α) → Option (Candidate α)
  | [] => Option.none
  | c :: cs => some (cs.foldl (fun a b =>
      match Quantity.rank (a.load budgets) (b.load budgets) with
      | .lt => a
      | .eq => if a.ordinal ≤ b.ordinal then a else b
      | .gt => b) c)

/-- A budget raised to a limit that it then includes. -/
def raise (b : Budget α) (limit : α) : Budget α := ⟨b.field, limit, false⟩

/-- A budget raised so that it allows a weight, with a warning, unless it does. -/
def allow (warn : Budget α → α → OptimizationWarning α) (b : Budget α) (weight : α) :
    Budget α × List (OptimizationWarning α) :=
  if b.admits weight then (b, []) else (raise b weight, [warn b weight])

/-- Raises every budget so that it allows the least weight in its field. -/
def relaxEach (cs : List (Candidate α)) (budgets : List (Budget α)) :
    List (Budget α × List (OptimizationWarning α)) :=
  budgets.zipIdx.map fun (b, j) => allow .tight b (least (cs.filterMap (·.weights[j]?)))

/-- Raises the budgets so that the lightest candidate fits, unless some candidate does. -/
def relaxAll (cs : List (Candidate α)) (budgets : List (Budget α)) :
    List (Budget α × List (OptimizationWarning α)) :=
  if cs.any (·.fitsAlone budgets) then budgets.map (·, [])
  else
    match lightest? budgets cs with
    | some c => List.zipWith (allow .conflict) budgets c.weights
    | Option.none => budgets.map (·, [])

/-! ### Selecting -/

/-- Without budgets all gainful candidates are selected, or else the best one. -/
def unbudgeted (cs : List (Candidate α)) : List (Candidate α) :=
  match Candidate.gainful cs with
  | [] => (Candidate.best? cs).toList
  | gainful => gainful

/-- Selects candidates; up to `exactThreshold` of them are searched for the best selection. -/
def select (exactThreshold : Nat) (budgets : List (Budget α)) (cs : List (Candidate α)) :
    List (Candidate α) × Solver :=
  if budgets.isEmpty then (unbudgeted cs, .ranking)
  else if cs.length ≤ exactThreshold then (Exact.solve budgets cs, .exact)
  else (Greedy.solve budgets cs, .greedy)

/-- The answer when there is nothing to select from. -/
def nothing (r : OptimizationRequest α) : Optimization α :=
  { selected := [], considered := [], value := Quantity.zero
    warnings := [.noCandidate r.objective], solver := .none, alternatives := [], dimensions := []
    frontier := [], dominated := [], usage := r.budgets.map (·, Quantity.sum []) }

/-- The answer to a request over some candidates. -/
def ofCandidates (exactThreshold maxAlternatives : Nat) (r : OptimizationRequest α)
    (all : List (Candidate α)) : Optimization α :=
  let passing := all.filter fun c => r.passes c.entity
  let (cs, dropped) := if passing.isEmpty then (all, r.filters.map .filter) else (passing, [])
  let single := relaxEach cs r.budgets
  let joint := relaxAll cs (single.map (·.1))
  let budgets := joint.map (·.1)
  let warnings := dropped ++ single.flatMap (·.2) ++ joint.flatMap (·.2)
  let (picked, solver) := select exactThreshold budgets cs
  let selected := Candidate.ranked picked
  let dimensions := Dimension.ofRequest r
  let (frontier, dominated) := Pareto.split dimensions cs
  { selected := selected, considered := cs, value := Quantity.sum (selected.map (·.raw))
    warnings := warnings, solver := solver
    alternatives :=
      if warnings.isEmpty then Alternative.list maxAlternatives budgets picked cs else []
    dimensions := dimensions, frontier := frontier, dominated := dominated
    usage := budgets.zip (Candidate.used budgets picked) }

/-- The answer to a request over a pool of entities with their ordinals. -/
def solve (exactThreshold maxAlternatives : Nat) (r : OptimizationRequest α)
    (pool : List (Nat × Entity α)) : Optimization α :=
  let all := pool.filterMap fun (ordinal, e) => r.candidate? ordinal e
  if all.isEmpty then nothing r else ofCandidates exactThreshold maxAlternatives r all

end Optimization

end VectorQuery
