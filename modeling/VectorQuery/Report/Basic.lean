/-
# Reports

What a query answers.  A report holds copies of all it tells, so it outlives the snapshot it was
made from: entities that match, a selection that is recommended, or an analysis of what is
missing.
-/
import VectorQuery.Entity.Basic
import VectorQuery.Execution.Trace
import VectorQuery.Number.Double

namespace VectorQuery

/-- An entity without its embeddings. -/
structure EntitySummary where
  entityType : String
  id : String
  displayName : String
  metadata : OrderedMap String (Scalar Double)

/-- An entity without its embeddings. -/
def Entity.summary (e : Entity Double) : EntitySummary :=
  ⟨e.entityType, e.id, e.displayName, e.metadata⟩

/-- A summary as messages write it. -/
def EntitySummary.text (e : EntitySummary) : String := (EntityKey.mk e.entityType e.id).text

/-- An entity that matches a query. -/
structure EntityMatch where
  entity : EntitySummary
  score : Single
  /-- One less the score. -/
  distance : Single
  /-- The score, but no less than zero and no more than one. -/
  confidence : Single
  explanation : String

/-- The entities that match a query. -/
structure MatchReport where
  query : String
  found : List EntityMatch
  meanConfidence : Single
  trace : Trace
  /-- How long the query took, in milliseconds. -/
  time : Double

/-- An entity of a recommended selection. -/
structure Recommendation where
  rank : Nat
  entity : EntitySummary
  objective : Double
  rationale : String
  metrics : OrderedMap String Double

/-- An entity outside a recommended selection. -/
structure AlternativeSummary where
  entity : EntitySummary
  objective : Double
  tradeOff : String

/-- What a selection uses of a budget. -/
structure BudgetUsage where
  field : String
  limit : Double
  strict : Bool
  used : Double

/-- How the candidates of an optimization compare. -/
structure TradeOffSummary where
  summary : String
  dimensions : List String
  frontier : List EntitySummary
  dominated : List EntitySummary
  budgets : List BudgetUsage

/-- A recommended selection. -/
structure RecommendationReport where
  query : String
  recommendations : List Recommendation
  tradeOffs : TradeOffSummary
  alternatives : List AlternativeSummary
  objective : Double
  feasible : Bool
  solver : String
  trace : Trace
  time : Double

/-- How badly an entity is missing. -/
inductive Severity where
  | low
  | medium
  | high
  | critical
  deriving DecidableEq, Repr

namespace Severity

/-- All severities, the lowest first. -/
def all : List Severity := [low, medium, high, critical]

/-- The name of a severity. -/
def name : Severity → String
  | .low => "low"
  | .medium => "medium"
  | .high => "high"
  | .critical => "critical"

/-- The place of a severity, from zero. -/
def level : Severity → Nat
  | .low => 0
  | .medium => 1
  | .high => 2
  | .critical => 3

/-- The severity of a gap by the part of the threshold that the best score reaches. -/
def ofSupport {σ : Type} [Quantity σ] (best threshold : σ) : Severity :=
  let ratio := if Quantity.zero < threshold then best / threshold else Quantity.one
  let quarters (n : Nat) : σ := Quantity.ofNat n / Quantity.ofNat 4
  if ratio < quarters 1 then .critical
  else if ratio < quarters 2 then .high
  else if ratio < quarters 3 then .medium
  else .low

end Severity

/-- An entity that a query should have covered. -/
structure Gap where
  kind : String
  entity : EntitySummary
  description : String
  severity : Severity
  best : Single

/-- What closing a gap would bring. -/
structure Opportunity where
  entity : EntitySummary
  description : String
  value : Double
  effort : Double
  /-- The value for the effort. -/
  roi : Double

/-- What a query covers and what it leaves out. -/
structure AnalysisReport where
  query : String
  metrics : OrderedMap String Double
  gaps : List Gap
  opportunities : List Opportunity
  insights : List String
  trace : Trace
  time : Double

/-- The answer to a query. -/
inductive Report where
  | found (r : MatchReport)
  | recommendation (r : RecommendationReport)
  | analysis (r : AnalysisReport)

namespace Report

/-- The trace of the query. -/
def trace : Report → Trace
  | .found r => r.trace
  | .recommendation r => r.trace
  | .analysis r => r.trace

/-- How long the query took, in milliseconds. -/
def time : Report → Double
  | .found r => r.time
  | .recommendation r => r.time
  | .analysis r => r.time

/-- A report in one line. -/
def summary : Report → String
  | .found r =>
    toString r.found.length ++ " match(es), mean confidence " ++ Single.fixed 3 r.meanConfidence
  | .recommendation r =>
    toString r.recommendations.length ++ " recommendation(s), objective "
      ++ Double.fixed 3 r.objective ++ if r.feasible then "" else " (relaxed)"
  | .analysis r =>
    toString r.gaps.length ++ " gap(s), " ++ toString r.opportunities.length ++ " opportunit(ies)"

end Report

end VectorQuery
